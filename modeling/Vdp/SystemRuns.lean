import Mathlib.Data.Set.Card
import Vdp.SystemCustody

/-! Whole runs of the system, from both rings empty. -/
namespace Vdp.System
open Lib
open Lib.Run (run)
open Lib.Custody (Keeps Leads Hands runHands amongIn startOwner)
open Mbuf (RteMempool)

variable {P R Ptr : Type} (pool : RteMempool P Ptr) (api : Ring.RteRing R Ptr) (capacity : Nat)
  (contents : Ptr → Memenpsf.Packet)

structure Created (channel : Ring.Channel R) : Prop where
  toEngine : api.content channel.toEngine = []
  toPacketiser : api.content channel.toPacketiser = []

def arrivedBy : Event Ptr → List Ptr
  | .arrived m => [m]
  | _ => []

def arrived (es : List (Event Ptr)) : List Ptr := es.flatMap arrivedBy

def Holdings.received (h : Holdings Ptr) : List Ptr := h.engineLost ++ h.engine ++ h.port

theorem quietBoot {mempool : P} {channel : Ring.Channel R} (created : Created api channel) :
    Quiet api (boot mempool channel : State P R Ptr) where
  toPacketiser := created.toPacketiser
  outPkts := rfl
  sent := rfl
  inBuf := rfl
  mux := .polling
  clients := idleBoot

variable [DecidableEq Ptr]

theorem effectReceived {h k : Holdings Ptr} {e : Event Ptr} (effect : Effect h e k) :
    k.received = h.received ++ arrivedBy e := by
  cases effect with
  | arrived free => simp [Holdings.received, arrivedBy]
  | received waiting => simp [Holdings.received, arrivedBy, waiting]
  | forgotten => simp [Holdings.received, arrivedBy]
  | _ => simp [Holdings.received, arrivedBy]

theorem effectUnfed {h k : Holdings Ptr} {e : Event Ptr} (effect : Effect h e k) :
    (∀ sz, e = .burst sz → sz = 0) ∧ ∀ m, e ≠ .popped m := by
  cases effect with
  | nothing =>
    refine ⟨?_, by rintro m ⟨⟩⟩
    rintro sz ⟨⟩
    rfl
  | _ => exact ⟨by rintro sz ⟨⟩, by rintro m ⟨⟩⟩

theorem bootKeeps {mempool : P} {channel : Ring.Channel R} (created : Created api channel) :
    Keeps ((boot mempool channel : State P R Ptr).holdings pool api).held
      (startOwner .pool (pool.available mempool)) := by
  refine Custody.startKeeps ((boot mempool channel : State P R Ptr).holdings pool api).held rfl ?_
  intro i other m
  cases i with
  | pool => exact absurd rfl other
  | toEngine => simp only [Holdings.held, State.holdings, boot, created.toEngine, List.count_nil]
  | _ => rfl

theorem runCustody {s u : State P R Ptr} {acts es} (quiet : Quiet api s)
    (ok : run (step pool api capacity contents) s acts = some (es, u)) :
    Quiet api u ∧ Hands LifeCycle (s.holdings pool api).held (u.holdings pool api).held := by
  apply runHands (fun s => (State.holdings pool api s).held) (Quiet api) (fun _ => True) _ (fun _ _ => trivial) quiet ok
  intro s a e t _ quiet now
  obtain ⟨kept, effect⟩ := stepEffect quiet now
  exact ⟨kept, effectHands effect⟩

theorem bootCustody {mempool : P} {channel : Ring.Channel R} (created : Created api channel) {acts es}
    {u : State P R Ptr} (ok : run (step pool api capacity contents) (boot mempool channel) acts = some (es, u)) :
    Quiet api u ∧ ∃ owner : Ptr → Option Place, (∀ m, owner m = none ↔ m ∉ pool.available mempool) ∧
      Keeps (u.holdings pool api).held owner := by
  obtain ⟨quiet, hands⟩ := runCustody pool api capacity contents (quietBoot api created) ok
  exact ⟨quiet, Custody.handsStart (bootKeeps pool api created) hands⟩

theorem everyBufferHasOnePlace (mempool : P) (channel : Ring.Channel R) (created : Created api channel)
    {acts more : List (Action Ptr)} {es fs : List (Event Ptr)} {u v : State P R Ptr}
    (ok : run (step pool api capacity contents) (boot mempool channel) acts = some (es, u))
    (later : run (step pool api capacity contents) u more = some (fs, v)) :
    ∃ owner next : Ptr → Option Place,
      (∀ m, owner m = none ↔ m ∉ pool.available mempool) ∧
        Keeps (u.holdings pool api).held owner ∧ Keeps (v.holdings pool api).held next ∧
        Leads LifeCycle owner next ∧ Quiet api v := by
  obtain ⟨quiet, owner, buffers, keeps⟩ := bootCustody pool api capacity contents created ok
  obtain ⟨quietLater, hands⟩ := runCustody pool api capacity contents quiet later
  obtain ⟨next, kept, leads⟩ := hands owner keeps
  exact ⟨owner, next, buffers, keeps, kept, leads, quietLater⟩

/- Between two calls of `recv_pkts` the vector is empty. -/
def Emptied (s : State P R Ptr) : Prop := s.engine = .handingOver ∨ s.inPkts = []

omit [DecidableEq Ptr] in
theorem engineEmptied {s t : State P R Ptr} {rx : Rx} {nic : Port.Nic} (emptied : Emptied s)
    (ok : engineStep pool api capacity rx nic s = some t) : Emptied t := by
  unfold engineStep at ok
  split at ok
  case h_1 stands =>
    have none : s.inPkts = [] := emptied.resolve_left (by rw [stands]; decide)
    simp only at ok
    split at ok <;> cases ok
    · exact .inr none
    · exact .inl rfl
  case h_2 =>
    obtain ⟨ring, _, same⟩ := handOverForgets api s
    rw [same] at ok
    cases ok
    exact .inr rfl
  case h_3 stands =>
    have none : s.inPkts = [] := emptied.resolve_left (by rw [stands]; decide)
    obtain ⟨ring, _, same⟩ := fetchTakesNothing api capacity s
    rw [same] at ok
    cases ok
    exact .inr none
  case h_4 stands =>
    have none : s.inPkts = [] := emptied.resolve_left (by rw [stands]; decide)
    obtain ⟨_, _, last⟩ := Option.bind_eq_some_iff.mp ok
    cases last
    exact .inr none

omit [DecidableEq Ptr] in
theorem muxFrame {s t : State P R Ptr} {accepted : Bool} {e : Event Ptr}
    (ok : muxStep pool api accepted s = some (e, t)) : t.engine = s.engine ∧ t.inPkts = s.inPkts := by
  unfold muxStep at ok
  split at ok
  case h_8 =>
    split at ok
    · obtain ⟨_, _, same⟩ := Option.map_eq_some_iff.mp ok
      cases same
      exact ⟨rfl, rfl⟩
    · cases ok
      exact ⟨rfl, rfl⟩
  case h_9 => cases ok
  all_goals
    repeat' split at ok
    all_goals
      cases ok
      exact ⟨rfl, rfl⟩

theorem stepEmptied {s t : State P R Ptr} {a : Action Ptr} {e : Event Ptr} (emptied : Emptied s)
    (ok : step pool api capacity contents s a = some (e, t)) : Emptied t := by
  have kept : t.engine = s.engine ∧ t.inPkts = s.inPkts → Emptied t := by
    rintro ⟨engine, inPkts⟩
    rwa [Emptied, engine, inPkts]
  cases a with
  | engine rx nic =>
    obtain ⟨u, now, same⟩ := Option.map_eq_some_iff.mp ok
    cases same
    exact engineEmptied pool api capacity emptied now
  | mux accepted => exact kept (muxFrame pool api ok)
  | client a =>
    obtain ⟨u, now, same⟩ := Option.map_eq_some_iff.mp ok
    cases same
    cases a with
    | dispatch pkt => cases now
    | _ =>
      obtain ⟨clients, _, same⟩ := Option.map_eq_some_iff.mp now
      cases same
      exact kept ⟨rfl, rfl⟩
  | sendToEngine errno pkt =>
    simp only [step, sendToEngine] at ok
    split at ok <;> try contradiction
    cases ok
    apply kept
    split <;> exact ⟨rfl, rfl⟩
  | receiveFromEngine errno pkt =>
    simp only [step, receiveFromEngine] at ok
    split at ok <;> try contradiction
    cases ok
    apply kept
    split <;> exact ⟨rfl, rfl⟩
  | _ =>
    simp only [step] at ok
    split at ok <;> cases ok <;> exact kept ⟨rfl, rfl⟩

structure Received (es : List (Event Ptr)) (s : State P R Ptr) : Prop where
  order : arrived es = s.engineLost ++ s.inPkts ++ s.waiting
  emptied : Emptied s
  bursts : ∀ sz, .burst sz ∈ es → sz = 0
  popped : ∀ m, .popped m ∉ es

theorem runReceived {mempool : P} {channel : Ring.Channel R} (created : Created api channel) {acts es}
    {u : State P R Ptr} (ok : run (step pool api capacity contents) (boot mempool channel) acts = some (es, u)) :
    Received es u := by
  have inv : Quiet api u ∧ Received es u := by
    apply Run.runInvariant (fun es (u : State P R Ptr) => Quiet api u ∧ Received es u) _ _ ok
    · rintro past s a e t ⟨quiet, so⟩ now
      obtain ⟨kept, effect⟩ := stepEffect quiet now
      obtain ⟨burst, popped⟩ := effectUnfed effect
      refine ⟨kept, ?_, stepEmptied pool api capacity contents so.emptied now, ?_, ?_⟩
      · rw [arrived, List.flatMap_append, ← arrived, so.order, List.flatMap_singleton]
        exact (effectReceived effect).symm
      · intro sz member
        rcases List.mem_append.mp member with before | now
        · exact so.bursts sz before
        · exact burst sz (List.mem_singleton.mp now).symm
      · intro m member
        rcases List.mem_append.mp member with before | now
        · exact so.popped m before
        · exact popped m (List.mem_singleton.mp now).symm
    · exact ⟨quietBoot api created, rfl, .inr rfl, by simp, by simp⟩
  exact inv.2

theorem receivedOwned {h : Holdings Ptr} {owner : Ptr → Option Place} (keeps : Keeps h.held owner) :
    h.received.Nodup ∧ ∀ m, m ∈ h.received ↔
      owner m = some .engineLost ∨ owner m = some .engine ∨ owner m = some .port := by
  obtain ⟨lostOnce, lost⟩ := Custody.listOwned keeps .engineLost h.engineLost (fun _ => rfl)
  obtain ⟨engineOnce, engine⟩ := Custody.listOwned keeps .engine h.engine (fun _ => rfl)
  obtain ⟨portOnce, port⟩ := Custody.listOwned keeps .port h.port (fun _ => rfl)
  constructor
  · rw [Holdings.received, List.nodup_append, List.nodup_append]
    refine ⟨⟨lostOnce, engineOnce, ?_⟩, portOnce, ?_⟩
    · rintro m inLost _ inEngine rfl
      have both := ((lost m).mp inLost).symm.trans ((engine m).mp inEngine)
      cases both
    · rintro m before _ inPort rfl
      have here := (port m).mp inPort
      rcases List.mem_append.mp before with inLost | inEngine
      · cases ((lost m).mp inLost).symm.trans here
      · cases ((engine m).mp inEngine).symm.trans here
  · intro m
    rw [Holdings.received, List.mem_append, List.mem_append, lost, engine, port, or_assoc]

theorem receivedInside {h : Holdings Ptr} {owner : Ptr → Option Place} {buffers : Set Ptr} (keeps : Keeps h.held owner)
    (all : ∀ m, owner m = none ↔ m ∉ buffers) {m : Ptr} (member : m ∈ h.received) : m ∈ buffers ∧ m ∉ h.pool := by
  rw [(receivedOwned keeps).2] at member
  constructor
  · by_contra foreign
    rw [(all m).mpr foreign] at member
    rcases member with lost | engine | port <;> contradiction
  · intro free
    have here := keeps .pool m
    rw [Holdings.held, amongIn free] at here
    rcases member with owned | owned | owned <;> rw [owned] at here <;> exact absurd here (by decide)

theorem receivedIsLost (mempool : P) (channel : Ring.Channel R) (created : Created api channel)
    {acts : List (Action Ptr)} {es : List (Event Ptr)} {u : State P R Ptr}
    (ok : run (step pool api capacity contents) (boot mempool channel) acts = some (es, u)) :
    Received es u ∧ (arrived es).Nodup ∧
      (∀ m ∈ arrived es, m ∈ pool.available mempool ∧ m ∉ pool.available u.mempool) ∧
      (∀ c ∈ u.clients.clients, c.sent = []) ∧ u.sent = [] := by
  obtain ⟨quiet, owner, buffers, keeps⟩ := bootCustody pool api capacity contents created ok
  have so := runReceived pool api capacity contents created ok
  have same : arrived es = (u.holdings pool api).received := so.order
  refine ⟨so, by rw [same]; exact (receivedOwned keeps).1, ?_, fun c member => (quiet.clients.clients c member).2.2.1,
    quiet.sent⟩
  intro m member
  rw [same] at member
  exact receivedInside keeps buffers member

structure Drained (h : Holdings Ptr) : Prop where
  pool : h.pool = ∅
  mux : h.mux = []
  mbufs : h.mbufs = []

theorem effectDrained {h k : Holdings Ptr} {e : Event Ptr} (drained : Drained h) (effect : Effect h e k) :
    Drained k ∧ ∀ m, e ≠ .arrived m ∧ e ≠ .stored m := by
  obtain ⟨pool, mux, mbufs⟩ := drained
  cases effect with
  | arrived free | allocated free | stored free =>
    rw [pool] at free
    cases free
  | freed own =>
    rw [mux] at own
    cases own
  | sent own | unsent own | dropped own =>
    rw [mbufs] at own
    cases own
  | _ => exact ⟨⟨pool, mux, mbufs⟩, fun m => ⟨by rintro ⟨⟩, by rintro ⟨⟩⟩⟩

theorem runDrained {s u : State P R Ptr} {acts es} (quiet : Quiet api s) (drained : Drained (s.holdings pool api))
    (ok : run (step pool api capacity contents) s acts = some (es, u)) :
    Drained (u.holdings pool api) ∧ ∀ m, .arrived m ∉ es ∧ .stored m ∉ es := by
  have inv : Quiet api u ∧ Drained (u.holdings pool api) ∧ ∀ m, .arrived m ∉ es ∧ .stored m ∉ es := by
    apply Run.runInvariant (fun es (u : State P R Ptr) => Quiet api u ∧ Drained (u.holdings pool api) ∧
      ∀ m, .arrived m ∉ es ∧ .stored m ∉ es) _ _ ok
    · rintro past s a e t ⟨quiet, drained, never⟩ now
      obtain ⟨kept, effect⟩ := stepEffect quiet now
      obtain ⟨still, not⟩ := effectDrained drained effect
      refine ⟨kept, still, fun m => ?_⟩
      simp only [List.mem_append, List.mem_singleton, not_or]
      exact ⟨⟨(never m).1, (not m).1.symm⟩, (never m).2, (not m).2.symm⟩
    · exact ⟨quiet, drained, by simp⟩
  exact inv.2

theorem allReceivedDrains {h : Holdings Ptr} {owner : Ptr → Option Place} {buffers : Set Ptr}
    (keeps : Keeps h.held owner) (all : ∀ m, owner m = none ↔ m ∉ buffers) (every : ∀ m ∈ buffers, m ∈ h.received) :
    Drained h ∧ h.toEngine = [] := by
  have elsewhere : ∀ i m, owner m = some i → i = .engineLost ∨ i = .engine ∨ i = .port := by
    intro i m owned
    have known : m ∈ buffers := by
      by_contra foreign
      rw [(all m).mpr foreign] at owned
      cases owned
    have here := ((receivedOwned keeps).2 m).mp (every m known)
    rw [owned] at here
    simpa using here
  have empty : ∀ i things, i ≠ .engineLost ∧ i ≠ .engine ∧ i ≠ .port → (∀ m, h.held i m = List.count m things) →
      things = [] := by
    intro i things other listed
    apply List.eq_nil_iff_forall_not_mem.mpr
    intro m member
    rcases elsewhere i m (((Custody.listOwned keeps i things listed).2 m).mp member) with same | same | same
    · exact other.1 same
    · exact other.2.1 same
    · exact other.2.2 same
  refine ⟨⟨?_, empty .mux h.mux (by decide) (fun _ => rfl), empty .mbufs h.mbufs (by decide) (fun _ => rfl)⟩,
    empty .toEngine h.toEngine (by decide) (fun _ => rfl)⟩
  apply Set.eq_empty_iff_forall_notMem.mpr
  intro m free
  have here := keeps .pool m
  rw [Holdings.held, amongIn free] at here
  split at here
  · rename_i owned
    rcases elsewhere .pool m owned with same | same | same <;> cases same
  · exact absurd here (by decide)

/- Every buffer the pool has can be received once. Then all is over: nothing more arrives, and
the mux can store nothing. -/
theorem poolRunsDry (mempool : P) (channel : Ring.Channel R) (created : Created api channel)
    (finite : (pool.available mempool).Finite) {acts : List (Action Ptr)} {es : List (Event Ptr)}
    {u : State P R Ptr} (ok : run (step pool api capacity contents) (boot mempool channel) acts = some (es, u)) :
    (arrived es).length ≤ (pool.available mempool).ncard ∧
      ((arrived es).length = (pool.available mempool).ncard →
        api.content u.channel.toEngine = [] ∧ ∀ more fs v, run (step pool api capacity contents) u more = some (fs, v) →
          Drained (v.holdings pool api) ∧ ∀ m, .arrived m ∉ fs ∧ .stored m ∉ fs) := by
  obtain ⟨quiet, owner, buffers, keeps⟩ := bootCustody pool api capacity contents created ok
  have same : arrived es = (u.holdings pool api).received := (runReceived pool api capacity contents created ok).order
  have count : ((arrived es).toFinset : Set Ptr).ncard = (arrived es).length := by
    rw [Set.ncard_coe_finset, List.toFinset_card_of_nodup (by rw [same]; exact (receivedOwned keeps).1)]
  have subset : ((arrived es).toFinset : Set Ptr) ⊆ pool.available mempool := by
    intro m member
    have received : m ∈ (u.holdings pool api).received := by rw [← same]; simpa using member
    exact (receivedInside keeps buffers received).1
  refine ⟨by rw [← count]; exact Set.ncard_le_ncard subset finite, ?_⟩
  intro whole
  have every : ((arrived es).toFinset : Set Ptr) = pool.available mempool :=
    Set.eq_of_subset_of_ncard_le subset (by rw [count, whole]) finite
  obtain ⟨drained, empty⟩ := allReceivedDrains keeps buffers (by
    intro m member
    rw [← every] at member
    rw [← same]
    simpa using member)
  exact ⟨empty, fun more fs v later => runDrained pool api capacity contents quiet drained later⟩

section Samples

def allAtOnce : Rx := Fin.last

def noneSent : Port.Nic := fun _ => 0

abbrev ListState : Type := State (List Nat) { items : List Nat // items.length ≤ 511 } Nat

def sampleStep : ListState → Action Nat → Option (Event Nat × ListState) :=
  step (Mbuf.listMempool Nat) (Ring.listRing Nat 511) 32 Dispatch.zeros

def twoArrivals : List (Action Nat) :=
  [.arrive, .engine allAtOnce noneSent, .engine allAtOnce noneSent, .mux true, .mux true, .arrive]

def twoArrived : List (Event Nat) := [.arrived 4, .internal, .internal, .internal, .internal, .arrived 6]

def afterTwo : ListState :=
  { boot [] Ring.sampleChannel with
    waiting := [6], engine := .fetching, mux := .allocating 512 1 [5], engineLost := [4] }

theorem everyBufferHasOnePlaceAtThree :
    ∃ owner next : Nat → Option Place, (∀ m, owner m = none ↔ m ∉ {x | x ∈ [4, 5, 6]}) ∧
      Keeps (afterTwo.holdings (Mbuf.listMempool Nat) (Ring.listRing Nat 511)).held owner ∧
      Keeps (({ afterTwo with engine := .sending } : ListState).holdings (Mbuf.listMempool Nat)
        (Ring.listRing Nat 511)).held next ∧
      Leads LifeCycle owner next ∧ Quiet (Ring.listRing Nat 511) ({ afterTwo with engine := .sending } : ListState) :=
  everyBufferHasOnePlace (Mbuf.listMempool Nat) (Ring.listRing Nat 511) 32 Dispatch.zeros [4, 5, 6] Ring.sampleChannel
    ⟨rfl, rfl⟩ (show run sampleStep (boot [4, 5, 6] Ring.sampleChannel) twoArrivals = some (twoArrived, afterTwo) from rfl)
    (show run sampleStep afterTwo [.engine allAtOnce noneSent] =
      some ([.internal], { afterTwo with engine := .sending }) from rfl)

theorem receivedIsLostAtTwo :
    Received twoArrived afterTwo ∧ (arrived twoArrived).Nodup ∧
      (∀ m ∈ arrived twoArrived, m ∈ {x | x ∈ [4, 5, 6]} ∧ m ∉ {x | x ∈ afterTwo.mempool}) ∧
      (∀ c ∈ afterTwo.clients.clients, c.sent = []) ∧ afterTwo.sent = [] :=
  receivedIsLost (Mbuf.listMempool Nat) (Ring.listRing Nat 511) 32 Dispatch.zeros [4, 5, 6] Ring.sampleChannel ⟨rfl, rfl⟩
    (show run sampleStep (boot [4, 5, 6] Ring.sampleChannel) twoArrivals = some (twoArrived, afterTwo) from rfl)

theorem poolRunsDryAtOne :
    (arrived [Event.arrived 4]).length ≤ ({x | x ∈ [4]} : Set Nat).ncard ∧
      ((arrived [Event.arrived 4]).length = ({x | x ∈ [4]} : Set Nat).ncard → Ring.sampleChannel.toEngine.val = [] ∧
        ∀ more fs v, run sampleStep ({ boot [] Ring.sampleChannel with waiting := [4] }) more = some (fs, v) →
          Drained (v.holdings (Mbuf.listMempool Nat) (Ring.listRing Nat 511)) ∧
          ∀ m, .arrived m ∉ fs ∧ .stored m ∉ fs) :=
  poolRunsDry (Mbuf.listMempool Nat) (Ring.listRing Nat 511) 32 Dispatch.zeros [4] Ring.sampleChannel ⟨rfl, rfl⟩
    (List.finite_toSet [4]) (show run sampleStep (boot [4] Ring.sampleChannel) [.arrive] =
      some ([.arrived 4], { boot [] Ring.sampleChannel with waiting := [4] }) from rfl)

end Samples

end Vdp.System
