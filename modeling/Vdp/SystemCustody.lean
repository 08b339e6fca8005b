import Vdp.Lib.Custody
import Vdp.System

/-! Who has which buffer. Each step of the system is a move of buffers between a few places;
the bulk calls of the engine move nothing into the ring of the mux and nothing out of its
own, so what has been received can only be lost. -/
namespace Vdp.System
open Lib
open Lib.Custody (Keeps Leads Hands Moves among amongIn)
open Mbuf (RteMempool)

/- `engine` is `in_pkts`, `mux` the fresh buffers of a receive burst and `mbufs` those of the
other calls of the mux. -/
inductive Place where
  | pool
  | port
  | engine
  | toEngine
  | mux
  | mbufs
  | engineLost
  | muxLost
  deriving DecidableEq, Repr

structure Holdings (Ptr : Type) where
  pool : Set Ptr
  port : List Ptr
  engine : List Ptr
  toEngine : List Ptr
  mux : List Ptr
  mbufs : List Ptr
  engineLost : List Ptr
  muxLost : List Ptr

inductive LifeCycle : Place → Place → Prop where
  | arrive : LifeCycle .pool .port
  | receive : LifeCycle .port .engine
  | forget : LifeCycle .engine .engineLost
  | allocate : LifeCycle .pool .mux
  | free : LifeCycle .mux .pool
  | store : LifeCycle .pool .mbufs
  | drop : LifeCycle .mbufs .pool
  | send : LifeCycle .mbufs .toEngine
  | fail : LifeCycle .mbufs .muxLost

section Abstract
variable {Ptr : Type} [DecidableEq Ptr]

inductive Effect (h : Holdings Ptr) : Event Ptr → Holdings Ptr → Prop where
  | idle : Effect h .internal h
  | missed : Effect h .missed h
  | noMem : Effect h .noMem h
  | nothing : Effect h (.burst 0) h
  | arrived {m} (free : m ∈ h.pool) : Effect h (.arrived m) { h with pool := h.pool \ {m}, port := h.port ++ [m] }
  | received {got rest} (waiting : h.port = got ++ rest) :
      Effect h .internal { h with port := rest, engine := h.engine ++ got }
  | forgotten : Effect h .internal { h with engine := [], engineLost := h.engineLost ++ h.engine }
  | allocated {m} (free : m ∈ h.pool) : Effect h .internal { h with pool := h.pool \ {m}, mux := h.mux ++ [m] }
  | freed {m rest} (own : h.mux = m :: rest) : Effect h .internal { h with pool := insert m h.pool, mux := rest }
  | stored {m} (free : m ∈ h.pool) : Effect h (.stored m) { h with pool := h.pool \ {m}, mbufs := m :: h.mbufs }
  | sent {m} (own : m ∈ h.mbufs) :
      Effect h .internal { h with mbufs := h.mbufs.erase m, toEngine := h.toEngine ++ [m] }
  | unsent {m} (own : m ∈ h.mbufs) :
      Effect h .internal { h with mbufs := h.mbufs.erase m, muxLost := h.muxLost ++ [m] }
  | dropped {m} (own : m ∈ h.mbufs) :
      Effect h .internal { h with pool := insert m h.pool, mbufs := h.mbufs.erase m }

noncomputable def Holdings.held (h : Holdings Ptr) : Place → Ptr → Nat
  | .pool => among h.pool
  | .port => fun m => h.port.count m
  | .engine => fun m => h.engine.count m
  | .toEngine => fun m => h.toEngine.count m
  | .mux => fun m => h.mux.count m
  | .mbufs => fun m => h.mbufs.count m
  | .engineLost => fun m => h.engineLost.count m
  | .muxLost => fun m => h.muxLost.count m

theorem oneTaken {pool : Set Ptr} {x : Ptr} (free : x ∈ pool) (m : Ptr) :
    among (pool \ {x}) m + [x].count m = among pool m := by
  have taken := Custody.amongTaken (List.nodup_singleton x) (s := pool) (by simpa using free) m
  rwa [show {y | y ∈ [x]} = ({x} : Set Ptr) by ext y; simp] at taken

theorem oneGiven {pool : Set Ptr} {x : Ptr} (taken : x ∉ pool) (m : Ptr) :
    among (insert x pool) m = among pool m + [x].count m := by
  have given := Custody.amongGiven (List.nodup_singleton x) (s := pool) (by simpa using taken) m
  rwa [show {y | y ∈ [x]} = ({x} : Set Ptr) by ext y; simp, Set.union_singleton] at given

theorem notFree {h : Holdings Ptr} {owner : Ptr → Option Place} (keeps : Keeps h.held owner) {i : Place} {x : Ptr}
    (other : i ≠ .pool) (there : 0 < h.held i x) : x ∉ h.pool := by
  intro free
  have none := Custody.notElsewhere keeps other there
  rw [Holdings.held, amongIn free] at none
  exact absurd none (by decide)

theorem countErased {held : List Ptr} {x : Ptr} (own : x ∈ held) (m : Ptr) :
    (held.erase x).count m + [x].count m = held.count m := by
  have taken := Custody.countTaken (List.singleton_subperm_iff.mpr own) m
  rwa [List.diff_cons, List.diff_nil] at taken

theorem countFirst (x : Ptr) (rest : List Ptr) (m : Ptr) : (x :: rest).count m = rest.count m + [x].count m := by
  rw [List.count_cons, List.count_singleton]

theorem effectMoves {h k : Holdings Ptr} {e : Event Ptr} {owner : Ptr → Option Place} (effect : Effect h e k)
    (keeps : Keeps h.held owner) : k = h ∨ ∃ src dst things, LifeCycle src dst ∧ src ≠ dst ∧
      Moves h.held k.held src dst things := by
  cases effect with
  | idle => exact .inl rfl
  | missed => exact .inl rfl
  | noMem => exact .inl rfl
  | nothing => exact .inl rfl
  | @arrived x free =>
    refine .inr ⟨.pool, .port, [x], .arrive, by decide, oneTaken free, fun m => List.count_append, ?_⟩
    intro i here there
    cases i <;> first | rfl | contradiction
  | @received got rest waiting =>
    refine .inr ⟨.port, .engine, got, .receive, by decide, ?_, fun m => List.count_append, ?_⟩
    · intro m
      simp only [Holdings.held, waiting, List.count_append, Nat.add_comm]
    · intro i here there
      cases i <;> first | rfl | contradiction
  | forgotten =>
    refine .inr ⟨.engine, .engineLost, h.engine, .forget, by decide, ?_, fun m => List.count_append, ?_⟩
    · intro m
      simp only [Holdings.held, List.count_nil, Nat.zero_add]
    · intro i here there
      cases i <;> first | rfl | contradiction
  | @allocated x free =>
    refine .inr ⟨.pool, .mux, [x], .allocate, by decide, oneTaken free, fun m => List.count_append, ?_⟩
    intro i here there
    cases i <;> first | rfl | contradiction
  | @freed x rest own =>
    have taken : x ∉ h.pool := notFree keeps (i := .mux) (by decide) (by simp [Holdings.held, own])
    refine .inr ⟨.mux, .pool, [x], .free, by decide, ?_, oneGiven taken, ?_⟩
    · intro m
      simp only [Holdings.held, own, countFirst x rest]
    · intro i here there
      cases i <;> first | rfl | contradiction
  | @stored x free =>
    refine .inr ⟨.pool, .mbufs, [x], .store, by decide, oneTaken free, countFirst x h.mbufs, ?_⟩
    intro i here there
    cases i <;> first | rfl | contradiction
  | @sent x own =>
    refine .inr ⟨.mbufs, .toEngine, [x], .send, by decide, countErased own, fun m => List.count_append, ?_⟩
    intro i here there
    cases i <;> first | rfl | contradiction
  | @unsent x own =>
    refine .inr ⟨.mbufs, .muxLost, [x], .fail, by decide, countErased own, fun m => List.count_append, ?_⟩
    intro i here there
    cases i <;> first | rfl | contradiction
  | @dropped x own =>
    have taken : x ∉ h.pool := notFree keeps (i := .mbufs) (by decide) (by simpa [Holdings.held] using own)
    refine .inr ⟨.mbufs, .pool, [x], .drop, by decide, countErased own, oneGiven taken, ?_⟩
    intro i here there
    cases i <;> first | rfl | contradiction

theorem effectHands {h k : Holdings Ptr} {e : Event Ptr} (effect : Effect h e k) :
    Hands LifeCycle h.held k.held := by
  intro owner keeps
  obtain rfl | ⟨src, dst, things, along, apart, moves⟩ := effectMoves effect keeps
  · exact Custody.handsRefl rfl owner keeps
  · exact Custody.handsMove src dst things apart along moves owner keeps

end Abstract

section Refinement
variable {P R Ptr : Type} {pool : RteMempool P Ptr} {api : Ring.RteRing R Ptr} {capacity : Nat}
  {contents : Ptr → Memenpsf.Packet}

structure Idle (d : Dispatch.System Ptr) : Prop where
  clients : ∀ c ∈ d.clients, c.queue = [] ∧ c.inHand = [] ∧ c.sent = [] ∧ c.pushed = []
  returned : d.returned = []
  running : d.panicked = false

inductive Unfed : MuxAt Ptr → Prop where
  | polling : Unfed .polling
  | allocating {len k pkts} (count : pkts.length = k) : Unfed (.allocating len k pkts)
  | dequeuing {len pkts} : Unfed (.dequeuing len pkts)
  | truncating {cut} : Unfed (.truncating 0 [] cut)

variable (api) in
structure Quiet (s : State P R Ptr) : Prop where
  toPacketiser : api.content s.channel.toPacketiser = []
  outPkts : s.outPkts = []
  sent : s.sent = []
  inBuf : s.inBuf = []
  mux : Unfed s.mux
  clients : Idle s.clients

def MuxAt.mbufs : MuxAt Ptr → List Ptr
  | .allocating _ _ pkts => pkts
  | .dequeuing _ pkts => pkts
  | .truncating _ pkts cut => pkts ++ cut
  | .handling _ pkt => [pkt]
  | _ => []

variable (pool api) in
def State.holdings (s : State P R Ptr) : Holdings Ptr where
  pool := pool.available s.mempool
  port := s.waiting
  engine := s.inPkts
  toEngine := api.content s.channel.toEngine
  mux := s.mux.mbufs
  mbufs := s.mbufs
  engineLost := s.engineLost
  muxLost := s.muxLost

theorem idleBoot : Idle (Dispatch.boot : Dispatch.System Ptr) := ⟨by simp [Dispatch.boot], rfl, rfl⟩

theorem idlePut {d : Dispatch.System Ptr} (idle : Idle d) {i : Nat} {c : Dispatch.Client Ptr}
    (unsent : c.queue = [] ∧ c.inHand = [] ∧ c.sent = [] ∧ c.pushed = []) : Idle (d.put i c) where
  clients x member := by
    cases List.mem_or_eq_of_mem_set member with
    | inl old => exact idle.clients x old
    | inr new => rwa [new]
  returned := idle.returned
  running := idle.running

theorem idleStep {d e : Dispatch.System Ptr} {a : Dispatch.Action Ptr} (idle : Idle d)
    (ok : Dispatch.step contents d a = some e) (other : ∀ pkt, a ≠ .dispatch pkt) : Idle e := by
  obtain ⟨_, did⟩ := Dispatch.stepDid ok
  cases did with
  | accepted =>
    refine ⟨?_, idle.returned, idle.running⟩
    intro c member
    cases List.mem_append.mp member with
    | inl old => exact idle.clients c old
    | inr new =>
      rw [List.mem_singleton.mp new]
      exact ⟨rfl, rfl, rfl, rfl⟩
  | connected region found phase =>
    obtain ⟨queue, _, sent, pushed⟩ := idle.clients _ (List.mem_of_getElem? found)
    exact idlePut idle ⟨queue, rfl, sent, pushed⟩
  | unmapped found phase =>
    obtain ⟨queue, _, sent, pushed⟩ := idle.clients _ (List.mem_of_getElem? found)
    exact idlePut idle ⟨queue, rfl, sent, pushed⟩
  | received found phase queue =>
    have empty := (idle.clients _ (List.mem_of_getElem? found)).1
    rw [queue] at empty
    cases empty
  | closed found phase queue gone =>
    obtain ⟨_, _, sent, pushed⟩ := idle.clients _ (List.mem_of_getElem? found)
    exact idlePut idle ⟨queue, rfl, sent, pushed⟩
  | handed found phase pushed =>
    have none := (idle.clients _ (List.mem_of_getElem? found)).2.1
    rw [Dispatch.Client.inHand, phase] at none
    cases none
  | ended found phase =>
    obtain ⟨queue, _, sent, pushed⟩ := idle.clients _ (List.mem_of_getElem? found)
    exact idlePut idle ⟨queue, rfl, sent, pushed⟩
  | unknown _ => exact absurd rfl (other _)
  | refused _ _ _ => exact absurd rfl (other _)
  | queued _ _ _ => exact absurd rfl (other _)

variable (api) in
/- With the vector drained first, the ring takes none of the packets. -/
theorem handOverForgets (s : State P R Ptr) :
    ∃ ring, api.content ring = api.content s.channel.toPacketiser ∧ handOver api s = { s with
      engine := .fetching
      channel := { s.channel with toPacketiser := ring }
      inPkts := []
      engineLost := s.engineLost ++ s.inPkts } := by
  obtain ⟨ret, content, left, _⟩ := Ring.enqueueBulkDrains api s.channel.toPacketiser s.inPkts
  refine ⟨_, content, ?_⟩
  simp only [handOver, ret, left, UInt64.toNat_zero, List.drop_zero]

variable (api capacity) in
theorem fetchTakesNothing (s : State P R Ptr) :
    ∃ ring, api.content ring = api.content s.channel.toEngine ∧ fetch api capacity s = { s with
      engine := .sending
      channel := { s.channel with toEngine := ring } } := by
  obtain ⟨ret, content, kept, _⟩ := Ring.dequeueBurstTakes api s.channel.toEngine [] (capacity - s.outPkts.length)
  simp only [List.length_nil, Nat.zero_mod, Nat.zero_min, List.drop_zero] at ret content
  simp only [fetch]
  split
  · refine ⟨_, content, ?_⟩
    simp only [kept, ret, List.take_zero, List.append_nil]
  · exact ⟨s.channel.toEngine, rfl, rfl⟩

theorem xmitNothing {s : State P R Ptr} (none : s.outPkts = []) (nic : Port.Nic) :
    xmit pool nic s = some { s with engine := .receiving } := by
  obtain ⟨freed, same, _, nothing⟩ := Port.sendLog (fun _ : Ptr => ()) nic []
  have empty : freed = [] := nothing (Nat.zero_le _)
  simp [xmit, none, same, empty, sentBy, freedBy, Mux.dropAll]

theorem dequeueTakesNothing {s : State P R Ptr} (empty : api.content s.channel.toPacketiser = []) (len : Nat)
    (pkts : List Ptr) : ∃ ring, api.content ring = [] ∧ dequeue api s len pkts = { s with
      mux := .truncating 0 [] pkts
      channel := { s.channel with toPacketiser := ring } } := by
  obtain ⟨ret, content, kept, _⟩ := Ring.dequeueBurstTakes api s.channel.toPacketiser pkts len
  rw [empty, List.drop_nil] at content
  rw [empty, List.length_nil, Nat.min_zero] at ret
  refine ⟨_, content, ?_⟩
  simp only [dequeue, ret, kept, empty, List.take_zero, List.drop_zero, List.append_nil]

variable [DecidableEq Ptr]

theorem engineEffect {s t : State P R Ptr} {rx : Rx} {nic : Port.Nic} (quiet : Quiet api s)
    (ok : engineStep pool api capacity rx nic s = some t) :
    Quiet api t ∧ Effect (s.holdings pool api) .internal (t.holdings pool api) := by
  unfold engineStep at ok
  split at ok
  case h_1 =>
    simp only at ok
    split at ok
    · cases ok
      exact ⟨⟨quiet.toPacketiser, quiet.outPkts, quiet.sent, quiet.inBuf, quiet.mux, quiet.clients⟩, .idle⟩
    · cases ok
      refine ⟨⟨quiet.toPacketiser, quiet.outPkts, quiet.sent, quiet.inBuf, quiet.mux, quiet.clients⟩, ?_⟩
      exact .received (List.take_append_drop _ s.waiting).symm
  case h_2 =>
    obtain ⟨ring, content, same⟩ := handOverForgets api s
    rw [same] at ok
    cases ok
    rw [quiet.toPacketiser] at content
    exact ⟨⟨content, quiet.outPkts, quiet.sent, quiet.inBuf, quiet.mux, quiet.clients⟩, .forgotten⟩
  case h_3 =>
    obtain ⟨ring, content, same⟩ := fetchTakesNothing api capacity s
    rw [same] at ok
    cases ok
    refine ⟨⟨quiet.toPacketiser, quiet.outPkts, quiet.sent, quiet.inBuf, quiet.mux, quiet.clients⟩, ?_⟩
    simp only [State.holdings, content]
    exact .idle
  case h_4 =>
    rw [xmitNothing quiet.outPkts] at ok
    cases ok
    exact ⟨⟨quiet.toPacketiser, quiet.outPkts, quiet.sent, quiet.inBuf, quiet.mux, quiet.clients⟩, .idle⟩

theorem muxEffect {s t : State P R Ptr} {accepted : Bool} {e : Event Ptr} (quiet : Quiet api s)
    (ok : muxStep pool api accepted s = some (e, t)) :
    Quiet api t ∧ Effect (s.holdings pool api) e (t.holdings pool api) := by
  have unfed := quiet.mux
  have kept : ∀ mux (mempool : P), Unfed mux → Quiet api { s with mux, mempool } := fun _ _ unfed =>
    ⟨quiet.toPacketiser, quiet.outPkts, quiet.sent, quiet.inBuf, unfed, quiet.clients⟩
  cases at_ : s.mux with
  | polling =>
    have empty : s.inBuf.isEmpty = true := by rw [quiet.inBuf, List.isEmpty_nil]
    simp only [muxStep, at_, if_pos empty] at ok
    cases ok
    refine ⟨kept _ _ (.allocating rfl), ?_⟩
    simp only [State.holdings, at_, MuxAt.mbufs]
    exact .idle
  | allocating len k pkts =>
    rw [at_] at unfed
    cases unfed with
    | allocating count =>
      simp only [muxStep, at_] at ok
      split at ok
      · split at ok
        · rename_i buf m mempool found
          obtain ⟨free, less⟩ := pool.allocated _ _ _ _ found
          cases ok
          refine ⟨kept _ _ (.allocating (by simp [count])), ?_⟩
          simp only [State.holdings, at_, MuxAt.mbufs, less]
          exact .allocated free
        · cases ok
          refine ⟨kept _ _ .dequeuing, ?_⟩
          simp only [State.holdings, at_, MuxAt.mbufs, ← count, List.drop_length, List.take_length, Mux.dropAll,
            List.foldl_nil]
          exact .idle
      · cases ok
        refine ⟨kept _ _ .dequeuing, ?_⟩
        simp only [State.holdings, at_, MuxAt.mbufs]
        exact .idle
  | dequeuing len pkts =>
    obtain ⟨ring, empty, same⟩ := dequeueTakesNothing quiet.toPacketiser len pkts
    simp only [muxStep, at_, same] at ok
    cases ok
    refine ⟨⟨empty, quiet.outPkts, quiet.sent, quiet.inBuf, .truncating, quiet.clients⟩, ?_⟩
    simp only [State.holdings, at_, MuxAt.mbufs, List.nil_append]
    exact .idle
  | truncating sz pkts cut =>
    rw [at_] at unfed
    cases unfed with
    | truncating =>
      cases cut with
      | nil =>
        simp only [muxStep, at_, Fifo.pushAll] at ok
        cases ok
        refine ⟨kept _ _ .polling, ?_⟩
        simp only [State.holdings, at_, MuxAt.mbufs, List.append_nil]
        exact .nothing
      | cons m cut =>
        simp only [muxStep, at_] at ok
        cases ok
        refine ⟨kept _ _ .truncating, ?_⟩
        simp only [State.holdings, at_, MuxAt.mbufs, List.nil_append, pool.freed]
        exact .freed rfl
  | processing rounds =>
    rw [at_] at unfed
    cases unfed
  | handling rounds pkt =>
    rw [at_] at unfed
    cases unfed
  | panicked =>
    rw [at_] at unfed
    cases unfed

theorem sendEffect {s : State P R Ptr} {errno : Int} {pkt : Ptr} (quiet : Quiet api s) (own : pkt ∈ s.mbufs) :
    Quiet api (sendToEngine api errno s pkt) ∧
      Effect (s.holdings pool api) .internal ((sendToEngine api errno s pkt).holdings pool api) := by
  have kept : ∀ toEngine mbufs muxLost, Quiet api { s with
      channel := { s.channel with toEngine }, mbufs, muxLost } := fun _ _ _ =>
    ⟨quiet.toPacketiser, quiet.outPkts, quiet.sent, quiet.inBuf, quiet.mux, quiet.clients⟩
  unfold sendToEngine Ring.sendToEngine
  by_cases room : 0 < api.space s.channel.toEngine
  · obtain ⟨sent, content, _⟩ := Ring.enqueueRoom api errno room pkt
    simp only [sent]
    refine ⟨kept _ _ _, ?_⟩
    simp only [State.holdings, content]
    exact .sent own
  · obtain ⟨failed, same⟩ := api.enqueueFull s.channel.toEngine pkt (Nat.eq_zero_of_not_pos room)
    simp only [Ring.enqueue, if_neg failed, same]
    exact ⟨kept _ _ _, .unsent own⟩

omit [DecidableEq Ptr] in
theorem receiveEffect {s : State P R Ptr} {errno : Int} {pkt : Ptr} (quiet : Quiet api s) :
    receiveFromEngine api errno s pkt = s := by
  obtain ⟨error, same⟩ := Ring.dequeueNothing api errno quiet.toPacketiser pkt
  simp only [receiveFromEngine, Ring.receiveFromEngine, error, same]

omit [DecidableEq Ptr] in
variable (pool) in
theorem clientQuiet {s t : State P R Ptr} {a : Dispatch.Action Ptr} (quiet : Quiet api s)
    (ok : clientStep contents s a = some t) : Quiet api t ∧ t.holdings pool api = s.holdings pool api := by
  cases a with
  | dispatch pkt => cases ok
  | _ =>
    obtain ⟨clients, now, same⟩ := Option.map_eq_some_iff.mp ok
    cases same
    have idle := idleStep quiet.clients now (by rintro pkt ⟨⟩)
    exact ⟨⟨quiet.toPacketiser, quiet.outPkts, quiet.sent, quiet.inBuf, quiet.mux, idle⟩, rfl⟩

theorem stepEffect {s t : State P R Ptr} {a : Action Ptr} {e : Event Ptr} (quiet : Quiet api s)
    (ok : step pool api capacity contents s a = some (e, t)) :
    Quiet api t ∧ Effect (s.holdings pool api) e (t.holdings pool api) := by
  have kept : ∀ (mempool : P) waiting mbufs, Quiet api { s with mempool, waiting, mbufs } := fun _ _ _ =>
    ⟨quiet.toPacketiser, quiet.outPkts, quiet.sent, quiet.inBuf, quiet.mux, quiet.clients⟩
  cases a with
  | arrive =>
    simp only [step] at ok
    split at ok
    · rename_i pkt m mempool found
      obtain ⟨free, less⟩ := pool.allocated _ _ _ _ found
      cases ok
      refine ⟨kept _ _ _, ?_⟩
      simp only [State.holdings, less]
      exact .arrived free
    · cases ok
      exact ⟨quiet, .missed⟩
  | engine rx nic =>
    obtain ⟨u, now, same⟩ := Option.map_eq_some_iff.mp ok
    cases same
    exact engineEffect quiet now
  | mux accepted => exact muxEffect quiet ok
  | fromBytes slice =>
    simp only [step] at ok
    rcases Mbuf.fromBytesInCases pool s.mempool slice with
      ⟨pkt, m, mempool, out, found, _, _, _, stored⟩ | ⟨error, mempool, same, refused, _⟩
    · obtain ⟨free, less⟩ := pool.allocated _ _ _ _ found
      rw [stored] at ok
      cases ok
      refine ⟨kept _ _ _, ?_⟩
      simp only [State.holdings, less]
      exact .stored free
    · rw [refused] at ok
      cases ok
      refine ⟨kept _ _ _, ?_⟩
      simp only [State.holdings, same]
      exact .noMem
  | sendToEngine errno pkt =>
    simp only [step] at ok
    split at ok <;> try contradiction
    rename_i own
    cases ok
    exact sendEffect quiet own
  | receiveFromEngine errno pkt =>
    simp only [step, receiveEffect quiet] at ok
    split at ok <;> try contradiction
    cases ok
    exact ⟨quiet, .idle⟩
  | dropMbuf pkt =>
    simp only [step] at ok
    split at ok <;> try contradiction
    rename_i own
    cases ok
    refine ⟨kept _ _ _, ?_⟩
    simp only [State.holdings, pool.freed]
    exact .dropped own
  | client a =>
    obtain ⟨u, now, same⟩ := Option.map_eq_some_iff.mp ok
    cases same
    obtain ⟨still, same⟩ := clientQuiet pool quiet now
    rw [same]
    exact ⟨still, .idle⟩

end Refinement

end Vdp.System
