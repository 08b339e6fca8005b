import Vdp.Lib.Run
import Vdp.Ring
import Mathlib.Data.List.Induction
import Mathlib.Logic.Function.Basic

/-! Single packets over the two rings of a `Channel`. A send moves its `Mbuf` into the call
and a receive borrows one; which party owns which `Mbuf` is what the borrow checker knows,
so a call with one the party does not own is no step. `rte_errno` is the environment's. -/
namespace Vdp.Ring
open Lib.Run (run runSnoc)

structure Channel (R : Type) where
  toEngine : R
  toPacketiser : R

section Code
variable {R Ptr : Type} (api : RteRing R Ptr) (errno : Int)

/- `into_ptr` forgets the packet before the ring has taken it. -/
def enqueue (ring : R) (pkt : Ptr) : Except MemoryError Unit × R :=
  let r := api.enqueue ring pkt
  (if r.1 = 0 then .ok () else .error (.new errno), r.2)

/- The ring stores into a temporary that holds a copy of the packet's pointer. -/
def dequeue (ring : R) (pkt : Ptr) : Except MemoryError Unit × Ptr × R :=
  let temporary := pkt
  let r := api.dequeue ring temporary
  (if r.1 = 0 then .ok () else .error (.new errno), pkt, r.2.2)

def sendToEngine (ch : Channel R) (pkt : Ptr) : Except MemoryError Unit × Channel R :=
  let r := enqueue api errno ch.toEngine pkt
  (r.1, { ch with toEngine := r.2 })

def receiveFromEngine (ch : Channel R) (pkt : Ptr) : Except MemoryError Unit × Ptr × Channel R :=
  let r := dequeue api errno ch.toPacketiser pkt
  (r.1, r.2.1, { ch with toPacketiser := r.2.2 })

def sendToPacketiser (ch : Channel R) (pkt : Ptr) : Except MemoryError Unit × Channel R :=
  let r := enqueue api errno ch.toPacketiser pkt
  (r.1, { ch with toPacketiser := r.2 })

def receiveFromPacketiser (ch : Channel R) (pkt : Ptr) : Except MemoryError Unit × Ptr × Channel R :=
  let r := dequeue api errno ch.toEngine pkt
  (r.1, r.2.1, { ch with toEngine := r.2.2 })

theorem enqueueRoom {ring : R} (room : 0 < api.space ring) (pkt : Ptr) :
    (enqueue api errno ring pkt).1 = .ok () ∧
      api.content (enqueue api errno ring pkt).2 = api.content ring ++ [pkt] ∧
      api.space (enqueue api errno ring pkt).2 + 1 = api.space ring := by
  obtain ⟨code, content, space⟩ := api.enqueued ring pkt room
  simp only [enqueue, code, if_true]
  exact ⟨trivial, content, space⟩

theorem enqueueNoRoom {ring : R} (full : api.space ring = 0) (pkt : Ptr) :
    (enqueue api errno ring pkt).2 = ring := (api.enqueueFull ring pkt full).2

theorem dequeueFound {ring : R} {oldest : Ptr} {rest : List Ptr} (found : api.content ring = oldest :: rest)
    (pkt : Ptr) : api.content (dequeue api errno ring pkt).2.2 = rest :=
  (api.dequeued ring pkt oldest rest found).2.2.1

theorem dequeueNothing {ring : R} (empty : api.content ring = []) (pkt : Ptr) :
    (dequeue api errno ring pkt).1 = .error (.new errno) ∧ (dequeue api errno ring pkt).2 = (pkt, ring) := by
  obtain ⟨code, same⟩ := api.dequeueEmpty ring pkt empty
  simp only [dequeue, if_neg code, same]
  exact ⟨trivial, trivial⟩

end Code

inductive Party where
  | engine
  | packetiser
  deriving DecidableEq, Repr

inductive Dir where
  | toEngine
  | toPacketiser
  deriving DecidableEq, Repr

def Dir.sender : Dir → Party
  | .toEngine => .packetiser
  | .toPacketiser => .engine

def Dir.receiver : Dir → Party
  | .toEngine => .engine
  | .toPacketiser => .packetiser

variable {R Ptr : Type}

def Channel.ring (ch : Channel R) : Dir → R
  | .toEngine => ch.toEngine
  | .toPacketiser => ch.toPacketiser

def Channel.set (ch : Channel R) : Dir → R → Channel R
  | .toEngine, r => { ch with toEngine := r }
  | .toPacketiser, r => { ch with toPacketiser := r }

structure World (R Ptr : Type) where
  channel : Channel R
  held : Party → List Ptr
  pool : List Ptr
  errno : Int

inductive Call (Ptr : Type) where
  | send (dir : Dir) (pkt : Ptr)
  | receive (dir : Dir) (pkt : Ptr)
  deriving DecidableEq, Repr

/- `handle` is what the caller's `Mbuf` denotes after a receive. -/
structure Event (R Ptr : Type) where
  call : Call Ptr
  result : Except MemoryError Unit
  handle : Option Ptr
  before : World R Ptr
  after : World R Ptr

def Call.sends (dir : Dir) : Call Ptr → Nat
  | .send d _ => if d = dir then 1 else 0
  | .receive _ _ => 0

def sends (dir : Dir) (calls : List (Call Ptr)) : Nat := (calls.map (Call.sends dir)).sum

structure Unread (api : RteRing R Ptr) (start : World R Ptr) (calls : List (Call Ptr)) : Prop where
  room : ∀ dir, sends dir calls ≤ api.space (start.channel.ring dir)
  unread : ∀ dir front pkt, front ++ [.receive dir pkt] <+: calls → sends dir front = 0

theorem sendsSnoc (dir : Dir) (calls : List (Call Ptr)) (c : Call Ptr) :
    sends dir (calls ++ [c]) = sends dir calls + c.sends dir := by
  simp [sends]

theorem unreadSend {api : RteRing R Ptr} {start : World R Ptr} {calls : List (Call Ptr)} {dir : Dir} {pkt : Ptr} :
    Unread api start (calls ++ [.send dir pkt]) ↔
      Unread api start calls ∧ sends dir calls < api.space (start.channel.ring dir) := by
  constructor
  · intro h
    refine ⟨⟨?_, ?_⟩, ?_⟩
    · intro other
      have room := h.room other
      rw [sendsSnoc] at room
      omega
    · intro other front handle inside
      exact h.unread other front handle (inside.trans (List.prefix_append _ _))
    · have room := h.room dir
      rw [sendsSnoc, Call.sends, if_pos rfl] at room
      omega
  · rintro ⟨h, more⟩
    constructor
    · intro other
      have room := h.room other
      rw [sendsSnoc, Call.sends]
      split
      · rename_i same
        rw [← same]
        omega
      · omega
    · intro other front handle inside
      rcases List.prefix_concat_iff.mp inside with whole | before
      · have last := (List.append_inj' whole rfl).2
        cases last
      · exact h.unread other front handle before

theorem unreadReceive {api : RteRing R Ptr} {start : World R Ptr} {calls : List (Call Ptr)} {dir : Dir} {pkt : Ptr} :
    Unread api start (calls ++ [.receive dir pkt]) ↔ Unread api start calls ∧ sends dir calls = 0 := by
  have same : ∀ other, sends other (calls ++ [.receive dir pkt]) = sends other calls := by
    intro other
    rw [sendsSnoc]
    rfl
  constructor
  · intro h
    refine ⟨⟨?_, ?_⟩, ?_⟩
    · intro other
      rw [← same]
      exact h.room other
    · intro other front handle inside
      exact h.unread other front handle (inside.trans (List.prefix_append _ _))
    · exact h.unread dir calls pkt (List.prefix_refl _)
  · rintro ⟨h, none⟩
    constructor
    · intro other
      rw [same]
      exact h.room other
    · intro other front handle inside
      rcases List.prefix_concat_iff.mp inside with whole | before
      · obtain ⟨rfl, last⟩ := List.append_inj' whole rfl
        cases last
        exact none
      · exact h.unread other front handle before

theorem ringSet (ch : Channel R) (dir other : Dir) (r : R) :
    (ch.set dir r).ring other = if other = dir then r else ch.ring other := by
  cases dir <;> cases other <;> rfl

def sentOn (dir : Dir) (events : List (Event R Ptr)) : List Ptr :=
  events.filterMap (fun ev => match ev.call, ev.result with
    | .send d pkt, .ok () => if d = dir then some pkt else none
    | _, _ => none)

def receivedOn (dir : Dir) (events : List (Event R Ptr)) : List Ptr :=
  events.filterMap (fun ev => match ev.call, ev.result with
    | .receive d _, .ok () => if d = dir then ev.handle else none
    | _, _ => none)

theorem sentOnSent {dir other : Dir} {pkt : Ptr} {ev : Event R Ptr} (called : ev.call = .send dir pkt)
    (ok : ev.result = .ok ()) (past : List (Event R Ptr)) :
    sentOn other (past ++ [ev]) = if other = dir then sentOn other past ++ [pkt] else sentOn other past := by
  by_cases same : other = dir
  · simp [sentOn, called, ok, same]
  · simp [sentOn, called, ok, same, Ne.symm same]

theorem sentOnReceive {dir other : Dir} {pkt : Ptr} {ev : Event R Ptr} (called : ev.call = .receive dir pkt)
    (past : List (Event R Ptr)) : sentOn other (past ++ [ev]) = sentOn other past := by
  simp [sentOn, called]

theorem receivedOnSend {dir other : Dir} {pkt : Ptr} {ev : Event R Ptr} (called : ev.call = .send dir pkt)
    (past : List (Event R Ptr)) : receivedOn other (past ++ [ev]) = receivedOn other past := by
  simp [receivedOn, called]

theorem receivedOnError {other : Dir} {e : MemoryError} {ev : Event R Ptr} (error : ev.result = .error e)
    (past : List (Event R Ptr)) : receivedOn other (past ++ [ev]) = receivedOn other past := by
  simp [receivedOn, error]

section Step
variable [DecidableEq Ptr] (api : RteRing R Ptr)

def World.sent (w : World R Ptr) (dir : Dir) (pkt : Ptr) (r : Except MemoryError Unit × Channel R) :
    Event R Ptr × World R Ptr :=
  let held := (w.held dir.sender).erase pkt
  let after := { w with channel := r.2, held := Function.update w.held dir.sender held }
  (⟨.send dir pkt, r.1, none, w, after⟩, after)

def World.received (w : World R Ptr) (dir : Dir) (pkt : Ptr) (r : Except MemoryError Unit × Ptr × Channel R) :
    Event R Ptr × World R Ptr :=
  let held := r.2.1 :: (w.held dir.receiver).erase pkt
  let after := { w with channel := r.2.2, held := Function.update w.held dir.receiver held }
  (⟨.receive dir pkt, r.1, some r.2.1, w, after⟩, after)

def step (w : World R Ptr) : Call Ptr → Option (Event R Ptr × World R Ptr)
  | .send dir pkt =>
    if pkt ∈ w.held dir.sender then
      match dir with
      | .toEngine => some (w.sent .toEngine pkt (sendToEngine api w.errno w.channel pkt))
      | .toPacketiser => some (w.sent .toPacketiser pkt (sendToPacketiser api w.errno w.channel pkt))
    else none
  | .receive dir pkt =>
    if pkt ∈ w.held dir.receiver then
      match dir with
      | .toEngine => some (w.received .toEngine pkt (receiveFromPacketiser api w.errno w.channel pkt))
      | .toPacketiser => some (w.received .toPacketiser pkt (receiveFromEngine api w.errno w.channel pkt))
    else none

def World.owners (w : World R Ptr) (m : Ptr) : Nat :=
  (api.content (w.channel.ring .toEngine)).count m + (api.content (w.channel.ring .toPacketiser)).count m +
    (w.held .engine).count m + (w.held .packetiser).count m + w.pool.count m

theorem countErase {held : List Ptr} {pkt : Ptr} (own : pkt ∈ held) (m : Ptr) :
    (held.erase pkt).count m + (if m = pkt then 1 else 0) = held.count m := by
  split
  · rename_i same
    subst same
    have had : 0 < held.count m := List.count_pos_iff.mpr own
    rw [List.count_erase_self]
    omega
  · rename_i different
    rw [List.count_erase_of_ne different]
    rfl

theorem ownersSent {w : World R Ptr} {dir : Dir} {pkt : Ptr} (own : pkt ∈ w.held dir.sender)
    (result : Except MemoryError Unit) (r : R) (m : Ptr) :
    (w.sent dir pkt (result, w.channel.set dir r)).2.owners api m + (if m = pkt then 1 else 0) +
        (api.content (w.channel.ring dir)).count m =
      w.owners api m + (api.content r).count m := by
  have less := countErase own m
  cases dir <;> simp only [World.owners, World.sent, ringSet, Dir.sender] at * <;> simp <;> omega

theorem ownersReceived {w : World R Ptr} {dir : Dir} {pkt : Ptr} (own : pkt ∈ w.held dir.receiver)
    (result : Except MemoryError Unit) (r : R) (m : Ptr) :
    (w.received dir pkt (result, pkt, w.channel.set dir r)).2.owners api m +
        (api.content (w.channel.ring dir)).count m =
      w.owners api m + (api.content r).count m := by
  have less := countErase own m
  have back : (pkt :: (w.held dir.receiver).erase pkt).count m = (w.held dir.receiver).count m := by
    rw [List.count_cons, ← less]
    simp only [beq_iff_eq, eq_comm (a := m)]
  cases dir <;> simp only [World.owners, World.received, ringSet, Dir.receiver] at * <;> simp <;> omega

theorem stepSend {w u : World R Ptr} {dir pkt ev} (ok : step api w (.send dir pkt) = some (ev, u)) :
    pkt ∈ w.held dir.sender ∧ ev.call = .send dir pkt ∧
      ev.result = (enqueue api w.errno (w.channel.ring dir) pkt).1 ∧
      (∀ other, u.channel.ring other =
        if other = dir then (enqueue api w.errno (w.channel.ring dir) pkt).2 else w.channel.ring other) ∧
      ∀ m, u.owners api m + (if m = pkt then 1 else 0) + (api.content (w.channel.ring dir)).count m =
        w.owners api m + (api.content (enqueue api w.errno (w.channel.ring dir) pkt).2).count m := by
  simp only [step] at ok
  split at ok <;> try contradiction
  rename_i own
  have same : (ev, u) = w.sent dir pkt ((enqueue api w.errno (w.channel.ring dir) pkt).1,
      w.channel.set dir (enqueue api w.errno (w.channel.ring dir) pkt).2) := by
    cases dir <;> exact (Option.some.inj ok).symm
  obtain ⟨rfl, rfl⟩ := Prod.mk.inj same
  exact ⟨own, rfl, rfl, fun other => ringSet _ _ _ _, ownersSent api own _ _⟩

theorem stepReceive {w u : World R Ptr} {dir pkt ev} (ok : step api w (.receive dir pkt) = some (ev, u)) :
    ev.call = .receive dir pkt ∧ ev.result = (dequeue api w.errno (w.channel.ring dir) pkt).1 ∧
      (∀ other, u.channel.ring other =
        if other = dir then (dequeue api w.errno (w.channel.ring dir) pkt).2.2 else w.channel.ring other) ∧
      ∀ m, u.owners api m + (api.content (w.channel.ring dir)).count m =
        w.owners api m + (api.content (dequeue api w.errno (w.channel.ring dir) pkt).2.2).count m := by
  simp only [step] at ok
  split at ok <;> try contradiction
  rename_i own
  have same : (ev, u) = w.received dir pkt ((dequeue api w.errno (w.channel.ring dir) pkt).1, pkt,
      w.channel.set dir (dequeue api w.errno (w.channel.ring dir) pkt).2.2) := by
    cases dir <;> exact (Option.some.inj ok).symm
  obtain ⟨rfl, rfl⟩ := Prod.mk.inj same
  exact ⟨rfl, rfl, fun other => ringSet _ _ _ _, ownersReceived api own _ _⟩

structure Lossless (start : World R Ptr) (events : List (Event R Ptr)) (w : World R Ptr) : Prop where
  ordered : ∀ dir, receivedOn dir events <+: sentOn dir events
  returned : ∀ ev ∈ events, ∀ dir pkt e, ev.call = .send dir pkt → ev.result = .error e →
    ev.after.channel.ring dir = ev.before.channel.ring dir ∧
      (pkt ∈ ev.after.held dir.sender ∨ pkt ∈ ev.after.pool)
  owned : ∀ m, start.owners api m = 1 → w.owners api m = 1

/- What the calls `done` leave as long as they are unread: the rings hold all that was
sent, nothing was received or refused, and every buffer has the owners it had. -/
structure Clean (start : World R Ptr) (done : List (Call Ptr)) (past : List (Event R Ptr)) (w : World R Ptr) :
    Prop where
  content : ∀ dir, api.content (w.channel.ring dir) = sentOn dir past
  length : ∀ dir, (sentOn dir past).length = sends dir done
  space : ∀ dir, api.space (w.channel.ring dir) + sends dir done = api.space (start.channel.ring dir)
  received : ∀ dir, receivedOn dir past = []
  accepted : ∀ ev ∈ past, ∀ dir pkt, ev.call = .send dir pkt → ev.result = .ok ()
  owners : ∀ m, w.owners api m = start.owners api m

theorem cleanLossless {start : World R Ptr} {done past w} (h : Clean api start done past w) :
    Lossless api start past w where
  ordered dir := by
    rw [h.received]
    exact List.nil_prefix
  returned ev member dir pkt e called error := by
    rw [h.accepted ev member dir pkt called] at error
    cases error
  owned m one := by rw [h.owners, one]

theorem cleanSend {start w u : World R Ptr} {done past dir pkt ev} (h : Clean api start done past w)
    (room : sends dir done < api.space (start.channel.ring dir))
    (ok : step api w (.send dir pkt) = some (ev, u)) :
    Clean api start (done ++ [.send dir pkt]) (past ++ [ev]) u := by
  obtain ⟨_, called, result, rings, owners⟩ := stepSend api ok
  have space := h.space dir
  obtain ⟨stored, content, less⟩ := enqueueRoom api w.errno (show 0 < api.space (w.channel.ring dir) by omega) pkt
  rw [stored] at result
  constructor
  case content =>
    intro other
    rw [sentOnSent called result, rings]
    split
    · rename_i same
      rw [content, same, h.content]
    · exact h.content other
  case length =>
    intro other
    rw [sentOnSent called result, sendsSnoc, Call.sends, ← h.length]
    split
    · rename_i same
      simp [same]
    · rename_i different
      simp [Ne.symm different]
  case space =>
    intro other
    have before := h.space other
    rw [sendsSnoc, Call.sends, rings]
    split
    · rename_i same
      subst same
      rw [if_pos rfl]
      omega
    · rename_i different
      rw [if_neg (Ne.symm different)]
      exact before
  case received =>
    intro other
    rw [receivedOnSend called]
    exact h.received other
  case accepted => exact List.forall_mem_append.mpr ⟨h.accepted, List.forall_mem_singleton.mpr (fun _ _ _ => result)⟩
  case owners =>
    intro m
    have balance := owners m
    rw [content, List.count_append, List.count_singleton] at balance
    rw [← h.owners]
    simp only [beq_iff_eq, eq_comm (a := pkt)] at balance
    omega

theorem cleanReceive {start w u : World R Ptr} {done past dir pkt ev} (h : Clean api start done past w)
    (none : sends dir done = 0) (ok : step api w (.receive dir pkt) = some (ev, u)) :
    Clean api start (done ++ [.receive dir pkt]) (past ++ [ev]) u := by
  obtain ⟨called, result, rings, owners⟩ := stepReceive api ok
  have empty : api.content (w.channel.ring dir) = [] := by
    rw [h.content]
    exact List.eq_nil_of_length_eq_zero ((h.length dir).trans none)
  obtain ⟨error, same⟩ := dequeueNothing api w.errno empty pkt
  rw [error] at result
  have still : ∀ other, u.channel.ring other = w.channel.ring other := by
    intro other
    rw [rings, same]
    split
    · rename_i here
      rw [here]
    · rfl
  have count : ∀ other, sends other (done ++ [.receive dir pkt]) = sends other done := by
    intro other
    rw [sendsSnoc]
    rfl
  constructor
  case content => intro other; rw [still, sentOnReceive called]; exact h.content other
  case length => intro other; rw [sentOnReceive called, count]; exact h.length other
  case space => intro other; rw [still, count]; exact h.space other
  case received => intro other; rw [receivedOnError result]; exact h.received other
  case accepted =>
    refine List.forall_mem_append.mpr ⟨h.accepted, List.forall_mem_singleton.mpr ?_⟩
    intro other handle sent
    rw [called] at sent
    cases sent
  case owners =>
    intro m
    have balance := owners m
    simp only [same] at balance
    rw [← h.owners]
    omega

theorem lostOnSend {start w u : World R Ptr} {done past dir pkt ev} (h : Clean api start done past w)
    (once : ∀ m, start.owners api m ≤ 1) (full : ¬ sends dir done < api.space (start.channel.ring dir))
    (ok : step api w (.send dir pkt) = some (ev, u)) : ∃ m, start.owners api m = 1 ∧ u.owners api m = 0 := by
  obtain ⟨own, _, _, _, owners⟩ := stepSend api ok
  have space := h.space dir
  have balance := owners pkt
  rw [enqueueNoRoom api w.errno (by omega), if_pos rfl] at balance
  have before := h.owners pkt
  have most := once pkt
  exact ⟨pkt, by omega, by omega⟩

theorem lostOnReceive {start w u : World R Ptr} {done past dir pkt ev} (h : Clean api start done past w)
    (once : ∀ m, start.owners api m ≤ 1) (sent : sends dir done ≠ 0)
    (ok : step api w (.receive dir pkt) = some (ev, u)) : ∃ m, start.owners api m = 1 ∧ u.owners api m = 0 := by
  obtain ⟨_, _, _, owners⟩ := stepReceive api ok
  have filled : api.content (w.channel.ring dir) ≠ [] := by
    intro empty
    rw [← h.length, ← h.content, empty] at sent
    exact sent rfl
  obtain ⟨oldest, rest, found⟩ := List.exists_cons_of_ne_nil filled
  have balance := owners oldest
  rw [dequeueFound api w.errno found, found, List.count_cons_self] at balance
  have before := h.owners oldest
  have most := once oldest
  exact ⟨oldest, by omega, by omega⟩

structure Judged (start : World R Ptr) (calls : List (Call Ptr)) (events : List (Event R Ptr)) (u : World R Ptr) :
    Prop where
  exactly : (∀ front evs w, front <+: calls → run (step api) start front = some (evs, w) →
    Lossless api start evs w) ↔ Unread api start calls
  clean : Unread api start calls → Clean api start calls events u

theorem judgedSnoc {start w u : World R Ptr} {calls past c ev} (h : Judged api start calls past w)
    (ran : run (step api) start calls = some (past, w)) (ok : step api w c = some (ev, u))
    {more : Prop} (split : Unread api start (calls ++ [c]) ↔ Unread api start calls ∧ more)
    (keeps : Clean api start calls past w → more → Clean api start (calls ++ [c]) (past ++ [ev]) u)
    (loses : Clean api start calls past w → ¬ more → ∃ m, start.owners api m = 1 ∧ u.owners api m = 0) :
    Judged api start (calls ++ [c]) (past ++ [ev]) u := by
  have whole := Lib.Run.runExtend ran ok
  have clean : Unread api start (calls ++ [c]) → Clean api start (calls ++ [c]) (past ++ [ev]) u := by
    intro unread
    obtain ⟨before, met⟩ := split.mp unread
    exact keeps (h.clean before) met
  refine ⟨⟨?_, ?_⟩, clean⟩
  · intro lossless
    have before : Unread api start calls := h.exactly.mp (fun front evs v inside reached =>
      lossless front evs v (inside.trans (List.prefix_append _ _)) reached)
    apply split.mpr
    refine ⟨before, ?_⟩
    by_contra not
    obtain ⟨m, one, zero⟩ := loses (h.clean before) not
    have kept := (lossless _ _ _ (List.prefix_refl _) whole).owned m one
    omega
  · intro unread front evs v inside reached
    rcases List.prefix_concat_iff.mp inside with all | before
    · rw [all, whole] at reached
      cases reached
      exact cleanLossless api (clean unread)
    · exact h.exactly.mpr (split.mp unread).1 front evs v before reached

theorem judgedStart {start : World R Ptr} (empty : ∀ dir, api.content (start.channel.ring dir) = []) :
    Judged api start [] [] start := by
  have clean : Clean api start [] [] start :=
    ⟨empty, fun _ => rfl, fun _ => rfl, fun _ => rfl, by simp, fun _ => rfl⟩
  have unread : Unread api start [] := ⟨fun _ => Nat.zero_le _, by simp⟩
  refine ⟨⟨fun _ => unread, ?_⟩, fun _ => clean⟩
  intro _ front evs v inside reached
  rw [List.prefix_nil.mp inside] at reached
  cases reached
  exact cleanLossless api clean

theorem judgedRun {start : World R Ptr} (empty : ∀ dir, api.content (start.channel.ring dir) = [])
    (once : ∀ m, start.owners api m ≤ 1) {calls events u} (ran : run (step api) start calls = some (events, u)) :
    Judged api start calls events u := by
  induction calls using List.reverseRecOn generalizing events u with
  | nil =>
    cases ran
    exact judgedStart api empty
  | append_singleton calls c ih =>
    obtain ⟨past, w, ev, before, ok, rfl⟩ := runSnoc ran
    have judged := ih before
    cases c with
    | send dir pkt =>
      exact judgedSnoc api judged before ok unreadSend (fun clean room => cleanSend api clean room ok)
        (fun clean full => lostOnSend api clean once full ok)
    | receive dir pkt =>
      exact judgedSnoc api judged before ok unreadReceive (fun clean none => cleanReceive api clean none ok)
        (fun clean sent => lostOnReceive api clean once sent ok)

theorem channelLosslessIffUnread (start : World R Ptr) (empty : ∀ dir, api.content (start.channel.ring dir) = [])
    (once : ∀ m, start.owners api m ≤ 1) (calls : List (Call Ptr)) (events : List (Event R Ptr)) (u : World R Ptr)
    (ran : run (step api) start calls = some (events, u)) :
    (∀ front evs w, front <+: calls → run (step api) start front = some (evs, w) → Lossless api start evs w) ↔
      Unread api start calls :=
  (judgedRun api empty once ran).exactly

end Step

def sampleChannel : Channel { items : List Nat // items.length ≤ 511 } := ⟨⟨[], by decide⟩, ⟨[], by decide⟩⟩

def sampleWorld : World { items : List Nat // items.length ≤ 511 } Nat :=
  ⟨sampleChannel, fun | .engine => [1, 2] | .packetiser => [3], [], 0⟩

theorem sampleOwners (m : Nat) : sampleWorld.owners (listRing Nat 511) m ≤ 1 := by
  have held : sampleWorld.owners (listRing Nat 511) m = [1, 2, 3].count m := by
    simp [World.owners, sampleWorld, sampleChannel, listRing, Channel.ring, List.count_cons]
    omega
  rw [held]
  exact List.nodup_iff_count_le_one.mp (by decide) m

theorem channelLosslessIffUnreadAtSample :
    ∃ events u, run (step (listRing Nat 511)) sampleWorld [.receive .toPacketiser 3, .send .toPacketiser 1] =
        some (events, u) ∧
      ((∀ front evs w, front <+: [.receive .toPacketiser 3, .send .toPacketiser 1] →
          run (step (listRing Nat 511)) sampleWorld front = some (evs, w) →
          Lossless (listRing Nat 511) sampleWorld evs w) ↔
        Unread (listRing Nat 511) sampleWorld [.receive .toPacketiser 3, .send .toPacketiser 1]) :=
  ⟨_, _, rfl, channelLosslessIffUnread (listRing Nat 511) sampleWorld (fun dir => by cases dir <;> rfl)
    sampleOwners _ _ _ rfl⟩

theorem receivedPacketLost :
    ∃ events u, run (step (listRing Nat 511)) sampleWorld [.send .toPacketiser 1, .receive .toPacketiser 3] =
        some (events, u) ∧
      receivedOn .toPacketiser events = [3] ∧ ¬ Lossless (listRing Nat 511) sampleWorld events u := by
  refine ⟨_, _, rfl, rfl, ?_⟩
  intro lossless
  exact absurd (lossless.owned 1 (by decide)) (by decide)

end Vdp.Ring
