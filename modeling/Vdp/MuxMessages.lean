import Vdp.Channel
import Vdp.Lib.Run
import Vdp.Mux

/-! `Mux::xmit` and `Mux::recv`, which carry a vector of bytes in a buffer of the pool. The
buffers stand in memory that both processes map. `xmit` forgets its buffer, also when the ring
is full; `recv` stores the vector it is to fill, and drops that buffer at its end. -/
namespace Vdp.Mux
open Lib.Run (run runInvariant)
open Mbuf (RteMempool fromBytesIn fromBytesInCases listMempool)

structure Shared (P R Ptr : Type) where
  mempool : P
  channel : Ring.Channel R
  memory : Ptr → Mbuf

inductive Call where
  | xmit (errno : Int) (buf : Mbuf.ByteSlice)
  | recv (errno : Int) (buf : Mbuf.ByteSlice)

def Call.buf : Call → Mbuf.ByteSlice
  | .xmit _ buf => buf
  | .recv _ buf => buf

def Call.errno : Call → Int
  | .xmit errno _ => errno
  | .recv errno _ => errno

structure Answer where
  call : Call
  result : Except Ring.MemoryError Unit
  buf : Mbuf.ByteSlice
  stored : Bool

section Code
variable {P R Ptr : Type} [DecidableEq Ptr] (pool : RteMempool P Ptr) (api : Ring.RteRing R Ptr)

def xmit (errno : Int) (buf : Mbuf.ByteSlice) (s : Shared P R Ptr) : Answer × Shared P R Ptr :=
  match fromBytesIn pool s.mempool buf with
  | (.ok (pkt, mbuf), mempool) =>
    let (result, channel) := Ring.sendToEngine api errno s.channel pkt
    (⟨.xmit errno buf, result, buf, true⟩, ⟨mempool, channel, Function.update s.memory pkt mbuf⟩)
  | (.error _, mempool) => (⟨.xmit errno buf, .error .noMem, buf, false⟩, { s with mempool })

def recv (errno : Int) (buf : Mbuf.ByteSlice) (s : Shared P R Ptr) : Answer × Shared P R Ptr :=
  match fromBytesIn pool s.mempool buf with
  | (.ok (pkt, mbuf), mempool) =>
    let (result, kept, channel) := Ring.receiveFromEngine api errno s.channel pkt
    (⟨.recv errno buf, result, buf, true⟩,
      ⟨pool.pktmbufFree mempool kept, channel, Function.update s.memory pkt mbuf⟩)
  | (.error _, mempool) => (⟨.recv errno buf, .error .noMem, buf, false⟩, { s with mempool })

def stepCall (s : Shared P R Ptr) : Call → Option (Answer × Shared P R Ptr)
  | .xmit errno buf => some (xmit pool api errno buf s)
  | .recv errno buf => some (recv pool api errno buf s)

def messages (s : Shared P R Ptr) : List (List UInt8) :=
  (api.content s.channel.toEngine).map (fun pkt => Mbuf.data (s.memory pkt))

end Code

def Answer.ok (a : Answer) : Bool := match a.result with
  | .ok () => true
  | .error _ => false

def sentBy (a : Answer) : List (List UInt8) := match a.call with
  | .xmit _ buf => if a.ok then [buf.bytes] else []
  | .recv _ _ => []

def takenBy (a : Answer) : Nat := match a.call with
  | .xmit _ _ => 0
  | .recv _ _ => if a.ok then 1 else 0

def spentBy (a : Answer) : Nat := match a.call with
  | .xmit _ _ => if a.stored then 1 else 0
  | .recv _ _ => 0

section Calls
variable {P R Ptr : Type} [DecidableEq Ptr] {pool : RteMempool P Ptr} {api : Ring.RteRing R Ptr}

variable (api) in
def ready (s : Shared P R Ptr) : Call → Bool
  | .xmit _ _ => 0 < api.space s.channel.toEngine
  | .recv _ _ => !(api.content s.channel.toPacketiser).isEmpty

variable (pool) in
def Fits (s : Shared P R Ptr) (buf : Mbuf.ByteSlice) : Prop :=
  ∃ ptr m q, pool.pktmbufAlloc s.mempool = some (ptr, m, q) ∧ 1 ≤ buf.bytes.length ∧
    buf.bytes.length ≤ m.bufLen.toNat - m.dataOff.toNat

variable (pool api) in
def Apart (s : Shared P R Ptr) : Prop :=
  ∀ pkt ∈ api.content s.channel.toEngine, pkt ∉ pool.available s.mempool

variable (pool api) in
structure Did (s : Shared P R Ptr) (a : Answer) (t : Shared P R Ptr) : Prop where
  stored : a.stored = true ↔ Fits pool s a.call.buf
  result : a.result = if a.stored then (if ready api s a.call then .ok () else .error (.new a.call.errno))
    else .error .noMem
  vector : a.buf = a.call.buf
  messages : messages api t = messages api s ++ sentBy a
  room : api.space t.channel.toEngine + (sentBy a).length = api.space s.channel.toEngine
  packets : api.content t.channel.toPacketiser = (api.content s.channel.toPacketiser).drop (takenBy a)
  spent : ∃ spent, spent.length = spentBy a ∧ ∀ start pkts, Taken pool start s.mempool pkts →
    Taken pool start t.mempool (pkts ++ spent)
  apart : Apart pool api t

theorem messagesUpdated {s : Shared P R Ptr} {pkt : Ptr} (apart : Apart pool api s)
    (free : pkt ∈ pool.available s.mempool) (mbuf : Mbuf) :
    (api.content s.channel.toEngine).map (fun x => Mbuf.data (Function.update s.memory pkt mbuf x)) =
      messages api s := by
  apply List.map_congr_left
  intro x member
  have other : x ≠ pkt := by
    rintro rfl
    exact apart x member free
  rw [Function.update_of_ne other]

omit [DecidableEq Ptr] in
theorem refusedDid {s : Shared P R Ptr} {c : Call} {q : P} (apart : Apart pool api s)
    (same : pool.available q = pool.available s.mempool) (unfit : ¬ Fits pool s c.buf) :
    Did pool api s ⟨c, .error .noMem, c.buf, false⟩ { s with mempool := q } where
  stored := by simpa using unfit
  result := rfl
  vector := rfl
  messages := by cases c <;> simp [sentBy, Answer.ok, messages]
  room := by cases c <;> simp [sentBy, Answer.ok]
  packets := by cases c <;> simp [takenBy, Answer.ok]
  spent := by
    refine ⟨[], by cases c <;> rfl, ?_⟩
    intro start pkts taken
    rw [List.append_nil]
    exact ⟨taken.distinct, taken.free, same.trans taken.rest⟩
  apart := by
    intro pkt member
    rw [same]
    exact apart pkt member

omit [DecidableEq Ptr] in
theorem unfitOf {s : Shared P R Ptr} {buf : Mbuf.ByteSlice}
    (refused : ∀ ptr m r, pool.pktmbufAlloc s.mempool = some (ptr, m, r) →
      ¬ (1 ≤ buf.bytes.length ∧ buf.bytes.length ≤ m.bufLen.toNat - m.dataOff.toNat)) : ¬ Fits pool s buf := by
  rintro ⟨ptr, m, q, found, some, fits⟩
  exact refused ptr m q found ⟨some, fits⟩

theorem xmitDid {s : Shared P R Ptr} (apart : Apart pool api s) (errno : Int) (buf : Mbuf.ByteSlice) :
    Did pool api s (xmit pool api errno buf s).1 (xmit pool api errno buf s).2 := by
  rcases fromBytesInCases pool s.mempool buf with
    ⟨pkt, m, q, out, found, some, fits, holds, got⟩ | ⟨error, q, same, failed, refused⟩
  · obtain ⟨free, less⟩ := pool.allocated _ _ _ _ found
    have taken : ∀ start pkts, Taken pool start s.mempool pkts → Taken pool start q (pkts ++ [pkt]) :=
      fun start pkts taken => takenAlloc pool taken found
    have others := messagesUpdated apart free out
    by_cases room : 0 < api.space s.channel.toEngine
    · obtain ⟨sent, content, left⟩ := Ring.enqueueRoom api errno room pkt
      simp only [xmit, got, Ring.sendToEngine, sent]
      constructor
      case stored => exact ⟨fun _ => ⟨pkt, m, q, found, some, fits⟩, fun _ => rfl⟩
      case result => simp [ready, room]
      case vector => rfl
      case messages =>
        simp only [messages, content, List.map_append, List.map_singleton, Function.update_self, holds.data]
        rw [others]
        rfl
      case room => exact left
      case packets => rfl
      case spent => exact ⟨[pkt], rfl, taken⟩
      case apart =>
        intro x member
        rw [content] at member
        rw [less]
        rcases List.mem_append.mp member with before | now
        · exact fun inside => apart x before inside.1
        · exact fun inside => inside.2 (List.mem_singleton.mp now)
    · obtain ⟨code, full⟩ := api.enqueueFull s.channel.toEngine pkt (Nat.eq_zero_of_not_pos room)
      simp only [xmit, got, Ring.sendToEngine, Ring.enqueue, if_neg code, full]
      constructor
      case stored => exact ⟨fun _ => ⟨pkt, m, q, found, some, fits⟩, fun _ => rfl⟩
      case result => simp [ready, room, Call.errno]
      case vector => rfl
      case messages =>
        simp only [messages, sentBy, Answer.ok, Bool.false_eq_true, if_false, List.append_nil]
        exact others
      case room => rfl
      case packets => rfl
      case spent => exact ⟨[pkt], rfl, taken⟩
      case apart =>
        intro x member
        rw [less]
        exact fun inside => apart x member inside.1
  · simp only [xmit, failed]
    exact refusedDid (c := .xmit errno buf) apart same (unfitOf refused)

theorem recvDid {s : Shared P R Ptr} (apart : Apart pool api s) (errno : Int) (buf : Mbuf.ByteSlice) :
    Did pool api s (recv pool api errno buf s).1 (recv pool api errno buf s).2 := by
  rcases fromBytesInCases pool s.mempool buf with
    ⟨pkt, m, q, out, found, some, fits, holds, got⟩ | ⟨error, q, same, failed, refused⟩
  · obtain ⟨free, less⟩ := pool.allocated _ _ _ _ found
    have back := Mbuf.givenBack pool found
    have others := messagesUpdated apart free out
    have done : ∀ result ring, (result = if ready api s (.recv errno buf) then .ok () else .error (.new errno)) →
        api.content ring = (api.content s.channel.toPacketiser).drop
          (takenBy ⟨.recv errno buf, result, buf, true⟩) →
        Did pool api s ⟨.recv errno buf, result, buf, true⟩ ⟨pool.pktmbufFree q pkt,
          { s.channel with toPacketiser := ring }, Function.update s.memory pkt out⟩ := by
      intro result ring answered left
      constructor
      case stored => exact ⟨fun _ => ⟨pkt, m, q, found, some, fits⟩, fun _ => rfl⟩
      case result => exact answered
      case vector => rfl
      case messages =>
        rw [sentBy, List.append_nil]
        exact others
      case room => rfl
      case packets => exact left
      case spent =>
        refine ⟨[], rfl, ?_⟩
        intro start pkts taken
        rw [List.append_nil]
        exact ⟨taken.distinct, taken.free, back.trans taken.rest⟩
      case apart =>
        intro x member
        rw [back]
        exact apart x member
    cases queued : api.content s.channel.toPacketiser with
    | nil =>
      obtain ⟨error, same⟩ := Ring.dequeueNothing api errno queued pkt
      simp only [recv, got, Ring.receiveFromEngine, error, same]
      exact done _ _ (by simp [ready, queued]) (by simp [queued])
    | cons oldest rest =>
      obtain ⟨code, _, left, _⟩ := api.dequeued s.channel.toPacketiser pkt oldest rest queued
      simp only [recv, got, Ring.receiveFromEngine, Ring.dequeue, code, if_true]
      exact done _ _ (by simp [ready, queued]) (by rw [left, queued]; rfl)
  · simp only [recv, failed]
    exact refusedDid (c := .recv errno buf) apart same (unfitOf refused)

variable (pool api) in
structure Queued (start : Shared P R Ptr) (es : List Answer) (s : Shared P R Ptr) : Prop where
  messages : messages api s = messages api start ++ es.flatMap sentBy
  room : api.space s.channel.toEngine + (es.flatMap sentBy).length = api.space start.channel.toEngine
  packets : api.content s.channel.toPacketiser =
    (api.content start.channel.toPacketiser).drop (es.map takenBy).sum
  vectors : ∀ e ∈ es, e.buf = e.call.buf
  spent : ∃ spent, spent.length = (es.map spentBy).sum ∧ Taken pool start.mempool s.mempool spent

omit [DecidableEq Ptr] in
theorem queuedStart (start : Shared P R Ptr) : Queued pool api start [] start where
  messages := by simp
  room := by simp
  packets := by simp
  vectors := by simp
  spent := ⟨[], rfl, takenNone pool start.mempool⟩

omit [DecidableEq Ptr] in
theorem queuedNext {start s t : Shared P R Ptr} {es : List Answer} {a : Answer} (so : Queued pool api start es s)
    (did : Did pool api s a t) : Queued pool api start (es ++ [a]) t where
  messages := by rw [did.messages, so.messages, List.flatMap_append, List.flatMap_singleton, List.append_assoc]
  room := by
    rw [List.flatMap_append, List.flatMap_singleton, List.length_append, ← so.room, ← did.room]
    omega
  packets := by
    rw [did.packets, so.packets, List.drop_drop, List.map_append, List.sum_append, List.map_singleton,
      List.sum_singleton]
  vectors := by
    intro e member
    rcases List.mem_append.mp member with before | now
    · exact so.vectors e before
    · rw [List.mem_singleton.mp now]
      exact did.vector
  spent := by
    obtain ⟨before, count, taken⟩ := so.spent
    obtain ⟨now, one, more⟩ := did.spent
    refine ⟨before ++ now, ?_, more _ _ taken⟩
    rw [List.length_append, count, one, List.map_append, List.sum_append, List.map_singleton, List.sum_singleton]

theorem stepCallDid {s : Shared P R Ptr} (apart : Apart pool api s) (c : Call) :
    ∃ a t, stepCall pool api s c = some (a, t) ∧ a.call = c ∧ Did pool api s a t := by
  cases c with
  | xmit errno buf =>
    refine ⟨_, _, rfl, ?_, xmitDid apart errno buf⟩
    split <;> rfl
  | recv errno buf =>
    refine ⟨_, _, rfl, ?_, recvDid apart errno buf⟩
    split <;> rfl

variable (pool api) in
theorem messagesQueueUp (start : Shared P R Ptr) (apart : Apart pool api start) (calls : List Call) :
    ∃ es u, run (stepCall pool api) start calls = some (es, u) ∧ es.map Answer.call = calls ∧
      Queued pool api start es u ∧
      ∀ c, ∃ a t, stepCall pool api u c = some (a, t) ∧ a.call = c ∧ Did pool api u a t := by
  obtain ⟨es, u, ran, same, so, still⟩ := @Lib.Run.runTotal _ _ _ (stepCall pool api)
    (fun calls es u => es.map Answer.call = calls ∧ Queued pool api start es u ∧ Apart pool api u)
    (by
      rintro done past s c ⟨same, so, apart⟩
      obtain ⟨a, t, now, called, did⟩ := stepCallDid apart c
      exact ⟨a, t, now, by rw [List.map_append, same, List.map_singleton, called], queuedNext so did, did.apart⟩)
    start ⟨rfl, queuedStart start, apart⟩ calls
  exact ⟨es, u, ran, same, so, stepCallDid still⟩

end Calls

def hello : Mbuf.ByteSlice := ⟨[104, 105], by decide⟩

def smallShared : Shared (List Nat) { items : List Nat // items.length ≤ 1 } Nat :=
  ⟨[4, 5], ⟨⟨[], by decide⟩, ⟨[], by decide⟩⟩, fun _ => ⟨2176, 128, 0, 0, fun _ => 0⟩⟩

theorem messagesQueueUpAtTwo :
    ∃ es u, run (stepCall (listMempool Nat) (Ring.listRing Nat 1)) smallShared
        [.xmit 105 hello, .xmit 105 hello, .xmit 105 hello, .recv 2 hello] = some (es, u) ∧
      es.map Answer.call = [.xmit 105 hello, .xmit 105 hello, .xmit 105 hello, .recv 2 hello] ∧
      Queued (listMempool Nat) (Ring.listRing Nat 1) smallShared es u ∧
      ∀ c, ∃ a t, stepCall (listMempool Nat) (Ring.listRing Nat 1) u c = some (a, t) ∧ a.call = c ∧
        Did (listMempool Nat) (Ring.listRing Nat 1) u a t :=
  messagesQueueUp (listMempool Nat) (Ring.listRing Nat 1) smallShared (by rintro pkt ⟨⟩) _

end Vdp.Mux
