import Mathlib.Data.List.Induction
import Mathlib.Logic.Function.Basic
import Vdp.IpcQueue

/-! The shared-memory interface of `memenpsf` and two of its endpoints over one
region. The descriptor hand-over, `ftruncate` and `mmap` are outside: an endpoint starts
from the address the region is mapped at. Each endpoint has its own ring indices; what
`stream.write` is handed is kept in order, and no code of the crate reads it back. -/
namespace Vdp.Memenpsf
open Lib.Slots IpcQueue
open Lib.Run (run replies final)

def mtu : Nat := 1536

abbrev Packet := Vector UInt8 mtu
abbrev Shm := Int → UInt8
abbrev Message := UInt8 × UInt8

def slots : SlotMemory Shm Packet := blocks mtu (by decide)

inductive Side where
  | s2c
  | c2s
  deriving DecidableEq, Repr

structure MemEnpsf where
  name : String
  s2cQ : RingBuf
  c2sQ : RingBuf
  cap : UInt64
  deriving DecidableEq, Repr

/- `shm.offset((cap * MTU) as isize)`: the product wraps as in a release build. -/
def MemEnpsf.new (name : String) (cap : UInt64) (shm : Int) : MemEnpsf :=
  let bsS2c := shm
  let bsC2s := shm + (cap * UInt64.ofNat mtu).toInt64.toInt
  ⟨name, RingBuf.new bsS2c cap, RingBuf.new bsC2s cap, cap⟩

def MemEnpsf.queue (dev : MemEnpsf) : Side → RingBuf
  | .s2c => dev.s2cQ
  | .c2s => dev.c2sQ

def MemEnpsf.setQueue (dev : MemEnpsf) : Side → RingBuf → MemEnpsf
  | .s2c, r => { dev with s2cQ := r }
  | .c2s, r => { dev with c2sQ := r }

structure Effect (R : Type) where
  ret : R
  dev : MemEnpsf
  shm : Shm
  message : Message

/- All four operations hand the stream the pointers of `c2s_q`, whichever queue they
worked on. -/
def recvOn (side : Side) (dev : MemEnpsf) (shm : Shm) : Option (Effect (Option (Slot Packet))) := do
  let fx ← pop slots (dev.queue side) shm
  let dev := dev.setQueue side fx.ring
  some ⟨fx.ret, dev, fx.mem, dev.c2sQ.pointers⟩

def xmitOn (side : Side) (dev : MemEnpsf) (shm : Shm) (buf : Packet) :
    Option (Effect (Except IoError Unit)) := do
  let fx ← push slots (dev.queue side) shm buf
  let dev := dev.setQueue side fx.ring
  some ⟨fx.ret, dev, fx.mem, dev.c2sQ.pointers⟩

def recvFromClient := recvOn .c2s
def xmitToClient := xmitOn .s2c
def recvFromSrv := recvOn .s2c
def xmitToSrv := xmitOn .c2s

/- A server and a client endpoint. `toClient` and `toServer` are the control messages
each side has written; a `MemEnpsf` never takes one off. -/
structure System where
  server : MemEnpsf
  client : MemEnpsf
  shm : Shm
  toClient : List Message
  toServer : List Message

def connect (cap : UInt64) (region : Int) (shm : Shm) : System :=
  ⟨MemEnpsf.new "server" cap region, MemEnpsf.new "client" cap region, shm, [], []⟩

/- `xmit .s2c` and `recv .c2s` are calls of the server, `xmit .c2s` and `recv .s2c` of
the client. -/
inductive Call where
  | xmit (side : Side) (pkt : Packet)
  | recv (side : Side)
  deriving DecidableEq, Repr

def System.onServer {R : Type} (s : System) (fx : Effect R) : System :=
  { s with server := fx.dev, shm := fx.shm, toClient := s.toClient ++ [fx.message] }

def System.onClient {R : Type} (s : System) (fx : Effect R) : System :=
  { s with client := fx.dev, shm := fx.shm, toServer := s.toServer ++ [fx.message] }

def step (s : System) : Call → Option (Ret Packet × System)
  | .xmit .s2c pkt => (xmitToClient s.server s.shm pkt).map (fun fx => (.push fx.ret, s.onServer fx))
  | .recv .c2s => (recvFromClient s.server s.shm).map (fun fx => (.pop fx.ret, s.onServer fx))
  | .recv .s2c => (recvFromSrv s.client s.shm).map (fun fx => (.pop fx.ret, s.onClient fx))
  | .xmit .c2s pkt => (xmitToSrv s.client s.shm pkt).map (fun fx => (.push fx.ret, s.onClient fx))

abbrev Channels := Side → List Packet

def channels (bound : Nat) (q : Channels) : Call → Ret Packet × Channels
  | .xmit side pkt =>
    let r := fifoSpec bound (q side) (.push pkt)
    (r.1, Function.update q side r.2)
  | .recv side =>
    let r := fifoSpec bound (q side) .pop
    (r.1, Function.update q side r.2)

def noPackets : Channels := fun _ => []

def ReceivesFirst (calls : List Call) : Prop :=
  ∀ side front, front ++ [.recv side] <+: calls → ∀ pkt, .xmit side pkt ∉ front

def System.sender (s : System) : Side → MemEnpsf
  | .s2c => s.server
  | .c2s => s.client

def System.receiver (s : System) : Side → MemEnpsf
  | .s2c => s.client
  | .c2s => s.server

/- After `sent side` accepted transmits the sender's own ring is that far ahead, and the
receiver's own copy of the same ring has not moved. -/
structure Unmoved (n : Nat) (s : System) (sent : Side → Nat) : Prop where
  outSize : ∀ side, ((s.sender side).queue side).size = n
  out : ∀ side, Indexed ((s.sender side).queue side) 0 (sent side)
  inSize : ∀ side, ((s.receiver side).queue side).size = n
  inn : ∀ side, Indexed ((s.receiver side).queue side) 0 0

theorem unmovedConnect {cap : UInt64} (region : Int) (shm : Shm) (nonzero : cap ≠ 0)
    (small : cap.toNat < 2 ^ 63) : Unmoved cap.toNat (connect cap region shm) (fun _ => 0) where
  outSize side := by cases side <;> exact sizeNew _ small
  out side := by cases side <;> exact indexedNew _ nonzero
  inSize side := by cases side <;> exact sizeNew _ small
  inn side := by cases side <;> exact indexedNew _ nonzero

theorem stepXmit {s : System} {side pkt fx}
    (done : push slots ((s.sender side).queue side) s.shm pkt = some fx) :
    ∃ t, step s (.xmit side pkt) = some (.push fx.ret, t) ∧
      (∀ other, (t.sender other).queue other =
        if other = side then fx.ring else (s.sender other).queue other) ∧
      ∀ other, (t.receiver other).queue other = (s.receiver other).queue other := by
  cases side <;> simp only [System.sender, MemEnpsf.queue] at done
  · refine ⟨_, by simp only [step, xmitToClient, xmitOn, MemEnpsf.queue, done]; rfl, ?_, ?_⟩ <;>
      intro other <;> cases other <;> rfl
  · refine ⟨_, by simp only [step, xmitToSrv, xmitOn, MemEnpsf.queue, done]; rfl, ?_, ?_⟩ <;>
      intro other <;> cases other <;> rfl

theorem stepRecv {s : System} {side fx}
    (done : pop slots ((s.receiver side).queue side) s.shm = some fx) :
    ∃ t, step s (.recv side) = some (.pop fx.ret, t) ∧
      (∀ other, (t.receiver other).queue other =
        if other = side then fx.ring else (s.receiver other).queue other) ∧
      ∀ other, (t.sender other).queue other = (s.sender other).queue other := by
  cases side <;> simp only [System.receiver, MemEnpsf.queue] at done
  · refine ⟨_, by simp only [step, recvFromSrv, recvOn, MemEnpsf.queue, done]; rfl, ?_, ?_⟩ <;>
      intro other <;> cases other <;> rfl
  · refine ⟨_, by simp only [step, recvFromClient, recvOn, MemEnpsf.queue, done]; rfl, ?_, ?_⟩ <;>
      intro other <;> cases other <;> rfl

theorem unmovedCongr {n s t sent} (u : Unmoved n s sent)
    (outs : ∀ side, (t.sender side).queue side = (s.sender side).queue side)
    (ins : ∀ side, (t.receiver side).queue side = (s.receiver side).queue side) : Unmoved n t sent where
  outSize side := by rw [outs]; exact u.outSize side
  out side := by rw [outs]; exact u.out side
  inSize side := by rw [ins]; exact u.inSize side
  inn side := by rw [ins]; exact u.inn side

theorem xmitFull {n s sent} (u : Unmoved n s sent) (side : Side) (full : sent side + 1 = n) (pkt : Packet) :
    ∃ t, step s (.xmit side pkt) = some (.push (.error bufFull), t) ∧ Unmoved n t sent := by
  have last : sent side + 1 = ((s.sender side).queue side).size := full.trans (u.outSize side).symm
  obtain ⟨t, taken, outs, ins⟩ := stepXmit (pushFull (u.out side) last slots s.shm pkt)
  refine ⟨t, taken, unmovedCongr u (fun other => ?_) ins⟩
  rw [outs]
  split
  · rename_i same
    rw [same]
  · rfl

theorem xmitRoom {n s sent side} (u : Unmoved n s sent) (room : sent side + 1 < n) (pkt : Packet) :
    ∃ t, step s (.xmit side pkt) = some (.push (.ok ()), t) ∧
      Unmoved n t (Function.update sent side (sent side + 1)) := by
  have size := u.outSize side
  have below : sent side + 1 < ((s.sender side).queue side).size := by omega
  obtain ⟨j, value, done⟩ := pushRoom (u.out side) below slots s.shm pkt
  obtain ⟨t, taken, outs, ins⟩ := stepXmit done
  refine ⟨t, taken, ?_, ?_, fun other => by rw [ins]; exact u.inSize other,
    fun other => by rw [ins]; exact u.inn other⟩ <;>
    intro other <;> rw [outs] <;> split <;> rename_i same <;> try subst same
  · exact size
  · exact u.outSize other
  · rw [Function.update_self]
    exact indexedPush (u.out _) below value
  · rw [Function.update_of_ne same]
    exact u.out other

theorem recvNothing {n s sent} (u : Unmoved n s sent) (side : Side) :
    ∃ t, step s (.recv side) = some (.pop none, t) ∧ Unmoved n t sent := by
  obtain ⟨t, taken, ins, outs⟩ := stepRecv (popEmpty (u.inn side) slots s.shm)
  refine ⟨t, taken, unmovedCongr u outs (fun other => ?_)⟩
  rw [ins]
  split
  · rename_i same
    rw [same]
  · rfl

theorem receivesFirstXmit (calls : List Call) (side : Side) (pkt : Packet) :
    ReceivesFirst (calls ++ [.xmit side pkt]) ↔ ReceivesFirst calls := by
  simp only [ReceivesFirst, List.prefix_concat_iff]
  constructor
  · intro h other front inside
    exact h other front (.inr inside)
  · rintro h other front (whole | inside)
    · simp at whole
    · exact h other front inside

theorem receivesFirstRecv (calls : List Call) (side : Side) :
    ReceivesFirst (calls ++ [.recv side]) ↔ ReceivesFirst calls ∧ ∀ pkt, .xmit side pkt ∉ calls := by
  simp only [ReceivesFirst, List.prefix_concat_iff]
  constructor
  · intro h
    exact ⟨fun other front inside => h other front (.inr inside), h side calls (.inl rfl)⟩
  · rintro ⟨h, absent⟩ other front (whole | inside)
    · obtain ⟨same, last⟩ := List.append_inj' whole rfl
      simp only [List.cons.injEq, Call.recv.injEq, and_true] at last
      rw [same, last]
      exact absent
    · exact h other front inside

structure Compared (n : Nat) (calls : List Call) (rets : List (Ret Packet)) (t : System)
    (sent : Side → Nat) : Prop where
  unmoved : Unmoved n t sent
  sentNone : ∀ side, sent side = 0 ↔ ∀ pkt, .xmit side pkt ∉ calls
  agree : rets = replies (channels (n - 1)) noPackets calls ↔ ReceivesFirst calls
  length : ReceivesFirst calls → ∀ side, (final (channels (n - 1)) noPackets calls side).length = sent side

theorem snocEq {α : Type} {xs ys : List α} {x y : α} : xs ++ [x] = ys ++ [y] ↔ xs = ys ∧ x = y := by
  constructor
  · intro h
    obtain ⟨front, last⟩ := List.append_inj' h rfl
    exact ⟨front, by simpa using last⟩
  · rintro ⟨rfl, rfl⟩
    rfl

theorem channelStored {n : Nat} {q : Channels} {side : Side} (room : (q side).length + 1 < n) (pkt : Packet) :
    channels (n - 1) q (.xmit side pkt) = (.push (.ok ()), Function.update q side (q side ++ [pkt])) := by
  simp only [channels, fifoSpec, Lib.Fifo.stepPush pkt (show (q side).length < n - 1 by omega), expected]

theorem channelRefused {n : Nat} {q : Channels} {side : Side} (full : ¬ (q side).length + 1 < n)
    (pkt : Packet) : channels (n - 1) q (.xmit side pkt) = (.push (.error bufFull), q) := by
  simp only [channels, fifoSpec, Lib.Fifo.stepFull pkt (show ¬ (q side).length < n - 1 by omega), expected,
    Function.update_eq_self]

theorem channelNothing {n : Nat} {q : Channels} {side : Side} (empty : q side = []) :
    channels (n - 1) q (.recv side) = (.pop none, q) := by
  simp only [channels, fifoSpec, empty, Lib.Fifo.step, expected]
  rw [← empty, Function.update_eq_self]

theorem channelTaken {n : Nat} {q : Channels} {side : Side} {e rest} (some' : q side = e :: rest) :
    (channels (n - 1) q (.recv side)).1 = .pop (some (.val e)) := by
  simp only [channels, fifoSpec, some', Lib.Fifo.step, expected]

theorem comparedStart {cap : UInt64} (region : Int) (shm : Shm) (nonzero : cap ≠ 0)
    (small : cap.toNat < 2 ^ 63) :
    Compared cap.toNat [] [] (connect cap region shm) (fun _ => 0) where
  unmoved := unmovedConnect region shm nonzero small
  sentNone side := by simp
  agree := by simp [replies, ReceivesFirst]
  length first side := rfl

theorem comparedSent {n calls rets t sent side pkt ret u sent'} (c : Compared n calls rets t sent)
    (next : Unmoved n u sent') (mine : sent' side ≠ 0) (others : ∀ other, other ≠ side → sent' other = sent other)
    (spec : ReceivesFirst calls → ∃ q, channels (n - 1) (final (channels (n - 1)) noPackets calls)
      (.xmit side pkt) = (ret, q) ∧ ∀ other, (q other).length = sent' other) :
    Compared n (calls ++ [.xmit side pkt]) (rets ++ [ret]) u sent' where
  unmoved := next
  sentNone other := by
    by_cases same : other = side
    · subst same
      have present : ¬ ∀ p, .xmit other p ∉ calls ++ [.xmit other pkt] := fun absent => absent pkt (by simp)
      simp only [mine, present]
    · rw [others other same, c.sentNone other]
      simp [same]
  agree := by
    rw [Lib.Run.repliesAppend, replies, replies, snocEq, receivesFirstXmit, c.agree]
    refine and_iff_left_of_imp (fun first => ?_)
    obtain ⟨q, answer, _⟩ := spec first
    rw [answer]
  length first other := by
    rw [receivesFirstXmit] at first
    obtain ⟨q, answer, lengths⟩ := spec first
    rw [Lib.Run.finalAppend, final, final, answer]
    exact lengths other

theorem comparedXmit {n calls rets t sent} (c : Compared n calls rets t sent)
    (side : Side) (pkt : Packet) (two : 2 ≤ n) :
    ∃ ret u sent', step t (.xmit side pkt) = some (ret, u) ∧
      Compared n (calls ++ [.xmit side pkt]) (rets ++ [ret]) u sent' := by
  have bound := (c.unmoved.out side).room
  rw [c.unmoved.outSize side] at bound
  by_cases room : sent side + 1 < n
  · obtain ⟨u, taken, next⟩ := xmitRoom c.unmoved room pkt
    refine ⟨_, u, _, taken, comparedSent c next (by simp) (fun other different => by simp [different]) ?_⟩
    intro first
    refine ⟨_, channelStored (by rw [c.length first side]; exact room) pkt, ?_⟩
    intro other
    by_cases same : other = side
    · subst same
      simp [c.length first other]
    · simp [Function.update_of_ne same, c.length first other]
  · obtain ⟨u, taken, next⟩ := xmitFull c.unmoved side (by omega) pkt
    refine ⟨_, u, _, taken, comparedSent c next (by omega) (fun other _ => rfl) ?_⟩
    intro first
    exact ⟨_, channelRefused (by rw [c.length first side]; exact room) pkt, c.length first⟩

theorem comparedRecv {n calls rets t sent} (c : Compared n calls rets t sent) (side : Side) :
    ∃ u, step t (.recv side) = some (.pop none, u) ∧
      Compared n (calls ++ [.recv side]) (rets ++ [.pop none]) u sent := by
  obtain ⟨u, taken, next⟩ := recvNothing c.unmoved side
  refine ⟨u, taken, next, fun other => ?_, ?_, fun first other => ?_⟩
  · simpa using c.sentNone other
  · rw [Lib.Run.repliesAppend, replies, replies, snocEq, receivesFirstRecv, c.agree]
    refine and_congr_right (fun first => ?_)
    rw [← c.sentNone side, ← c.length first side]
    cases q : final (channels (n - 1)) noPackets calls side with
    | nil => simp [channelNothing q]
    | cons e rest => simp [channelTaken q]
  · obtain ⟨before, absent⟩ := (receivesFirstRecv calls side).mp first
    have empty : final (channels (n - 1)) noPackets calls side = [] := by
      apply List.eq_nil_of_length_eq_zero
      rw [c.length before side]
      exact (c.sentNone side).mpr absent
    rw [Lib.Run.finalAppend, final, final, channelNothing empty]
    exact c.length before other

theorem comparedRun {cap : UInt64} (region : Int) (shm : Shm) (two : 2 ≤ cap.toNat)
    (small : cap.toNat < 2 ^ 63) (calls : List Call) :
    ∃ rets t sent, run step (connect cap region shm) calls = some (rets, t) ∧
      Compared cap.toNat calls rets t sent := by
  have nonzero : cap ≠ 0 := Lib.Words.nonzeroOfPositive (Nat.le_of_succ_le two)
  induction calls using List.reverseRecOn with
  | nil => exact ⟨[], _, _, rfl, comparedStart region shm nonzero small⟩
  | append_singleton calls c ih =>
    obtain ⟨rets, t, sent, ran, compared⟩ := ih
    cases c with
    | xmit side pkt =>
      obtain ⟨ret, u, sent', taken, next⟩ := comparedXmit compared side pkt two
      exact ⟨_, u, sent', Lib.Run.runExtend ran taken, next⟩
    | recv side =>
      obtain ⟨u, taken, next⟩ := comparedRecv compared side
      exact ⟨_, u, sent, Lib.Run.runExtend ran taken, next⟩

theorem endpointsAreChannelsIffReceivesFirst (cap : UInt64) (region : Int) (shm : Shm)
    (two : 2 ≤ cap.toNat) (fits : 2 * cap.toNat * mtu < 2 ^ 63) (calls : List Call) :
    ∃ rets t, run step (connect cap region shm) calls = some (rets, t) ∧
      (rets = replies (channels (cap.toNat - 1)) noPackets calls ↔ ReceivesFirst calls) := by
  have small : cap.toNat < 2 ^ 63 := by
    simp only [mtu] at fits
    omega
  obtain ⟨rets, t, sent, ran, compared⟩ := comparedRun region shm two small calls
  exact ⟨rets, t, ran, compared.agree⟩

theorem endpointsAreChannelsIffReceivesFirstAtTwenty :
    ∃ rets t, run step (connect 20 0 (fun _ => 0)) [.recv .s2c, .xmit .s2c (Vector.replicate mtu 1)] =
        some (rets, t) ∧
      (rets = replies (channels 19) noPackets [.recv .s2c, .xmit .s2c (Vector.replicate mtu 1)] ↔
        ReceivesFirst [.recv .s2c, .xmit .s2c (Vector.replicate mtu 1)]) :=
  endpointsAreChannelsIffReceivesFirst 20 0 (fun _ => 0) (by decide) (by decide) _

theorem clientNeverSeesTransmit :
    ∃ t, run step (connect 20 0 (fun _ => 0)) [.xmit .s2c (Vector.replicate mtu 1), .recv .s2c] =
        some ([.push (.ok ()), .pop none], t) ∧
      replies (channels 19) noPackets [.xmit .s2c (Vector.replicate mtu 1), .recv .s2c] =
        [.push (.ok ()), .pop (some (.val (Vector.replicate mtu 1)))] ∧
      ([.push (.ok ()), .pop none] : List (Ret Packet)) ≠
        replies (channels 19) noPackets [.xmit .s2c (Vector.replicate mtu 1), .recv .s2c] :=
  ⟨_, rfl, rfl, by simp [replies, channels, fifoSpec, Lib.Fifo.step, noPackets, expected]⟩

end Vdp.Memenpsf
