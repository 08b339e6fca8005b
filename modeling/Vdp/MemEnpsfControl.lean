import Vdp.MemEnpsfDevice

/-! The control messages of one `MemEnpsf`. The crate documents them as the positions of
the read and write pointers; a message is meant for the queue its operation worked on, but
all four operations report `c2s_q`. At most 256 slots, so that an index fits its byte. -/
namespace Vdp.Memenpsf
open Lib.Slots IpcQueue
open Lib.Run (run runTotal)

def Describes (message : Message) (r : RingBuf) : Prop :=
  message.1.toNat = r.write.toNat ∧ message.2.toNat = r.read.toNat

/- What a peer that knows the operations takes a queue's indices to be: the last message
about it. -/
def replay (events : List Event) (side : Side) : Message :=
  match (events.filter (fun ev => ev.call.side = side)).getLast? with
  | none => (0, 0)
  | some ev => ev.message

structure Reported (events : List Event) (s : Device) : Prop where
  each : ∀ ev ∈ events, Describes ev.message (ev.dev.queue ev.call.side)
  rebuilt : ∀ side, Describes (replay events side) (s.dev.queue side)

def SameIndices (n : Nat) (t : Tallies) : Prop :=
  (t .c2s).stored % n = (t .s2c).stored % n ∧ (t .c2s).taken % n = (t .s2c).taken % n

def InStep (n : Nat) (calls : List Call) : Prop :=
  ∀ front c, front ++ [c] <+: calls → c.side = .s2c → SameIndices n (tallies n (front ++ [c]))

theorem inStepSnoc (n : Nat) (calls : List Call) (c : Call) :
    InStep n (calls ++ [c]) ↔
      InStep n calls ∧ (c.side = .s2c → SameIndices n (tallies n (calls ++ [c]))) := by
  simp only [InStep, List.prefix_concat_iff]
  constructor
  · intro h
    exact ⟨fun front d inside => h front d (.inr inside), h calls c (.inl rfl)⟩
  · rintro ⟨h, last⟩ front d (whole | inside)
    · obtain ⟨rfl, same⟩ := List.append_inj' whole rfl
      cases same
      exact last
    · exact h front d inside

theorem replaySame {side : Side} {ev : Event} (same : ev.call.side = side) (events : List Event) :
    replay (events ++ [ev]) side = ev.message := by
  simp [replay, same]

theorem replayOther {side : Side} {ev : Event} (different : ev.call.side ≠ side) (events : List Event) :
    replay (events ++ [ev]) side = replay events side := by
  simp [replay, different]

theorem byteExact {w : UInt64} (small : w.toNat < 256) : w.toUInt8.toNat = w.toNat := by
  rw [UInt64.toNat_toUInt8]
  exact Nat.mod_eq_of_lt small

theorem describesIff {base n s t} (h : Tallied base n s t) (positive : 0 < n) (small : n ≤ 256) (side : Side) :
    Describes s.dev.c2sQ.pointers (s.dev.queue side) ↔
      (t .c2s).stored % n = (t side).stored % n ∧ (t .c2s).taken % n = (t side).taken % n := by
  have counted : Counted n s.dev.c2sQ (t .c2s) := h.counted .c2s
  have write : s.dev.c2sQ.write.toNat < 256 := by
    rw [counted.write]
    exact (Nat.mod_lt _ positive).trans_le small
  have read : s.dev.c2sQ.read.toNat < 256 := by
    rw [counted.read]
    exact (Nat.mod_lt _ positive).trans_le small
  simp only [Describes, RingBuf.pointers, byteExact write, byteExact read]
  rw [counted.write, counted.read, (h.counted side).write, (h.counted side).read]

structure Controlled (base : Side → Int) (n : Nat) (done : List Call) (past : List Event) (s : Device) : Prop where
  tallied : Tallied base n s (tallies n done)
  each : (∀ ev ∈ past, Describes ev.message (ev.dev.queue ev.call.side)) ↔ InStep n done
  rebuilt : InStep n done → ∀ side, Describes (replay past side) (s.dev.queue side)

theorem controlledStep {base n done past s} (h : Controlled base n done past s) (positive : 0 < n) (small : n ≤ 256)
    (c : Call) :
    ∃ ev u, serve s c = some (ev, u) ∧ Controlled base n (done ++ [c]) (past ++ [ev]) u := by
  obtain ⟨ev, u, served, called, dev, message, _, others, next⟩ := talliedStep h.tallied c
  rw [← talliesSnoc] at next
  have now : Describes ev.message (ev.dev.queue ev.call.side) ↔
      (c.side = .s2c → SameIndices n (tallies n (done ++ [c]))) := by
    rw [message, dev, called, describesIff next positive small]
    cases c.side
    · simp [SameIndices]
    · simp
  have each : (∀ x ∈ past ++ [ev], Describes x.message (x.dev.queue x.call.side)) ↔ InStep n (done ++ [c]) := by
    rw [inStepSnoc, ← h.each, ← now]
    simp only [List.mem_append, List.mem_singleton, or_imp, forall_and, forall_eq]
  refine ⟨ev, u, served, next, each, ?_⟩
  intro step side
  have reported := each.mpr step ev (by simp)
  by_cases same : c.side = side
  · subst same
    rw [replaySame (by rw [called])]
    rwa [dev, called] at reported
  · rw [replayOther (by rw [called]; exact same), others side (Ne.symm same)]
    exact h.rebuilt ((inStepSnoc n done c).mp step).1 side

theorem messagesDescribeIffInStep (name : String) (cap : UInt64) (region : Int) (shm : Shm)
    (atLeast : 1 ≤ cap.toNat) (atMost : cap.toNat ≤ 256) (calls : List Call) :
    ∃ events s, run serve ⟨MemEnpsf.new name cap region, shm⟩ calls = some (events, s) ∧
      (Reported events s ↔ InStep cap.toNat calls) := by
  have nonzero : cap ≠ 0 := Lib.Words.nonzeroOfPositive atLeast
  have size : slotCount cap = cap.toNat := sizeNew 0 (by omega)
  have start := talliedNew name region shm nonzero
  rw [size] at start
  obtain ⟨events, s, ran, h⟩ := runTotal
    (Controlled (fun side => region + queueOffset cap side) cap.toNat)
    (fun c h => controlledStep h atLeast atMost c)
    ⟨start, by simp [InStep], fun _ side => by rw [queueNew]; exact ⟨rfl, rfl⟩⟩ calls
  refine ⟨events, s, ran, ?_, ?_⟩
  · intro reported
    exact h.each.mp reported.each
  · intro step
    exact ⟨h.each.mpr step, h.rebuilt step⟩

theorem messagesDescribeIffInStepAtTwenty :
    ∃ events s, run serve ⟨MemEnpsf.new "mux" 20 0, fun _ => 0⟩ [.xmit .c2s (Vector.replicate mtu 1), .recv .c2s] =
        some (events, s) ∧
      (Reported events s ↔ InStep 20 [.xmit .c2s (Vector.replicate mtu 1), .recv .c2s]) :=
  messagesDescribeIffInStep "mux" 20 0 (fun _ => 0) (by decide) (by decide) _

theorem transmitReportsOtherQueue :
    ∃ events s, run serve ⟨MemEnpsf.new "mux" 20 0, fun _ => 0⟩ [.xmit .s2c (Vector.replicate mtu 1)] =
        some (events, s) ∧ ¬ Reported events s := by
  refine ⟨_, _, rfl, ?_⟩
  intro reported
  have described := reported.each _ (List.mem_singleton.mpr rfl)
  exact absurd described.1 (by decide)

end Vdp.Memenpsf
