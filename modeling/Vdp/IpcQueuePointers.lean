import Vdp.IpcQueue

/-! The two bytes that a control message has for a queue: `pointers` casts each index to a
`u8`. Which states of one ring these bytes tell apart depends on the number of its slots
alone, once both are reached from the new ring. -/
namespace Vdp.IpcQueue
open Lib.Slots Lib.Words
open Lib.Fifo (Call)

variable {M T : Type}

def Reachable (mem : SlotMemory M T) (bs : Int) (cap : UInt64) (r : RingBuf) : Prop :=
  ∃ m calls events s, Lib.Run.run (callStep mem) ⟨RingBuf.new bs cap, m⟩ calls = some (events, s) ∧ s.ring = r

def Faithful (mem : SlotMemory M T) (bs : Int) (cap : UInt64) : Prop :=
  ∀ r r', Reachable mem bs cap r → Reachable mem bs cap r' → r.pointers = r'.pointers →
    (r.write, r.read) = (r'.write, r'.read)

theorem reachableNew (mem : SlotMemory M T) (bs : Int) (cap : UInt64) (m : M) :
    Reachable mem bs cap (RingBuf.new bs cap) := ⟨m, [], [], _, rfl, rfl⟩

theorem reachableInside {mem : SlotMemory M T} {bs : Int} {cap : UInt64} (nonzero : cap ≠ 0) {r : RingBuf}
    (reached : Reachable mem bs cap r) :
    r.read.toNat < (RingBuf.new bs cap).size ∧ r.write.toNat < (RingBuf.new bs cap).size := by
  obtain ⟨m, calls, events, s, ran, rfl⟩ := reached
  obtain ⟨_, t, ran', _, size, _, holds⟩ := callsRefine (newRepresents mem bs nonzero m) calls
  rw [ran] at ran'
  obtain ⟨_, rfl⟩ := Prod.mk.inj (Option.some.inj ran')
  rw [← size]
  exact ⟨holds.indexed.readIn, holds.indexed.writeIn⟩

theorem reachableZero {mem : SlotMemory M T} {bs : Int} {r : RingBuf} (reached : Reachable mem bs 0 r) :
    r = RingBuf.new bs 0 := by
  obtain ⟨m, calls, events, s, ran, rfl⟩ := reached
  refine Lib.Run.runInvariant (fun _ (s : State M) => s.ring = RingBuf.new bs 0) ?_ rfl ran
  intro past s c e t same ok
  obtain ⟨ring, memory⟩ := s
  subst same
  cases c with
  | push elem => simp [callStep, push, nextInd, RingBuf.new] at ok
  | pop =>
    simp only [callStep, pop, RingBuf.new, if_true, Option.map_some, Option.some.injEq, Prod.mk.injEq] at ok
    rw [← ok.2]
    rfl

theorem toUInt8Inj {a b : UInt64} (first : a.toNat < 256) (second : b.toNat < 256) (same : a.toUInt8 = b.toUInt8) :
    a = b := by
  have value := congrArg UInt8.toNat same
  rw [UInt64.toNat_toUInt8, UInt64.toNat_toUInt8] at value
  apply UInt64.toNat_inj.mp
  omega

theorem pushesReach (mem : SlotMemory M T) {bs : Int} {cap : UInt64} (nonzero : cap ≠ 0) (m : M) (elem : T) {k : Nat}
    (room : k < (RingBuf.new bs cap).size) :
    ∃ events s, Lib.Run.run (callStep mem) ⟨RingBuf.new bs cap, m⟩ (List.replicate k (.push elem)) =
        some (events, s) ∧ Counted (RingBuf.new bs cap).size s.ring ⟨k, 0⟩ := by
  induction k with
  | zero => exact ⟨[], _, rfl, countedNew bs nonzero⟩
  | succ k ih =>
    obtain ⟨events, s, ran, counted⟩ := ih (by omega)
    obtain ⟨ev, t, now, next, _⟩ := @callCounts _ _ mem _ s _ counted (.push elem)
    have stored : Lib.Fifo.tally ((RingBuf.new bs cap).size - 1) ⟨k, 0⟩ (.push elem) = ⟨k + 1, 0⟩ :=
      if_pos (by simp; omega)
    rw [stored] at next
    refine ⟨events ++ [ev], t, ?_, next⟩
    rw [List.replicate_succ']
    exact Lib.Run.runExtend ran now

/- 256 pushes bring the write index to a value that the cast takes for 0. -/
theorem largeNotFaithful (mem : SlotMemory M T) (m : M) (elem : T) {bs : Int} {cap : UInt64}
    (large : 256 < (RingBuf.new bs cap).size) : ¬ Faithful mem bs cap := by
  have nonzero : cap ≠ 0 := by
    rintro rfl
    have none : (RingBuf.new bs 0).size = 0 := rfl
    omega
  obtain ⟨events, s, ran, counted⟩ := pushesReach mem nonzero m elem large
  have write : s.ring.write.toNat = 256 := by rw [counted.write, Nat.mod_eq_of_lt large]
  have read : s.ring.read.toNat = 0 := by rw [counted.read, Nat.zero_mod]
  have bytes : s.ring.pointers = (RingBuf.new bs cap).pointers := by
    simp only [RingBuf.pointers, RingBuf.new, Prod.mk.injEq, ← UInt8.toNat_inj, UInt64.toNat_toUInt8, write, read]
    decide
  intro faithful
  have same := faithful _ _ ⟨m, _, events, s, ran, rfl⟩ (reachableNew mem bs cap m) bytes
  have indices := congrArg UInt64.toNat (Prod.mk.inj same).1
  have start : (RingBuf.new bs cap).write.toNat = 0 := rfl
  omega

theorem smallFaithful (mem : SlotMemory M T) {bs : Int} {cap : UInt64} (small : (RingBuf.new bs cap).size ≤ 256) :
    Faithful mem bs cap := by
  intro r r' reached reached' same
  by_cases nonzero : cap ≠ 0
  · obtain ⟨read, write⟩ := reachableInside nonzero reached
    obtain ⟨read', write'⟩ := reachableInside nonzero reached'
    obtain ⟨first, second⟩ := Prod.mk.inj same
    rw [toUInt8Inj (by omega) (by omega) first, toUInt8Inj (by omega) (by omega) second]
  · cases not_not.mp nonzero
    rw [reachableZero reached, reachableZero reached']

theorem sizeSmallIff (bs : Int) (cap : UInt64) :
    (RingBuf.new bs cap).size ≤ 256 ↔ cap.toNat ≤ 256 ∨ 2 ^ 64 - 256 ≤ cap.toNat := by
  have bound := cap.toNat_lt
  have value := toIntWraps cap
  simp only [RingBuf.size, RingBuf.new]
  omega

theorem pointersFaithfulIffSmall (mem : SlotMemory M T) (m : M) (elem : T) (bs : Int) (cap : UInt64) :
    Faithful mem bs cap ↔ cap.toNat ≤ 256 ∨ 2 ^ 64 - 256 ≤ cap.toNat := by
  rw [← sizeSmallIff bs]
  constructor
  · intro faithful
    by_contra large
    exact largeNotFaithful mem m elem (Nat.lt_of_not_le large) faithful
  · exact smallFaithful mem

theorem threeHundredNotFaithful : ¬ Faithful (cells Nat) 0 300 :=
  largeNotFaithful (cells Nat) (fun _ => .uninit) 5 (by decide)

end Vdp.IpcQueue
