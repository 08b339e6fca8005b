import Vdp.Lib.Fifo
import Vdp.Lib.Run
import Vdp.Lib.SlotMemory
import Vdp.Lib.Words

/-! The circular queue of `ipc-queue`. Indices are the code's own `usize` words and
the capacity its `isize`; `usize` and `isize` are 64 bits wide and a sum wraps as in
a release build. `none` is a panic. The memory behind `base` is a parameter, so one
model serves whole values and the flat byte region of the shared mapping. -/
namespace Vdp.IpcQueue
open Lib.Slots Lib.Words
open Lib.Fifo (Call Reply)

inductive ErrorKind where
  | other
  deriving DecidableEq, Repr

structure IoError where
  kind : ErrorKind
  message : String
  deriving DecidableEq, Repr

def bufFull : IoError := ⟨.other, "Buf full"⟩

structure RingBuf where
  capacity : Int64
  base : Int
  write : UInt64
  read : UInt64
  deriving DecidableEq, Repr

def RingBuf.new (bs : Int) (cap : UInt64) : RingBuf := ⟨cap.toInt64, bs, 0, 0⟩

def RingBuf.pointers (r : RingBuf) : UInt8 × UInt8 := (r.write.toUInt8, r.read.toUInt8)

/- `(cur_ind + 1) % self.capacity`. The remainder panics on a zero divisor and on
`isize::MIN % -1`, in every build. -/
def nextInd (capacity curInd : Int64) : Option Int64 :=
  if capacity = 0 ∨ (curInd + 1 = Int64.minValue ∧ capacity = -1) then none
  else some ((curInd + 1) % capacity)

structure Effect (M R : Type) where
  ret : R
  ring : RingBuf
  mem : M
  touched : List Int64

variable {M T : Type}

def push (mem : SlotMemory M T) (r : RingBuf) (m : M) (elem : T) :
    Option (Effect M (Except IoError Unit)) := do
  let curInd ← nextInd r.capacity r.write.toInt64
  if curInd = r.read.toInt64 then
    some ⟨.error bufFull, r, m, []⟩
  else
    some ⟨.ok (), { r with write := curInd.toUInt64 },
      mem.store m (mem.addr r.base curInd.toInt) elem, [curInd]⟩

def pop (mem : SlotMemory M T) (r : RingBuf) (m : M) : Option (Effect M (Option (Slot T))) :=
  let curInd := r.read.toInt64
  if curInd = r.write.toInt64 then
    some ⟨none, r, m, []⟩
  else do
    let curInd ← nextInd r.capacity curInd
    some ⟨some (mem.load m (mem.addr r.base curInd.toInt)),
      { r with read := curInd.toUInt64 }, m, [curInd]⟩

/- The number of slots the remainder ranges over. It is `cap` itself up to `2^63`;
from there on `cap as isize` is negative and the remainder ignores the sign. -/
def RingBuf.size (r : RingBuf) : Nat := r.capacity.toInt.natAbs

theorem sizeNewIff (bs : Int) (cap : UInt64) :
    (RingBuf.new bs cap).size = cap.toNat ↔ cap.toNat ≤ 2 ^ 63 := by
  have top := cap.toNat_lt
  change cap.toInt64.toInt.natAbs = cap.toNat ↔ _
  rcases toIntWraps cap with ⟨value, small⟩ | ⟨value, large⟩
  · omega
  · omega

theorem sizeNew {cap : UInt64} (bs : Int) (small : cap.toNat < 2 ^ 63) :
    (RingBuf.new bs cap).size = cap.toNat :=
  (sizeNewIff bs cap).mpr (Nat.le_of_lt small)

theorem sizeNewPositive {cap : UInt64} (bs : Int) (nonzero : cap ≠ 0) :
    0 < (RingBuf.new bs cap).size := by
  have different : cap.toInt64 ≠ 0 := by
    intro zero
    apply nonzero
    have back := congrArg Int64.toUInt64 zero
    rw [UInt64.toUInt64_toInt64] at back
    exact back
  have value : cap.toInt64.toInt ≠ 0 := fun zero => different (Int64.toInt_inj.mp zero)
  exact Int.natAbs_pos.mpr value

theorem sizeLe (r : RingBuf) : r.size ≤ 2 ^ 63 := natAbsLe r.capacity

theorem nextIndSpec {r : RingBuf} {ind : UInt64} (inside : ind.toNat < r.size) :
    ∃ j, nextInd r.capacity ind.toInt64 = some j ∧ j.toInt = ((ind.toNat + 1) % r.size : Nat) := by
  have bound := sizeLe r
  have nonzero : r.capacity ≠ 0 := by
    intro zero
    simp [RingBuf.size, zero] at inside
  have defined : ¬ (r.capacity = 0 ∨ (ind.toInt64 + 1 = Int64.minValue ∧ r.capacity = -1)) := by
    rintro (zero | ⟨least, minus⟩)
    · exact nonzero zero
    · have only : ind.toNat = 0 := by
        have one : r.size = 1 := by rw [RingBuf.size, minus]; rfl
        omega
      have start : ind = 0 := UInt64.toNat_inj.mp only
      rw [start] at least
      exact absurd least (by decide)
  exact ⟨_, if_neg defined, succRem inside⟩

theorem indexEq {j : Int64} {k : Nat} {w : UInt64} (value : j.toInt = k) (small : w.toNat < 2 ^ 63) :
    j = w.toInt64 ↔ k = w.toNat := by
  rw [← Int64.toInt_inj, value, toIntOfSmall small]
  exact Int.ofNat_inj

theorem readWriteEq {r : RingBuf} (readIn : r.read.toNat < r.size) (writeIn : r.write.toNat < r.size) :
    r.read.toInt64 = r.write.toInt64 ↔ r.read.toNat = r.write.toNat := by
  have bound := sizeLe r
  exact indexEq (toIntOfSmall (by omega)) (by omega)

structure Indexed (r : RingBuf) (taken len : Nat) : Prop where
  read : r.read.toNat = taken % r.size
  write : r.write.toNat = (taken + len) % r.size
  room : len < r.size

theorem Indexed.readIn {r taken len} (ix : Indexed r taken len) : r.read.toNat < r.size := by
  rw [ix.read]
  exact Nat.mod_lt _ (Nat.zero_lt_of_lt ix.room)

theorem Indexed.writeIn {r taken len} (ix : Indexed r taken len) : r.write.toNat < r.size := by
  rw [ix.write]
  exact Nat.mod_lt _ (Nat.zero_lt_of_lt ix.room)

theorem indexedNew (bs : Int) {cap : UInt64} (nonzero : cap ≠ 0) : Indexed (RingBuf.new bs cap) 0 0 :=
  ⟨by simp [RingBuf.new], by simp [RingBuf.new], sizeNewPositive bs nonzero⟩

theorem pushFull {r taken len} (ix : Indexed r taken len) (full : len + 1 = r.size)
    (mem : SlotMemory M T) (m : M) (elem : T) :
    push mem r m elem = some ⟨.error bufFull, r, m, []⟩ := by
  obtain ⟨j, found, value⟩ := nextIndSpec ix.writeIn
  have small : r.read.toNat < 2 ^ 63 := Nat.lt_of_lt_of_le ix.readIn (sizeLe r)
  have same : j = r.read.toInt64 := by
    rw [indexEq value small, ix.read, ix.write, nextRemainder]
    rw [fullIff (Nat.le_add_right _ _) (Nat.add_lt_add_left ix.room taken)]
    omega
  simp [push, found, same]

theorem pushRoom {r taken len} (ix : Indexed r taken len) (room : len + 1 < r.size)
    (mem : SlotMemory M T) (m : M) (elem : T) :
    ∃ j : Int64, j.toInt = ((taken + len + 1) % r.size : Nat) ∧
      push mem r m elem = some ⟨.ok (), { r with write := j.toUInt64 },
        mem.store m (mem.addr r.base j.toInt) elem, [j]⟩ := by
  obtain ⟨j, found, value⟩ := nextIndSpec ix.writeIn
  have small : r.read.toNat < 2 ^ 63 := Nat.lt_of_lt_of_le ix.readIn (sizeLe r)
  rw [ix.write, nextRemainder] at value
  have different : j ≠ r.read.toInt64 := by
    rw [Ne, indexEq value small, ix.read]
    rw [fullIff (Nat.le_add_right _ _) (Nat.add_lt_add_left ix.room taken)]
    omega
  exact ⟨j, value, by simp [push, found, different]⟩

theorem indexedPush {r taken len} (ix : Indexed r taken len) (room : len + 1 < r.size) {j : Int64}
    (value : j.toInt = ((taken + len + 1) % r.size : Nat)) :
    Indexed { r with write := j.toUInt64 } taken (len + 1) :=
  ⟨ix.read, toUInt64OfNonneg value, room⟩

theorem popEmpty {r taken} (ix : Indexed r taken 0) (mem : SlotMemory M T) (m : M) :
    pop mem r m = some ⟨none, r, m, []⟩ := by
  have same : r.read.toInt64 = r.write.toInt64 := by
    rw [readWriteEq ix.readIn ix.writeIn, ix.read, ix.write]
    rfl
  simp [pop, same]

theorem popFound {r taken len} (ix : Indexed r taken (len + 1)) (mem : SlotMemory M T) (m : M) :
    ∃ j : Int64, j.toInt = ((taken + 1) % r.size : Nat) ∧
      pop mem r m = some ⟨some (mem.load m (mem.addr r.base j.toInt)),
        { r with read := j.toUInt64 }, m, [j]⟩ := by
  obtain ⟨j, found, value⟩ := nextIndSpec ix.readIn
  rw [ix.read, nextRemainder] at value
  have different : r.read.toInt64 ≠ r.write.toInt64 := by
    rw [Ne, readWriteEq ix.readIn ix.writeIn, ix.read, ix.write]
    exact windowDistinct (by omega) (Nat.add_lt_add_left ix.room taken)
  exact ⟨j, value, by simp [pop, different, found]⟩

theorem indexedPop {r taken len} (ix : Indexed r taken (len + 1)) {j : Int64}
    (value : j.toInt = ((taken + 1) % r.size : Nat)) :
    Indexed { r with read := j.toUInt64 } (taken + 1) len := by
  refine ⟨toUInt64OfNonneg value, ?_, Nat.lt_of_succ_lt ix.room⟩
  rw [show taken + 1 + len = taken + (len + 1) by omega]
  exact ix.write

/- The ring holds the queue `q`. Slot `(taken + 1 + i) % n` has the element `i` places
behind the oldest; the slot of the last popped element is the one left blank. -/
structure Holds (mem : SlotMemory M T) (r : RingBuf) (m : M) (taken : Nat) (q : List T) : Prop where
  indexed : Indexed r taken q.length
  slots : ∀ (i : Nat) (e : T), q[i]? = some e →
    mem.load m (mem.addr r.base ((taken + 1 + i) % r.size : Nat)) = .val e

theorem holdsNew (mem : SlotMemory M T) (bs : Int) {cap : UInt64} (nonzero : cap ≠ 0) (m : M) :
    Holds mem (RingBuf.new bs cap) m 0 [] := ⟨indexedNew bs nonzero, by simp⟩

theorem holdsPush {mem : SlotMemory M T} {r m taken q} (h : Holds mem r m taken q)
    (room : q.length + 1 < r.size) (elem : T) {j : Int64}
    (value : j.toInt = ((taken + q.length + 1) % r.size : Nat)) :
    Holds mem { r with write := j.toUInt64 } (mem.store m (mem.addr r.base j.toInt) elem)
      taken (q ++ [elem]) := by
  refine ⟨?_, ?_⟩
  · rw [List.length_append, List.length_singleton]
    exact indexedPush h.indexed room value
  · intro i e found
    change mem.load _ (mem.addr r.base ((taken + 1 + i) % r.size : Nat)) = .val e
    rw [value]
    rcases Nat.lt_or_ge i q.length with old | last
    · rw [List.getElem?_append_left old] at found
      have apart : (taken + 1 + i) % r.size ≠ (taken + q.length + 1) % r.size :=
        windowDistinct (by omega) (by omega)
      rw [loadOther mem m r.base elem (by exact_mod_cast apart)]
      exact h.slots i e found
    · have bound : i < (q ++ [elem]).length := (List.getElem?_eq_some_iff.mp found).1
      simp only [List.length_append, List.length_singleton] at bound
      have place : i = q.length := by omega
      subst place
      simp only [List.getElem?_concat_length, Option.some.injEq] at found
      subst found
      rw [show taken + 1 + q.length = taken + q.length + 1 by omega]
      exact mem.loadStore m _ elem

theorem popHead {mem : SlotMemory M T} {r m taken e rest} (h : Holds mem r m taken (e :: rest)) :
    ∃ j : Int64, j.toInt = ((taken + 1) % r.size : Nat) ∧
      pop mem r m = some ⟨some (.val e), { r with read := j.toUInt64 }, m, [j]⟩ := by
  obtain ⟨j, value, done⟩ := popFound h.indexed mem m
  have oldest := h.slots 0 e rfl
  rw [Nat.add_zero, ← value] at oldest
  rw [oldest] at done
  exact ⟨j, value, done⟩

theorem holdsPop {mem : SlotMemory M T} {r m taken e rest} (h : Holds mem r m taken (e :: rest))
    {j : Int64} (value : j.toInt = ((taken + 1) % r.size : Nat)) :
    Holds mem { r with read := j.toUInt64 } m (taken + 1) rest := by
  refine ⟨indexedPop h.indexed value, ?_⟩
  intro i e' found
  have shifted := h.slots (i + 1) e' found
  rw [show taken + 1 + (i + 1) = taken + 1 + 1 + i by omega] at shifted
  exact shifted

inductive Ret (T : Type) where
  | push (result : Except IoError Unit)
  | pop (result : Option (Slot T))

structure State (M : Type) where
  ring : RingBuf
  mem : M

structure Event (T : Type) where
  call : Call T
  ret : Ret T
  touched : List Int64

def callStep (mem : SlotMemory M T) (s : State M) : Call T → Option (Event T × State M)
  | .push e => (push mem s.ring s.mem e).map (fun fx => (⟨.push e, .push fx.ret, fx.touched⟩, ⟨fx.ring, fx.mem⟩))
  | .pop => (pop mem s.ring s.mem).map (fun fx => (⟨.pop, .pop fx.ret, fx.touched⟩, ⟨fx.ring, fx.mem⟩))

def expected : Reply T → Ret T
  | .stored => .push (.ok ())
  | .refused => .push (.error bufFull)
  | .taken e => .pop (some (.val e))
  | .nothing => .pop none

def fifoSpec (bound : Nat) (q : List T) (c : Call T) : Ret T × List T :=
  (expected (Lib.Fifo.step bound q c).1, (Lib.Fifo.step bound q c).2)

def InRange (n : Nat) (touched : List Int64) : Prop := ∀ i ∈ touched, 0 ≤ i.toInt ∧ i.toInt < n

theorem inRangeMod {n k : Nat} {j : Int64} (positive : 0 < n) (value : j.toInt = (k % n : Nat)) :
    InRange n [j] := by
  intro i member
  rw [List.mem_singleton.mp member, value]
  exact ⟨Int.natCast_nonneg _, by exact_mod_cast Nat.mod_lt k positive⟩

/- Both indices are inside the ring. This alone decides which slot a call uses, so it is
the same slot in every memory. -/
structure InBounds (r : RingBuf) : Prop where
  read : r.read.toNat < r.size
  write : r.write.toNat < r.size

theorem inBoundsNew (bs : Int) {cap : UInt64} (nonzero : cap ≠ 0) : InBounds (RingBuf.new bs cap) where
  read := sizeNewPositive bs nonzero
  write := sizeNewPositive bs nonzero

theorem pushShape {r : RingBuf} (inside : InBounds r) (mem : SlotMemory M T) (elem : T) :
    (∀ m, push mem r m elem = some ⟨.error bufFull, r, m, []⟩) ∨
      ∃ j : Int64, InRange r.size [j] ∧ InBounds { r with write := j.toUInt64 } ∧
        ∀ m, push mem r m elem = some ⟨.ok (), { r with write := j.toUInt64 },
          mem.store m (mem.addr r.base j.toInt) elem, [j]⟩ := by
  have positive := Nat.zero_lt_of_lt inside.write
  obtain ⟨j, found, value⟩ := nextIndSpec inside.write
  by_cases full : j = r.read.toInt64
  · left
    intro m
    simp [push, found, full]
  · right
    refine ⟨j, inRangeMod positive value, ⟨inside.read, ?_⟩, ?_⟩
    · exact (toUInt64OfNonneg value).trans_lt (Nat.mod_lt _ positive)
    · intro m
      simp [push, found, full]

theorem popShape {r : RingBuf} (inside : InBounds r) (mem : SlotMemory M T) :
    (∀ m, pop mem r m = some ⟨none, r, m, []⟩) ∨
      ∃ j : Int64, InRange r.size [j] ∧ InBounds { r with read := j.toUInt64 } ∧
        ∀ m, pop mem r m = some ⟨some (mem.load m (mem.addr r.base j.toInt)),
          { r with read := j.toUInt64 }, m, [j]⟩ := by
  have positive := Nat.zero_lt_of_lt inside.read
  by_cases empty : r.read.toInt64 = r.write.toInt64
  · left
    intro m
    simp [pop, empty]
  · right
    obtain ⟨j, found, value⟩ := nextIndSpec inside.read
    refine ⟨j, inRangeMod positive value, ⟨?_, inside.write⟩, ?_⟩
    · exact (toUInt64OfNonneg value).trans_lt (Nat.mod_lt _ positive)
    · intro m
      simp [pop, empty, found]

theorem stepOfPush {mem : SlotMemory M T} {s : State M} {e : T} {fx}
    (done : push mem s.ring s.mem e = some fx) :
    callStep mem s (.push e) = some (⟨.push e, .push fx.ret, fx.touched⟩, ⟨fx.ring, fx.mem⟩) := by
  simp only [callStep, done, Option.map_some]

theorem stepOfPop {mem : SlotMemory M T} {s : State M} {fx} (done : pop mem s.ring s.mem = some fx) :
    callStep mem s .pop = some (⟨.pop, .pop fx.ret, fx.touched⟩, ⟨fx.ring, fx.mem⟩) := by
  simp only [callStep, done, Option.map_some]

theorem callRefines {mem : SlotMemory M T} {s : State M} {taken : Nat} {q : List T}
    (h : Holds mem s.ring s.mem taken q) (c : Call T) :
    ∃ ev t taken', callStep mem s c = some (ev, t) ∧
      ev.ret = (fifoSpec (s.ring.size - 1) q c).1 ∧
      Holds mem t.ring t.mem taken' (fifoSpec (s.ring.size - 1) q c).2 ∧
      t.ring.size = s.ring.size ∧ InRange s.ring.size ev.touched := by
  have positive := Nat.zero_lt_of_lt h.indexed.room
  cases c with
  | push e =>
    by_cases room : q.length < s.ring.size - 1
    · obtain ⟨j, value, done⟩ := pushRoom h.indexed (by omega) mem s.mem e
      refine ⟨_, _, taken, stepOfPush done, ?_, ?_, rfl, inRangeMod positive value⟩
      · simp [fifoSpec, Lib.Fifo.stepPush e room, expected]
      · simpa only [fifoSpec, Lib.Fifo.stepPush e room] using holdsPush h (by omega) e value
    · have last : q.length + 1 = s.ring.size := by have := h.indexed.room; omega
      refine ⟨_, _, taken, stepOfPush (pushFull h.indexed last mem s.mem e), ?_, ?_, rfl, by simp [InRange]⟩
      · simp [fifoSpec, Lib.Fifo.stepFull e room, expected]
      · simpa only [fifoSpec, Lib.Fifo.stepFull e room] using h
  | pop =>
    cases q with
    | nil =>
      exact ⟨_, _, taken, stepOfPop (popEmpty h.indexed mem s.mem), rfl, h, rfl, by simp [InRange]⟩
    | cons e rest =>
      obtain ⟨j, value, done⟩ := popHead h
      exact ⟨_, _, taken + 1, stepOfPop done, rfl, holdsPop h value, rfl, inRangeMod positive value⟩

structure Counted (n : Nat) (r : RingBuf) (count : Lib.Fifo.Tally) : Prop where
  size : r.size = n
  order : count.taken ≤ count.stored
  indexed : Indexed r count.taken (count.stored - count.taken)

theorem countedNew (bs : Int) {cap : UInt64} (nonzero : cap ≠ 0) :
    Counted (RingBuf.new bs cap).size (RingBuf.new bs cap) ⟨0, 0⟩ := ⟨rfl, Nat.le_refl 0, indexedNew bs nonzero⟩

theorem Counted.read {n r count} (h : Counted n r count) : r.read.toNat = count.taken % n := by
  rw [h.indexed.read, h.size]

theorem Counted.write {n r count} (h : Counted n r count) : r.write.toNat = count.stored % n := by
  rw [h.indexed.write, h.size, Nat.add_sub_cancel' h.order]

theorem callCounts {mem : SlotMemory M T} {n : Nat} {s : State M} {count : Lib.Fifo.Tally}
    (h : Counted n s.ring count) (c : Call T) :
    ∃ ev t, callStep mem s c = some (ev, t) ∧ Counted n t.ring (Lib.Fifo.tally (n - 1) count c) ∧
      t.ring.base = s.ring.base ∧
      ev.touched.map Int64.toInt = (Lib.Fifo.visited (n - 1) count c).map (fun k => ((k % n : Nat) : Int)) := by
  obtain ⟨rfl, order, ix⟩ := h
  have room := ix.room
  cases c with
  | push e =>
    by_cases more : count.stored < count.taken + (s.ring.size - 1)
    · obtain ⟨j, value, done⟩ := pushRoom ix (by omega) mem s.mem e
      have grown := indexedPush ix (by omega) value
      refine ⟨_, _, stepOfPush done, ⟨rfl, ?_, ?_⟩, rfl, ?_⟩
      · simp only [Lib.Fifo.tally, if_pos more]
        omega
      · simp only [Lib.Fifo.tally, if_pos more]
        rw [show count.stored + 1 - count.taken = count.stored - count.taken + 1 by omega]
        exact grown
      · simp only [Lib.Fifo.visited, if_pos more, List.map_cons, List.map_nil, value]
        rw [show count.taken + (count.stored - count.taken) + 1 = count.stored + 1 by omega]
    · refine ⟨_, _, stepOfPush (pushFull ix (by omega) mem s.mem e), ?_, rfl, ?_⟩
      · simp only [Lib.Fifo.tally, if_neg more]
        exact ⟨rfl, order, ix⟩
      · simp only [Lib.Fifo.visited, if_neg more, List.map_nil]
  | pop =>
    by_cases some' : count.taken < count.stored
    · obtain ⟨len, more⟩ : ∃ len, count.stored - count.taken = len + 1 := ⟨count.stored - count.taken - 1, by omega⟩
      rw [more] at ix
      obtain ⟨j, value, done⟩ := popFound ix mem s.mem
      refine ⟨_, _, stepOfPop done, ⟨rfl, ?_, ?_⟩, rfl, ?_⟩
      · simp only [Lib.Fifo.tally, if_pos some']
        omega
      · simp only [Lib.Fifo.tally, if_pos some']
        rw [show count.stored - (count.taken + 1) = len by omega]
        exact indexedPop ix value
      · simp only [Lib.Fifo.visited, if_pos some', List.map_cons, List.map_nil, value]
    · have none' : count.stored - count.taken = 0 := by omega
      have still := ix
      rw [none'] at ix
      refine ⟨_, _, stepOfPop (popEmpty ix mem s.mem), ?_, rfl, ?_⟩
      · simp only [Lib.Fifo.tally, if_neg some']
        exact ⟨rfl, order, still⟩
      · simp only [Lib.Fifo.visited, if_neg some', List.map_nil]

structure Represents (mem : SlotMemory M T) (n : Nat) (s : State M) (q : List T) : Prop where
  size : s.ring.size = n
  holds : ∃ taken, Holds mem s.ring s.mem taken q

theorem newRepresents (mem : SlotMemory M T) (bs : Int) {cap : UInt64} (nonzero : cap ≠ 0) (m : M) :
    Represents mem (RingBuf.new bs cap).size ⟨RingBuf.new bs cap, m⟩ [] :=
  ⟨rfl, 0, holdsNew mem bs nonzero m⟩

theorem callsRefine {mem : SlotMemory M T} {n : Nat} {s : State M} {q : List T}
    (start : Represents mem n s q) (calls : List (Call T)) :
    ∃ events t, Lib.Run.run (callStep mem) s calls = some (events, t) ∧
      events.map Event.ret = Lib.Run.replies (fifoSpec (n - 1)) q calls ∧
      Represents mem n t (Lib.Run.final (fifoSpec (n - 1)) q calls) := by
  refine Lib.Run.runSimulates (fun s q c rep => ?_) start calls
  obtain ⟨rfl, taken, holds⟩ := rep
  obtain ⟨ev, t, taken', step, same, next, size, _⟩ := callRefines holds c
  exact ⟨ev, t, step, same, size, taken', next⟩

theorem callsTouch {mem : SlotMemory M T} {n : Nat} {s t : State M} {q : List T} {calls events}
    (start : Represents mem n s q) (ok : Lib.Run.run (callStep mem) s calls = some (events, t)) :
    ∀ ev ∈ events, InRange n ev.touched := by
  refine (Lib.Run.runInvariant
    (fun past s => (∃ q, Represents mem n s q) ∧ ∀ ev ∈ past, InRange n ev.touched) ?_
    ⟨⟨q, start⟩, by simp⟩ ok).2
  rintro past s c e t ⟨⟨q, rfl, taken, holds⟩, good⟩ step
  obtain ⟨ev, u, taken', same, _, next, size, touched⟩ := callRefines holds c
  rw [step] at same
  obtain ⟨rfl, rfl⟩ := Prod.mk.inj (Option.some.inj same)
  refine ⟨⟨_, size, taken', next⟩, fun ev member => ?_⟩
  rcases List.mem_append.mp member with old | last
  · exact good ev old
  · rw [List.mem_singleton.mp last]
    exact touched

theorem ringBehavesAsBoundedFifo (mem : SlotMemory M T) (bs : Int) (cap : UInt64) (m : M)
    (atLeast : 1 ≤ cap.toNat) (below : cap.toNat < 2 ^ 63) (calls : List (Call T)) :
    ∃ events s, Lib.Run.run (callStep mem) ⟨RingBuf.new bs cap, m⟩ calls = some (events, s) ∧
      events.map Event.ret = Lib.Run.replies (fifoSpec (cap.toNat - 1)) [] calls ∧
      s.ring.read.toNat < cap.toNat ∧ s.ring.write.toNat < cap.toNat ∧
      (∀ ev ∈ events, InRange cap.toNat ev.touched) ∧
      ∀ elem, ∃ fx, push mem s.ring s.mem elem = some fx ∧
        ((∃ err, fx.ret = .error err) ↔
          (Lib.Run.final (fifoSpec (cap.toNat - 1)) [] calls).length = cap.toNat - 1) ∧
        ((∃ err, fx.ret = .error err) → fx.ring = s.ring ∧ fx.mem = s.mem) := by
  have nonzero : cap ≠ 0 := nonzeroOfPositive atLeast
  have start := newRepresents mem bs nonzero m
  rw [sizeNew bs below] at start
  obtain ⟨events, s, ok, same, size, taken, holds⟩ := callsRefine start calls
  have readIn := holds.indexed.readIn
  have writeIn := holds.indexed.writeIn
  rw [size] at readIn writeIn
  refine ⟨events, s, ok, same, readIn, writeIn, callsTouch start ok, fun elem => ?_⟩
  have room := holds.indexed.room
  by_cases last : (Lib.Run.final (fifoSpec (cap.toNat - 1)) [] calls).length = cap.toNat - 1
  · exact ⟨_, pushFull holds.indexed (by omega) mem s.mem elem, by simp [last], fun _ => ⟨rfl, rfl⟩⟩
  · obtain ⟨j, _, done⟩ := pushRoom holds.indexed (by omega) mem s.mem elem
    exact ⟨_, done, by simp [last], by simp⟩

theorem ringBehavesAsBoundedFifoAtThree :
    ∃ events s, Lib.Run.run (callStep (cells Nat)) ⟨RingBuf.new 0 3, fun _ => .uninit⟩
        [.push 5, .push 6, .push 7, .pop, .push 8, .pop, .pop, .pop] = some (events, s) ∧
      events.map Event.ret = [.push (.ok ()), .push (.ok ()), .push (.error bufFull), .pop (some (.val 5)),
        .push (.ok ()), .pop (some (.val 6)), .pop (some (.val 8)), .pop none] ∧
      s.ring.read.toNat < 3 ∧ s.ring.write.toNat < 3 ∧ (∀ ev ∈ events, InRange 3 ev.touched) ∧
      s.ring.read = 0 ∧ s.ring.write = 0 := by
  obtain ⟨events, s, ok, same, readIn, writeIn, touched, _⟩ := ringBehavesAsBoundedFifo (cells Nat) 0 3
    (fun _ => .uninit) (by decide) (by decide) [.push 5, .push 6, .push 7, .pop, .push 8, .pop, .pop, .pop]
  refine ⟨events, s, ok, same, readIn, writeIn, touched, ?_⟩
  cases Option.some.inj ok
  exact ⟨rfl, rfl⟩

end Vdp.IpcQueue
