import Mathlib.Data.List.Basic

/-! A flat byte memory addressed by integers, with the two block copies of a C library:
`move` may overlap its source, `put` stores a list of bytes. `read` is the list of bytes
from an address on. -/
namespace Vdp.Lib.Bytes

abbrev Memory := Int → UInt8

def move (m : Memory) (src dst : Int) (count : Nat) : Memory := fun a =>
  if dst ≤ a ∧ a < dst + count then m (src + (a - dst)) else m a

def put (m : Memory) (dst : Int) (bytes : List UInt8) : Memory := fun a =>
  if dst ≤ a ∧ a < dst + bytes.length then bytes.getD (a - dst).toNat 0 else m a

theorem moveOutside {m : Memory} {src dst a : Int} {count : Nat} (h : a < dst ∨ dst + count ≤ a) :
    move m src dst count a = m a := by
  unfold move
  split
  · omega
  · rfl

@[simp] theorem moveNothing (m : Memory) (src dst : Int) : move m src dst 0 = m := by
  funext a
  exact moveOutside (by omega)

theorem putOutside {m : Memory} {dst a : Int} {bytes : List UInt8}
    (h : a < dst ∨ dst + bytes.length ≤ a) : put m dst bytes a = m a := by
  unfold put
  split
  · omega
  · rfl

def read (m : Memory) (start : Int) : Nat → List UInt8
  | 0 => []
  | n + 1 => m start :: read m (start + 1) n

@[simp] theorem readLength (m : Memory) (start : Int) (n : Nat) : (read m start n).length = n := by
  induction n generalizing start with
  | zero => rfl
  | succ n ih => simp [read, ih]

theorem readAppend (m : Memory) (start : Int) (a b : Nat) :
    read m start (a + b) = read m start a ++ read m (start + a) b := by
  induction a generalizing start with
  | zero => simp [read]
  | succ a ih =>
    have next : start + 1 + (a : Int) = start + (a + 1 : Nat) := by omega
    rw [Nat.succ_add, read, read, ih, next, List.cons_append]

theorem readTake (m : Memory) (start : Int) {k n : Nat} (inside : k ≤ n) :
    (read m start n).take k = read m start k := by
  obtain ⟨rest, rfl⟩ := Nat.exists_eq_add_of_le inside
  rw [readAppend]
  exact List.take_left' (readLength m start k)

theorem readDrop (m : Memory) (start : Int) {k n : Nat} (inside : k ≤ n) :
    (read m start n).drop k = read m (start + k) (n - k) := by
  obtain ⟨rest, rfl⟩ := Nat.exists_eq_add_of_le inside
  rw [readAppend, Nat.add_sub_cancel_left]
  exact List.drop_left' (readLength m start k)

theorem readSame {m m' : Memory} {start start' : Int} {n : Nat}
    (same : ∀ i : Nat, i < n → m (start + i) = m' (start' + i)) : read m start n = read m' start' n := by
  induction n generalizing start start' with
  | zero => rfl
  | succ n ih =>
    have head : m start = m' start' := by simpa using same 0 (Nat.succ_pos n)
    have tail : read m (start + 1) n = read m' (start' + 1) n := by
      apply ih
      intro i below
      have later := same (i + 1) (Nat.succ_lt_succ below)
      rw [show start + ((i + 1 : Nat) : Int) = start + 1 + i by omega,
        show start' + ((i + 1 : Nat) : Int) = start' + 1 + i by omega] at later
      exact later
    rw [read, read, head, tail]

theorem readMoved (m : Memory) (src dst : Int) (count : Nat) :
    read (move m src dst count) dst count = read m src count := by
  apply readSame
  intro i below
  have inside : dst ≤ dst + (i : Int) ∧ dst + (i : Int) < dst + count := by omega
  simp only [move, if_pos inside]
  congr 1
  omega

theorem readBeside {m : Memory} {src dst start : Int} {count n : Nat}
    (apart : start + n ≤ dst ∨ dst + count ≤ start) :
    read (move m src dst count) start n = read m start n := by
  apply readSame
  intro i below
  exact moveOutside (by omega)

theorem readPutBeside {m : Memory} {dst start : Int} {bytes : List UInt8} {n : Nat}
    (apart : start + n ≤ dst ∨ dst + bytes.length ≤ start) :
    read (put m dst bytes) start n = read m start n := by
  apply readSame
  intro i below
  exact putOutside (by omega)

theorem readGet (m : Memory) (start : Int) {i n : Nat} (below : i < n) :
    (read m start n)[i]? = some (m (start + i)) := by
  induction n generalizing start i with
  | zero => omega
  | succ n ih =>
    cases i with
    | zero => simp [read]
    | succ i =>
      rw [read, List.getElem?_cons_succ, ih (start + 1) (Nat.lt_of_succ_lt_succ below)]
      congr 2
      omega

theorem putInside {m : Memory} {dst : Int} {bytes : List UInt8} {i : Nat} (below : i < bytes.length) :
    put m dst bytes (dst + i) = bytes[i] := by
  have inside : dst ≤ dst + (i : Int) ∧ dst + (i : Int) < dst + bytes.length := by omega
  have place : (dst + (i : Int) - dst).toNat = i := by omega
  rw [put, if_pos inside, place, List.getD_eq_getElem?_getD, List.getElem?_eq_getElem below]
  rfl

theorem readPut (m : Memory) (dst : Int) (bytes : List UInt8) :
    read (put m dst bytes) dst bytes.length = bytes := by
  apply List.ext_getElem?
  intro i
  rcases Nat.lt_or_ge i bytes.length with below | beyond
  · rw [readGet _ _ below, putInside below, List.getElem?_eq_getElem below]
  · rw [List.getElem?_eq_none (by rw [readLength]; exact beyond), List.getElem?_eq_none beyond]

theorem putSame {m : Memory} {dst : Int} {bytes : List UInt8} :
    put m dst bytes = m ↔ read m dst bytes.length = bytes := by
  constructor
  · intro same
    rw [← same, readPut]
  · intro there
    funext a
    rcases Int.lt_or_le a dst with before | behind
    · exact putOutside (.inl before)
    · obtain ⟨i, rfl⟩ : ∃ i : Nat, a = dst + i := ⟨(a - dst).toNat, by omega⟩
      rcases Nat.lt_or_ge i bytes.length with below | beyond
      · have found := readGet m dst below
        rw [there, List.getElem?_eq_getElem below] at found
        rw [putInside below]
        exact Option.some.inj found
      · exact putOutside (.inr (by omega))

end Vdp.Lib.Bytes
