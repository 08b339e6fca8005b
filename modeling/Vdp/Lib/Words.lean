import Mathlib.Data.Nat.ModEq
import Mathlib.Tactic.Linarith

/-! Facts about 64-bit words read as signed and as unsigned numbers, for values that
both readings share, about casts to fewer bits that lose nothing, and the signed successor
modulo a non-zero divisor. Last, two unbounded counters `r ≤ w < r + n` seen only through
their remainders modulo `n`: these decide "empty" and "one place left blank" exactly. -/
namespace Vdp.Lib.Words

theorem toIntOfSmall {w : UInt64} (small : w.toNat < 2 ^ 63) : w.toInt64.toInt = w.toNat := by
  rw [← Int64.toInt_toBitVec, UInt64.toBitVec_toInt64]
  apply BitVec.toInt_eq_toNat_of_lt
  rw [UInt64.toNat_toBitVec]
  omega

theorem nonzeroOfPositive {w : UInt64} (positive : 1 ≤ w.toNat) : w ≠ 0 := by
  rintro rfl
  exact absurd positive (by decide)

theorem toUInt64OfNonneg {x : Int64} {k : Nat} (value : x.toInt = k) : x.toUInt64.toNat = k := by
  have nonneg : 0 ≤ x := by
    rw [Int64.le_iff_toInt_le, value]
    exact Int.natCast_nonneg k
  rw [Int64.toNat_toUInt64_of_le nonneg, ← Int64.toNat_toInt, value, Int.toNat_natCast]

theorem toUInt16OfSmall {w : UInt64} (small : w.toNat < 2 ^ 16) : w.toUInt16.toNat = w.toNat := by
  rw [UInt64.toNat_toUInt16]
  omega

theorem toUInt32OfSmall {w : UInt64} (small : w.toNat < 2 ^ 32) : w.toUInt32.toNat = w.toNat := by
  rw [UInt64.toNat_toUInt32]
  omega

theorem toIntWraps (w : UInt64) : w.toInt64.toInt = w.toNat ∧ w.toNat < 2 ^ 63 ∨
    w.toInt64.toInt = w.toNat - 2 ^ 64 ∧ 2 ^ 63 ≤ w.toNat := by
  rw [← Int64.toInt_toBitVec, UInt64.toBitVec_toInt64, BitVec.toInt_eq_toNat_cond, UInt64.toNat_toBitVec]
  split <;> omega

theorem mulOfNat (size n : Nat) (fits : size * n < 2 ^ 64) :
    size * (UInt64.ofNat n).toNat = size * n := by
  cases size with
  | zero => simp
  | succ k =>
    have small : n < 2 ^ 64 := lt_of_le_of_lt (Nat.le_mul_of_pos_left n k.succ_pos) fits
    rw [UInt64.toNat_ofNat', Nat.mod_eq_of_lt small]

theorem natAbsLe (c : Int64) : c.toInt.natAbs ≤ 2 ^ 63 := by
  have low := c.le_toInt
  have high := c.toInt_lt
  omega

theorem tmodNatAbs (a : Nat) (b : Int) : (a : Int).tmod b = (a % b.natAbs : Nat) := by
  rcases Int.natAbs_eq b with positive | negative
  · rw [positive, Int.natAbs_natCast]
    exact (Int.ofNat_tmod a b.natAbs).symm
  · rw [negative, Int.tmod_neg, Int.natAbs_neg, Int.natAbs_natCast]
    exact (Int.ofNat_tmod a b.natAbs).symm

/- The successor may reach `2^63`, where the signed sum wraps to the least value. Then
the divisor is that least value too, and the remainder is 0 in both readings. -/
theorem succRem {w : UInt64} {c : Int64} (inside : w.toNat < c.toInt.natAbs) :
    ((w.toInt64 + 1) % c).toInt = ((w.toNat + 1) % c.toInt.natAbs : Nat) := by
  have bound := natAbsLe c
  have one : (1 : Int64).toInt = 1 := rfl
  rw [Int64.toInt_mod, Int64.toInt_add, toIntOfSmall (by omega), one]
  rcases Nat.lt_or_ge (w.toNat + 1) (2 ^ 63) with room | last
  · rw [Int.bmod_eq_of_le (by omega) (by omega)]
    exact tmodNatAbs (w.toNat + 1) c.toInt
  · have high := c.toInt_lt
    have least : c.toInt = -2 ^ 63 := by omega
    have top : w.toNat = 2 ^ 63 - 1 := by omega
    rw [least, top]
    decide

theorem windowInjective {n a b : Nat} (low : a ≤ b) (high : b < a + n)
    (same : a % n = b % n) : a = b := by
  have divides : n ∣ b - a := (Nat.modEq_iff_dvd' low).mp same
  have zero : b - a = 0 := Nat.eq_zero_of_dvd_of_lt divides (by omega)
  omega

theorem windowDistinct {n a b : Nat} (low : a < b) (high : b < a + n) : a % n ≠ b % n := by
  intro same
  have := windowInjective (Nat.le_of_lt low) high same
  omega

theorem emptyIff {n r w : Nat} (low : r ≤ w) (high : w < r + n) : r % n = w % n ↔ w = r :=
  ⟨fun same => (windowInjective low high same).symm, fun same => by rw [same]⟩

theorem fullIff {n r w : Nat} (low : r ≤ w) (high : w < r + n) :
    (w + 1) % n = r % n ↔ w + 1 = r + n := by
  constructor
  · intro same
    by_contra room
    exact windowDistinct (n := n) (a := r) (b := w + 1) (by omega) (by omega) same.symm
  · intro last
    rw [last, Nat.add_mod_right]

theorem nextRemainder (n k : Nat) : (k % n + 1) % n = (k + 1) % n := Nat.mod_add_mod k n 1

end Vdp.Lib.Words
