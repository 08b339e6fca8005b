import Mathlib.Algebra.Group.Nat.Defs
import Mathlib.Data.List.Basic

/-! The 16-bit one's-complement sum of a byte string, the checksum of the Internet headers:
a carry out of the word is added in again at its low end, and an odd byte at the end is the
high byte of a last word. Zero has two representations, so sums are kept modulo `2^16 - 1`. -/
namespace Vdp.Lib.OnesSum

def add (a b : UInt16) : UInt16 :=
  let sum := a.toNat + b.toNat
  UInt16.ofNat (sum % 2 ^ 16 + sum / 2 ^ 16)

theorem addMod (a b : UInt16) : (add a b).toNat % 65535 = (a.toNat + b.toNat) % 65535 := by
  have low := a.toNat_lt
  have low' := b.toNat_lt
  simp only [add, UInt16.toNat_ofNat']
  rcases Nat.lt_or_ge (a.toNat + b.toNat) (2 ^ 16) with fits | carries
  · rw [Nat.mod_eq_of_lt fits, Nat.div_eq_of_lt fits, Nat.add_zero, Nat.mod_eq_of_lt fits]
  · have one : (a.toNat + b.toNat) / 2 ^ 16 = 1 := by omega
    have rest : (a.toNat + b.toNat) % 2 ^ 16 = a.toNat + b.toNat - 2 ^ 16 := by omega
    have fits : a.toNat + b.toNat - 2 ^ 16 + 1 < 2 ^ 16 := by omega
    rw [one, rest, Nat.mod_eq_of_lt fits]
    omega

def word (high low : UInt8) : UInt16 := high.toUInt16 <<< 8 ||| low.toUInt16

theorem wordNat (high low : UInt8) : (word high low).toNat = 256 * high.toNat + low.toNat := by
  have bound := high.toNat_lt
  have bound' := low.toNat_lt
  have shifted : (high.toUInt16 <<< 8).toNat = high.toNat <<< 8 := by
    rw [UInt16.toNat_shiftLeft, UInt8.toNat_toUInt16, show (8 : UInt16).toNat % 16 = 8 from rfl, Nat.shiftLeft_eq]
    omega
  rw [word, UInt16.toNat_or, shifted, UInt8.toNat_toUInt16, ← Nat.shiftLeft_add_eq_or_of_lt bound', Nat.shiftLeft_eq]
  omega

theorem wordLow (high low : UInt8) : (word high low).toUInt8 = low := by
  have bound := low.toNat_lt
  apply UInt8.toNat_inj.mp
  rw [UInt16.toNat_toUInt8, wordNat]
  omega

theorem shiftedNat (x : UInt16) : (x >>> 8).toNat = x.toNat / 256 := by
  rw [UInt16.toNat_shiftRight, show (8 : UInt16).toNat % 16 = 8 from rfl, Nat.shiftRight_eq_div_pow]

def swap (x : UInt16) : UInt16 := x <<< 8 ||| x >>> 8

theorem swapWord (high low : UInt8) : swap (word high low) = word low high := by
  have bound := high.toNat_lt
  have bound' := low.toNat_lt
  have value := wordNat high low
  have left : (word high low <<< 8).toNat = low.toNat <<< 8 := by
    rw [UInt16.toNat_shiftLeft, value, show (8 : UInt16).toNat % 16 = 8 from rfl, Nat.shiftLeft_eq, Nat.shiftLeft_eq]
    omega
  have right : (word high low >>> 8).toNat = high.toNat := by
    rw [shiftedNat, value]
    omega
  apply UInt16.toNat_inj.mp
  rw [swap, UInt16.toNat_or, left, right, wordNat, ← Nat.shiftLeft_add_eq_or_of_lt bound, Nat.shiftLeft_eq]
  omega

theorem wordHigh (high low : UInt8) : (word high low >>> 8).toUInt8 = high := by
  have bound := high.toNat_lt
  have bound' := low.toNat_lt
  apply UInt8.toNat_inj.mp
  rw [UInt16.toNat_toUInt8, shiftedNat, wordNat]
  omega

theorem wordOfHalves (x : UInt16) : word (x >>> 8).toUInt8 x.toUInt8 = x := by
  have bound := x.toNat_lt
  apply UInt16.toNat_inj.mp
  rw [wordNat, UInt16.toNat_toUInt8, UInt16.toNat_toUInt8, shiftedNat]
  omega

def sum : List UInt8 → UInt16
  | [] => 0
  | [last] => word last 0
  | high :: low :: rest => add (word high low) (sum rest)

def IsZero (w : UInt16) : Prop := w = 0 ∨ w = 0xffff

theorem isZeroIff (w : UInt16) : IsZero w ↔ w.toNat % 65535 = 0 := by
  have bound := w.toNat_lt
  rw [IsZero, ← UInt16.toNat_inj, ← UInt16.toNat_inj]
  simp only [UInt16.toNat_zero, UInt16.reduceToNat]
  omega

def Valid (bytes : List UInt8) : Prop := IsZero (sum bytes)

theorem sumCons (high low : UInt8) (rest : List UInt8) :
    (sum (high :: low :: rest)).toNat % 65535 = (256 * high.toNat + low.toNat + (sum rest).toNat) % 65535 := by
  rw [sum, addMod, wordNat]

end Vdp.Lib.OnesSum
