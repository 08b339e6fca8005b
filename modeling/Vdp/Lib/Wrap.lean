import Mathlib.Algebra.Group.Int.Defs
import Mathlib.Algebra.Group.Nat.Defs
import Mathlib.Data.List.Basic

/-! Fixed-width arithmetic as a release build does it, with a note left for every
operation whose exact result does not fit its width. A build with overflow checks stops
at the first such note; without one the two builds compute the same. Other notes, such
as memory accesses, go to the same list. -/
namespace Vdp.Lib.Wrap

structure Noted (ω α : Type) where
  val : α
  notes : List ω

variable {ω α β : Type}

instance : Monad (Noted ω) where
  pure a := ⟨a, []⟩
  bind x f := ⟨(f x.val).val, x.notes ++ (f x.val).notes⟩

def leave (note : ω) : Noted ω Unit := ⟨(), [note]⟩

@[simp] theorem pureEq (a : α) : (pure a : Noted ω α) = ⟨a, []⟩ := rfl

@[simp] theorem bindEq (x : Noted ω α) (f : α → Noted ω β) :
    x >>= f = ⟨(f x.val).val, x.notes ++ (f x.val).notes⟩ := rfl

def checked (fits : Prop) [Decidable fits] (note : ω) (value : α) : Noted ω α :=
  ⟨value, if fits then [] else [note]⟩

theorem checkedFits {fits : Prop} [Decidable fits] {note : ω} {value : α} (h : fits) :
    checked fits note value = ⟨value, []⟩ := by
  simp [checked, h]

theorem checkedNotes {fits : Prop} [Decidable fits] {note other : ω} {value : α}
    (member : other ∈ (checked fits note value).notes) : other = note := by
  unfold checked at member
  split at member
  · simp at member
  · simpa using member

def add16 (note : ω) (a b : UInt16) : Noted ω UInt16 := checked (a.toNat + b.toNat < 2 ^ 16) note (a + b)
def sub16 (note : ω) (a b : UInt16) : Noted ω UInt16 := checked (b.toNat ≤ a.toNat) note (a - b)
def add32 (note : ω) (a b : UInt32) : Noted ω UInt32 := checked (a.toNat + b.toNat < 2 ^ 32) note (a + b)
def sub32 (note : ω) (a b : UInt32) : Noted ω UInt32 := checked (b.toNat ≤ a.toNat) note (a - b)
def add64 (note : ω) (a b : UInt64) : Noted ω UInt64 := checked (a.toNat + b.toNat < 2 ^ 64) note (a + b)
def sub64 (note : ω) (a b : UInt64) : Noted ω UInt64 := checked (b.toNat ≤ a.toNat) note (a - b)
def mul64 (note : ω) (a b : UInt64) : Noted ω UInt64 := checked (a.toNat * b.toNat < 2 ^ 64) note (a * b)
def addI64 (note : ω) (a b : Int64) : Noted ω Int64 :=
  checked (-2 ^ 63 ≤ a.toInt + b.toInt ∧ a.toInt + b.toInt < 2 ^ 63) note (a + b)
def negI64 (note : ω) (a : Int64) : Noted ω Int64 := checked (a ≠ Int64.minValue) note (-a)

theorem add16Exact (note : ω) (a b : UInt16) (fits : a.toNat + b.toNat < 2 ^ 16) :
    add16 note a b = ⟨a + b, []⟩ ∧ (a + b).toNat = a.toNat + b.toNat :=
  ⟨checkedFits fits, by rw [UInt16.toNat_add]; omega⟩

theorem sub16Exact (note : ω) (a b : UInt16) (fits : b.toNat ≤ a.toNat) :
    sub16 note a b = ⟨a - b, []⟩ ∧ (a - b).toNat = a.toNat - b.toNat :=
  ⟨checkedFits fits, UInt16.toNat_sub_of_le _ _ (UInt16.le_iff_toNat_le.mpr fits)⟩

theorem add32Exact (note : ω) (a b : UInt32) (fits : a.toNat + b.toNat < 2 ^ 32) :
    add32 note a b = ⟨a + b, []⟩ ∧ (a + b).toNat = a.toNat + b.toNat :=
  ⟨checkedFits fits, by rw [UInt32.toNat_add]; omega⟩

theorem sub32Exact (note : ω) (a b : UInt32) (fits : b.toNat ≤ a.toNat) :
    sub32 note a b = ⟨a - b, []⟩ ∧ (a - b).toNat = a.toNat - b.toNat :=
  ⟨checkedFits fits, UInt32.toNat_sub_of_le _ _ (UInt32.le_iff_toNat_le.mpr fits)⟩

theorem add64Exact (note : ω) (a b : UInt64) (fits : a.toNat + b.toNat < 2 ^ 64) :
    add64 note a b = ⟨a + b, []⟩ ∧ (a + b).toNat = a.toNat + b.toNat :=
  ⟨checkedFits fits, by rw [UInt64.toNat_add]; omega⟩

theorem sub64Exact (note : ω) (a b : UInt64) (fits : b.toNat ≤ a.toNat) :
    sub64 note a b = ⟨a - b, []⟩ ∧ (a - b).toNat = a.toNat - b.toNat :=
  ⟨checkedFits fits, UInt64.toNat_sub_of_le _ _ (UInt64.le_iff_toNat_le.mpr fits)⟩

theorem sub64Notes (note : ω) (a b : UInt64) : ∀ other ∈ (sub64 note a b).notes, other = note :=
  fun _ member => checkedNotes member

theorem mul64Exact (note : ω) (a b : UInt64) (fits : a.toNat * b.toNat < 2 ^ 64) :
    mul64 note a b = ⟨a * b, []⟩ ∧ (a * b).toNat = a.toNat * b.toNat :=
  ⟨checkedFits fits, by rw [UInt64.toNat_mul]; exact Nat.mod_eq_of_lt fits⟩

theorem addI64Exact (note : ω) (a b : Int64)
    (fits : -2 ^ 63 ≤ a.toInt + b.toInt ∧ a.toInt + b.toInt < 2 ^ 63) :
    addI64 note a b = ⟨a + b, []⟩ ∧ (a + b).toInt = a.toInt + b.toInt :=
  ⟨checkedFits fits, by rw [Int64.toInt_add, Int.bmod_eq_of_le] <;> omega⟩

theorem negI64Exact (note : ω) (a : Int64) (fits : a ≠ Int64.minValue) :
    negI64 note a = ⟨-a, []⟩ ∧ (-a).toInt = -a.toInt := by
  have least : a.toInt ≠ -2 ^ 63 := fun low => fits (Int64.toInt_inj.mp low)
  have low := a.le_toInt
  have high := a.toInt_lt
  exact ⟨checkedFits fits, by rw [Int64.toInt_neg, Int.bmod_eq_of_le] <;> omega⟩

end Vdp.Lib.Wrap
