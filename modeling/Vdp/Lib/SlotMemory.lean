import Mathlib.Data.Int.Basic
import Mathlib.Tactic.Linarith

/-! Memory addressed in fixed-size slots. A slot that was never stored to reads as
`uninit`; storing one slot changes no slot that is a whole slot size away. `cells`
is the memory of whole values, `blocks` a flat memory of bytes. -/
namespace Vdp.Lib.Slots

inductive Slot (T : Type) where
  | uninit
  | val (value : T)
  deriving DecidableEq, Repr

structure SlotMemory (M T : Type) where
  size : Nat
  load : M → Int → Slot T
  store : M → Int → T → M
  positive : 0 < size
  loadStore : ∀ (m : M) (p : Int) (v : T), load (store m p v) p = .val v
  loadApart : ∀ (m : M) (p q : Int) (v : T), p + size ≤ q ∨ q + size ≤ p →
    load (store m q v) p = load m p

variable {M T : Type}

def SlotMemory.addr (mem : SlotMemory M T) (base index : Int) : Int := base + index * mem.size

theorem addrApart (mem : SlotMemory M T) (base : Int) {i j : Int} (different : i ≠ j) :
    mem.addr base i + mem.size ≤ mem.addr base j ∨ mem.addr base j + mem.size ≤ mem.addr base i := by
  have positive : (0 : Int) < mem.size := by exact_mod_cast mem.positive
  unfold SlotMemory.addr
  rcases lt_or_gt_of_ne different with below | above
  · left; nlinarith
  · right; nlinarith

theorem loadOther (mem : SlotMemory M T) (m : M) (base : Int) {i j : Int} (v : T) (different : i ≠ j) :
    mem.load (mem.store m (mem.addr base j) v) (mem.addr base i) = mem.load m (mem.addr base i) :=
  mem.loadApart m _ _ v (addrApart mem base different)

def cells (T : Type) : SlotMemory (Int → Slot T) T where
  size := 1
  load m p := m p
  store m p v := fun q => if q = p then .val v else m q
  positive := Nat.one_pos
  loadStore m p v := if_pos rfl
  loadApart m p q v apart := if_neg (by omega)

def blocks (n : Nat) (positive : 0 < n) : SlotMemory (Int → UInt8) (Vector UInt8 n) where
  size := n
  load m p := .val (Vector.ofFn (fun i => m (p + i.val)))
  store m p v := fun q =>
    if h : p ≤ q ∧ q < p + n then v.get ⟨(q - p).toNat, by omega⟩ else m q
  positive := positive
  loadStore m p v := by
    congr 1
    ext i bound
    have inside : p ≤ p + (i : Int) ∧ p + (i : Int) < p + n := by omega
    simp only [Vector.getElem_ofFn, dif_pos inside, add_sub_cancel_left, Int.toNat_natCast]
    rfl
  loadApart m p q v apart := by
    congr 1
    ext i bound
    have outside : ¬ (q ≤ p + (i : Int) ∧ p + (i : Int) < q + n) := by omega
    simp only [Vector.getElem_ofFn, dif_neg outside]

section Blocks
variable {n : Nat} (positive : 0 < n) {m m' : Int → UInt8} {p a : Int} {v : Vector UInt8 n}

theorem blocksLoadSame (same : ∀ a, p ≤ a → a < p + n → m a = m' a) :
    (blocks n positive).load m p = (blocks n positive).load m' p := by
  simp only [blocks]
  congr 1
  ext i bound
  simp only [Vector.getElem_ofFn]
  rw [same (p + i) (by omega) (by omega)]

theorem blocksStoreSame (same : m a = m' a) :
    (blocks n positive).store m p v a = (blocks n positive).store m' p v a := by
  simp only [blocks]
  split
  · rfl
  · exact same

theorem blocksStoreOutside (outside : a < p ∨ p + n ≤ a) : (blocks n positive).store m p v a = m a := by
  simp only [blocks]
  rw [dif_neg (by omega)]

theorem addrInside (mem : SlotMemory M T) (base : Int) {i : Int} {k : Nat} (low : 0 ≤ i) (high : i < k) :
    base ≤ mem.addr base i ∧ mem.addr base i + mem.size ≤ base + k * mem.size := by
  have positive : (0 : Int) < mem.size := by exact_mod_cast mem.positive
  unfold SlotMemory.addr
  constructor <;> nlinarith

end Blocks

end Vdp.Lib.Slots
