import Mathlib.Data.List.Basic

/-! A bounded first-in first-out queue as a list with the oldest element first.
`step` is total: a push on a full queue is refused and a pop on an empty queue
finds nothing; both leave the queue as it was. -/
namespace Vdp.Lib.Fifo

variable {T : Type}

inductive Call (T : Type) where
  | push (elem : T)
  | pop
  deriving DecidableEq, Repr

inductive Reply (T : Type) where
  | stored
  | refused
  | taken (elem : T)
  | nothing
  deriving DecidableEq, Repr

def step (bound : Nat) (q : List T) : Call T → Reply T × List T
  | .push e => if q.length < bound then (.stored, q ++ [e]) else (.refused, q)
  | .pop => match q with
    | [] => (.nothing, [])
    | e :: rest => (.taken e, rest)

theorem stepPush {bound : Nat} {q : List T} (e : T) (room : q.length < bound) :
    step bound q (.push e) = (.stored, q ++ [e]) := if_pos room

theorem stepFull {bound : Nat} {q : List T} (e : T) (full : ¬ q.length < bound) :
    step bound q (.push e) = (.refused, q) := if_neg full

theorem stepBounded {bound : Nat} {q : List T} (c : Call T) (bounded : q.length ≤ bound) :
    (step bound q c).2.length ≤ bound := by
  cases c with
  | push e =>
    simp only [step]
    split
    · simpa using Nat.succ_le_of_lt (by assumption)
    · exact bounded
  | pop =>
    cases q with
    | nil => exact bounded
    | cons e rest => exact Nat.le_of_succ_le bounded

theorem stepTaken {bound : Nat} {q rest : List T} {e : T} (popped : step bound q .pop = (.taken e, rest)) :
    q = e :: rest := by
  cases q with
  | nil => cases popped
  | cons first others =>
    cases popped
    rfl

def pushAll (bound : Nat) (q : List T) : List T → Option (List T)
  | [] => some q
  | e :: rest => match step bound q (.push e) with
    | (.stored, q) => pushAll bound q rest
    | _ => none

theorem pushAllFits {bound : Nat} {q items : List T} (room : q.length + items.length ≤ bound) :
    pushAll bound q items = some (q ++ items) := by
  induction items generalizing q with
  | nil => simp [pushAll]
  | cons e rest ih =>
    simp only [List.length_cons] at room
    have later : (q ++ [e]).length + rest.length ≤ bound := by
      simp only [List.length_append, List.length_singleton]
      omega
    simp only [pushAll, stepPush e (show q.length < bound by omega), ih later]
    simp

structure Tally where
  stored : Nat
  taken : Nat
  deriving DecidableEq, Repr

def tally (bound : Nat) (t : Tally) : Call T → Tally
  | .push _ => if t.stored < t.taken + bound then { t with stored := t.stored + 1 } else t
  | .pop => if t.taken < t.stored then { t with taken := t.taken + 1 } else t

def visited (bound : Nat) (t : Tally) : Call T → List Nat
  | .push _ => if t.stored < t.taken + bound then [t.stored + 1] else []
  | .pop => if t.taken < t.stored then [t.taken + 1] else []

def pushCount : Call T → Nat
  | .push _ => 1
  | .pop => 0

theorem visitedStored {bound : Nat} (t : Tally) (c : Call T) (k : Nat) :
    (k ∈ visited bound t c ∨ (1 ≤ k ∧ k ≤ t.stored)) ↔ 1 ≤ k ∧ k ≤ (tally bound t c).stored := by
  cases c with
  | push e =>
    simp only [visited, tally]
    split
    · simp
      omega
    · simp
  | pop =>
    simp only [visited, tally]
    split
    · simp
      omega
    · simp

theorem storedLe (bound : Nat) (t : Tally) (c : Call T) : (tally bound t c).stored ≤ t.stored + pushCount c := by
  cases c <;> simp only [tally, pushCount] <;> split <;> simp

theorem storedAll (bound : Nat) (t : Tally) (c : Call T) :
    (tally bound t c).stored = t.stored + pushCount c ∨ bound ≤ (tally bound t c).stored := by
  cases c with
  | push e =>
    simp only [tally, pushCount]
    split
    · left
      rfl
    · right
      omega
  | pop =>
    left
    simp only [tally, pushCount]
    split <;> rfl

theorem storedNone {t : Tally} (order : t.taken ≤ t.stored) (none : t.stored = 0) (c : Call T) :
    (tally 0 t c).stored = 0 := by
  cases c with
  | push e =>
    simp only [tally]
    split
    · omega
    · exact none
  | pop =>
    simp only [tally]
    split <;> exact none

end Vdp.Lib.Fifo
