import Mathlib.Data.List.Count
import Mathlib.Data.List.Nodup
import Mathlib.Logic.Relation
import Mathlib.Order.BooleanAlgebra.Set
import Vdp.Lib.Run

/-! Things that are each in one place, and what moves them. `held` counts how often a place
has a thing, whatever the place is made of. The abstract state is an owner for each thing;
counts that come from owners have lost nothing and have nothing twice. -/
namespace Vdp.Lib.Custody
open Relation (ReflTransGen)
open Run (run runCons runNil)

variable {ι α : Type}

def Leads (edge : ι → ι → Prop) (owner later : α → Option ι) : Prop :=
  ∀ m, Option.Rel (ReflTransGen edge) (owner m) (later m)

theorem leadsRefl (edge : ι → ι → Prop) (owner : α → Option ι) : Leads edge owner owner := by
  intro m
  cases owner m with
  | none => exact .none
  | some i => exact .some .refl

theorem leadsTrans {edge : ι → ι → Prop} {owner later last : α → Option ι} (first : Leads edge owner later)
    (second : Leads edge later last) : Leads edge owner last := by
  intro m
  have before := first m
  have after := second m
  generalize owner m = i, later m = j, last m = k at before after ⊢
  cases before with
  | none =>
    cases after
    exact .none
  | some path =>
    cases after with
    | some rest => exact .some (path.trans rest)

theorem leadsNone {edge : ι → ι → Prop} {owner later : α → Option ι} (leads : Leads edge owner later) (m : α) :
    later m = none ↔ owner m = none := by
  have moved := leads m
  generalize owner m = i, later m = j at moved ⊢
  cases moved with
  | none => rfl
  | some path => simp

variable [DecidableEq ι]

def Keeps (held : ι → α → Nat) (owner : α → Option ι) : Prop :=
  ∀ i m, held i m = if owner m = some i then 1 else 0

def Hands (edge : ι → ι → Prop) (held after : ι → α → Nat) : Prop :=
  ∀ owner, Keeps held owner → ∃ later, Keeps after later ∧ Leads edge owner later

theorem handsRefl {edge : ι → ι → Prop} {held after : ι → α → Nat} (same : after = held) : Hands edge held after := by
  subst same
  exact fun owner keeps => ⟨owner, keeps, leadsRefl edge owner⟩

theorem handsTrans {edge : ι → ι → Prop} {held after last : ι → α → Nat} (first : Hands edge held after)
    (second : Hands edge after last) : Hands edge held last := by
  intro owner keeps
  obtain ⟨later, kept, led⟩ := first owner keeps
  obtain ⟨last, keptLast, ledLast⟩ := second later kept
  exact ⟨last, keptLast, leadsTrans led ledLast⟩

section Moves
variable [DecidableEq α]

structure Moves (held after : ι → α → Nat) (src dst : ι) (things : List α) : Prop where
  left : ∀ m, after src m + things.count m = held src m
  arrived : ∀ m, after dst m = held dst m + things.count m
  others : ∀ i, i ≠ src → i ≠ dst → after i = held i

def hand (owner : α → Option ι) (things : List α) (dst : ι) : α → Option ι :=
  fun m => if m ∈ things then some dst else owner m

variable {edge : ι → ι → Prop} {held after : ι → α → Nat} {src dst : ι} {things : List α} {owner : α → Option ι}

theorem movedOwned (moves : Moves held after src dst things) (keeps : Keeps held owner) {m : α}
    (moved : m ∈ things) : owner m = some src ∧ things.count m = 1 := by
  have positive := List.count_pos_iff.mpr moved
  have left := moves.left m
  rw [keeps src m] at left
  split at left
  · rename_i owned
    exact ⟨owned, by omega⟩
  · omega

theorem movesKeeps (apart : src ≠ dst) (moves : Moves held after src dst things) (keeps : Keeps held owner) :
    Keeps after (hand owner things dst) := by
  intro i m
  have left := moves.left m
  have arrived := moves.arrived m
  rw [keeps] at left arrived
  by_cases moved : m ∈ things
  · obtain ⟨owned, once⟩ := movedOwned moves keeps moved
    rw [owned, once] at left arrived
    rw [if_pos rfl] at left
    rw [if_neg (fun same => apart (Option.some.inj same))] at arrived
    rw [hand, if_pos moved]
    by_cases there : dst = i
    · subst there
      rw [if_pos rfl, arrived]
    · rw [if_neg (fun same => there (Option.some.inj same))]
      by_cases here : src = i
      · subst here
        omega
      · rw [moves.others i (Ne.symm here) (Ne.symm there), keeps, owned,
          if_neg (fun same => here (Option.some.inj same))]
  · rw [List.count_eq_zero_of_not_mem moved] at left arrived
    rw [hand, if_neg moved]
    by_cases there : i = dst
    · subst there
      rw [arrived, Nat.add_zero]
    · by_cases here : i = src
      · subst here
        rw [← left, Nat.add_zero]
      · rw [moves.others i here there, keeps]

theorem handsMove (src dst : ι) (things : List α) (apart : src ≠ dst) (along : edge src dst)
    (moves : Moves held after src dst things) : Hands edge held after := by
  intro owner keeps
  refine ⟨hand owner things dst, movesKeeps apart moves keeps, ?_⟩
  intro m
  by_cases moved : m ∈ things
  · rw [hand, if_pos moved, (movedOwned moves keeps moved).1]
    exact .some (.single along)
  · rw [hand, if_neg moved]
    exact leadsRefl edge owner m

omit [DecidableEq α] in
theorem notElsewhere {i j : ι} {m : α} (keeps : Keeps held owner) (apart : i ≠ j) (there : 0 < held i m) :
    held j m = 0 := by
  rw [keeps] at there ⊢
  split at there
  · rename_i owned
    rw [owned, if_neg (fun same => apart (Option.some.inj same))]
  · exact absurd there (Nat.lt_irrefl 0)

theorem listOwned (keeps : Keeps held owner) (i : ι) (things : List α) (listed : ∀ m, held i m = things.count m) :
    things.Nodup ∧ ∀ m, m ∈ things ↔ owner m = some i := by
  constructor
  · rw [List.nodup_iff_count_le_one]
    intro m
    rw [← listed, keeps]
    split <;> omega
  · intro m
    rw [← List.count_pos_iff, ← listed, keeps]
    split <;> simp_all

end Moves

section Counts

open Classical in
noncomputable def among (s : Set α) (m : α) : Nat := if m ∈ s then 1 else 0

theorem amongIn {s : Set α} {m : α} (inside : m ∈ s) : among s m = 1 := if_pos inside

theorem amongOut {s : Set α} {m : α} (outside : m ∉ s) : among s m = 0 := if_neg outside

variable [DecidableEq α]

theorem amongGiven {s : Set α} {things : List α} (once : things.Nodup) (outside : ∀ x ∈ things, x ∉ s) (m : α) :
    among (s ∪ {x | x ∈ things}) m = among s m + things.count m := by
  by_cases given : m ∈ things
  · rw [amongIn (Set.mem_union_right s given), amongOut (outside m given), List.count_eq_one_of_mem once given]
  · rw [List.count_eq_zero_of_not_mem given]
    by_cases inside : m ∈ s
    · rw [amongIn inside, amongIn (Set.mem_union_left _ inside)]
    · rw [amongOut inside, amongOut (fun more => more.elim inside given)]

theorem amongTaken {s : Set α} {things : List α} (once : things.Nodup) (inside : ∀ x ∈ things, x ∈ s) (m : α) :
    among (s \ {x | x ∈ things}) m + things.count m = among s m := by
  have part : {x | x ∈ things} ⊆ s := inside
  rw [← amongGiven once (fun x given more => more.2 given), Set.sdiff_union_of_subset part]

theorem countTaken {held things : List α} (own : things.Subperm held) (m : α) :
    (held.diff things).count m + things.count m = held.count m := by
  rw [List.count_diff]
  exact Nat.sub_add_cancel (own.count_le m)

end Counts

section Start

open Classical in
noncomputable def startOwner (first : ι) (all : Set α) (m : α) : Option ι := if m ∈ all then some first else none

theorem startKeeps (held : ι → α → Nat) {first : ι} {all : Set α} (whole : held first = among all)
    (empty : ∀ i, i ≠ first → ∀ m, held i m = 0) : Keeps held (startOwner first all) := by
  intro i m
  by_cases same : i = first
  · subst same
    rw [whole, startOwner]
    by_cases inside : m ∈ all
    · rw [amongIn inside, if_pos inside, if_pos rfl]
    · rw [amongOut inside, if_neg inside, if_neg (by rintro ⟨⟩)]
  · rw [empty i same, startOwner]
    split
    · rw [if_neg (fun owned => same (Option.some.inj owned).symm)]
    · rw [if_neg (by rintro ⟨⟩)]

theorem handsStart {edge : ι → ι → Prop} {first : ι} {all : Set α} {held after : ι → α → Nat}
    (keeps : Keeps held (startOwner first all)) (hands : Hands edge held after) :
    ∃ owner, (∀ m, owner m = none ↔ m ∉ all) ∧ Keeps after owner := by
  obtain ⟨owner, kept, leads⟩ := hands _ keeps
  refine ⟨owner, ?_, kept⟩
  intro m
  rw [leadsNone leads m, startOwner]
  split <;> simp [*]

end Start

theorem runHands {σ β ε : Type} {step : σ → β → Option (ε × σ)} {edge : ι → ι → Prop} (held : σ → ι → α → Nat)
    (inv : σ → Prop) (allowed : β → Prop)
    (next : ∀ {s a e t}, allowed a → inv s → step s a = some (e, t) → inv t ∧ Hands edge (held s) (held t))
    {s acts es u} (all : ∀ a ∈ acts, allowed a) (start : inv s) (ok : run step s acts = some (es, u)) :
    inv u ∧ Hands edge (held s) (held u) := by
  induction acts generalizing s es with
  | nil =>
    obtain ⟨_, rfl⟩ := runNil ok
    exact ⟨start, handsRefl rfl⟩
  | cons a rest ih =>
    obtain ⟨e, t, later, first, others, _⟩ := runCons ok
    obtain ⟨kept, handed⟩ := next (all a List.mem_cons_self) start first
    obtain ⟨reached, more⟩ := ih (fun b member => all b (List.mem_cons_of_mem a member)) kept others
    exact ⟨reached, handsTrans handed more⟩

end Vdp.Lib.Custody
