import Mathlib.Data.List.Induction

/-! Runs of a labelled step function. `none` is a step that is not enabled; every
enabled step leaves one event, and a run keeps the events of all its steps in order.
Nothing here fixes a scheduler: a run is any list of actions that were enabled. -/
namespace Vdp.Lib.Run

variable {σ α ε τ ρ : Type}

def run (step : σ → α → Option (ε × σ)) (s : σ) : List α → Option (List ε × σ)
  | [] => some ([], s)
  | a :: rest => do
      let head ← step s a
      let tail ← run step head.2 rest
      some (head.1 :: tail.1, tail.2)

theorem runNil {step : σ → α → Option (ε × σ)} {s es u} (ok : run step s [] = some (es, u)) : es = [] ∧ u = s := by
  simp only [run, Option.some.injEq, Prod.mk.injEq] at ok
  exact ⟨ok.1.symm, ok.2.symm⟩

theorem runCons {step : σ → α → Option (ε × σ)} {s a rest es u}
    (ok : run step s (a :: rest) = some (es, u)) :
    ∃ e t later, step s a = some (e, t) ∧ run step t rest = some (later, u) ∧ es = e :: later := by
  simp only [run, bind, Option.bind_eq_some_iff] at ok
  obtain ⟨⟨e, t⟩, first, ⟨later, v⟩, others, last⟩ := ok
  cases Option.some.inj last
  exact ⟨e, t, later, first, others, rfl⟩

theorem runAppend {step : σ → α → Option (ε × σ)} (s : σ) (front back : List α) :
    run step s (front ++ back) =
      (run step s front).bind (fun r => (run step r.2 back).map (fun q => (r.1 ++ q.1, q.2))) := by
  induction front generalizing s with
  | nil => simp [run]
  | cons a rest ih =>
    cases first : step s a with
    | none => simp [run, first]
    | some head =>
      cases later : run step head.2 rest with
      | none => simp [run, first, ih, later]
      | some tail => cases last : run step tail.2 back <;> simp [run, first, ih, later, last]

theorem runSnoc {step : σ → α → Option (ε × σ)} {s acts a es u}
    (ok : run step s (acts ++ [a]) = some (es, u)) :
    ∃ before t e, run step s acts = some (before, t) ∧ step t a = some (e, u) ∧
      es = before ++ [e] := by
  rw [runAppend] at ok
  obtain ⟨⟨before, t⟩, first, last⟩ := Option.bind_eq_some_iff.mp ok
  obtain ⟨⟨later, v⟩, final, same⟩ := Option.map_eq_some_iff.mp last
  obtain ⟨e, w, none, now, empty, rfl⟩ := runCons final
  obtain ⟨rfl, rfl⟩ := runNil empty
  simp only [Prod.mk.injEq] at same
  obtain ⟨rfl, rfl⟩ := same
  exact ⟨before, t, e, first, now, rfl⟩

theorem runExtend {step : σ → α → Option (ε × σ)} {s acts before t a e u}
    (first : run step s acts = some (before, t)) (now : step t a = some (e, u)) :
    run step s (acts ++ [a]) = some (before ++ [e], u) := by
  simp [runAppend, first, run, now]

theorem runThen {step : σ → α → Option (ε × σ)} {s front before t back later u}
    (first : run step s front = some (before, t)) (second : run step t back = some (later, u)) :
    run step s (front ++ back) = some (before ++ later, u) := by
  simp [runAppend, first, second]

theorem runInvariantFrom {step : σ → α → Option (ε × σ)} (inv : List ε → σ → Prop)
    (next : ∀ {past s a e t}, inv past s → step s a = some (e, t) → inv (past ++ [e]) t)
    {past s acts es u} (start : inv past s) (ok : run step s acts = some (es, u)) :
    inv (past ++ es) u := by
  induction acts generalizing past s es with
  | nil =>
    obtain ⟨rfl, rfl⟩ := runNil ok
    simpa using start
  | cons a rest ih =>
    obtain ⟨e, t, later, first, others, rfl⟩ := runCons ok
    have reached := ih (next start first) others
    simpa using reached

/- The rule every whole-run result uses. The invariant may speak about the events so
far, so counters of past events need no ghost field in the state. -/
theorem runInvariant {step : σ → α → Option (ε × σ)} (inv : List ε → σ → Prop)
    (next : ∀ {past s a e t}, inv past s → step s a = some (e, t) → inv (past ++ [e]) t)
    {s acts es u} (start : inv [] s) (ok : run step s acts = some (es, u)) : inv es u :=
  runInvariantFrom inv next start ok

theorem runTotal {step : σ → α → Option (ε × σ)} (inv : List α → List ε → σ → Prop)
    (next : ∀ {done past s} (a : α), inv done past s →
      ∃ e t, step s a = some (e, t) ∧ inv (done ++ [a]) (past ++ [e]) t)
    {s} (start : inv [] [] s) (acts : List α) :
    ∃ es u, run step s acts = some (es, u) ∧ inv acts es u := by
  induction acts using List.reverseRecOn with
  | nil => exact ⟨[], s, rfl, start⟩
  | append_singleton acts a ih =>
    obtain ⟨es, t, ran, reached⟩ := ih
    obtain ⟨e, u, now, kept⟩ := next a reached
    exact ⟨es ++ [e], u, runExtend ran now, kept⟩

def guarded (meets : σ → α → Prop) [∀ s a, Decidable (meets s a)]
    (step : σ → α → Option (ε × σ)) (s : σ) (a : α) : Option (ε × σ) :=
  if meets s a then step s a else none

theorem guardedStep {meets : σ → α → Prop} [∀ s a, Decidable (meets s a)]
    {step : σ → α → Option (ε × σ)} {s a e t} (ok : guarded meets step s a = some (e, t)) :
    meets s a ∧ step s a = some (e, t) := by
  unfold guarded at ok
  split at ok <;> try contradiction
  exact ⟨by assumption, ok⟩

structure Transition (σ α : Type) where
  before : σ
  act : α
  after : σ

def traced (step : σ → α → Option σ) (s : σ) (a : α) : Option (Transition σ α × σ) :=
  (step s a).map (fun t => (⟨s, a, t⟩, t))

theorem tracedStep {step : σ → α → Option σ} {s a e t} (ok : traced step s a = some (e, t)) :
    step s a = some t ∧ e = ⟨s, a, t⟩ := by
  obtain ⟨u, now, same⟩ := Option.map_eq_some_iff.mp ok
  simp only [Prod.mk.injEq] at same
  obtain ⟨rfl, rfl⟩ := same
  exact ⟨now, rfl⟩

theorem tracedActs {step : σ → α → Option σ} {s acts es u} (ok : run (traced step) s acts = some (es, u)) :
    es.map Transition.act = acts := by
  induction acts generalizing s es with
  | nil =>
    simp [(runNil ok).1]
  | cons a rest ih =>
    obtain ⟨e, t, later, first, others, rfl⟩ := runCons ok
    obtain ⟨_, rfl⟩ := tracedStep first
    simp [ih others]

/- A property and a condition that agree on every single step, as long as the steps before
met the condition, agree on every run. -/
theorem runAgrees {step : σ → α → Option σ} (inv : σ → Prop) {holds meets : Transition σ α → Prop}
    (next : ∀ {s a t}, inv s → step s a = some t →
      (holds ⟨s, a, t⟩ ↔ meets ⟨s, a, t⟩) ∧ (meets ⟨s, a, t⟩ → inv t))
    {s acts es u} (start : inv s) (ok : run (traced step) s acts = some (es, u)) :
    (∀ e ∈ es, holds e) ↔ ∀ e ∈ es, meets e := by
  induction acts generalizing s es with
  | nil =>
    simp [(runNil ok).1]
  | cons a rest ih =>
    obtain ⟨e, t, later, first, others, rfl⟩ := runCons ok
    obtain ⟨now, rfl⟩ := tracedStep first
    obtain ⟨agree, keep⟩ := next start now
    simp only [List.forall_mem_cons, agree]
    exact and_congr_right (fun met => ih (keep met) others)

def replies (spec : τ → α → ρ × τ) (q : τ) : List α → List ρ
  | [] => []
  | a :: rest => (spec q a).1 :: replies spec (spec q a).2 rest

def final (spec : τ → α → ρ × τ) (q : τ) : List α → τ
  | [] => q
  | a :: rest => final spec (spec q a).2 rest

theorem repliesAppend (spec : τ → α → ρ × τ) (q : τ) (front back : List α) :
    replies spec q (front ++ back) = replies spec q front ++ replies spec (final spec q front) back := by
  induction front generalizing q with
  | nil => rfl
  | cons a rest ih => simp [replies, final, ih]

theorem finalAppend (spec : τ → α → ρ × τ) (q : τ) (front back : List α) :
    final spec q (front ++ back) = final spec (final spec q front) back := by
  induction front generalizing q with
  | nil => rfl
  | cons a rest ih => simp [final, ih]

theorem finalInvariant {spec : τ → α → ρ × τ} {allowed : α → Prop} (inv : τ → Prop)
    (next : ∀ q a, allowed a → inv q → inv (spec q a).2) {q} (start : inv q) (acts : List α)
    (ok : ∀ a ∈ acts, allowed a) : inv (final spec q acts) := by
  induction acts generalizing q with
  | nil => exact start
  | cons a rest ih =>
    have now := next q a (ok a List.mem_cons_self) start
    exact ih now (fun b later => ok b (List.mem_cons_of_mem a later))

theorem runSimulates {step : σ → α → Option (ε × σ)} {spec : τ → α → ρ × τ} {answer : ε → ρ}
    {related : σ → τ → Prop}
    (sim : ∀ s q a, related s q → ∃ e t, step s a = some (e, t) ∧
      answer e = (spec q a).1 ∧ related t (spec q a).2)
    {s q} (start : related s q) (acts : List α) :
    ∃ es t, run step s acts = some (es, t) ∧ es.map answer = replies spec q acts ∧
      related t (final spec q acts) := by
  induction acts generalizing s q with
  | nil => exact ⟨[], s, rfl, rfl, start⟩
  | cons a rest ih =>
    obtain ⟨e, t, first, same, next⟩ := sim s q a start
    obtain ⟨es, u, others, later, last⟩ := ih next
    exact ⟨e :: es, u, by simp [run, first, others], by simp [replies, same, later], last⟩

end Vdp.Lib.Run
