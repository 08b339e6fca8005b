import Mathlib.Data.List.Basic

/-! Calls into something outside the program, one after the other, given up at the first
that is judged a failure. What answers may depend on all it was asked before, so any
deterministic device is such a function; the log keeps every call beside its answer. -/
namespace Vdp.Lib.Calls

variable {Call Answer ε ι : Type}

abbrev Log (Call Answer : Type) := List (Call × Answer)

abbrev Caller (Call Answer ε : Type) := ExceptT ε (StateM (Log Call Answer))

def issue (respond : Log Call Answer → Call → Answer) (judge : Answer → Except ε Unit) (c : Call) :
    Caller Call Answer ε Unit :=
  fun past => (judge (respond past c), past ++ [(c, respond past c)])

def issueAll (respond : Log Call Answer → Call → Answer) (judge : Answer → Except ε Unit) (calls : List Call) :
    Caller Call Answer ε Unit :=
  calls.forM (issue respond judge)

variable {respond : Log Call Answer → Call → Answer} {judge : Answer → Except ε Unit}

theorem issueAllFlatMap (body : ι → List Call) (is : List ι) :
    is.forM (fun i => issueAll respond judge (body i)) = issueAll respond judge (is.flatMap body) := by
  induction is with
  | nil => rfl
  | cons i rest ih =>
    simp only [issueAll, List.forM_eq_forM] at ih ⊢
    simp only [List.forM_cons, List.flatMap_cons, List.forM_append, ih]

theorem issueAllCons (c : Call) (rest : List Call) (past : Log Call Answer) :
    (issueAll respond judge (c :: rest)).run.run past =
      match judge (respond past c) with
      | .ok () => (issueAll respond judge rest).run.run (past ++ [(c, respond past c)])
      | .error e => (.error e, past ++ [(c, respond past c)]) := by
  have asked : (issue respond judge c).run.run past = (judge (respond past c), past ++ [(c, respond past c)]) := rfl
  simp only [issueAll, List.forM_eq_forM, List.forM_cons, ExceptT.run_bind, StateT.run_bind, asked]
  cases judge (respond past c) <;> rfl

theorem issueAllConsOk {c : Call} {rest : List Call} {past now : Log Call Answer}
    (ok : (issueAll respond judge (c :: rest)).run.run past = (.ok (), now)) :
    judge (respond past c) = .ok () ∧
      (issueAll respond judge rest).run.run (past ++ [(c, respond past c)]) = (.ok (), now) := by
  rw [issueAllCons] at ok
  split at ok
  · exact ⟨by assumption, ok⟩
  · cases ok

theorem issueAllLog {calls : List Call} {past now : Log Call Answer}
    (ok : (issueAll respond judge calls).run.run past = (.ok (), now)) :
    ∃ events, now = past ++ events ∧ events.map Prod.fst = calls ∧ ∀ e ∈ events, judge e.2 = .ok () := by
  induction calls generalizing past with
  | nil =>
    cases ok
    exact ⟨[], by simp, rfl, by simp⟩
  | cons c rest ih =>
    obtain ⟨good, later⟩ := issueAllConsOk ok
    obtain ⟨events, same, asked, fine⟩ := ih later
    refine ⟨(c, respond past c) :: events, by simp [same], by simp [asked], ?_⟩
    exact List.forall_mem_cons.mpr ⟨good, fine⟩

theorem issueAllEach (inv : Log Call Answer → Prop) {calls : List Call} {past now : Log Call Answer}
    (next : ∀ {past c}, c ∈ calls → inv past → inv (past ++ [(c, respond past c)]))
    (start : inv past) (ok : (issueAll respond judge calls).run.run past = (.ok (), now)) :
    inv now ∧ ∀ c ∈ calls, ∃ before, inv before ∧ judge (respond before c) = .ok () := by
  induction calls generalizing past with
  | nil =>
    cases ok
    exact ⟨start, by simp⟩
  | cons c rest ih =>
    obtain ⟨good, later⟩ := issueAllConsOk ok
    have kept := next List.mem_cons_self start
    obtain ⟨last, each⟩ := ih (fun member => next (List.mem_cons_of_mem c member)) kept later
    exact ⟨last, List.forall_mem_cons.mpr ⟨⟨past, start, good⟩, each⟩⟩

theorem issueAllSucceeds (inv : Log Call Answer → Prop) {calls : List Call}
    (next : ∀ {past c}, c ∈ calls → inv past → judge (respond past c) = .ok () ∧ inv (past ++ [(c, respond past c)]))
    {past : Log Call Answer} (start : inv past) :
    ∃ now, (issueAll respond judge calls).run.run past = (.ok (), now) := by
  induction calls generalizing past with
  | nil => exact ⟨past, rfl⟩
  | cons c rest ih =>
    obtain ⟨good, kept⟩ := next List.mem_cons_self start
    rw [issueAllCons, good]
    exact ih (fun member => next (List.mem_cons_of_mem c member)) kept

end Vdp.Lib.Calls
