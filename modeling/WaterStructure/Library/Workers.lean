import Mathlib.Data.List.Basic
import Mathlib.Logic.Function.Basic

/-!
# Tasks on workers with private state

Every worker has a state of its own, which a task may read and change. A schedule lists which
worker performs which task, in the order in which the tasks are performed. If the result of a task
does not depend on the state, as long as an invariant of the state holds, then every schedule
gives the same results.
-/

namespace Workers

variable {σ τ α : Type*}

/-- Perform the tasks of a schedule; `results` holds the results so far. -/
def perform (task : τ → σ → σ × α) (tasks : List τ) :
    List (ℕ × ℕ) → (ℕ → σ) → (ℕ → Option α) → ℕ → Option α
  | [], _, results => results
  | (worker, index) :: rest, states, results =>
    match tasks[index]? with
    | none => perform task tasks rest states results
    | some work =>
      perform task tasks rest
        (Function.update states worker (task work (states worker)).1)
        (Function.update results index (some (task work (states worker)).2))

/-- Under an invariant that makes what is observed of a result independent of the state, the
results of a schedule are those of its tasks. -/
theorem perform_eq {β : Type*} {task : τ → σ → σ × α} {observe : α → β} {value : τ → β}
    {Inv : σ → Prop} (hvalue : ∀ work state, Inv state → observe (task work state).2 = value work)
    (hinv : ∀ work state, Inv state → Inv (task work state).1) {tasks : List τ}
    {schedule : List (ℕ × ℕ)} {states : ℕ → σ} (hstates : ∀ worker, Inv (states worker))
    (results : ℕ → Option α) (index : ℕ) :
    (perform task tasks schedule states results index).map observe =
      if index ∈ schedule.map Prod.snd ∧ index < tasks.length then tasks[index]?.map value
      else (results index).map observe := by
  induction schedule generalizing states results with
  | nil =>
    rw [perform, if_neg]
    intro h
    cases h.1
  | cons entry rest ih =>
    obtain ⟨worker, first⟩ := entry
    rw [perform]
    cases hwork : tasks[first]? with
    | none =>
      dsimp only
      rw [ih hstates]
      have hout : tasks.length ≤ first := List.getElem?_eq_none_iff.mp hwork
      apply if_congr _ rfl rfl
      constructor
      · intro ⟨hmem, hlt⟩
        exact ⟨List.mem_cons_of_mem _ hmem, hlt⟩
      · intro ⟨hmem, hlt⟩
        refine ⟨(List.mem_cons.mp hmem).resolve_left ?_, hlt⟩
        intro heq
        dsimp only at heq
        omega
    | some work =>
      dsimp only
      have hnext (other : ℕ) :
          Inv (Function.update states worker (task work (states worker)).1 other) := by
        rw [Function.update_apply]
        split
        · exact hinv work _ (hstates worker)
        · exact hstates other
      rw [ih hnext]
      by_cases hrest : index ∈ rest.map Prod.snd ∧ index < tasks.length
      · rw [if_pos hrest, if_pos ⟨List.mem_cons_of_mem _ hrest.1, hrest.2⟩]
      · rw [if_neg hrest, Function.update_apply]
        by_cases hfirst : index = first
        · have hlt : first < tasks.length := (List.getElem?_eq_some_iff.mp hwork).1
          rw [if_pos hfirst, if_pos ⟨List.mem_cons.mpr (.inl hfirst), hfirst ▸ hlt⟩, hfirst, hwork,
            Option.map_some, hvalue work _ (hstates worker)]
          rfl
        · rw [if_neg hfirst, if_neg]
          intro ⟨hmem, hlt⟩
          exact hrest ⟨(List.mem_cons.mp hmem).resolve_left hfirst, hlt⟩

end Workers
