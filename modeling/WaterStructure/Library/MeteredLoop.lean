import WaterStructure.Library.LastValue
import WaterStructure.Library.NestedLoop

/-!
# Loops with a budget

A step of such a loop costs something and overwrites some cells of a store. It fails exactly when its
cost exceeds what is left of the budget. A loop of such steps is again such a step: its cost is the
sum, and each cell holds what the last step has written to it.
-/

namespace MeteredLoop

open LastValue NestedLoop

variable {σ ε ι α γ : Type}

/-- A step that keeps an invariant, costs `cost`, and writes `writes` to the cells it reaches. -/
structure Metered (Inv : σ → Prop) (spent : σ → ℕ) (limit : ℕ) (view : σ → ι → α)
    (step : σ → Except ε σ) (cost : ℕ) (writes : ι → Option α) : Prop where
  ok : ∀ state, Inv state → spent state + cost ≤ limit → ∃ next, step state = .ok next ∧ Inv next ∧
    spent next = spent state + cost ∧ ∀ cell, view next cell = (writes cell).getD (view state cell)
  error : ∀ state, Inv state → spent state ≤ limit → limit < spent state + cost →
    ∃ e, step state = .error e

variable {Inv : σ → Prop} {spent : σ → ℕ} {limit : ℕ} {view : σ → ι → α}

/-- The rule of loops. -/
theorem Metered.foldlM {step : σ → γ → Except ε σ} {cost : γ → ℕ} {writes : γ → ι → Option α}
    {items : List γ} (h : ∀ item ∈ items,
      Metered Inv spent limit view (step · item) (cost item) (writes item)) :
    Metered Inv spent limit view (fun state => items.foldlM step state) (items.map cost).sum
      (fun cell => lastValue (fun item => writes item cell) items) := by
  induction items with
  | nil =>
    refine ⟨fun state hstate _ => ⟨state, rfl, hstate, rfl, fun _ => rfl⟩, fun state _ hle hlt => ?_⟩
    rw [List.map_nil, List.sum_nil] at hlt
    omega
  | cons item rest ih =>
    have hfirst := h item List.mem_cons_self
    have hrest := ih fun other hother => h other (List.mem_cons_of_mem _ hother)
    constructor
    · intro state hstate hle
      rw [List.map_cons, List.sum_cons] at hle
      obtain ⟨middle, hmiddle, hinv, hspent, hview⟩ := hfirst.ok state hstate (by omega)
      obtain ⟨next, hnext, hinv', hspent', hview'⟩ := hrest.ok middle hinv (by omega)
      refine ⟨next, ?_, hinv', ?_, fun cell => ?_⟩
      · rw [List.foldlM_cons, hmiddle]
        exact hnext
      · rw [hspent', hspent, List.map_cons, List.sum_cons, Nat.add_assoc]
      · rw [hview', hview, lastValue_cons, Option.getD_or]
    · intro state hstate hspent hlt
      rw [List.map_cons, List.sum_cons] at hlt
      by_cases hcost : spent state + cost item ≤ limit
      · obtain ⟨middle, hmiddle, hinv, hspent', -⟩ := hfirst.ok state hstate hcost
        obtain ⟨e, he⟩ := hrest.error middle hinv (by omega) (by omega)
        refine ⟨e, ?_⟩
        rw [List.foldlM_cons, hmiddle]
        exact he
      · obtain ⟨e, he⟩ := hfirst.error state hstate hspent (by omega)
        refine ⟨e, ?_⟩
        rw [List.foldlM_cons, he]
        rfl

/-- A step that neither costs nor writes anything. -/
theorem Metered.skip {step : σ → Except ε σ} (h : ∀ state, step state = .ok state) :
    Metered Inv spent limit view step 0 fun _ => none :=
  ⟨fun state hstate _ => ⟨state, h state, hstate, rfl, fun _ => rfl⟩, fun _ _ _ _ => by omega⟩

end MeteredLoop
