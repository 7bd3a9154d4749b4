import Mathlib.Data.List.Basic
import Mathlib.Order.Lattice

/-!
# Steps with ascending versions

A value with a version goes through steps with ascending versions. A step below the version of the value is
passed over; a step that applies stamps the value with its own version. A second run therefore begins with
the last step that has applied, and changes nothing exactly when that step leaves its result alone.
-/

namespace VersionedSteps

variable {σ ν : Type*} [LinearOrder ν]

/-- A step; it may find nothing to do. -/
structure Step (σ ν : Type*) where
  id : ν
  attempt : σ → Option σ

variable (version : σ → ν)

/-- The step does something. -/
def Step.Applies (step : Step σ ν) (value : σ) : Prop :=
  version value ≤ step.id ∧ (step.attempt value).isSome = true

instance (step : Step σ ν) (value : σ) : Decidable (step.Applies version value) :=
  inferInstanceAs (Decidable (_ ∧ _))

def Step.apply (step : Step σ ν) (value : σ) : σ :=
  if step.id < version value then value else (step.attempt value).getD value

/-- All steps, one after the other. -/
def run (steps : List (Step σ ν)) (value : σ) : σ :=
  steps.foldl (fun value step => step.apply version value) value

/-- The last step of a run that does something. -/
def lastApplied : List (Step σ ν) → σ → Option (Step σ ν)
  | [], _ => none
  | step :: rest, value =>
    (lastApplied rest (step.apply version value)).or
      (if step.Applies version value then some step else none)

/-- A step stamps what it does with its version. -/
def Stamps (step : Step σ ν) : Prop := ∀ value next, step.attempt value = some next → version next = step.id

variable {version} {step : Step σ ν} {steps : List (Step σ ν)} {value : σ}

/-- A step that does not apply leaves the value as it is. -/
theorem Step.apply_of_not (h : ¬ step.Applies version value) : step.apply version value = value := by
  rw [Step.apply]
  split_ifs with hle
  · rfl
  · cases hattempt : step.attempt value with
    | none => rfl
    | some next => exact absurd ⟨le_of_not_gt hle, by rw [hattempt]; rfl⟩ h

theorem Step.version_apply (hstamps : Stamps version step) (h : step.Applies version value) :
    version (step.apply version value) = step.id := by
  obtain ⟨hle, hsome⟩ := h
  obtain ⟨next, hnext⟩ := Option.isSome_iff_exists.mp hsome
  rw [Step.apply, if_neg (not_lt_of_ge hle), hnext, Option.getD_some]
  exact hstamps value next hnext

/-- A step below the version of the value is passed over. -/
theorem Step.apply_of_lt (h : step.id < version value) : step.apply version value = value := by
  rw [Step.apply, if_pos h]

theorem run_cons (rest : List (Step σ ν)) :
    run version (step :: rest) value = run version rest (step.apply version value) := rfl

theorem run_append (first rest : List (Step σ ν)) :
    run version (first ++ rest) value = run version rest (run version first value) := List.foldl_append

/-- Steps that leave the value alone, one by one. -/
theorem run_eq_self (h : ∀ step ∈ steps, step.apply version value = value) :
    run version steps value = value := by
  induction steps with
  | nil => rfl
  | cons step rest ih =>
    obtain ⟨hstep, hrest⟩ := List.forall_mem_cons.mp h
    rw [run_cons, hstep]
    exact ih hrest

/-- When nothing applies, every step leaves the value alone. -/
theorem apply_of_lastApplied_none (h : lastApplied version steps value = none) :
    ∀ step ∈ steps, step.apply version value = value := by
  induction steps with
  | nil => nofun
  | cons step rest ih =>
    obtain ⟨hrest, hfirst⟩ := Option.or_eq_none_iff.mp h
    have hnot : ¬ step.Applies version value := fun happlies => by
      rw [if_pos happlies] at hfirst
      cases hfirst
    have hsame := Step.apply_of_not hnot
    rw [hsame] at hrest
    exact List.forall_mem_cons.mpr ⟨hsame, ih hrest⟩

/-- A run ends with the version of the last step that has applied. -/
theorem version_run (hstamps : ∀ step ∈ steps, Stamps version step) {last : Step σ ν}
    (h : lastApplied version steps value = some last) :
    version (run version steps value) = last.id ∧ last ∈ steps := by
  induction steps generalizing value with
  | nil => cases h
  | cons step rest ih =>
    obtain ⟨hstep, hrest⟩ := List.forall_mem_cons.mp hstamps
    rw [run_cons]
    rcases Option.or_eq_some_iff.mp h with hlater | ⟨hnone, hfirst⟩
    · obtain ⟨hversion, hmem⟩ := ih hrest hlater
      exact ⟨hversion, List.mem_cons_of_mem step hmem⟩
    · split at hfirst
      case isFalse => cases hfirst
      case isTrue happlies =>
        cases hfirst
        rw [run_eq_self (apply_of_lastApplied_none hnone)]
        exact ⟨Step.version_apply hstep happlies, List.mem_cons_self⟩

/-- The steps before the last one that has applied have lower versions, and those behind it leave the result
alone. -/
theorem split_at_last {last : Step σ ν} (h : lastApplied version steps value = some last) :
    ∃ before after, steps = before ++ last :: after ∧
      ∀ step ∈ after, step.apply version (run version steps value) = run version steps value := by
  induction steps generalizing value with
  | nil => cases h
  | cons step rest ih =>
    rcases Option.or_eq_some_iff.mp h with hlater | ⟨hnone, hfirst⟩
    · obtain ⟨before, after, hsteps, hafter⟩ := ih hlater
      exact ⟨step :: before, after, congrArg (step :: ·) hsteps, hafter⟩
    · split at hfirst
      case isFalse => cases hfirst
      case isTrue happlies =>
        cases hfirst
        have hafter := apply_of_lastApplied_none hnone
        refine ⟨[], rest, rfl, ?_⟩
        rw [run_cons, run_eq_self hafter]
        exact hafter

/-- A second run changes nothing exactly when the last step that has applied leaves its result alone. -/
theorem run_run_eq_iff (hascending : steps.Pairwise fun first second => first.id < second.id)
    (hstamps : ∀ step ∈ steps, Stamps version step) :
    run version steps (run version steps value) = run version steps value ↔
      ∀ last ∈ lastApplied version steps value,
        last.apply version (run version steps value) = run version steps value := by
  cases hlast : lastApplied version steps value with
  | none =>
    have hself := run_eq_self (apply_of_lastApplied_none hlast)
    rw [hself, hself]
    exact iff_of_true rfl nofun
  | some last =>
    obtain ⟨hversion, hmem⟩ := version_run hstamps hlast
    obtain ⟨before, after, hsteps, hafter⟩ := split_at_last hlast
    generalize run version steps value = result at hversion hafter ⊢
    subst hsteps
    obtain ⟨-, hrest, hcross⟩ := List.pairwise_append.mp hascending
    obtain ⟨hlater, -⟩ := List.pairwise_cons.mp hrest
    have hpassed : run version before result = result := run_eq_self fun step hstep =>
      Step.apply_of_lt (hversion ▸ hcross step hstep last List.mem_cons_self)
    rw [run_append, hpassed, run_cons]
    refine ⟨fun hsame last' heq => ?_, fun hsame => ?_⟩
    · cases heq
      cases hnext : lastApplied version after (last.apply version result) with
      | none => rwa [run_eq_self (apply_of_lastApplied_none hnext)] at hsame
      | some next =>
        -- A later step would have raised the version.
        have hstampsAfter : ∀ step ∈ after, Stamps version step := fun step hstep =>
          hstamps step (List.mem_append_right before (List.mem_cons_of_mem last hstep))
        obtain ⟨hraised, hnextMem⟩ := version_run hstampsAfter hnext
        rw [hsame, hversion] at hraised
        exact absurd hraised (ne_of_lt (hlater next hnextMem))
    · rw [hsame last rfl]
      exact run_eq_self hafter

end VersionedSteps
