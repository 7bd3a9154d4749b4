import Mathlib.Data.Option.Basic

/-!
# Runs of a machine given by an executable step

A machine is a partial step function: an action that is not enabled gives `none`. A property
that holds initially and is kept by every enabled action holds in every reachable state.
-/

namespace TransitionSystem

variable {State Action : Type*}

/-- The states that some finite sequence of enabled actions reaches. -/
inductive Reachable (step : State → Action → Option State) (init : State) : State → Prop where
  | start : Reachable step init init
  | next {s t : State} {action : Action} :
      Reachable step init s → step s action = some t → Reachable step init t

/-- Perform a list of actions, stopping at the first one that is not enabled. -/
def run (step : State → Action → Option State) : State → List Action → Option State
  | s, [] => some s
  | s, action :: rest => (step s action).bind fun t => run step t rest

/-- The invariant rule: one preservation proof per step covers all runs. -/
theorem Reachable.invariant {step : State → Action → Option State} {init s : State}
    {Inv : State → Prop} (h : Reachable step init s) (hinit : Inv init)
    (hstep : ∀ s action t, Inv s → step s action = some t → Inv t) : Inv s := by
  induction h with
  | start => exact hinit
  | next _ hs ih => exact hstep _ _ _ ih hs

/-- The states that enabled actions reach when each of them is allowed in the state it is taken in. -/
inductive ReachableBy (allowed : State → Action → Prop) (step : State → Action → Option State)
    (init : State) : State → Prop where
  | start : ReachableBy allowed step init init
  | next {s t : State} {action : Action} :
      ReachableBy allowed step init s → allowed s action → step s action = some t →
        ReachableBy allowed step init t

/-- The invariant rule for such runs. -/
theorem ReachableBy.invariant {allowed : State → Action → Prop} {step : State → Action → Option State}
    {init s : State} {Inv : State → Prop} (h : ReachableBy allowed step init s) (hinit : Inv init)
    (hstep : ∀ s action t, Inv s → allowed s action → step s action = some t → Inv t) : Inv s := by
  induction h with
  | start => exact hinit
  | next _ hallowed hs ih => exact hstep _ _ _ ih hallowed hs

variable {step : State → Action → Option State} {s t : State} {actions : List Action}

/-- A completed run whose actions are allowed in every state. -/
theorem ReachableBy.of_run {allowed : State → Action → Prop} {init : State}
    (hs : ReachableBy allowed step init s) (hallowed : ∀ s, ∀ action ∈ actions, allowed s action)
    (h : run step s actions = some t) : ReachableBy allowed step init t := by
  induction actions generalizing s with
  | nil => exact Option.some.inj h ▸ hs
  | cons action rest ih =>
    obtain ⟨u, hu, hrest⟩ := Option.bind_eq_some_iff.mp h
    exact ih (hs.next (hallowed s action List.mem_cons_self) hu)
      (fun s a ha => hallowed s a (List.mem_cons_of_mem _ ha)) hrest

/-- The invariant rule for runs all of whose actions are allowed. -/
theorem run_invariant {Allowed : Action → Prop} {Inv : State → Prop}
    (hstep : ∀ s action t, Inv s → Allowed action → step s action = some t → Inv t) (hinit : Inv s)
    (hallowed : ∀ a ∈ actions, Allowed a) (h : run step s actions = some t) : Inv t := by
  induction actions generalizing s with
  | nil => exact Option.some.inj h ▸ hinit
  | cons action rest ih =>
    obtain ⟨u, hu, hrest⟩ := Option.bind_eq_some_iff.mp h
    exact ih (hstep _ _ _ hinit (hallowed action List.mem_cons_self) hu)
      (fun a ha => hallowed a (List.mem_cons_of_mem _ ha)) hrest

/-- A completed run ends in a reachable state. -/
theorem Reachable.of_run {init : State} (hs : Reachable step init s) (h : run step s actions = some t) :
    Reachable step init t := by
  induction actions generalizing s with
  | nil => exact Option.some.inj h ▸ hs
  | cons action rest ih =>
    obtain ⟨u, hu, hrest⟩ := Option.bind_eq_some_iff.mp h
    exact ih (hs.next hu) hrest

end TransitionSystem
