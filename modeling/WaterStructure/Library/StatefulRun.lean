import Mathlib.Data.List.Basic

/-!
# Computations whose state does not show

A computation with a state, such as a cache, may fail and keeps the state when it does. It agrees
with a computation without the state if it does what that one does from every state that an
invariant allows, up to a relation between the results, and keeps the invariant. Agreement is
passed on by sequencing and by loops.
-/

namespace StatefulRun

variable {σ ε α β α' β' γ : Type}

/-- Both fail alike, or their results are related. -/
inductive Alike (R : α → β → Prop) : Except ε α → Except ε β → Prop
  | ok {a : α} {b : β} (h : R a b) : Alike R (.ok a) (.ok b)
  | error (e : ε) : Alike R (.error e) (.error e)

variable {first : Except ε α} {second : Except ε β}

theorem Alike.mono {R S : α → β → Prop} (hRS : ∀ a b, R a b → S a b) (h : Alike R first second) :
    Alike S first second := by
  cases h with
  | ok h => exact .ok (hRS _ _ h)
  | error e => exact .error e

/-- Results that are equal. -/
theorem Alike.eq {second : Except ε α} (h : Alike Eq first second) : first = second := by
  cases h with
  | ok h => rw [h]
  | error e => rfl

theorem Alike.refl {R : α → α → Prop} (hR : ∀ a, R a a) (result : Except ε α) : Alike R result result := by
  cases result with
  | ok a => exact .ok (hR a)
  | error e => exact .error e

/-- Computations that go on alike after results that are related. -/
theorem Alike.bind {R : α → β → Prop} {S : α' → β' → Prop} {next : α → Except ε α'} {next' : β → Except ε β'}
    (h : Alike R first second) (hnext : ∀ a b, R a b → Alike S (next a) (next' b)) :
    Alike S (first >>= next) (second >>= next') := by
  cases h with
  | ok h => exact hnext _ _ h
  | error e => exact .error e

/-- A last step that always succeeds, on one side only. -/
theorem Alike.bind_left {R : α → β → Prop} {S : α' → β → Prop} {next : α → Except ε α'}
    (h : Alike R first second) (hnext : ∀ a b, R a b → Alike S (next a) (.ok b)) :
    Alike S (first >>= next) second := by
  cases h with
  | ok h => exact hnext _ _ h
  | error e => exact .error e

theorem Alike.map {R : α → β → Prop} {S : α' → β' → Prop} {first : Except ε α} {second : Except ε β}
    {f : α → α'} {g : β → β'} (h : Alike R first second) (hmap : ∀ a b, R a b → S (f a) (g b)) :
    Alike S (first.map f) (second.map g) := by
  cases h with
  | ok h => exact .ok (hmap _ _ h)
  | error e => exact .error e

/-- The second computation only says whether there is a result: both have one, and they are related, or
the first one fails with an error that is allowed. -/
inductive Matches (E : ε → Prop) (R : α → β → Prop) : Except ε α → Option β → Prop
  | ok {a : α} {b : β} (h : R a b) : Matches E R (.ok a) (some b)
  | error {e : ε} (h : E e) : Matches E R (.error e) none

section Matches

variable {E : ε → Prop} {first : Except ε α} {second : Option β}

theorem Matches.mono {R S : α → β → Prop} (hRS : ∀ a b, R a b → S a b) (h : Matches E R first second) :
    Matches E S first second := by
  cases h with
  | ok h => exact .ok (hRS _ _ h)
  | error h => exact .error h

theorem Matches.bind {R : α → β → Prop} {S : α' → β' → Prop} {next : α → Except ε α'} {next' : β → Option β'}
    (h : Matches E R first second) (hnext : ∀ a b, R a b → Matches E S (next a) (next' b)) :
    Matches E S (first >>= next) (second.bind next') := by
  cases h with
  | ok h => exact hnext _ _ h
  | error h => exact .error h

theorem Matches.map {R : α → β → Prop} {S : α' → β' → Prop} {first : Except ε α} {second : Option β}
    {f : α → α'} {g : β → β'} (h : Matches E R first second) (hmap : ∀ a b, R a b → S (f a) (g b)) :
    Matches E S (first.map f) (second.map g) := by
  cases h with
  | ok h => exact .ok (hmap _ _ h)
  | error h => exact .error h

theorem Matches.map_left {R : α → β → Prop} {S : α' → β → Prop} {f : α → α'} (h : Matches E R first second)
    (hmap : ∀ a b, R a b → S (f a) b) : Matches E S (first.map f) second := by
  cases h with
  | ok h => exact .ok (hmap _ _ h)
  | error h => exact .error h

theorem Matches.map_right {R : α → β → Prop} {S : α → β' → Prop} {g : β → β'} (h : Matches E R first second)
    (hmap : ∀ a b, R a b → S a (g b)) : Matches E S first (second.map g) := by
  cases h with
  | ok h => exact .ok (hmap _ _ h)
  | error h => exact .error h

/-- A computation and its result. -/
theorem matches_toOption (result : Except ε α) : Matches (fun _ => True) Eq result result.toOption := by
  cases result with
  | ok a => exact .ok rfl
  | error e => exact .error trivial

/-- Another text for the error. -/
theorem Matches.mapError {ε' : Type} {E' : ε' → Prop} {R : α → β → Prop} {f : ε → ε'}
    (h : Matches E R first second) (hf : ∀ e, E e → E' (f e)) : Matches E' R (first.mapError f) second := by
  cases h with
  | ok h => exact .ok h
  | error h => exact .error (hf _ h)

/-- The first computation in place of one that does the same. -/
theorem Alike.matches {γ' : Type} {R : α → γ' → Prop} {S : γ' → β → Prop} {T : α → β → Prop}
    {second : Except ε γ'} {third : Option β} (h : Alike R first second) (hmatches : Matches E S second third)
    (hRS : ∀ a c b, R a c → S c b → T a b) : Matches E T first third := by
  cases h with
  | ok h =>
    cases hmatches with
    | ok h' => exact .ok (hRS _ _ _ h h')
  | error e =>
    cases hmatches with
    | error h' => exact .error h'

theorem Matches.foldlM {R : α → β → Prop} {step : α → γ → Except ε α} {step' : β → γ → Option β}
    {items : List γ} (hstep : ∀ a b, R a b → ∀ item ∈ items, Matches E R (step a item) (step' b item))
    {a : α} {b : β} (h : R a b) : Matches E R (items.foldlM step a) (items.foldlM step' b) := by
  induction items generalizing a b with
  | nil => exact .ok h
  | cons item rest ih =>
    rw [List.foldlM_cons, List.foldlM_cons]
    refine (hstep a b h item List.mem_cons_self).bind fun a' b' h' => ih ?_ h'
    exact fun a b hab other hother => hstep a b hab other (List.mem_cons_of_mem item hother)

/-- A loop that collects what it finds, and one that maps. -/
theorem Matches.foldlM_mapM {R : α → List β → Prop} {step : α → γ → Except ε α} {find : γ → Option β}
    {items : List γ} (hstep : ∀ a found, R a found → ∀ item ∈ items,
      Matches E (fun a b => R a (found ++ [b])) (step a item) (find item))
    {a : α} {found : List β} (h : R a found) :
    Matches E (fun a others => R a (found ++ others)) (items.foldlM step a) (items.mapM find) := by
  induction items generalizing a found with
  | nil =>
    refine .ok ?_
    rw [List.reverse_nil, List.append_nil]
    exact h
  | cons item rest ih =>
    rw [List.foldlM_cons, List.mapM_cons]
    refine (hstep a found h item List.mem_cons_self).bind fun a' b hb => ?_
    have hrest := ih (fun a found hR other hother => hstep a found hR other (List.mem_cons_of_mem item hother))
      hb
    generalize rest.foldlM step a' = result at hrest ⊢
    generalize rest.mapM find = others at hrest ⊢
    cases hrest with
    | ok hR =>
      refine .ok ?_
      rw [← List.singleton_append, ← List.append_assoc]
      exact hR
    | error he => exact .error he

/-- What is known of the first computation. -/
theorem Matches.isSome {R : α → β → Prop} (h : Matches E R first second) :
    (∃ a, first = .ok a) ↔ second.isSome = true := by
  cases h with
  | ok h => exact iff_of_true ⟨_, rfl⟩ rfl
  | error h => exact iff_of_false (fun hno => by obtain ⟨a, ha⟩ := hno; cases ha) Bool.false_ne_true

theorem Matches.of_ok {R : α → β → Prop} {a : α} (h : Matches E R (.ok a) second) :
    ∃ b, second = some b ∧ R a b := by
  cases h with
  | ok h => exact ⟨_, rfl, h⟩

theorem Matches.of_some {R : α → β → Prop} {b : β} (h : Matches E R first (some b)) :
    ∃ a, first = .ok a ∧ R a b := by
  cases h with
  | ok h => exact ⟨_, rfl, h⟩

theorem Matches.of_none {R : α → β → Prop} (h : Matches E R first none) : ∃ e, first = .error e ∧ E e := by
  cases h with
  | error h => exact ⟨_, rfl, h⟩

theorem Matches.of_error {R : α → β → Prop} {e : ε} (h : Matches E R (.error e) second) : E e := by
  cases h with
  | error h => exact h

end Matches

/-- From every state of the invariant, the computation does what the one without the state does. -/
def Agrees (Inv : σ → Prop) (R : α → β → Prop) (run : σ → Except ε α × σ) (plain : Except ε β) : Prop :=
  ∀ state, Inv state → Alike R (run state).1 plain ∧ Inv (run state).2

variable {Inv : σ → Prop} {R : α → β → Prop} {S : α' → β' → Prop}

/-- One computation after the other; the second one is only reached if the first one succeeds. -/
def andThen (first : σ → Except ε α × σ) (next : α → σ → Except ε α' × σ) (state : σ) :
    Except ε α' × σ :=
  match first state with
  | (.ok a, state) => next a state
  | (.error e, state) => (.error e, state)

/-- A loop whose body can fail and reads the state. -/
def loop (body : α → γ → σ → Except ε α × σ) : List γ → α → σ → Except ε α × σ
  | [], a, state => (.ok a, state)
  | item :: rest, a, state => andThen (body a item) (loop body rest) state

theorem Agrees.andThen {first : σ → Except ε α × σ} {next : α → σ → Except ε α' × σ}
    {plain : Except ε β} {plainNext : β → Except ε β'} (h : Agrees Inv R first plain)
    (hnext : ∀ a b, R a b → Agrees Inv S (next a) (plainNext b)) :
    Agrees Inv S (StatefulRun.andThen first next) (plain >>= plainNext) := by
  intro state hstate
  obtain ⟨halike, hinv⟩ := h state hstate
  rw [StatefulRun.andThen]
  generalize first state = result at halike hinv
  obtain ⟨value, after⟩ := result
  cases halike with
  | ok hrelated => exact hnext _ _ hrelated after hinv
  | error e => exact ⟨.error e, hinv⟩

theorem Agrees.loop {body : α → γ → σ → Except ε α × σ} {plain : β → γ → Except ε β} {items : List γ}
    (hbody : ∀ a b, R a b → ∀ item ∈ items, Agrees Inv R (body a item) (plain b item)) {a : α} {b : β}
    (h : R a b) : Agrees Inv R (StatefulRun.loop body items a) (items.foldlM plain b) := by
  induction items generalizing a b with
  | nil => exact fun state hstate => ⟨.ok h, hstate⟩
  | cons item rest ih =>
    rw [List.foldlM_cons]
    exact (hbody a b h item List.mem_cons_self).andThen fun a b hrelated =>
      ih (fun a b h item hmem => hbody a b h item (List.mem_cons_of_mem _ hmem)) hrelated

end StatefulRun
