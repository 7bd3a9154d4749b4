import Mathlib.Algebra.GroupWithZero.Nat
import Mathlib.Data.List.Basic
import Mathlib.Data.Nat.Notation

/-!
# Programs that leave effects behind

A program acts on an outside world and may fail, and what it has done until then stays done. It sees
what has been done so far, appends events to it, and ends with a result or an error. `Spends` bounds
the weight of what it appends by a budget, of which a success leaves a part to what follows.
-/

namespace EffectLog

variable {Event α β : Type}

/-- From what has been done so far to a result and what has been done then. -/
def Program (Event α : Type) : Type := List Event → Except String α × List Event

instance : Monad (Program Event) where
  pure a := fun log => (.ok a, log)
  bind m next := fun log =>
    match m log with
    | (.ok a, log) => next a log
    | (.error e, log) => (.error e, log)

def emit (event : Event) : Program Event Unit := fun log => (.ok (), log ++ [event])

def fail (message : String) : Program Event α := fun log => (.error message, log)

def failIf (condition : Bool) (message : String) : Program Event Unit := fun log =>
  (if condition then .error message else .ok (), log)

/-- A part that leaves no effects. -/
def lift (result : Except String α) : Program Event α := fun log => (result, log)

/-- A choice that depends on what has been done. -/
def observe (next : List Event → Program Event α) : Program Event α := fun log => next log log

/-- If the program fails, do something else before passing the error on. -/
def onError (m : Program Event α) (cleanup : Program Event Unit) : Program Event α := fun log =>
  match m log with
  | (.ok a, log) => (.ok a, log)
  | (.error e, log) => (.error e, (cleanup log).2)

def forEach (step : β → Program Event Unit) : List β → Program Event Unit
  | [] => pure ()
  | item :: rest => do
    step item
    forEach step rest

variable {m : Program Event α} {a : α} {budget : ℕ} {left : α → ℕ} {next : α → Program Event β}
  {left' : β → ℕ} {condition : Bool} {message : String} {result : Except String α} {b : β}

theorem bind_of_ok {log after : List Event} (h : m log = (.ok a, after)) (next : α → Program Event β) :
    (m >>= next) log = next a after := by
  change (match m log with
    | (.ok a, log) => next a log
    | (.error e, log) => (.error e, log)) = _
  rw [h]

theorem bind_of_error {log after : List Event} {e : String} (h : m log = (.error e, after))
    (next : α → Program Event β) : (m >>= next) log = (.error e, after) := by
  change (match m log with
    | (.ok a, log) => next a log
    | (.error e, log) => (.error e, log)) = _
  rw [h]

/-- What a program appends is allowed, keeps an invariant, and fits the budget; a success leaves
`left` of it. -/
def Spends (Inv : List Event → Prop) (allowed : Event → Prop) (weight : Event → ℕ) (budget : ℕ)
    (left : α → ℕ) (m : Program Event α) : Prop :=
  ∀ log, Inv log → ∃ added, (m log).2 = log ++ added ∧ (∀ event ∈ added, allowed event) ∧
    Inv (log ++ added) ∧ (added.map weight).sum + ((m log).1.toOption.map left).getD 0 ≤ budget

variable {Inv : List Event → Prop} {allowed : Event → Prop} {weight : Event → ℕ}

/-- A program that appends nothing. -/
theorem Spends.silent (h : ∀ log, (m log).2 = log)
    (hleft : ∀ log a, (m log).1 = .ok a → left a ≤ budget) :
    Spends Inv allowed weight budget left m := by
  refine fun log hlog => ⟨[], by rw [h, List.append_nil], nofun, by rwa [List.append_nil], ?_⟩
  cases hresult : (m log).1 with
  | error e => exact Nat.zero_le _
  | ok a =>
    rw [List.map_nil, List.sum_nil, Nat.zero_add]
    exact hleft log a hresult

theorem Spends.pure (h : left a ≤ budget) :
    Spends Inv allowed weight budget left (Pure.pure a : Program Event α) :=
  .silent (fun _ => rfl) fun _ _ ha => by cases ha; exact h

theorem Spends.fail {message : String} {budget : ℕ} {left : α → ℕ} :
    Spends Inv allowed weight budget left (fail message : Program Event α) :=
  .silent (fun _ => rfl) fun _ _ ha => nomatch ha

theorem Spends.emit {event : Event} {left : Unit → ℕ} (hallowed : allowed event)
    (hkeep : ∀ log, Inv log → Inv (log ++ [event])) (hbudget : weight event + left () ≤ budget) :
    Spends Inv allowed weight budget left (emit event) := by
  refine fun log hlog => ⟨[event], rfl, fun other hother => ?_, hkeep log hlog, ?_⟩
  · rw [List.mem_singleton.mp hother]
    exact hallowed
  · rw [List.map_singleton, List.sum_singleton]
    exact hbudget

/-- One program after the other: the second one has what the first one leaves. -/
theorem Spends.bind (left : α → ℕ) (h : Spends Inv allowed weight budget left m)
    (hnext : ∀ a, Spends Inv allowed weight (left a) left' (next a)) :
    Spends Inv allowed weight budget left' (m >>= next) := by
  intro log hlog
  obtain ⟨added, hadded, hall, hinv, hweight⟩ := h log hlog
  rcases hm : m log with ⟨e | a, after⟩
  · rw [hm] at hadded hweight
    rw [bind_of_error hm]
    exact ⟨added, hadded, hall, hinv, hweight⟩
  · rw [hm] at hadded hweight
    rw [bind_of_ok hm]
    subst hadded
    obtain ⟨more, hmore, hall', hinv', hweight'⟩ := hnext a (log ++ added) hinv
    refine ⟨added ++ more, ?_, fun event hevent => ?_, ?_, ?_⟩
    · rw [hmore, List.append_assoc]
    · exact (List.mem_append.mp hevent).elim (hall event) (hall' event)
    · rwa [← List.append_assoc]
    · have : (added.map weight).sum + left a ≤ budget := hweight
      rw [List.map_append, List.sum_append]
      omega

/-- After a check. -/
theorem Spends.failIf {next : Unit → Program Event β}
    (hnext : condition = false → Spends Inv allowed weight budget left' (next ())) :
    Spends Inv allowed weight budget left' (EffectLog.failIf condition message >>= next) := by
  cases condition with
  | true => exact .silent (fun _ => rfl) fun _ _ ha => nomatch ha
  | false => exact hnext rfl

/-- After a part without effects. -/
theorem Spends.lift (hnext : ∀ a, result = .ok a → Spends Inv allowed weight budget left' (next a)) :
    Spends Inv allowed weight budget left' (EffectLog.lift result >>= next) := by
  cases result with
  | error e => exact .silent (fun _ => rfl) fun _ _ ha => nomatch ha
  | ok a => exact hnext a rfl

theorem Spends.observe {next : List Event → Program Event α}
    (h : ∀ log, Inv log → Spends Inv allowed weight budget left (next log)) :
    Spends Inv allowed weight budget left (EffectLog.observe next) :=
  fun log hlog => h log hlog log hlog

theorem Spends.mono {budget' : ℕ} {left' : α → ℕ} (h : Spends Inv allowed weight budget left m)
    (hbudget : budget ≤ budget') (hleft : ∀ a, left' a ≤ left a) :
    Spends Inv allowed weight budget' left' m := by
  intro log hlog
  obtain ⟨added, hadded, hall, hinv, hweight⟩ := h log hlog
  refine ⟨added, hadded, hall, hinv, ?_⟩
  cases hresult : (m log).1 with
  | error e =>
    rw [hresult] at hweight
    exact Nat.le_trans hweight hbudget
  | ok a =>
    rw [hresult] at hweight
    exact Nat.le_trans (Nat.add_le_add_left (hleft a) _) (Nat.le_trans hweight hbudget)

/-- What is not needed is kept. -/
theorem Spends.frame (h : Spends Inv allowed weight budget left m) (more : ℕ) :
    Spends Inv allowed weight (budget + more) (fun a => left a + more) m := by
  intro log hlog
  obtain ⟨added, hadded, hall, hinv, hweight⟩ := h log hlog
  refine ⟨added, hadded, hall, hinv, ?_⟩
  cases hresult : (m log).1 with
  | error e =>
    rw [hresult] at hweight
    exact Nat.le_trans hweight (Nat.le_add_right _ _)
  | ok a =>
    rw [hresult] at hweight
    exact Nat.add_assoc _ _ more ▸ Nat.add_le_add_right hweight more

theorem Spends.onError {cleanup : Program Event Unit} (h : Spends Inv allowed weight budget left m)
    (hcleanup : Spends Inv allowed weight 0 (fun _ => 0) cleanup) :
    Spends Inv allowed weight budget left (EffectLog.onError m cleanup) := by
  intro log hlog
  obtain ⟨added, hadded, hall, hinv, hweight⟩ := h log hlog
  unfold EffectLog.onError
  rcases hm : m log with ⟨e | a, after⟩
  · rw [hm] at hadded hweight
    subst hadded
    obtain ⟨more, hmore, hall', hinv', hweight'⟩ := hcleanup (log ++ added) hinv
    refine ⟨added ++ more, ?_, fun event hevent => ?_, ?_, ?_⟩
    · dsimp only
      rw [hmore, List.append_assoc]
    · exact (List.mem_append.mp hevent).elim (hall event) (hall' event)
    · rwa [← List.append_assoc]
    · have : (added.map weight).sum + 0 ≤ budget := hweight
      rw [List.map_append, List.sum_append]
      change _ + 0 ≤ budget
      omega
  · rw [hm] at hadded hweight
    exact ⟨added, hadded, hall, hinv, hweight⟩

theorem Spends.forEach {step : β → Program Event Unit} {items : List β}
    (h : ∀ item ∈ items, Spends Inv allowed weight budget (fun _ => budget) (step item)) :
    Spends Inv allowed weight budget (fun _ => budget) (EffectLog.forEach step items) := by
  induction items with
  | nil => exact .pure (Nat.le_refl _)
  | cons item rest ih =>
    exact .bind _ (h item List.mem_cons_self) fun _ => ih fun other hother =>
      h other (List.mem_cons_of_mem _ hother)

/-- The program succeeds after `log`, and appends exactly this. -/
def Yields (m : Program Event α) (log : List Event) (a : α) (added : List Event) : Prop :=
  m log = (.ok a, log ++ added)

variable {log added more : List Event}

theorem Yields.pure (a : α) : Yields (Pure.pure a : Program Event α) log a [] := by
  rw [Yields, List.append_nil]
  rfl

theorem Yields.bind (h : Yields m log a added) (hnext : Yields (next a) (log ++ added) b more) :
    Yields (m >>= next) log b (added ++ more) := by
  rw [Yields, bind_of_ok h, hnext, List.append_assoc]

/-- A check at the end that does not fail. -/
theorem Yields.check (h : condition = false) :
    Yields (EffectLog.failIf condition message) log () [] := by
  subst h
  exact .pure ()

/-- After a check that does not fail. -/
theorem Yields.failIf {next : Unit → Program Event β} (h : condition = false)
    (hnext : Yields (next ()) log b added) :
    Yields (EffectLog.failIf condition message >>= next) log b added := by
  subst h
  exact hnext

/-- After a part without effects that succeeds. -/
theorem Yields.lift (h : result = .ok a) (hnext : Yields (next a) log b added) :
    Yields (EffectLog.lift result >>= next) log b added := by
  subst h
  exact hnext

theorem Yields.onError {cleanup : Program Event Unit} (h : Yields m log a added) :
    Yields (EffectLog.onError m cleanup) log a added := by
  rw [Yields] at h
  rw [Yields, EffectLog.onError, h]

/-- The program fails after `log`. -/
def Fails (m : Program Event α) (log : List Event) : Prop := ∀ a, (m log).1 ≠ .ok a

theorem Fails.bind (h : Fails m log) : Fails (m >>= next) log := by
  rcases hm : m log with ⟨e | a, after⟩
  · rw [Fails, bind_of_error hm]
    exact nofun
  · exact absurd (by rw [hm]) (h a)

/-- At a check, or after it. -/
theorem Fails.failIf {next : Unit → Program Event β} (h : condition = true ∨ Fails (next ()) log) :
    Fails (EffectLog.failIf condition message >>= next) log := by
  cases condition with
  | true => exact nofun
  | false => exact h.resolve_left Bool.false_ne_true

theorem Fails.lift (h : result = .ok a) (hnext : Fails (next a) log) :
    Fails (EffectLog.lift result >>= next) log := by
  subst h
  exact hnext

theorem Yields.fails (h : Yields m log a added) (hnext : Fails (next a) (log ++ added)) :
    Fails (m >>= next) log := by
  rw [Fails, bind_of_ok h]
  exact hnext

end EffectLog
