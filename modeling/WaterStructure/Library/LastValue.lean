import Mathlib.Data.List.Basic

/-!
# The last value given by a list of writers

A loop that overwrites a cell again and again leaves the value of the last writer that wrote
it. `lastValue value writers` is that value, where `value` says what one writer stores in the
cell, if anything. The fold rule reduces a loop over any store to it, and the remaining lemmas
say how it behaves under concatenation, nesting, and dropping writers that miss the cell.
-/

namespace LastValue

variable {β γ α σ : Type*}

/-- The value of the last writer that writes at all. -/
def lastValue (value : β → Option α) : List β → Option α
  | [] => none
  | writer :: rest => (lastValue value rest).or (value writer)

@[simp] theorem lastValue_nil (value : β → Option α) : lastValue value [] = none := rfl

@[simp] theorem lastValue_cons (value : β → Option α) (writer : β) (rest : List β) :
    lastValue value (writer :: rest) = (lastValue value rest).or (value writer) := rfl

/-- Later writers come first. -/
theorem lastValue_append (value : β → Option α) (first second : List β) :
    lastValue value (first ++ second) = (lastValue value second).or (lastValue value first) := by
  induction first with
  | nil => simp
  | cons writer rest ih => rw [List.cons_append, lastValue_cons, ih, Option.or_assoc, lastValue_cons]

/-- A nested loop writes what its inner loops write. -/
theorem lastValue_flatMap (value : β → Option α) (inner : γ → List β) (outer : List γ) :
    lastValue value (outer.flatMap inner) =
      lastValue (fun c => lastValue value (inner c)) outer := by
  induction outer with
  | nil => rfl
  | cons c rest ih => rw [List.flatMap_cons, lastValue_append, ih, lastValue_cons]

theorem lastValue_map (value : β → Option α) (f : γ → β) (writers : List γ) :
    lastValue value (writers.map f) = lastValue (fun c => value (f c)) writers := by
  induction writers with
  | nil => rfl
  | cons c rest ih => rw [List.map_cons, lastValue_cons, ih, lastValue_cons]

theorem lastValue_map_value {δ : Type*} (f : α → δ) (value : β → Option α) (writers : List β) :
    lastValue (fun writer => (value writer).map f) writers = (lastValue value writers).map f := by
  induction writers with
  | nil => rfl
  | cons writer rest ih => rw [lastValue_cons, ih, lastValue_cons, Option.map_or]

theorem lastValue_filterMap (value : β → Option α) (f : γ → Option β) (writers : List γ) :
    lastValue value (writers.filterMap f) = lastValue (fun c => (f c).bind value) writers := by
  induction writers with
  | nil => rfl
  | cons c rest ih =>
    rw [lastValue_cons, ← ih, List.filterMap_cons]
    cases f c <;> simp

/-- A list read by its indices. -/
theorem lastValue_range (value : β → Option α) (writers : List β) :
    lastValue (fun index => writers[index]?.bind value) (List.range writers.length) =
      lastValue value writers := by
  have hmap : (List.range writers.length).map (writers[·]?) = writers.map some := by
    refine List.ext_getElem (by simp) fun index h _ => ?_
    have hindex : index < writers.length := by simpa using h
    simp [hindex]
  have := lastValue_map (fun writer : Option β => writer.bind value) (writers[·]?)
    (List.range writers.length)
  rw [← this, hmap, lastValue_map]
  rfl

variable {value : β → Option α} {writers : List β} {v : α}

/-- Writers that agree on the listed elements write the same. -/
theorem lastValue_congr {value' : β → Option α} (h : ∀ writer ∈ writers, value writer = value' writer) :
    lastValue value writers = lastValue value' writers := by
  induction writers with
  | nil => rfl
  | cons writer rest ih =>
    rw [lastValue_cons, lastValue_cons, h writer List.mem_cons_self,
      ih fun w hw => h w (List.mem_cons_of_mem writer hw)]

/-- Dropping writers that miss the cell changes nothing. -/
theorem lastValue_filter {value : β → Option α} {keep : β → Bool} {writers : List β}
    (h : ∀ writer ∈ writers, keep writer = false → value writer = none) :
    lastValue value (writers.filter keep) = lastValue value writers := by
  induction writers with
  | nil => rfl
  | cons writer rest ih =>
    have hrest := ih fun w hw => h w (List.mem_cons_of_mem writer hw)
    rw [List.filter_cons, lastValue_cons]
    split_ifs with hdrop
    · rw [lastValue_cons, hrest]
    · rw [hrest, h writer List.mem_cons_self (by simpa using hdrop), Option.or_none]

/-- No writer reaches the cell. -/
theorem lastValue_eq_none :
    lastValue value writers = none ↔ ∀ writer ∈ writers, value writer = none := by
  induction writers with
  | nil => simp
  | cons writer rest ih => simp [ih, and_comm]

/-- The last value was written by one of the writers. -/
theorem exists_of_lastValue (h : lastValue value writers = some v) :
    ∃ writer ∈ writers, value writer = some v := by
  induction writers with
  | nil => cases h
  | cons writer rest ih =>
    rw [lastValue_cons, Option.or_eq_some_iff] at h
    rcases h with hrest | ⟨-, hfirst⟩
    · obtain ⟨later, hlater, hvalue⟩ := ih hrest
      exact ⟨later, List.mem_cons_of_mem writer hlater, hvalue⟩
    · exact ⟨writer, List.mem_cons_self, hfirst⟩

/-- A single writer reaches the cell, and may occur any number of times. -/
theorem lastValue_of_unique {value : β → Option α} {writers : List β} {b : β} (hmem : b ∈ writers)
    (honly : ∀ writer ∈ writers, writer ≠ b → value writer = none) :
    lastValue value writers = value b := by
  induction writers with
  | nil => cases hmem
  | cons writer rest ih =>
    rw [lastValue_cons]
    have hrest : lastValue value rest = value b ∨ lastValue value rest = none := by
      by_cases hin : b ∈ rest
      · exact .inl (ih hin fun w hw => honly w (List.mem_cons_of_mem writer hw))
      · refine .inr (lastValue_eq_none.mpr fun w hw => honly w (List.mem_cons_of_mem writer hw) ?_)
        rintro rfl
        exact hin hw
    by_cases hfirst : writer = b
    · subst hfirst
      rcases hrest with h | h <;> rw [h]
      · cases value writer <;> rfl
      · rfl
    · rw [honly writer List.mem_cons_self hfirst, Option.or_none]
      exact ih ((List.mem_cons.mp hmem).resolve_left (Ne.symm hfirst))
        fun w hw => honly w (List.mem_cons_of_mem writer hw)

/-- If every writer that reaches the cell writes the same value, the cell ends up with it. -/
theorem lastValue_of_agree (hagree : ∀ writer ∈ writers, ∀ other, value writer = some other → other = v)
    (hreached : ∃ writer ∈ writers, (value writer).isSome = true) :
    lastValue value writers = some v := by
  cases h : lastValue value writers with
  | none =>
    obtain ⟨writer, hmem, hsome⟩ := hreached
    rw [lastValue_eq_none.mp h writer hmem] at hsome
    cases hsome
  | some found =>
    suffices ∃ writer ∈ writers, value writer = some found by
      obtain ⟨writer, hmem, hvalue⟩ := this
      rw [hagree writer hmem found hvalue]
    clear hagree hreached
    induction writers with
    | nil => cases h
    | cons writer rest ih =>
      rcases Option.or_eq_some_iff.mp h with hrest | ⟨-, hfirst⟩
      · obtain ⟨w, hw, hvalue⟩ := ih hrest
        exact ⟨w, List.mem_cons_of_mem writer hw, hvalue⟩
      · exact ⟨writer, List.mem_cons_self, hfirst⟩

/-- Writers that all do the same. -/
theorem lastValue_of_same {v : Option α} (h : ∀ writer ∈ writers, value writer = v) :
    lastValue value writers = if writers = [] then none else v := by
  induction writers with
  | nil => rfl
  | cons writer rest ih =>
    rw [lastValue_cons, h writer List.mem_cons_self, ih fun w hw => h w (List.mem_cons_of_mem _ hw),
      if_neg (List.cons_ne_nil _ _)]
    split
    · rfl
    · cases v <;> rfl

/-- The value of a cell that holds a default until a writer reaches it. -/
theorem lastValue_getD_of_agree {default : α}
    (hagree : ∀ writer ∈ writers, ∀ other, value writer = some other → other = v)
    (hmissed : (∀ writer ∈ writers, value writer = none) → default = v) :
    (lastValue value writers).getD default = v := by
  by_cases h : ∃ writer ∈ writers, (value writer).isSome = true
  · rw [lastValue_of_agree hagree h, Option.getD_some]
  · have hnone : ∀ writer ∈ writers, value writer = none := by
      intro writer hwriter
      by_contra hsome
      exact h ⟨writer, hwriter, Option.isSome_iff_ne_none.mpr hsome⟩
    rw [lastValue_eq_none.mpr hnone, Option.getD_none]
    exact hmissed hnone

/-- The fold rule: a loop whose steps overwrite an observed cell, as long as an invariant holds,
leaves the last value. -/
theorem foldl_observe_inv (observe : σ → α) (value : β → Option α) (step : σ → β → σ)
    (Inv : σ → Prop) (writers : List β) {s : σ} (hs : Inv s)
    (hstep : ∀ s, Inv s → ∀ writer ∈ writers,
      Inv (step s writer) ∧ observe (step s writer) = (value writer).getD (observe s)) :
    Inv (writers.foldl step s) ∧
      observe (writers.foldl step s) = (lastValue value writers).getD (observe s) := by
  induction writers generalizing s with
  | nil => exact ⟨hs, rfl⟩
  | cons writer rest ih =>
    obtain ⟨hnext, hvalue⟩ := hstep s hs writer List.mem_cons_self
    obtain ⟨hfinal, hlast⟩ := ih hnext fun s hs w hw => hstep s hs w (List.mem_cons_of_mem writer hw)
    refine ⟨hfinal, ?_⟩
    rw [List.foldl_cons, hlast, hvalue, lastValue_cons]
    cases lastValue value rest <;> simp

/-- The rule for steps that can fail and many observed cells: if no step fails while the
invariant holds, the loop succeeds and leaves the last value in every cell. -/
theorem foldlM_observe_inv {ε κ : Type*} (observe : κ → σ → α) (value : κ → β → Option α)
    (step : σ → β → Except ε σ) (Inv : σ → Prop) (writers : List β) {s : σ} (hs : Inv s)
    (hstep : ∀ s, Inv s → ∀ writer ∈ writers, ∃ next, step s writer = .ok next ∧ Inv next ∧
      ∀ cell, observe cell next = (value cell writer).getD (observe cell s)) :
    ∃ final, writers.foldlM step s = .ok final ∧ Inv final ∧
      ∀ cell, observe cell final = (lastValue (value cell) writers).getD (observe cell s) := by
  induction writers generalizing s with
  | nil => exact ⟨s, rfl, hs, fun _ => rfl⟩
  | cons writer rest ih =>
    obtain ⟨next, hnext, hinv, hvalue⟩ := hstep s hs writer List.mem_cons_self
    obtain ⟨final, hfinal, hfinalInv, hlast⟩ := ih hinv fun s hs w hw =>
      hstep s hs w (List.mem_cons_of_mem writer hw)
    refine ⟨final, by rw [List.foldlM_cons, hnext]; exact hfinal, hfinalInv, fun cell => ?_⟩
    rw [hlast, hvalue, lastValue_cons]
    cases lastValue (value cell) rest <;> simp

/-- The rule for steps that can fail, and a loop that has succeeded. -/
theorem foldlM_observe_ok {ε : Type*} {observe : σ → α} {value : β → Option α}
    {step : σ → β → Except ε σ} {Inv : σ → Prop} {writers : List β}
    (hstep : ∀ s, Inv s → ∀ writer ∈ writers, ∀ next, step s writer = .ok next →
      Inv next ∧ observe next = (value writer).getD (observe s)) {s final : σ} (hs : Inv s)
    (hrun : writers.foldlM step s = .ok final) :
    Inv final ∧ observe final = (lastValue value writers).getD (observe s) := by
  induction writers generalizing s with
  | nil =>
    cases hrun
    exact ⟨hs, rfl⟩
  | cons writer rest ih =>
    rw [List.foldlM_cons] at hrun
    cases hfirst : step s writer with
    | error error =>
      rw [hfirst] at hrun
      cases hrun
    | ok next =>
      rw [hfirst] at hrun
      obtain ⟨hnext, hvalue⟩ := hstep s hs writer List.mem_cons_self next hfirst
      obtain ⟨hfinal, hlast⟩ := ih (fun s hs w hw => hstep s hs w (List.mem_cons_of_mem writer hw))
        hnext hrun
      refine ⟨hfinal, ?_⟩
      rw [hlast, hvalue, lastValue_cons]
      cases lastValue value rest <;> simp

/-- Writers that all write one value where they reach the cell. -/
theorem lastValue_const {reaches : β → Prop} [DecidablePred reaches] {default : α} :
    (lastValue (fun writer => if reaches writer then some v else none) writers).getD default =
      if writers.any (fun writer => decide (reaches writer)) then v else default := by
  induction writers with
  | nil => rfl
  | cons writer rest ih =>
    rw [lastValue_cons, Option.getD_or, List.any_cons]
    by_cases hrest : (rest.any fun writer => decide (reaches writer)) = true
    · have hsome : ∃ found, lastValue (fun writer => if reaches writer then some v else none) rest =
          some found := by
        by_contra hnone
        have heq := lastValue_eq_none.mp (Option.eq_none_iff_forall_ne_some.mpr (not_exists.mp hnone))
        obtain ⟨other, hother, hreaches⟩ := List.any_eq_true.mp hrest
        have hnever := heq other hother
        rw [if_pos (of_decide_eq_true hreaches)] at hnever
        cases hnever
      obtain ⟨found, hfound⟩ := hsome
      rw [hfound, Option.getD_some, if_pos hrest] at ih
      rw [hfound, Option.getD_some, ih, hrest, Bool.or_true, if_pos rfl]
    · have hnone : lastValue (fun writer => if reaches writer then some v else none) rest = none := by
        refine lastValue_eq_none.mpr fun other hother => if_neg fun hreaches => hrest ?_
        exact List.any_eq_true.mpr ⟨other, hother, decide_eq_true hreaches⟩
      rw [hnone, Option.getD_none, Bool.eq_false_iff.mpr hrest, Bool.or_false]
      by_cases hreaches : reaches writer
      · rw [if_pos hreaches, decide_eq_true hreaches, if_pos rfl, Option.getD_some]
      · rw [if_neg hreaches, decide_eq_false hreaches, if_neg Bool.false_ne_true, Option.getD_none]

/-- The fold rule for a loop that overwrites the cell in every state. -/
theorem foldl_observe (observe : σ → α) (value : β → Option α) (step : σ → β → σ)
    (writers : List β) (s : σ)
    (hstep : ∀ s, ∀ writer ∈ writers, observe (step s writer) = (value writer).getD (observe s)) :
    observe (writers.foldl step s) = (lastValue value writers).getD (observe s) :=
  (foldl_observe_inv observe value step (fun _ => True) writers trivial
    fun s _ writer hwriter => ⟨trivial, hstep s writer hwriter⟩).2

/-- A loop that stores into an array leaves in each entry the last value stored there. -/
theorem getElem?_foldl_set (place : β → ℕ) (value : β → α) (writers : List β) (items : List α)
    (index : ℕ) :
    (writers.foldl (fun items writer => items.set (place writer) (value writer)) items)[index]? =
      items[index]?.map fun old =>
        (lastValue (fun writer => if place writer = index then some (value writer) else none)
          writers).getD old := by
  induction writers generalizing items with
  | nil => simp
  | cons writer rest ih =>
    rw [List.foldl_cons, ih, lastValue_cons, List.getElem?_set']
    by_cases hplace : place writer = index
    · subst hplace
      rw [if_pos rfl, if_pos rfl]
      cases items[place writer]? with
      | none => rfl
      | some old => cases lastValue _ rest <;> simp
    · simp only [if_neg hplace, Option.or_none]

end LastValue
