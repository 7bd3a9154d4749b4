import Mathlib.Data.Int.Range
import Mathlib.Data.List.Basic
import Mathlib.Data.List.Nodup
import Mathlib.Tactic.Ring

/-!
# Nested loops as lists

A loop nest is the list of its iterations. When every inner loop makes the same number of
turns, the iteration at a given place of the list is found by division with remainder, which
is how a linear array index is computed from loop variables.
-/

namespace NestedLoop

variable {α β : Type*} {inner : α → List β} {items : List α} {low high : ℤ} {σ : Type} {s t : σ}
  {outer : List α} {n : ℕ} {κ : Type*} {γ : Type}

/-- Equally long inner loops multiply. -/
theorem length_flatMap_uniform (h : ∀ a ∈ outer, (inner a).length = n) :
    (outer.flatMap inner).length = outer.length * n := by
  induction outer with
  | nil => simp
  | cons a rest ih =>
    rw [List.flatMap_cons, List.length_append, h a List.mem_cons_self,
      ih fun b hb => h b (List.mem_cons_of_mem a hb), List.length_cons, Nat.succ_mul, Nat.add_comm]

/-- Iteration `i * n + j` is turn `j` of the inner loop in turn `i` of the outer one. -/
theorem getElem?_flatMap_uniform {outer : List α} {inner : α → List β} {n : ℕ}
    (h : ∀ a ∈ outer, (inner a).length = n) {i j : ℕ} (hj : j < n) :
    (outer.flatMap inner)[i * n + j]? = outer[i]?.bind fun a => (inner a)[j]? := by
  induction outer generalizing i with
  | nil => simp
  | cons a rest ih =>
    have hlength := h a List.mem_cons_self
    rw [List.flatMap_cons]
    cases i with
    | zero => rw [Nat.zero_mul, Nat.zero_add, List.getElem?_append_left (hlength ▸ hj)]; rfl
    | succ i =>
      rw [List.getElem?_append_right (by rw [hlength, Nat.succ_mul]; omega), hlength,
        show (i + 1) * n + j - n = i * n + j by rw [Nat.succ_mul]; omega,
        ih fun b hb => h b (List.mem_cons_of_mem a hb), List.getElem?_cons_succ]

/-- When a turn of the outer loop either contributes `n` hits or none, hits multiply. -/
theorem countP_flatMap {test : β → Bool} {hit : α → Bool}
    (h : ∀ a ∈ outer, (inner a).countP test = if hit a then n else 0) :
    (outer.flatMap inner).countP test = outer.countP hit * n := by
  induction outer with
  | nil => simp
  | cons a rest ih =>
    rw [List.flatMap_cons, List.countP_append, h a List.mem_cons_self,
      ih fun b hb => h b (List.mem_cons_of_mem a hb), List.countP_cons]
    split <;> ring

/-- Entries filed under several keys each: those of one key, in the order of the items. -/
theorem map_snd_filter_flatMap [DecidableEq κ] {keys : α → List κ} (hnodup : ∀ a ∈ items, (keys a).Nodup)
    (key : κ) :
    ((items.flatMap fun a => (keys a).map fun k => (k, a)).filter fun entry =>
      entry.1 = key).map Prod.snd = items.filter fun a => key ∈ keys a := by
  induction items with
  | nil => rfl
  | cons a rest ih =>
    have hfirst : (((keys a).map fun k => (k, a)).filter fun entry => entry.1 = key).map Prod.snd =
        if key ∈ keys a then [a] else [] := by
      have hcount : (keys a).filter (fun k => k = key) = if key ∈ keys a then [key] else [] := by
        rw [List.filter_eq, (hnodup a List.mem_cons_self).count]
        split <;> rfl
      rw [List.filter_map, List.map_map]
      simp only [Function.comp_def]
      rw [hcount]
      split <;> rfl
    rw [List.flatMap_cons, List.filter_append, List.map_append, hfirst,
      ih fun b hb => hnodup b (List.mem_cons_of_mem a hb), List.filter_cons]
    by_cases hkey : key ∈ keys a <;> simp [hkey]

/-- The turns for one key, out of the turns for all keys of an outer loop. -/
theorem map_snd_filter_turns [DecidableEq κ] (keys : List κ) (turns : κ → List α) (key : κ) :
    ((keys.flatMap fun k => (turns k).map fun turn => (k, turn)).filter fun entry =>
      entry.1 = key).map Prod.snd = (keys.filter fun k => k = key).flatMap turns := by
  induction keys with
  | nil => rfl
  | cons first rest ih =>
    rw [List.flatMap_cons, List.filter_append, List.map_append, ih, List.filter_map, List.map_map,
      List.filter_cons]
    by_cases hkey : first = key <;> simp [hkey, Function.comp_def]

/-- Inner loops without repetitions whose turns show the turn of the outer loop they belong to. -/
theorem nodup_flatMap_of_tag {outer : List α} {inner : α → List β} {tag : β → α} (hnodup : outer.Nodup)
    (hinner : ∀ a ∈ outer, (inner a).Nodup) (htag : ∀ a ∈ outer, ∀ b ∈ inner a, tag b = a) :
    (outer.flatMap inner).Nodup := by
  refine List.nodup_flatMap.mpr ⟨hinner, hnodup.imp_of_mem fun ha hother hne => ?_⟩
  exact fun b hb hb' => hne ((htag _ ha b hb).symm.trans (htag _ hother b hb'))

/-- What holds of every part that stands beside an item holds of all parts. -/
theorem forall_of_zip {items : List α} {parts : List β} {P : β → Prop} (hparts : parts.length = items.length)
    (h : ∀ pair ∈ items.zip parts, P pair.2) : ∀ part ∈ parts, P part := by
  intro part hpart
  have hsnd : (items.zip parts).map Prod.snd = parts := List.map_snd_zip (Nat.le_of_eq hparts)
  rw [← hsnd] at hpart
  obtain ⟨pair, hpair, rfl⟩ := List.mem_map.mp hpart
  exact h pair hpair

/-- A loop that appends every item. -/
theorem foldl_append_singleton (items acc : List α) :
    items.foldl (fun list item => list ++ [item]) acc = acc ++ items := by
  induction items generalizing acc with
  | nil => exact (List.append_nil acc).symm
  | cons item rest ih => rw [List.foldl_cons, ih, List.append_assoc, List.singleton_append]

/-- The turns of a counting loop. -/
@[simp] theorem length_range (low high : ℤ) : (Int.range low high).length = (high - low).toNat := by
  simp [Int.range]

/-- Turn `i` of a counting loop. -/
theorem getElem?_range {i : ℕ} (h : low + i < high) : (Int.range low high)[i]? = some (low + i) := by
  have hi : i < (high - low).toNat := by omega
  simp [Int.range, hi]

/-- A counting loop meets its values in increasing order. -/
theorem pairwise_lt_range (low high : ℤ) : (Int.range low high).Pairwise (· < ·) := by
  rw [Int.range, List.pairwise_map]
  exact List.pairwise_lt_range.imp fun h => by omega

/-- A counting loop meets every value once. -/
theorem nodup_range (low high : ℤ) : (Int.range low high).Nodup :=
  (pairwise_lt_range low high).imp fun h => h.ne

/-- A counting loop starts at its lower bound. -/
theorem range_cons (h : low < high) : Int.range low high = low :: Int.range (low + 1) high := by
  obtain ⟨n, hn⟩ : ∃ n : ℕ, (high - low).toNat = n + 1 := ⟨(high - low).toNat - 1, by omega⟩
  have hrest : (high - (low + 1)).toNat = n := by omega
  rw [Int.range, Int.range, hn, hrest, List.range_succ_eq_map, List.map_cons, List.map_map]
  simp only [Nat.cast_zero, add_zero, List.cons.injEq, true_and]
  refine List.map_congr_left fun r _ => ?_
  simp only [Function.comp_apply, Nat.succ_eq_add_one, Nat.cast_add, Nat.cast_one]
  ring

/-- A counting loop that has nothing to count. -/
theorem range_eq_nil (h : high ≤ low) : Int.range low high = [] := by
  have hcount : (high - low).toNat = 0 := by omega
  rw [Int.range, hcount]
  rfl

/-- A counting loop in two parts. -/
theorem range_append {middle : ℤ} (hle : low ≤ middle) (hle' : middle ≤ high) :
    Int.range low middle ++ Int.range middle high = Int.range low high := by
  obtain ⟨n, hn⟩ := Int.eq_ofNat_of_zero_le (show 0 ≤ middle - low by omega)
  induction n generalizing low with
  | zero =>
    obtain rfl : low = middle := by omega
    rw [range_eq_nil le_rfl, List.nil_append]
  | succ n ih =>
    rw [range_cons (by omega : low < middle), range_cons (by omega : low < high), List.cons_append,
      ih (by omega) (by omega)]

/-- Turns that do nothing. -/
theorem foldl_eq_self {σ : Type*} {step : σ → α → σ} (h : ∀ s, ∀ a ∈ items, step s a = s) (s : σ) :
    items.foldl step s = s := by
  induction items with
  | nil => rfl
  | cons a rest ih =>
    rw [List.foldl_cons, h s a List.mem_cons_self]
    exact ih fun s b hb => h s b (List.mem_cons_of_mem a hb)

/-- Loops whose turns agree. -/
theorem foldl_congr {σ : Type*} {step step' : σ → α → σ} (h : ∀ s, ∀ a ∈ items, step s a = step' s a) (s : σ) :
    items.foldl step s = items.foldl step' s := by
  induction items generalizing s with
  | nil => rfl
  | cons a rest ih =>
    rw [List.foldl_cons, List.foldl_cons, h s a List.mem_cons_self]
    exact ih (fun s b hb => h s b (List.mem_cons_of_mem a hb)) _

/-- The invariant rule of a counting loop. -/
theorem foldl_range {σ : Type*} (step : σ → ℤ → σ) (Inv : ℤ → σ → Prop) {s : σ} (hle : low ≤ high)
    (hinit : Inv low s) (hstep : ∀ t s, low ≤ t → t < high → Inv t s → Inv (t + 1) (step s t)) :
    Inv high ((Int.range low high).foldl step s) := by
  obtain ⟨n, hn⟩ := Int.eq_ofNat_of_zero_le (show 0 ≤ high - low by omega)
  induction n generalizing low s with
  | zero =>
    obtain rfl : low = high := by omega
    rwa [range_eq_nil le_rfl]
  | succ n ih =>
    rw [range_cons (by omega), List.foldl_cons]
    exact ih (by omega) (hstep low s le_rfl (by omega) hinit)
      (fun t s hlow => hstep t s (by omega)) (by omega)

theorem exists_of_isOk {ε : Type*} {result : Except ε σ} (h : result.isOk = true) : ∃ s, result = .ok s := by
  cases result with
  | error error => cases h
  | ok s => exact ⟨s, rfl⟩

/-- A computation that succeeds has succeeded in its first part and in the rest. -/
theorem exists_of_bind_ok {ε : Type*} {τ : Type} {first : Except ε σ} {rest : σ → Except ε τ} {t : τ}
    (h : first >>= rest = .ok t) : ∃ s, first = .ok s ∧ rest s = .ok t := by
  cases first with
  | error error => cases h
  | ok s => exact ⟨s, rfl, h⟩

/-- A computation that goes on has passed its check. -/
theorem exists_of_guard_ok {ε : Type*} {τ : Type} {condition : Prop} [Decidable condition] {error : ε}
    {rest : PUnit → Except ε τ} {t : τ}
    (h : (if condition then throw error >>= rest else rest ⟨⟩) = .ok t) :
    ¬ condition ∧ rest ⟨⟩ = .ok t := by
  split_ifs at h with hnot
  · cases h
  · exact ⟨hnot, h⟩

section Branches

variable {ε τ : Type*} {condition : Prop} [Decidable condition] {other rest result : τ} {error : ε}

/-- The branch that is taken when the other one gives something else. -/
theorem else_of_ne (hne : other ≠ result) (h : (if condition then other else rest) = result) :
    ¬ condition ∧ rest = result := by
  split_ifs at h with hnot
  · exact absurd h hne
  · exact ⟨hnot, h⟩

theorem then_of_ne (hne : other ≠ result) (h : (if condition then rest else other) = result) :
    condition ∧ rest = result := by
  split_ifs at h with hcondition
  · exact ⟨hcondition, h⟩
  · exact absurd h hne

variable {t : τ}

theorem else_of_ok {rest : Except ε τ} (h : (if condition then .error error else rest) = .ok t) :
    ¬ condition ∧ rest = .ok t :=
  else_of_ne (fun h => by cases h) h

theorem then_of_ok {rest : Except ε τ} (h : (if condition then rest else .error error) = .ok t) :
    condition ∧ rest = .ok t :=
  then_of_ne (fun h => by cases h) h

theorem else_of_some {rest : Option τ} (h : (if condition then none else rest) = some t) :
    ¬ condition ∧ rest = some t :=
  else_of_ne (fun h => by cases h) h

theorem then_of_some {rest : Option τ} (h : (if condition then rest else none) = some t) :
    condition ∧ rest = some t :=
  then_of_ne (fun h => by cases h) h

end Branches

/-- Going on after a success. -/
theorem exists_of_map_ok {ε α β : Type*} {f : α → β} {result : Except ε α} {b : β}
    (h : result.map f = .ok b) : ∃ a, result = .ok a ∧ b = f a := by
  cases result with
  | error error => cases h
  | ok a =>
    cases h
    exact ⟨a, rfl, rfl⟩

theorem ok_bind {ε : Type*} {τ : Type} (s : σ) (rest : σ → Except ε τ) : (Except.ok s >>= rest) = rest s := rfl

/-- A loop whose body never fails. -/
theorem foldlM_ok {σ ε : Type*} {step : σ → α → Except ε σ} {next : σ → α → σ} {items : List α}
    (h : ∀ s, ∀ a ∈ items, step s a = .ok (next s a)) (s : σ) :
    items.foldlM step s = .ok (items.foldl next s) := by
  induction items generalizing s with
  | nil => rfl
  | cons a rest ih =>
    rw [List.foldlM_cons, h s a List.mem_cons_self, List.foldl_cons]
    exact ih (fun s b hb => h s b (List.mem_cons_of_mem a hb)) (next s a)

/-- A loop that has succeeded did what its body does when it succeeds. -/
theorem foldl_of_foldlM_ok {ε : Type} {step : σ → α → Except ε σ} {next : σ → α → σ}
    (h : ∀ s, ∀ a ∈ items, ∀ t, step s a = .ok t → t = next s a) (hrun : items.foldlM step s = .ok t) :
    t = items.foldl next s := by
  induction items generalizing s with
  | nil =>
    cases hrun
    rfl
  | cons a rest ih =>
    rw [List.foldlM_cons] at hrun
    obtain ⟨middle, hmiddle, hrest⟩ := exists_of_bind_ok hrun
    rw [List.foldl_cons, ← h s a List.mem_cons_self middle hmiddle]
    exact ih (fun s b hb => h s b (List.mem_cons_of_mem a hb)) hrest

/-- A loop whose turns are loops, as one loop, when it has succeeded. -/
theorem foldlM_flatMap_of_ok {ε : Type} {step : σ → α → Except ε σ} {turn : σ → β → Except ε σ}
    (h : ∀ s, ∀ a ∈ items, ∀ t, step s a = .ok t → (inner a).foldlM turn s = .ok t)
    (hrun : items.foldlM step s = .ok t) : (items.flatMap inner).foldlM turn s = .ok t := by
  induction items generalizing s with
  | nil => exact hrun
  | cons a rest ih =>
    rw [List.foldlM_cons] at hrun
    obtain ⟨middle, hmiddle, hrest⟩ := exists_of_bind_ok hrun
    rw [List.flatMap_cons, List.foldlM_append, h s a List.mem_cons_self middle hmiddle, ok_bind]
    exact ih (fun s b hb => h s b (List.mem_cons_of_mem a hb)) hrest

/-- A loop whose turns are loops, as one loop. -/
theorem foldlM_flatMap_of_eq {ε : Type} {step : σ → α → Except ε σ} {turn : σ → β → Except ε σ}
    (h : ∀ s, ∀ a ∈ items, step s a = (inner a).foldlM turn s) (s : σ) :
    items.foldlM step s = (items.flatMap inner).foldlM turn s := by
  induction items generalizing s with
  | nil => rfl
  | cons a rest ih =>
    rw [List.foldlM_cons, List.flatMap_cons, List.foldlM_append, h s a List.mem_cons_self]
    refine congrArg ((inner a).foldlM turn s >>= ·) (funext fun next => ?_)
    exact ih (fun s b hb => h s b (List.mem_cons_of_mem a hb)) next

/-- A loop whose turns never fail and amount to inner loops, as one loop. -/
theorem foldlM_flatMap_ok {σ ε : Type*} {step : σ → α → Except ε σ} {next : σ → β → σ} (Inv : σ → Prop)
    (hnext : ∀ s b, Inv s → Inv (next s b))
    (h : ∀ s, Inv s → ∀ a ∈ items, step s a = .ok ((inner a).foldl next s)) {s : σ} (hs : Inv s) :
    items.foldlM step s = .ok ((items.flatMap inner).foldl next s) := by
  have hkeep (bs : List β) : ∀ s, Inv s → Inv (bs.foldl next s) := by
    induction bs with
    | nil => exact fun s hs => hs
    | cons b rest ih => exact fun s hs => ih (next s b) (hnext s b hs)
  induction items generalizing s with
  | nil => rfl
  | cons a rest ih =>
    rw [List.foldlM_cons, h s hs a List.mem_cons_self, List.flatMap_cons, List.foldl_append]
    exact ih (fun s hs b hb => h s hs b (List.mem_cons_of_mem a hb)) (hkeep (inner a) s hs)

/-- The rule of a loop whose turns succeed as long as an invariant holds. -/
theorem foldlM_succeeds {σ ε : Type} {step : σ → α → Except ε σ} (Inv : σ → Prop) {items : List α}
    (h : ∀ s, ∀ a ∈ items, Inv s → ∃ t, step s a = .ok t ∧ Inv t) {s : σ} (hinit : Inv s) :
    ∃ t, items.foldlM step s = .ok t ∧ Inv t := by
  induction items generalizing s with
  | nil => exact ⟨s, rfl, hinit⟩
  | cons a rest ih =>
    obtain ⟨middle, hmiddle, hinv⟩ := h s a List.mem_cons_self hinit
    rw [List.foldlM_cons, hmiddle]
    exact ih (fun s b hb => h s b (List.mem_cons_of_mem a hb)) hinv

/-- The invariant rule of a loop that has succeeded; the invariant may speak of the turns so far. -/
theorem foldlM_split_rule {ε : Type} {step : σ → α → Except ε σ} (Inv : List α → σ → Prop)
    (h : ∀ done a rest, done ++ a :: rest = items → ∀ s t, Inv done s →
      step s a = .ok t → Inv (done ++ [a]) t) (hinit : Inv [] s) (hrun : items.foldlM step s = .ok t) :
    Inv items t := by
  suffices hall : ∀ rest done : List α, ∀ s, done ++ rest = items → Inv done s →
      rest.foldlM step s = .ok t → Inv items t from hall items [] s rfl hinit hrun
  intro rest
  induction rest with
  | nil =>
    intro done s hdone hinv hrun
    cases hrun
    rwa [← hdone, List.append_nil]
  | cons a rest ih =>
    intro done s hdone hinv hrun
    rw [List.foldlM_cons] at hrun
    obtain ⟨middle, hmiddle, hrest⟩ := exists_of_bind_ok hrun
    refine ih (done ++ [a]) middle ?_ (h done a rest hdone s middle hinv hmiddle) hrest
    rwa [List.append_assoc, List.singleton_append]

/-- The invariant rule, where a turn needs no more than its item, and with turns before the loop. -/
theorem foldlM_ok_rule {σ ε : Type} {step : σ → α → Except ε σ} (Inv : List α → σ → Prop)
    {items : List α} (h : ∀ done s, ∀ a ∈ items, ∀ t, Inv done s → step s a = .ok t → Inv (done ++ [a]) t)
    {done : List α} {s t : σ} (hinit : Inv done s) (hrun : items.foldlM step s = .ok t) :
    Inv (done ++ items) t := by
  refine foldlM_split_rule (fun turns s => Inv (done ++ turns) s) ?_ (by rwa [List.append_nil]) hrun
  intro turns a rest hturns s t hinv hstep
  have hmem : a ∈ items := hturns ▸ List.mem_append_right turns List.mem_cons_self
  rw [← List.append_assoc]
  exact h (done ++ turns) s a hmem t hinv hstep

/-- A loop that collects results has one for each item, in order. -/
theorem forall₂_of_mapM_ok {ε : Type*} {α β : Type} {f : α → Except ε β} {items : List α}
    {results : List β} (h : items.mapM f = .ok results) :
    List.Forall₂ (fun item result => f item = .ok result) items results := by
  induction items generalizing results with
  | nil =>
    cases h
    exact .nil
  | cons item rest ih =>
    rw [List.mapM_cons] at h
    obtain ⟨result, hresult, h⟩ := exists_of_bind_ok h
    obtain ⟨others, hothers, h⟩ := exists_of_bind_ok h
    cases h
    exact .cons hresult (ih hothers)

/-- What holds of every result of a step holds of every collected result. -/
theorem forall_of_mapM_ok {ε : Type*} {α β : Type} {f : α → Except ε β} {P : β → Prop}
    (hf : ∀ item result, f item = .ok result → P result) {items : List α} {results : List β}
    (h : items.mapM f = .ok results) : ∀ result ∈ results, P result := by
  have hall := forall₂_of_mapM_ok h
  clear h
  induction hall with
  | nil =>
    intro result hresult
    cases hresult
  | cons hfirst _ ih =>
    intro result hresult
    rcases List.mem_cons.mp hresult with rfl | hrest
    · exact hf _ _ hfirst
    · exact ih result hrest

/-- A loop that collects results is a map, as far as its items go. -/
theorem exists_map_of_mapM_ok {ε : Type*} {α β : Type} [Inhabited β] {f : α → Except ε β}
    {items : List α} {results : List β} (h : items.mapM f = .ok results) :
    ∃ g, results = items.map g ∧ ∀ item ∈ items, f item = .ok (g item) := by
  obtain ⟨g, hg⟩ : ∃ g : α → β, ∀ item result, f item = .ok result → g item = result := by
    refine ⟨fun item => (f item).toOption.getD default, fun item result hresult => ?_⟩
    exact congrArg (fun result => result.toOption.getD default) hresult
  refine ⟨g, ?_⟩
  have hpairs := forall₂_of_mapM_ok h
  clear h
  induction hpairs with
  | nil => exact ⟨rfl, fun _ hitem => absurd hitem List.not_mem_nil⟩
  | @cons item result _ _ hfirst _ ih =>
    obtain rfl := hg item result hfirst
    constructor
    · rw [List.map_cons, ← ih.1]
    · intro other hother
      rcases List.mem_cons.mp hother with rfl | hrest
      · exact hfirst
      · exact ih.2 other hrest

/-- Two searches for every item, one after the other. -/
theorem mapM_bind {α β : Type} (first : α → Option β) (next : β → Option γ) (items : List α) :
    items.mapM (fun item => (first item).bind next) = (items.mapM first).bind fun found => found.mapM next := by
  induction items with
  | nil => rfl
  | cons item rest ih =>
    rw [List.mapM_cons, List.mapM_cons, ih]
    cases first item with
    | none => rfl
    | some b =>
      cases rest.mapM first with
      | none =>
        simp only [Option.bind_eq_bind, Option.bind_some, Option.bind_none]
        cases next b <;> rfl
      | some found =>
        change _ = (b :: found).mapM next
        rw [List.mapM_cons]
        rfl

/-- A search whose results are changed afterwards. -/
theorem mapM_map_result {α β : Type} (find : α → Option β) (f : β → γ) (items : List α) :
    items.mapM (fun item => (find item).map f) = (items.mapM find).map (List.map f) := by
  induction items with
  | nil => rfl
  | cons item rest ih =>
    rw [List.mapM_cons, List.mapM_cons, ih]
    cases find item with
    | none => rfl
    | some b => cases rest.mapM find <;> rfl

/-- A search finds a result for every item. -/
theorem forall₂_of_mapM_some {α β : Type} {find : α → Option β} {items : List α} {results : List β}
    (h : items.mapM find = some results) :
    List.Forall₂ (fun item result => find item = some result) items results := by
  induction items generalizing results with
  | nil =>
    cases h
    exact .nil
  | cons item rest ih =>
    rw [List.mapM_cons] at h
    obtain ⟨result, hresult, h⟩ := Option.bind_eq_some_iff.mp h
    obtain ⟨others, hothers, h⟩ := Option.bind_eq_some_iff.mp h
    cases h
    exact .cons hresult (ih hothers)

end NestedLoop
