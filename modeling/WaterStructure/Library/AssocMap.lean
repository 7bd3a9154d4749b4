import Mathlib.Data.List.AList

/-!
# Finite maps with in-place updates

`AList` supplies lookup, insertion and erasure. The operations here are the two remaining
ones an imperative hash map offers: insert only when the key is absent, and update the value
stored under a key. Loops that visit every key once are described by their lookups.
-/

namespace AssocMap

variable {κ : Type*} [DecidableEq κ] {α : Type*}

/-- Insert a value unless the key is present, as `try_emplace` does. -/
def tryEmplace (m : AList fun _ : κ => α) (key : κ) (value : α) : AList fun _ : κ => α :=
  match m.lookup key with
  | none => m.insert key value
  | some _ => m

/-- Replace the value under a key; an absent key is left absent. -/
def update (m : AList fun _ : κ => α) (key : κ) (f : α → α) : AList fun _ : κ => α :=
  match m.lookup key with
  | none => m
  | some value => m.insert key (f value)

/-- Replace every value. -/
def mapValues {β : Type*} (m : AList fun _ : κ => α) (f : α → β) : AList fun _ : κ => β where
  entries := m.entries.map fun entry => ⟨entry.1, f entry.2⟩
  nodupKeys := by
    have h := m.nodupKeys
    rw [List.NodupKeys, List.keys] at h ⊢
    rwa [List.map_map]

/-- Keep the entries whose values satisfy a test. -/
def filterValues (m : AList fun _ : κ => α) (keep : α → Bool) : AList fun _ : κ => α where
  entries := m.entries.filter fun entry => keep entry.2
  nodupKeys := m.nodupKeys.sublist List.filter_sublist

theorem lookup_filterValues (m : AList fun _ : κ => α) (keep : α → Bool) (key : κ) :
    (filterValues m keep).lookup key = (m.lookup key).filter keep := by
  refine Option.ext fun value => ?_
  rw [← Option.mem_def, ← Option.mem_def, AList.mem_lookup_iff, Option.mem_filter_iff,
    AList.mem_lookup_iff]
  exact List.mem_filter

theorem lookup_mapValues {β : Type*} (m : AList fun _ : κ => α) (f : α → β) (key : κ) :
    (mapValues m f).lookup key = (m.lookup key).map f := by
  refine Option.ext fun value => ?_
  rw [← Option.mem_def, AList.mem_lookup_iff, Option.map_eq_some_iff]
  constructor
  · intro h
    obtain ⟨entry, hentry, heq⟩ := List.mem_map.mp h
    obtain ⟨rfl, hvalue⟩ := Sigma.mk.inj heq
    exact ⟨entry.2, AList.mem_lookup_iff.mpr hentry, eq_of_heq hvalue⟩
  · rintro ⟨old, hold, rfl⟩
    exact List.mem_map.mpr ⟨⟨key, old⟩, AList.mem_lookup_iff.mp hold, rfl⟩

/-- Insertion changes the value of one key. -/
theorem lookup_insert_eq (m : AList fun _ : κ => α) (key other : κ) (value : α) :
    (m.insert key value).lookup other = if other = key then some value else m.lookup other := by
  by_cases h : other = key
  · subst h
    simp
  · rw [if_neg h, AList.lookup_insert_ne h]

/-- A present key keeps its value; an absent one receives the default. -/
theorem lookup_tryEmplace (m : AList fun _ : κ => α) (key other : κ) (value : α) :
    (tryEmplace m key value).lookup other =
      if other = key then some ((m.lookup key).getD value) else m.lookup other := by
  unfold tryEmplace
  split
  case h_1 hnone => rw [lookup_insert_eq, hnone]; rfl
  case h_2 old hsome =>
    split_ifs with heq
    · rw [heq, hsome]; rfl
    · rfl

variable {m : AList fun _ : κ => α} {key : κ} {ε : Type*} {keys : List κ} {f : κ → α → Except ε α}

/-- Only the value that is there matters for an update. -/
theorem update_congr {f g : α → α} (h : ∀ value, m.lookup key = some value → f value = g value) :
    update m key f = update m key g := by
  rw [update, update]
  cases hvalue : m.lookup key with
  | none => rfl
  | some value => exact congrArg (AList.insert key · m) (h value hvalue)

/-- Updating touches one key. -/
theorem lookup_update (m : AList fun _ : κ => α) (key other : κ) (f : α → α) :
    (update m key f).lookup other =
      if other = key then (m.lookup key).map f else m.lookup other := by
  unfold update
  split
  case h_1 hnone =>
    split_ifs with heq
    · rw [heq, hnone]; rfl
    · rfl
  case h_2 old hsome => rw [lookup_insert_eq, hsome]; rfl

/-- Emplacing a list of keys with a default adds exactly those keys. -/
theorem lookup_foldl_tryEmplace (keys : List κ) (m : AList fun _ : κ => α) (value : α)
    (other : κ) :
    (keys.foldl (fun acc key => tryEmplace acc key value) m).lookup other =
      match m.lookup other with
      | some old => some old
      | none => if other ∈ keys then some value else none := by
  induction keys generalizing m with
  | nil => cases h : m.lookup other <;> simp [h]
  | cons key rest ih =>
    rw [List.foldl_cons, ih, lookup_tryEmplace]
    by_cases hkey : other = key
    · subst hkey
      cases h : m.lookup other <;> simp
    · cases h : m.lookup other <;> simp [hkey]

/-- A loop that updates each key once applies its update to every listed key. -/
theorem lookup_foldl_update (keys : List κ) (hnodup : keys.Nodup) (m : AList fun _ : κ => α)
    (f : κ → α → α) (other : κ) :
    (keys.foldl (fun acc key => update acc key (f key)) m).lookup other =
      if other ∈ keys then (m.lookup other).map (f other) else m.lookup other := by
  induction keys generalizing m with
  | nil => simp
  | cons key rest ih =>
    obtain ⟨hfresh, hrest⟩ := List.nodup_cons.mp hnodup
    rw [List.foldl_cons, ih hrest, lookup_update]
    by_cases hkey : other = key
    · subst hkey
      simp [hfresh]
    · simp [hkey]

/-- A loop that emplaces entries keeps what is there and adds the first entry of every other key. -/
theorem lookup_foldl_emplace (entries : List (κ × α)) (m : AList fun _ : κ => α) (key : κ) :
    (entries.foldl (fun acc entry => tryEmplace acc entry.1 entry.2) m).lookup key =
      (m.lookup key).or ((entries.find? fun entry => entry.1 = key).map Prod.snd) := by
  induction entries generalizing m with
  | nil => simp
  | cons entry rest ih =>
    rw [List.foldl_cons, ih, lookup_tryEmplace, List.find?_cons]
    by_cases hkey : key = entry.1
    · subst hkey
      cases h : m.lookup entry.1 <;> simp
    · simp [hkey, Ne.symm hkey]

/-- A loop over the entries of a map that emplaces some of them under another key. -/
theorem lookup_foldl_rekey {ι : Type*} [DecidableEq ι] (source : AList fun _ : ι => α) {rekey : ι → κ}
    (hrekey : Function.Injective rekey) (keep : ι → α → Bool) (m : AList fun _ : κ => α) (key : ι) :
    (source.entries.foldl (fun acc entry =>
      if keep entry.1 entry.2 then tryEmplace acc (rekey entry.1) entry.2 else acc) m).lookup
        (rekey key) = (m.lookup (rekey key)).or ((source.lookup key).filter (keep key)) := by
  have hlookup : source.lookup key = List.dlookup key source.entries := rfl
  have hnodup := source.nodupKeys
  rw [hlookup]
  generalize source.entries = entries at hnodup
  induction entries generalizing m with
  | nil => simp
  | cons entry rest ih =>
    obtain ⟨first, value⟩ := entry
    obtain ⟨hfresh, hrest⟩ := List.nodupKeys_cons.mp hnodup
    rw [List.foldl_cons, ih _ hrest]
    dsimp only
    by_cases hkey : key = first
    · subst hkey
      have hfilter : Option.filter (keep key) (List.dlookup key (⟨key, value⟩ :: rest)) =
          if keep key value then some value else none := by
        rw [List.dlookup_cons_eq]
        rfl
      rw [List.dlookup_eq_none.mpr hfresh, hfilter]
      split
      · rw [lookup_tryEmplace, if_pos rfl]
        cases m.lookup (rekey key) <;> simp
      · simp
    · have hrest : List.dlookup key (⟨first, value⟩ :: rest : List (Sigma fun _ : ι => α)) =
          List.dlookup key rest := List.dlookup_cons_ne _ _ hkey
      rw [hrest]
      congr 1
      split
      · rw [lookup_tryEmplace, if_neg fun h => hkey (hrekey h)]
      · rfl

/-- A loop of updates does to each value what its turns for that key do. -/
theorem lookup_foldl_update_turns {τ : Type*} (turns : List (κ × τ)) (f : τ → α → α)
    (m : AList fun _ : κ => α) (key : κ) :
    (turns.foldl (fun acc turn => update acc turn.1 (f turn.2)) m).lookup key =
      (m.lookup key).map fun value =>
        ((turns.filter fun turn => turn.1 = key).map Prod.snd).foldl (fun value turn => f turn value)
          value := by
  induction turns generalizing m with
  | nil => simp
  | cons turn rest ih =>
    rw [List.foldl_cons, ih, lookup_update]
    by_cases hkey : key = turn.1
    · subst hkey
      cases m.lookup turn.1 <;> simp
    · simp [hkey, Ne.symm hkey]

/-- Append to the list under a key, which starts empty. -/
def pushBack (m : AList fun _ : κ => List α) (key : κ) (value : α) : AList fun _ : κ => List α :=
  m.insert key ((m.lookup key).getD [] ++ [value])

/-- A loop that appends leaves under each key the values appended to it, in order. -/
theorem lookup_foldl_pushBack (entries : List (κ × α)) (m : AList fun _ : κ => List α) (key : κ) :
    ((entries.foldl (fun acc entry => pushBack acc entry.1 entry.2) m).lookup key).getD [] =
      (m.lookup key).getD [] ++ (entries.filter fun entry => entry.1 = key).map Prod.snd := by
  induction entries generalizing m with
  | nil => simp
  | cons entry rest ih =>
    rw [List.foldl_cons, ih, pushBack, lookup_insert_eq]
    by_cases hkey : entry.1 = key
    · subst hkey
      simp
    · simp [hkey, Ne.symm hkey]

/-- Rework the values one key after the other; the first failure ends the loop. -/
def forEachM {ε : Type*} (m : AList fun _ : κ => α) (f : κ → α → Except ε α) :
    List κ → Except ε (AList fun _ : κ => α)
  | [] => .ok m
  | key :: rest =>
    match m.lookup key with
    | none => forEachM m f rest
    | some value =>
      match f key value with
      | .error error => .error error
      | .ok value => forEachM (m.insert key value) f rest

/-- If no listed value fails, the loop reworks each of them. -/
theorem forEachM_ok (hnodup : keys.Nodup)
    (h : ∀ key ∈ keys, ∀ value, m.lookup key = some value → ∃ value', f key value = .ok value') :
    ∃ m', forEachM m f keys = .ok m' ∧ ∀ key, m'.lookup key =
      if key ∈ keys then (m.lookup key).bind fun value => (f key value).toOption
      else m.lookup key := by
  induction keys generalizing m with
  | nil => exact ⟨m, rfl, by simp⟩
  | cons first rest ih =>
    obtain ⟨hfresh, hrest⟩ := List.nodup_cons.mp hnodup
    cases hvalue : m.lookup first with
    | none =>
      obtain ⟨m', hm', hlookup⟩ := ih hrest fun key hkey => h key (List.mem_cons_of_mem first hkey)
      refine ⟨m', by rw [forEachM, hvalue]; exact hm', fun key => ?_⟩
      rw [hlookup key]
      by_cases hsame : key = first
      · subst hsame
        simp [hfresh, hvalue]
      · simp [hsame]
    | some value =>
      obtain ⟨value', hf⟩ := h first List.mem_cons_self value hvalue
      have hothers : ∀ key ∈ rest, (m.insert first value').lookup key = m.lookup key :=
        fun key hkey => AList.lookup_insert_ne fun hsame => hfresh (hsame ▸ hkey)
      obtain ⟨m', hm', hlookup⟩ := ih hrest fun key hkey v hv =>
        h key (List.mem_cons_of_mem first hkey) v (by rw [← hothers key hkey]; exact hv)
      refine ⟨m', by simp only [forEachM, hvalue, hf, hm'], fun key => ?_⟩
      rw [hlookup key]
      by_cases hsame : key = first
      · subst hsame
        simp [hfresh, hvalue, hf, Except.toOption]
      · rw [lookup_insert_eq, if_neg hsame]
        simp [hsame]

/-- If the loop succeeds, no listed value has failed. -/
theorem exists_of_forEachM_ok (hnodup : keys.Nodup) {m' : AList fun _ : κ => α}
    (h : forEachM m f keys = .ok m') (hkey : key ∈ keys) {value : α}
    (hvalue : m.lookup key = some value) : ∃ value', f key value = .ok value' := by
  induction keys generalizing m with
  | nil => cases hkey
  | cons first rest ih =>
    obtain ⟨hfresh, hrest⟩ := List.nodup_cons.mp hnodup
    cases hfirst : m.lookup first with
    | none =>
      simp only [forEachM, hfirst] at h
      rcases List.mem_cons.mp hkey with rfl | hmem
      · rw [hfirst] at hvalue
        cases hvalue
      · exact ih hrest h hmem hvalue
    | some old =>
      cases hf : f first old with
      | error error =>
        simp only [forEachM, hfirst, hf] at h
        cases h
      | ok new =>
        simp only [forEachM, hfirst, hf] at h
        rcases List.mem_cons.mp hkey with rfl | hmem
        · rw [hfirst] at hvalue
          cases hvalue
          exact ⟨new, hf⟩
        · have hne : key ≠ first := fun hsame => hfresh (hsame ▸ hmem)
          refine ih hrest h hmem ?_
          rw [AList.lookup_insert_ne hne, hvalue]

end AssocMap
