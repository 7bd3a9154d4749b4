import Mathlib.Data.List.AList
import Mathlib.Order.Lattice

/-!
# Maps in key order

A list of entries with ascending keys, with the two ways of adding an entry that an ordered map has:
one that replaces a value and one that keeps it. A map that is rebuilt from its own entries is the
same map.
-/

/-- `std::map`. -/
@[ext]
structure SortedMap (κ α : Type*) [LinearOrder κ] where
  entries : List (κ × α) := []
  sorted : entries.Pairwise fun a b => a.1 < b.1 := by exact List.Pairwise.nil

namespace SortedMap

variable {κ α : Type*} [LinearOrder κ]

/-- The map without entries. -/
abbrev empty : SortedMap κ α := {}

/-- The value of the first entry with the key. -/
def find (entries : List (κ × α)) (key : κ) : Option α :=
  (entries.find? fun entry => entry.1 = key).map Prod.snd

/-- Put an entry in its place; an entry with its key is replaced. -/
def setEntry (key : κ) (value : α) : List (κ × α) → List (κ × α)
  | [] => [(key, value)]
  | entry :: rest =>
    if key < entry.1 then (key, value) :: entry :: rest
    else if key = entry.1 then (key, value) :: rest
    else entry :: setEntry key value rest

variable {key : κ} {entries : List (κ × α)} {map : SortedMap κ α} {β : Type*}

theorem mem_setEntry {value : α} {entry : κ × α} (h : entry ∈ setEntry key value entries) :
    entry = (key, value) ∨ entry ∈ entries := by
  induction entries with
  | nil => exact .inl (List.mem_singleton.mp h)
  | cons first rest ih =>
    rw [setEntry] at h
    split_ifs at h
    · exact List.mem_cons.mp h
    · exact (List.mem_cons.mp h).imp id (List.mem_cons_of_mem first)
    · rcases List.mem_cons.mp h with rfl | hrest
      · exact .inr List.mem_cons_self
      · exact (ih hrest).imp id (List.mem_cons_of_mem first)

theorem pairwise_setEntry (h : entries.Pairwise fun a b => a.1 < b.1) (key : κ) (value : α) :
    (setEntry key value entries).Pairwise fun a b => a.1 < b.1 := by
  induction entries with
  | nil => exact List.pairwise_singleton _ _
  | cons first rest ih =>
    obtain ⟨hfirst, hrest⟩ := List.pairwise_cons.mp h
    rw [setEntry]
    split_ifs with hle hne
    · refine List.pairwise_cons.mpr ⟨fun entry hentry => ?_, h⟩
      rcases List.mem_cons.mp hentry with rfl | hmem
      · exact hle
      · exact lt_trans hle (hfirst entry hmem)
    · refine List.pairwise_cons.mpr ⟨fun entry hentry => ?_, hrest⟩
      rw [show (key, value).1 = first.1 from hne]
      exact hfirst entry hentry
    · refine List.pairwise_cons.mpr ⟨fun entry hentry => ?_, ih hrest⟩
      rcases mem_setEntry hentry with rfl | hmem
      · exact lt_of_le_of_ne (le_of_not_gt hle) (Ne.symm hne)
      · exact hfirst entry hmem

/-- The value under a key. -/
def lookup (map : SortedMap κ α) (key : κ) : Option α := find map.entries key

/-- `map[key] = value`. -/
def set (map : SortedMap κ α) (key : κ) (value : α) : SortedMap κ α :=
  ⟨setEntry key value map.entries, pairwise_setEntry map.sorted key value⟩

/-- `map.emplace(key, value)`. -/
def emplace (map : SortedMap κ α) (key : κ) (value : α) : SortedMap κ α :=
  if (map.lookup key).isSome then map else map.set key value

/-- `map.erase(key)` -/
def erase (map : SortedMap κ α) (key : κ) : SortedMap κ α :=
  ⟨map.entries.filter fun entry => entry.1 ≠ key, map.sorted.filter _⟩

/-- The map of some entries; of entries with one key the first stays. -/
def ofEntries (entries : List (κ × α)) : SortedMap κ α :=
  entries.foldl (fun map entry => map.emplace entry.1 entry.2) {}

theorem find_setEntry (key other : κ) (value : α) (entries : List (κ × α))
    (h : entries.Pairwise fun a b => a.1 < b.1) :
    find (setEntry key value entries) other = if other = key then some value else find entries other := by
  induction entries with
  | nil =>
    by_cases hkey : other = key
    · subst hkey
      simp [setEntry, find]
    · simp [setEntry, find, Ne.symm hkey, hkey]
  | cons first rest ih =>
    have hrest := ih (List.pairwise_cons.mp h).2
    by_cases hkey : other = key
    · subst hkey
      rw [setEntry, if_pos rfl]
      split_ifs with _ hne
      · simp [find]
      · simp [find]
      · have hne' : ¬ first.1 = other := Ne.symm hne
        rw [if_pos rfl] at hrest
        rw [find, List.find?_cons_of_neg (by simpa using hne')]
        exact hrest
    · rw [if_neg hkey] at hrest ⊢
      rw [setEntry]
      split_ifs with _ heq
      · simp [find, Ne.symm hkey]
      · have hne : ¬ first.1 = other := fun h => hkey (h.symm.trans heq.symm)
        simp [find, Ne.symm hkey, hne]
      · by_cases hfirst : first.1 = other
        · simp [find, hfirst]
        · rw [find, List.find?_cons_of_neg (by simpa using hfirst), find,
            List.find?_cons_of_neg (by simpa using hfirst)]
          exact hrest

@[simp] theorem lookup_empty (key : κ) : ({} : SortedMap κ α).lookup key = none := rfl

/-- Setting changes the value of one key. -/
theorem lookup_set (map : SortedMap κ α) (key other : κ) (value : α) :
    (map.set key value).lookup other = if other = key then some value else map.lookup other :=
  find_setEntry key other value map.entries map.sorted

theorem lookup_eq_some {map : SortedMap κ α} {key : κ} {value : α}
    (h : map.lookup key = some value) : (key, value) ∈ map.entries := by
  obtain ⟨entry, hentry, rfl⟩ := Option.map_eq_some_iff.mp h
  have hkey := List.find?_some hentry
  obtain rfl := of_decide_eq_true hkey
  exact List.mem_of_find?_eq_some hentry

/-- An entry is found under its key. -/
theorem lookup_of_mem {map : SortedMap κ α} {key : κ} {value : α} (h : (key, value) ∈ map.entries) :
    map.lookup key = some value := by
  obtain ⟨entries, hsorted⟩ := map
  rw [lookup]
  dsimp only at h ⊢
  induction entries with
  | nil => cases h
  | cons first rest ih =>
    obtain ⟨hfirst, hrest⟩ := List.pairwise_cons.mp hsorted
    rcases List.mem_cons.mp h with rfl | hmem
    · simp [find]
    · have hne : ¬ first.1 = key := ne_of_lt (hfirst _ hmem)
      rw [find, List.find?_cons_of_neg (by simpa using hne)]
      exact ih hrest hmem

theorem emplace_of_missing (h : map.lookup key = none) (value : α) :
    map.emplace key value = map.set key value := by
  rw [emplace, h, Option.isSome_none, if_neg Bool.false_ne_true]

theorem emplace_of_present (h : (map.lookup key).isSome = true) (value : α) :
    map.emplace key value = map := if_pos h

/-- The values are replaced, each by what it is mapped to. -/
def mapValues {β : Type*} (f : α → β) (map : SortedMap κ α) : SortedMap κ β :=
  ⟨map.entries.map fun entry => (entry.1, f entry.2), List.pairwise_map.mpr map.sorted⟩

theorem lookup_mapValues (f : α → β) (map : SortedMap κ α) (key : κ) :
    (map.mapValues f).lookup key = (map.lookup key).map f := by
  rw [lookup, lookup, find, find, mapValues, List.find?_map, Option.map_map, Option.map_map]
  rfl

theorem setEntry_map (f : α → β) (key : κ) (value : α) (entries : List (κ × α)) :
    setEntry key (f value) (entries.map fun entry => (entry.1, f entry.2)) =
      (setEntry key value entries).map fun entry => (entry.1, f entry.2) := by
  induction entries with
  | nil => rfl
  | cons first rest ih =>
    rw [List.map_cons, setEntry, setEntry, ih, apply_ite (List.map _), apply_ite (List.map _)]
    rfl

theorem mapValues_set (f : α → β) (map : SortedMap κ α) (key : κ) (value : α) :
    (map.set key value).mapValues f = (map.mapValues f).set key (f value) :=
  SortedMap.ext (setEntry_map f key value map.entries).symm

/-- A key below all others is missing. -/
theorem lookup_of_lt (h : ∀ entry ∈ map.entries, key < entry.1) : map.lookup key = none := by
  cases hlookup : map.lookup key with
  | none => rfl
  | some value => exact absurd (h _ (lookup_eq_some hlookup)) (lt_irrefl key)

/-- A missing key is erased without a change. -/
theorem erase_of_missing (h : map.lookup key = none) : map.erase key = map := by
  refine SortedMap.ext (List.filter_eq_self.mpr fun entry hentry => ?_)
  refine decide_eq_true fun heq => ?_
  rw [lookup_of_mem (show (key, entry.2) ∈ map.entries from heq ▸ hentry)] at h
  cases h

theorem setEntry_of_lt {value : α} (h : ∀ entry ∈ entries, entry.1 < key) :
    setEntry key value entries = entries ++ [(key, value)] := by
  induction entries with
  | nil => rfl
  | cons first rest ih =>
    have hfirst := h first List.mem_cons_self
    rw [setEntry, if_neg (lt_asymm hfirst), if_neg (ne_of_gt hfirst),
      ih fun entry hentry => h entry (List.mem_cons_of_mem first hentry), List.cons_append]

/-- Entries in ascending order are appended one after the other. -/
theorem entries_foldl_emplace {entries : List (κ × α)} {map : SortedMap κ α}
    (h : (map.entries ++ entries).Pairwise fun a b => a.1 < b.1) :
    (entries.foldl (fun map entry => map.emplace entry.1 entry.2) map).entries =
      map.entries ++ entries := by
  induction entries generalizing map with
  | nil => exact (List.append_nil _).symm
  | cons entry rest ih =>
    have hlt : ∀ other ∈ map.entries, other.1 < entry.1 := fun other hother =>
      (List.pairwise_append.mp h).2.2 other hother entry List.mem_cons_self
    have hmissing : (map.lookup entry.1).isSome = false := by
      cases hlookup : map.lookup entry.1 with
      | none => rfl
      | some value => exact absurd (hlt _ (lookup_eq_some hlookup)) (lt_irrefl _)
    have hnext : (map.emplace entry.1 entry.2).entries = map.entries ++ [entry] := by
      rw [emplace, if_neg (by rw [hmissing]; exact Bool.false_ne_true)]
      exact setEntry_of_lt hlt
    rw [List.foldl_cons, ih (by rw [hnext, List.append_assoc]; exact h), hnext, List.append_assoc]
    rfl

/-- Setting entries in ascending order appends them, too. -/
theorem entries_foldl_set {entries : List (κ × α)} {map : SortedMap κ α}
    (h : (map.entries ++ entries).Pairwise fun a b => a.1 < b.1) :
    (entries.foldl (fun map entry => map.set entry.1 entry.2) map).entries = map.entries ++ entries := by
  induction entries generalizing map with
  | nil => exact (List.append_nil _).symm
  | cons entry rest ih =>
    have hnext : (map.set entry.1 entry.2).entries = map.entries ++ [entry] :=
      setEntry_of_lt fun other hother => (List.pairwise_append.mp h).2.2 other hother entry List.mem_cons_self
    rw [List.foldl_cons, ih (by rw [hnext, List.append_assoc]; exact h), hnext, List.append_assoc]
    rfl

/-- A map is the map of its entries. -/
theorem ofEntries_entries (map : SortedMap κ α) : ofEntries map.entries = map :=
  SortedMap.ext (@entries_foldl_emplace _ _ _ map.entries {} map.sorted)

end SortedMap
