import Mathlib.Data.List.AList
import Mathlib.Data.List.Dedup

/-!
# Numbering values by first occurrence

A palette keeps one entry for each key, in the order in which the keys first occur, and a map
from keys to entry numbers. Adding values never renumbers an entry, every added value can be
looked up, and the entry found has the key that was asked for.
-/

namespace InternTable

/-- The entries so far and the number of each key. -/
structure Table (α κ : Type*) where
  values : List α
  indices : AList fun _ : κ => ℕ

variable {α κ : Type*} [DecidableEq κ]

/-- Add a value unless its key has an entry. -/
def Table.add (key : α → κ) (table : Table α κ) (value : α) : Table α κ :=
  match table.indices.lookup (key value) with
  | some _ => table
  | none =>
    { values := table.values ++ [value]
      indices := table.indices.insert (key value) table.values.length }

/-- Each number leads to an entry with that key. -/
def Table.Sound (key : α → κ) (table : Table α κ) : Prop :=
  ∀ k i, table.indices.lookup k = some i → ∃ value, table.values[i]? = some value ∧ key value = k

/-- The key has an entry. -/
def Table.Knows (table : Table α κ) (k : κ) : Prop := (table.indices.lookup k).isSome = true

/-- A table of one entry is sound. -/
theorem Table.sound_singleton (key : α → κ) (value : α) :
    (Table.mk [value] (AList.singleton (key value) 0)).Sound key := by
  intro k i h
  rw [← AList.insert_empty] at h
  by_cases hk : k = key value
  · subst hk
    rw [AList.lookup_insert] at h
    cases h
    exact ⟨value, rfl, rfl⟩
  · rw [AList.lookup_insert_ne hk] at h
    cases h

variable {key : α → κ} {table : Table α κ}

/-- Adding a value keeps the table sound. -/
theorem Table.Sound.add (hs : table.Sound key) (value : α) : (table.add key value).Sound key := by
  unfold Table.add
  split
  case h_1 => exact hs
  case h_2 hnone =>
    intro k i h
    by_cases hk : k = key value
    · subst hk
      obtain rfl : table.values.length = i := by simpa using h
      exact ⟨value, by simp, rfl⟩
    · rw [AList.lookup_insert_ne hk] at h
      obtain ⟨old, hold, hkey⟩ := hs k i h
      have hi : i < table.values.length := (List.getElem?_eq_some_iff.mp hold).1
      exact ⟨old, by rw [List.getElem?_append_left hi, hold], hkey⟩

/-- The value just added is known. -/
theorem Table.knows_add_self (key : α → κ) (table : Table α κ) (value : α) :
    (table.add key value).Knows (key value) := by
  unfold Table.add Table.Knows
  split
  case h_1 i hsome => rw [hsome]; rfl
  case h_2 => simp

/-- Known keys stay known. -/
theorem Table.Knows.add {k : κ} (h : table.Knows k) (value : α) :
    (table.add key value).Knows k := by
  unfold Table.add
  split
  case h_1 => exact h
  case h_2 =>
    by_cases hk : k = key value
    · subst hk
      simp [Table.Knows]
    · simpa [Table.Knows, AList.lookup_insert_ne hk] using h

/-- A loop that adds values knows them all afterwards, and stays sound. -/
theorem Table.foldl_add {key : α → κ} (added : List α) (table : Table α κ)
    (hs : table.Sound key) :
    (added.foldl (Table.add key) table).Sound key ∧
      (∀ k, table.Knows k → (added.foldl (Table.add key) table).Knows k) ∧
      ∀ value ∈ added, (added.foldl (Table.add key) table).Knows (key value) := by
  induction added generalizing table with
  | nil => exact ⟨hs, fun _ h => h, by simp⟩
  | cons value rest ih =>
    obtain ⟨hsound, hkeeps, hadds⟩ := ih (table.add key value) (hs.add value)
    refine ⟨hsound, fun k hk => hkeeps k (hk.add value), fun v hv => ?_⟩
    rcases List.mem_cons.mp hv with rfl | hrest
    · exact hkeeps _ (Table.knows_add_self key table v)
    · exact hadds v hrest

/-- A loop adds at most one entry a value. -/
theorem Table.length_foldl_add_le {key : α → κ} (added : List α) (table : Table α κ) :
    (added.foldl (Table.add key) table).values.length ≤ table.values.length + added.length := by
  induction added generalizing table with
  | nil => simp
  | cons value rest ih =>
    have hone : (table.add key value).values.length ≤ table.values.length + 1 := by
      unfold Table.add
      split
      case h_1 => omega
      case h_2 => simp
    have hrest := ih (table.add key value)
    rw [List.foldl_cons, List.length_cons]
    omega

/-- Each entry is found under its key. -/
def Table.Complete (key : α → κ) (table : Table α κ) : Prop :=
  ∀ i value, table.values[i]? = some value → table.indices.lookup (key value) = some i

theorem Table.complete_empty (key : α → κ) : (Table.mk [] ∅).Complete key := by
  intro i value h
  cases h

theorem Table.sound_empty (key : α → κ) : (Table.mk [] ∅).Sound key := by
  intro k i h
  cases h

/-- A number once given stays. -/
theorem Table.lookup_add_of_some {k : κ} {i : ℕ} (h : table.indices.lookup k = some i) (value : α) :
    (table.add key value).indices.lookup k = some i := by
  unfold Table.add
  split
  case h_1 => exact h
  case h_2 hnone =>
    have hk : k ≠ key value := by
      rintro rfl
      rw [hnone] at h
      cases h
    rw [AList.lookup_insert_ne hk, h]

/-- Adding a value keeps the table complete. -/
theorem Table.Complete.add (hc : table.Complete key) (value : α) :
    (table.add key value).Complete key := by
  intro i old h
  by_cases hi : i < table.values.length
  · refine Table.lookup_add_of_some (hc i old ?_) value
    rw [← h, Table.add]
    split
    case h_1 => rfl
    case h_2 => rw [List.getElem?_append_left hi]
  · rw [Table.add] at h ⊢
    split at h
    case h_1 => rw [List.getElem?_eq_none (Nat.le_of_not_lt hi)] at h; cases h
    case h_2 hnone =>
      rw [List.getElem?_append_right (Nat.le_of_not_lt hi), List.getElem?_singleton] at h
      split at h
      case isFalse => cases h
      case isTrue hzero =>
        rw [Option.some.injEq] at h
        rw [← h, AList.lookup_insert]
        congr 1
        omega

/-- Adding values keeps the table sound and complete, and every number that was given. -/
theorem Table.foldl_add_complete (added : List α) (hc : table.Complete key) :
    (added.foldl (Table.add key) table).Complete key ∧
      ∀ k i, table.indices.lookup k = some i →
        (added.foldl (Table.add key) table).indices.lookup k = some i := by
  induction added generalizing table with
  | nil => exact ⟨hc, fun _ _ h => h⟩
  | cons value rest ih =>
    obtain ⟨hcomplete, hkeeps⟩ := ih (hc.add value)
    exact ⟨hcomplete, fun k i h => hkeeps k i (Table.lookup_add_of_some h value)⟩

/-- The keys of the entries are those of the values that were added. -/
theorem Table.mem_keys_foldl_add (added : List α) (table : Table α κ) (hs : table.Sound key) (k : κ) :
    k ∈ (added.foldl (Table.add key) table).values.map key ↔
      k ∈ table.values.map key ∨ k ∈ added.map key := by
  induction added generalizing table with
  | nil => simp
  | cons value rest ih =>
    have hone : k ∈ (table.add key value).values.map key ↔
        k ∈ table.values.map key ∨ k = key value := by
      unfold Table.add
      split
      case h_1 i hsome =>
        refine ⟨.inl, fun h => h.elim id fun hk => ?_⟩
        obtain ⟨old, hold, hkey⟩ := hs _ _ hsome
        rw [hk, ← hkey]
        exact List.mem_map_of_mem (List.mem_of_getElem? hold)
      case h_2 => simp
    rw [List.foldl_cons, ih _ (hs.add value), hone, List.map_cons, List.mem_cons, or_assoc]

/-- The entries are values that were added. -/
theorem Table.mem_values_foldl_add (added : List α) (table : Table α κ) {value : α}
    (h : value ∈ (added.foldl (Table.add key) table).values) :
    value ∈ table.values ∨ value ∈ added := by
  induction added generalizing table with
  | nil => exact .inl h
  | cons first rest ih =>
    rcases ih _ h with hone | hrest
    · unfold Table.add at hone
      split at hone
      case h_1 => exact .inl hone
      case h_2 =>
        rcases List.mem_append.mp hone with hold | hnew
        · exact .inl hold
        · exact .inr (List.mem_singleton.mp hnew ▸ List.mem_cons_self)
    · exact .inr (List.mem_cons_of_mem first hrest)

/-- Entries of a complete table have different keys. -/
theorem Table.Complete.nodup_keys (hc : table.Complete key) : (table.values.map key).Nodup := by
  refine List.nodup_iff_getElem?_ne_getElem?.mpr fun i j hij hj heq => ?_
  rw [List.length_map] at hj
  rw [List.getElem?_map, List.getElem?_map, List.getElem?_eq_getElem (Nat.lt_trans hij hj),
    List.getElem?_eq_getElem hj, Option.map_some, Option.map_some, Option.some.injEq] at heq
  have hi := hc i _ (List.getElem?_eq_getElem (Nat.lt_trans hij hj))
  rw [heq, hc j _ (List.getElem?_eq_getElem hj), Option.some.injEq] at hi
  omega

/-- There are as many entries as different keys. -/
theorem Table.length_foldl_add (added : List α) :
    (added.foldl (Table.add key) ⟨[], ∅⟩).values.length = (added.map key).dedup.length := by
  have hnodup := (Table.foldl_add_complete added (Table.complete_empty key)).1.nodup_keys
  have hperm := (List.perm_ext_iff_of_nodup hnodup ((added.map key).nodup_dedup)).mpr
    fun k => by
      rw [Table.mem_keys_foldl_add added _ (Table.sound_empty key), List.mem_dedup, List.map_nil]
      simp
  rw [← hperm.length_eq, List.length_map]

end InternTable
