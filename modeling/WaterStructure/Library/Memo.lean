import Mathlib.Data.List.AList

/-!
# Caching the answers of a function

A cache holds answers of a partial function under their keys. A lookup that misses asks the
function and keeps an answer while there is room. A cache that holds only answers of the function
gives what the function gives and stays such a cache, so the cache can be left out of a proof.
-/

namespace Memo

variable {κ α : Type*} [DecidableEq κ]

/-- Look a key up, or compute its value and keep it if the cache has fewer than `limit` entries. -/
def memo (limit : ℕ) (compute : κ → Option α) (cache : AList fun _ : κ => α) (key : κ) :
    (AList fun _ : κ => α) × Option α :=
  match cache.lookup key with
  | some value => (cache, some value)
  | none =>
    match compute key with
    | none => (cache, none)
    | some value => (if cache.keys.length < limit then cache.insert key value else cache, some value)

/-- Every entry is the answer of the function. -/
def Sound (compute : κ → Option α) (cache : AList fun _ : κ => α) : Prop :=
  ∀ key value, cache.lookup key = some value → compute key = some value

theorem sound_empty (compute : κ → Option α) : Sound compute ∅ := by
  intro key value h
  rw [AList.lookup_empty] at h
  cases h

/-- A sound cache is transparent. -/
theorem memo_snd {limit : ℕ} {compute : κ → Option α} {cache : AList fun _ : κ => α}
    (h : Sound compute cache) (key : κ) : (memo limit compute cache key).2 = compute key := by
  rw [memo]
  split
  case h_1 value hvalue => exact (h key value hvalue).symm
  case h_2 =>
    split
    case h_1 hnone => exact hnone.symm
    case h_2 value hvalue => exact hvalue.symm

/-- Keeping an answer. -/
theorem Sound.insert {compute : κ → Option α} {cache : AList fun _ : κ => α}
    (h : Sound compute cache) {key : κ} {value : α} (hvalue : compute key = some value) :
    Sound compute (cache.insert key value) := by
  intro other found hfound
  by_cases hkey : other = key
  · subst hkey
    rw [AList.lookup_insert] at hfound
    rw [hvalue, hfound]
  · rw [AList.lookup_insert_ne hkey] at hfound
    exact h other found hfound

/-- A sound cache stays sound. -/
theorem Sound.memo {limit : ℕ} {compute : κ → Option α} {cache : AList fun _ : κ => α}
    (h : Sound compute cache) (key : κ) : Sound compute (memo limit compute cache key).1 := by
  rw [Memo.memo]
  split
  case h_1 => exact h
  case h_2 =>
    split
    case h_1 => exact h
    case h_2 value hvalue =>
      dsimp only
      split
      · exact h.insert hvalue
      · exact h

end Memo
