import Mathlib.Algebra.Order.Group.Multiset
import Mathlib.Data.Multiset.Filter
import Mathlib.Tactic.Abel

/-!
# Growing cross-sections along one axis

A sweep visits the levels of an axis in order. At each level it sees a slice: a collection of
keys, each standing for a set of cross-section cells. It joins equal keys of consecutive levels
into spans. Whatever the pairing of open spans with the keys of a slice looks like, as long as
every open span is either closed or extended by a key equal to its own, and every key either
extends a span or opens one, the spans cover each level by exactly the keys of its slice.
-/

namespace SpanSweep

/-- A key repeated at all levels from `first` to `last`. -/
structure Span (K : Type*) where
  key : K
  first : ℤ
  last : ℤ

variable {K C : Type*}

/-- Continue a span at one more level. -/
def Span.extend (t : ℤ) (span : Span K) : Span K := { span with last := t }

/-- Open a span at a level. -/
def Span.start (t : ℤ) (key : K) : Span K := ⟨key, t, t⟩

/-- One level of the sweep: some open spans are closed, the others are kept because the slice
repeats their keys, and the rest of the slice is fresh. -/
def Grown (t : ℤ) (opened : Multiset (Span K)) (slice : Multiset K)
    (closed next : Multiset (Span K)) : Prop :=
  ∃ (kept : Multiset (Span K)) (fresh : Multiset K), opened = closed + kept ∧
    slice = kept.map Span.key + fresh ∧ next = kept.map (Span.extend t) + fresh.map (Span.start t)

variable {t : ℤ} {opened closed next : Multiset (Span K)} {slice : Multiset K}

/-- Closing open spans before the rest of the level. -/
theorem Grown.close (h : Grown t opened slice closed next) (early : Multiset (Span K)) :
    Grown t (early + opened) slice (early + closed) next := by
  obtain ⟨kept, fresh, rfl, hslice, hnext⟩ := h
  exact ⟨kept, fresh, by rw [add_assoc], hslice, hnext⟩

/-- Extending an open span by its own key. -/
theorem Grown.extend (h : Grown t opened slice closed next) (span : Span K) :
    Grown t (span ::ₘ opened) (span.key ::ₘ slice) closed (span.extend t ::ₘ next) := by
  obtain ⟨kept, fresh, rfl, rfl, rfl⟩ := h
  exact ⟨span ::ₘ kept, fresh, by rw [Multiset.add_cons], by rw [Multiset.map_cons, Multiset.cons_add],
    by rw [Multiset.map_cons, Multiset.cons_add]⟩

/-- Opening a span for a fresh key. -/
theorem Grown.start (h : Grown t opened slice closed next) (key : K) :
    Grown t opened (key ::ₘ slice) closed (Span.start t key ::ₘ next) := by
  obtain ⟨kept, fresh, hopened, rfl, rfl⟩ := h
  exact ⟨kept, key ::ₘ fresh, hopened, by rw [Multiset.add_cons],
    by rw [Multiset.map_cons, Multiset.add_cons]⟩

/-- An empty slice closes everything. -/
theorem Grown.closeAll (t : ℤ) (opened : Multiset (Span K)) : Grown t opened 0 opened 0 :=
  ⟨0, 0, by simp, by simp, by simp⟩

section Coverage

variable (mem : K → C → Prop) [∀ key cell, Decidable (mem key cell)]

/-- The keys of the spans that hold a cross-section cell at a level. -/
def keysAt (spans : Multiset (Span K)) (cell : C) (t : ℤ) : Multiset K :=
  (spans.filter fun span => mem span.key cell ∧ span.first ≤ t ∧ t ≤ span.last).map Span.key

@[simp] theorem keysAt_zero (cell : C) (t : ℤ) : keysAt mem 0 cell t = 0 := rfl

@[simp] theorem keysAt_add (spans more : Multiset (Span K)) (cell : C) (t : ℤ) :
    keysAt mem (spans + more) cell t = keysAt mem spans cell t + keysAt mem more cell t := by
  rw [keysAt, Multiset.filter_add, Multiset.map_add]
  rfl

/-- Coverage by the spans of some other collection. -/
theorem keysAt_map {S : Type*} (toSpan : S → Span K) (items : Multiset S) (cell : C) (t : ℤ) :
    keysAt mem (items.map toSpan) cell t =
      (items.filter fun s => mem (toSpan s).key cell ∧ (toSpan s).first ≤ t ∧
        t ≤ (toSpan s).last).map fun s => (toSpan s).key := by
  rw [keysAt, Multiset.filter_map, Multiset.map_map]
  rfl

theorem keysAt_cons (span : Span K) (spans : Multiset (Span K)) (cell : C) (t : ℤ) :
    keysAt mem (span ::ₘ spans) cell t =
      (if mem span.key cell ∧ span.first ≤ t ∧ t ≤ span.last then {span.key} else 0) +
        keysAt mem spans cell t := by
  rw [keysAt, Multiset.filter_cons, Multiset.map_add]
  congr 1
  split <;> rfl

/-- Fresh spans cover their own level. -/
theorem keysAt_map_start (fresh : Multiset K) (cell : C) (t u : ℤ) :
    keysAt mem (fresh.map (Span.start t)) cell u =
      if u = t then fresh.filter (mem · cell) else 0 := by
  induction fresh using Multiset.induction with
  | empty => simp
  | cons key rest ih =>
    rw [Multiset.map_cons, keysAt_cons, ih, Multiset.filter_cons]
    by_cases hu : u = t
    · simp [Span.start, hu]
    · have hlevel : ¬ (t ≤ u ∧ u ≤ t) := by omega
      simp [Span.start, hu, hlevel]

/-- Extended spans cover what they covered, and the new level. -/
theorem keysAt_map_extend {kept : Multiset (Span K)} {t : ℤ}
    (hkept : ∀ span ∈ kept, span.first ≤ span.last ∧ span.last + 1 = t) (cell : C) (u : ℤ) :
    keysAt mem (kept.map (Span.extend t)) cell u =
      keysAt mem kept cell u + if u = t then (kept.map Span.key).filter (mem · cell) else 0 := by
  induction kept using Multiset.induction with
  | empty => simp
  | cons span rest ih =>
    obtain ⟨hvalid, hlast⟩ := hkept span (Multiset.mem_cons_self _ _)
    rw [Multiset.map_cons, keysAt_cons, keysAt_cons, Multiset.map_cons, Multiset.filter_cons,
      ih fun s hs => hkept s (Multiset.mem_cons_of_mem hs)]
    by_cases hu : u = t
    · have hnew : span.first ≤ t := by omega
      have hold : ¬ t ≤ span.last := by omega
      simp only [Span.extend, hu, hnew, hold, le_refl, and_true, and_false, if_false, if_true]
      abel
    · have hsame : (span.first ≤ u ∧ u ≤ t) ↔ (span.first ≤ u ∧ u ≤ span.last) := by omega
      simp only [Span.extend, hsame, hu, if_false, add_zero]

/-- The state of a sweep before level `t`: open spans end at the level before, and together with
the closed ones they cover exactly the slices seen so far. -/
structure Swept (slices : ℤ → Multiset K) (low t : ℤ) (closed opened : Multiset (Span K)) :
    Prop where
  ends : ∀ span ∈ opened, span.first ≤ span.last ∧ span.last + 1 = t
  cover : ∀ cell u, keysAt mem (closed + opened) cell u =
    if low ≤ u ∧ u < t then (slices u).filter (mem · cell) else 0

/-- Nothing has been swept. -/
theorem Swept.initial (slices : ℤ → Multiset K) (low : ℤ) : Swept mem slices low low 0 0 where
  ends := by simp
  cover := fun cell u => by
    rw [if_neg (by omega)]
    rfl

variable {mem}

/-- One level of the sweep. -/
theorem Swept.step {slices : ℤ → Multiset K} {low t : ℤ} {closed opened : Multiset (Span K)}
    (hs : Swept mem slices low t closed opened) (hlow : low ≤ t)
    {closedNow next : Multiset (Span K)} (h : Grown t opened (slices t) closedNow next) :
    Swept mem slices low (t + 1) (closed + closedNow) next := by
  obtain ⟨kept, fresh, hopened, hslice, rfl⟩ := h
  have hkept : ∀ span ∈ kept, span.first ≤ span.last ∧ span.last + 1 = t := fun span hspan =>
    hs.ends span (by rw [hopened]; exact Multiset.mem_add.mpr (.inr hspan))
  constructor
  · intro span hspan
    rcases Multiset.mem_add.mp hspan with hold | hnew
    · obtain ⟨old, hmem, rfl⟩ := Multiset.mem_map.mp hold
      obtain ⟨hvalid, hlast⟩ := hkept old hmem
      exact ⟨show old.first ≤ t by omega, rfl⟩
    · obtain ⟨key, -, rfl⟩ := Multiset.mem_map.mp hnew
      exact ⟨le_rfl, rfl⟩
  · intro cell u
    have hcover := hs.cover cell u
    rw [hopened, ← add_assoc, keysAt_add] at hcover
    rw [← add_assoc, keysAt_add, keysAt_add _ _ (kept.map _), keysAt_map_extend mem hkept,
      keysAt_map_start, ← add_assoc, hcover]
    by_cases hu : u = t
    · subst hu
      rw [if_neg (by omega), if_pos rfl, if_pos rfl, if_pos (by omega), hslice,
        Multiset.filter_add, zero_add]
    · simp only [hu, if_false, add_zero]
      exact if_congr (by omega) rfl rfl

end Coverage

end SpanSweep
