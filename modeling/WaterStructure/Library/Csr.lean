import Mathlib.Algebra.BigOperators.Group.List.Basic
import Mathlib.Algebra.GroupWithZero.Nat
import Mathlib.Algebra.Order.Group.Nat
import Mathlib.Data.List.Basic

/-!
# Compressed rows by counting sort

A list of `(cell, value)` entries is stored as one array of values and one array of offsets, so
that the values of a cell form a contiguous slice. A first pass counts the entries of each
cell, the prefix sums become the offsets, and a second pass places each value at the cursor of
its cell. All array accesses are checked. For cells below the number of counters no access
fails, and the slice of a cell lists its values in the order of the entries.
-/

namespace Csr

variable {α : Type*}

/-- `++counts[cell]`. -/
def increment (counts : List ℕ) (cell : ℕ) : Option (List ℕ) :=
  counts[cell]?.map fun count => counts.set cell (count + 1)

/-- The first pass. -/
def countCells : List ℕ → List ℕ → Option (List ℕ)
  | counts, [] => some counts
  | counts, cell :: rest => (increment counts cell).bind fun counts => countCells counts rest

/-- The running sums, starting with `start`. -/
def prefixSums (start : ℕ) : List ℕ → List ℕ
  | [] => [start]
  | count :: rest => start :: prefixSums (start + count) rest

/-- `values[cursors[cell]++] = value`. -/
def place (values : List α) (cursors : List ℕ) (entry : ℕ × α) : Option (List α × List ℕ) :=
  cursors[entry.1]?.bind fun cursor =>
    if cursor < values.length then
      some (values.set cursor entry.2, cursors.set entry.1 (cursor + 1))
    else none

/-- The second pass. -/
def placeAll : List α → List ℕ → List (ℕ × α) → Option (List α)
  | values, _, [] => some values
  | values, cursors, entry :: rest =>
    (place values cursors entry).bind fun (values, cursors) => placeAll values cursors rest

/-- Offsets and values of all entries, for cells below `cellCount`. -/
def build (cellCount : ℕ) (default : α) (entries : List (ℕ × α)) : Option (List ℕ × List α) :=
  (countCells (List.replicate cellCount 0) (entries.map Prod.fst)).bind fun counts =>
    let offsets := prefixSums 0 counts
    (offsets.getLast?).bind fun total =>
      (placeAll (List.replicate total default) offsets entries).map fun values => (offsets, values)

/-- The values between the two offsets of a cell; `none` if they leave the array. -/
def slice (offsets : List ℕ) (values : List α) (cell : ℕ) : Option (List α) :=
  offsets[cell]?.bind fun first =>
    offsets[cell + 1]?.bind fun last =>
      if last ≤ values.length then some ((values.drop first).take (last - first)) else none

/-- The number of entries of one cell. -/
def countOf (entries : List (ℕ × α)) (cell : ℕ) : ℕ := entries.countP fun entry => entry.1 = cell

/-- The number of entries of all smaller cells. -/
def offsetOf (entries : List (ℕ × α)) (cell : ℕ) : ℕ := entries.countP fun entry => entry.1 < cell

/-- The values of one cell, in the order of the entries. -/
def valuesOf (entries : List (ℕ × α)) (cell : ℕ) : List α :=
  (entries.filter fun entry => entry.1 = cell).map Prod.snd

theorem length_valuesOf (entries : List (ℕ × α)) (cell : ℕ) :
    (valuesOf entries cell).length = countOf entries cell := by
  rw [valuesOf, List.length_map, countOf, List.countP_eq_length_filter]

/-- The next cell starts after the entries of this one. -/
theorem offsetOf_succ (entries : List (ℕ × α)) (cell : ℕ) :
    offsetOf entries (cell + 1) = offsetOf entries cell + countOf entries cell := by
  induction entries with
  | nil => rfl
  | cons entry rest ih =>
    simp only [offsetOf, countOf, List.countP_cons, decide_eq_true_eq] at ih ⊢
    rw [ih]
    split <;> split <;> split <;> omega

variable {cell k : ℕ} {entries : List (ℕ × α)} {cellCount : ℕ} {other : ℕ} {counts : List ℕ}
  {done rest : List (ℕ × α)} {values : List α} {cursors : List ℕ}

/-- Later cells start later. -/
theorem offsetOf_mono (entries : List (ℕ × α)) (h : cell ≤ other) :
    offsetOf entries cell ≤ offsetOf entries other :=
  List.countP_mono_left fun entry _ hlt => by
    simp only [decide_eq_true_eq] at hlt ⊢
    omega

/-- One counter per cell below the length of the array. -/
theorem countCells_spec {cells : List ℕ} (h : ∀ cell ∈ cells, cell < counts.length) :
    ∃ counts', countCells counts cells = some counts' ∧ counts'.length = counts.length ∧
      ∀ cell count, counts[cell]? = some count →
        counts'[cell]? = some (count + cells.countP (· = cell)) := by
  induction cells generalizing counts with
  | nil => exact ⟨counts, rfl, rfl, fun _ _ h => h⟩
  | cons first rest ih =>
    have hfirst := h first List.mem_cons_self
    obtain ⟨counts', hcounted, hlength, hcount⟩ :=
      ih (show ∀ cell ∈ rest, cell < (counts.set first (counts[first] + 1)).length from
        fun cell hcell => by
          rw [List.length_set]
          exact h cell (List.mem_cons_of_mem first hcell))
    refine ⟨counts', ?_, by rw [hlength, List.length_set], fun cell count hcell => ?_⟩
    · rw [countCells, increment, List.getElem?_eq_getElem hfirst]
      exact hcounted
    · by_cases hsame : first = cell
      · subst hsame
        rw [List.getElem?_eq_getElem hfirst, Option.some.injEq] at hcell
        rw [hcount first (counts[first] + 1) (by rw [List.getElem?_set_self hfirst]),
          List.countP_cons, hcell]
        simp
        omega
      · rw [hcount cell count (by rw [List.getElem?_set_ne hsame]; exact hcell), List.countP_cons]
        simp [hsame]

/-- The running sum after `k` counters. -/
theorem getElem?_prefixSums (start : ℕ) (counts : List ℕ) (hk : k ≤ counts.length) :
    (prefixSums start counts)[k]? = some (start + (counts.take k).sum) := by
  induction counts generalizing start k with
  | nil =>
    obtain rfl : k = 0 := by simpa using hk
    rfl
  | cons count rest ih =>
    cases k with
    | zero => rfl
    | succ k =>
      rw [prefixSums, List.getElem?_cons_succ, ih _ (by simpa using hk), List.take_succ_cons,
        List.sum_cons, Nat.add_assoc]

@[simp] theorem length_prefixSums (start : ℕ) (counts : List ℕ) :
    (prefixSums start counts).length = counts.length + 1 := by
  induction counts generalizing start with
  | nil => rfl
  | cons count rest ih => rw [prefixSums, List.length_cons, ih, List.length_cons]

/-- The offsets count the entries of smaller cells. -/
theorem getElem?_offsets
    (hcounts : ∀ cell < counts.length, counts[cell]? = some (countOf entries cell))
    (hk : k ≤ counts.length) : (prefixSums 0 counts)[k]? = some (offsetOf entries k) := by
  rw [getElem?_prefixSums 0 counts hk, Nat.zero_add]
  congr 1
  induction k with
  | zero => simp [offsetOf]
  | succ k ih =>
    have hcount := List.getElem?_eq_some_iff.mp (hcounts k hk)
    rw [List.take_succ_eq_append_getElem hcount.1, List.sum_append, ih (by omega), offsetOf_succ,
      List.sum_singleton, hcount.2]

/-- The state of the second pass: cursors stand behind the values placed so far. -/
structure Placing (entries done : List (ℕ × α)) (cellCount : ℕ) (values : List α)
    (cursors : List ℕ) : Prop where
  length : values.length = entries.length
  cursor : ∀ cell < cellCount, cursors[cell]? = some (offsetOf entries cell + countOf done cell)
  placed : ∀ cell k value, (valuesOf done cell)[k]? = some value →
    values[offsetOf entries cell + k]? = some value

/-- Positions of different cells, and different positions of one cell, differ. -/
theorem position_ne {m : ℕ} (hk : k < countOf entries cell) (hm : m < countOf entries other)
    (hne : cell ≠ other ∨ k ≠ m) : offsetOf entries cell + k ≠ offsetOf entries other + m := by
  rcases lt_trichotomy cell other with hlt | rfl | hgt
  · have hmono := offsetOf_mono entries (Nat.succ_le_of_lt hlt)
    rw [offsetOf_succ] at hmono
    omega
  · omega
  · have hmono := offsetOf_mono entries (Nat.succ_le_of_lt hgt)
    rw [offsetOf_succ] at hmono
    omega

/-- A position of a cell lies inside the array. -/
theorem position_lt (hk : k < countOf entries cell) : offsetOf entries cell + k < entries.length := by
  have hle : offsetOf entries (cell + 1) ≤ entries.length := List.countP_le_length
  rw [offsetOf_succ] at hle
  omega

theorem countOf_append (first second : List (ℕ × α)) (cell : ℕ) :
    countOf (first ++ second) cell = countOf first cell + countOf second cell :=
  List.countP_append

theorem valuesOf_append (first second : List (ℕ × α)) (cell : ℕ) :
    valuesOf (first ++ second) cell = valuesOf first cell ++ valuesOf second cell := by
  rw [valuesOf, List.filter_append, List.map_append]
  rfl

/-- One entry is placed behind the earlier ones of its cell. -/
theorem Placing.step {entry : ℕ × α} (h : Placing entries done cellCount values cursors)
    (hentries : entries = done ++ entry :: rest) (hcell : entry.1 < cellCount) :
    ∃ values' cursors', place values cursors entry = some (values', cursors') ∧
      Placing entries (done ++ [entry]) cellCount values' cursors' := by
  have hone : countOf [entry] entry.1 = 1 := by simp [countOf]
  have hcount : countOf done entry.1 < countOf entries entry.1 := by
    rw [hentries, show done ++ entry :: rest = done ++ [entry] ++ rest by simp, countOf_append,
      countOf_append, hone]
    omega
  have hposition := position_lt hcount
  rw [← h.length] at hposition
  refine ⟨_, _, by rw [place, h.cursor entry.1 hcell, Option.bind_some, if_pos hposition], ?_, ?_, ?_⟩
  · rw [List.length_set, h.length]
  · intro cell hlt
    have hcursors : entry.1 < cursors.length :=
      (List.getElem?_eq_some_iff.mp (h.cursor entry.1 hcell)).1
    by_cases hsame : entry.1 = cell
    · subst hsame
      rw [List.getElem?_set_self hcursors, countOf_append, hone, Nat.add_assoc]
    · rw [List.getElem?_set_ne hsame, h.cursor cell hlt, countOf_append]
      simp [countOf, hsame]
  · intro cell k value hvalue
    rw [valuesOf_append] at hvalue
    have hlast : valuesOf [entry] cell = if entry.1 = cell then [entry.2] else [] := by
      by_cases hsame : entry.1 = cell <;> simp [valuesOf, hsame]
    rcases lt_or_ge k (valuesOf done cell).length with hold | hnew
    · rw [List.getElem?_append_left hold] at hvalue
      rw [length_valuesOf] at hold
      have hwithin : k < countOf entries cell := by
        rw [hentries, countOf_append]
        omega
      rw [List.getElem?_set_ne, h.placed cell k value hvalue]
      refine position_ne hcount hwithin ?_
      by_cases hsame : entry.1 = cell
      · subst hsame
        exact .inr (by omega)
      · exact .inl hsame
    · rw [List.getElem?_append_right hnew, hlast, length_valuesOf] at hvalue
      rw [length_valuesOf] at hnew
      split_ifs at hvalue with hsame
      · subst hsame
        have hk : k - countOf done entry.1 < 1 := (List.getElem?_eq_some_iff.mp hvalue).1
        obtain rfl : k = countOf done entry.1 := by omega
        rw [Nat.sub_self, List.getElem?_cons_zero] at hvalue
        rw [List.getElem?_set_self hposition, hvalue]
      · simp at hvalue

/-- The second pass places every entry. -/
theorem Placing.run (h : Placing entries done cellCount values cursors)
    (hentries : entries = done ++ rest) (hcells : ∀ entry ∈ rest, entry.1 < cellCount) :
    ∃ values', placeAll values cursors rest = some values' ∧ values'.length = entries.length ∧
      ∀ cell k value, (valuesOf entries cell)[k]? = some value →
        values'[offsetOf entries cell + k]? = some value := by
  induction rest generalizing done values cursors with
  | nil =>
    rw [List.append_nil] at hentries
    subst hentries
    exact ⟨values, rfl, h.length, h.placed⟩
  | cons entry rest ih =>
    obtain ⟨values', cursors', hplace, hnext⟩ :=
      h.step hentries (hcells entry List.mem_cons_self)
    obtain ⟨final, hfinal, hspec⟩ := ih hnext (by simpa using hentries)
      fun e he => hcells e (List.mem_cons_of_mem entry he)
    exact ⟨final, by rw [placeAll, hplace]; exact hfinal, hspec⟩

/-- Building never leaves an array, and the slice of every cell lists its values in order. -/
theorem build_spec (default : α) (hcells : ∀ entry ∈ entries, entry.1 < cellCount) :
    ∃ offsets values, build cellCount default entries = some (offsets, values) ∧
      ∀ cell < cellCount, slice offsets values cell = some (valuesOf entries cell) := by
  have hbelow : ∀ cell ∈ entries.map Prod.fst, cell < (List.replicate cellCount 0).length := by
    intro cell hcell
    obtain ⟨entry, hentry, rfl⟩ := List.mem_map.mp hcell
    rw [List.length_replicate]
    exact hcells entry hentry
  obtain ⟨counts, hcounted, hlength, hcount⟩ := countCells_spec hbelow
  rw [List.length_replicate] at hlength
  have hcounts : ∀ cell < counts.length, counts[cell]? = some (countOf entries cell) := by
    intro cell hcell
    rw [hcount cell 0 (by rw [List.getElem?_replicate, if_pos (hlength ▸ hcell)]), Nat.zero_add,
      List.countP_map]
    rfl
  have hoffsets (k : ℕ) (hk : k ≤ cellCount) :
      (prefixSums 0 counts)[k]? = some (offsetOf entries k) :=
    getElem?_offsets hcounts (hlength ▸ hk)
  have htotal : offsetOf entries cellCount = entries.length :=
    List.countP_eq_length.mpr fun entry hentry => decide_eq_true (hcells entry hentry)
  have hlast : (prefixSums 0 counts).getLast? = some entries.length := by
    rw [List.getLast?_eq_getElem?, length_prefixSums, hlength, Nat.add_sub_cancel,
      hoffsets cellCount le_rfl, htotal]
  have hstart : Placing entries [] cellCount (List.replicate entries.length default)
      (prefixSums 0 counts) :=
    ⟨List.length_replicate, fun cell hcell => hoffsets cell hcell.le, fun _ _ _ h => by
      simp [valuesOf] at h⟩
  obtain ⟨values, hplaced, hvaluesLength, hvalues⟩ := hstart.run rfl hcells
  refine ⟨prefixSums 0 counts, values, ?_, fun cell hcell => ?_⟩
  · simp only [build, hcounted, Option.bind_some, hlast, hplaced, Option.map_some]
  · rw [slice, hoffsets cell hcell.le, Option.bind_some, hoffsets (cell + 1) hcell,
      Option.bind_some, offsetOf_succ, ← length_valuesOf, Nat.add_sub_cancel_left]
    have hend : offsetOf entries cell + (valuesOf entries cell).length ≤ values.length := by
      have hmono := offsetOf_mono entries (Nat.succ_le_of_lt hcell)
      rw [offsetOf_succ, ← length_valuesOf, htotal] at hmono
      omega
    rw [if_pos hend]
    congr 1
    refine List.ext_getElem? fun k => ?_
    rw [List.getElem?_take, List.getElem?_drop]
    split_ifs with hge
    · rw [hvalues cell k _ (List.getElem?_eq_getElem hge), List.getElem?_eq_getElem hge]
    · rw [List.getElem?_eq_none (Nat.le_of_not_lt hge)]

end Csr
