import Mathlib.Data.List.GetD
import Mathlib.Data.List.Nodup
import Mathlib.Data.List.Sort
import WaterStructure.Library.LastValue

/-!
# Keeping the last item of every key

A list is sorted by its keys with a stable sort, and compacted in place to the last item of each run of
equal keys. What is left has every key once, with the item that was the last one of its key before the
sorting.
-/

namespace KeepLast

open LastValue

variable {α κ : Type*} [DecidableEq κ] (key : α → κ)

/-- The index behind the run of equal keys that starts with an item. -/
def runEnd (items : List α) (start : ℕ) (first : α) : ℕ :=
  start + 1 + ((items.drop (start + 1)).takeWhile fun item => decide (key item = key first)).length

/-- The loop over the runs. The last item of each run is moved behind those that have been moved. -/
def compactFrom : ℕ → List α → ℕ → ℕ → List α
  | 0, items, compacted, _ => items.take compacted
  | fuel + 1, items, compacted, start =>
    match items[start]? with
    | none => items.take compacted
    | some first =>
      let next := runEnd key items start first
      compactFrom fuel (items.set compacted (items.getD (next - 1) first)) (compacted + 1) next

def compact (items : List α) : List α := compactFrom key items.length items 0 0

/-- The last item of each run. -/
def lastOfRuns : List α → List α
  | [] => []
  | [item] => [item]
  | first :: second :: rest =>
    if key first = key second then lastOfRuns (second :: rest)
    else first :: lastOfRuns (second :: rest)

/-- The first run. -/
theorem lastOfRuns_cons (first : α) (rest : List α) :
    lastOfRuns key (first :: rest) =
      (rest.takeWhile fun item => decide (key item = key first)).getLastD first ::
        lastOfRuns key (rest.dropWhile fun item => decide (key item = key first)) := by
  induction rest generalizing first with
  | nil => rfl
  | cons second more ih =>
    rw [lastOfRuns]
    by_cases hkey : key first = key second
    · rw [if_pos hkey, ih, hkey, List.takeWhile_cons, List.dropWhile_cons, decide_eq_true rfl, if_pos rfl,
        if_pos rfl, List.getLastD_cons]
    · rw [if_neg hkey, List.takeWhile_cons, List.dropWhile_cons, decide_eq_false (Ne.symm hkey),
        if_neg Bool.false_ne_true, if_neg Bool.false_ne_true]
      rfl

theorem sublist_lastOfRuns (items : List α) : (lastOfRuns key items).Sublist items := by
  induction items with
  | nil => exact .slnil
  | cons first rest ih =>
    cases rest with
    | nil => exact .refl _
    | cons second more =>
      rw [lastOfRuns]
      split
      · exact ih.cons first
      · exact ih.cons_cons first

/-- The last item of a run in the array. -/
theorem getD_runEnd {items : List α} {start : ℕ} {first : α} (hfirst : items[start]? = some first) :
    items.getD (runEnd key items start first - 1) first =
      ((items.drop (start + 1)).takeWhile fun item => decide (key item = key first)).getLastD first := by
  obtain ⟨hstart, hget⟩ := List.getElem?_eq_some_iff.mp hfirst
  have hdrop : items.drop start = first :: items.drop (start + 1) := by
    rw [List.drop_eq_getElem_cons hstart, hget]
  have hsplit := @List.takeWhile_append_dropWhile _ (fun item => decide (key item = key first))
    (items.drop (start + 1))
  generalize hrun : (items.drop (start + 1)).takeWhile (fun item => decide (key item = key first)) = run at *
  have hend : runEnd key items start first - 1 = start + run.length := by
    rw [runEnd, hrun]
    omega
  have hindex : items[start + run.length]? = (first :: run)[run.length]? := by
    rw [← List.getElem?_drop, hdrop, ← hsplit, ← List.cons_append,
      List.getElem?_append_left (by rw [List.length_cons]; omega)]
  have hlast : (first :: run)[run.length]? = some (run.getLastD first) := by
    have hlast := @List.getLast?_eq_getElem? _ (first :: run)
    rw [List.length_cons, Nat.add_sub_cancel] at hlast
    rw [← hlast, List.getLast?_cons, List.getLastD_eq_getLast?]
  rw [List.getD_eq_getElem?_getD, hend, hindex, hlast, Option.getD_some]

/-- Compacting in place overwrites no run before its last item has been moved. -/
theorem compactFrom_eq {fuel : ℕ} {items : List α} {compacted start : ℕ} (hroom : compacted ≤ start)
    (hfuel : items.length ≤ start + fuel) :
    compactFrom key fuel items compacted start =
      items.take compacted ++ lastOfRuns key (items.drop start) := by
  induction fuel generalizing items compacted start with
  | zero =>
    have hdrop : items.drop start = [] := List.drop_of_length_le hfuel
    rw [compactFrom, hdrop]
    exact (List.append_nil _).symm
  | succ fuel ih =>
    rw [compactFrom]
    split
    case h_1 hnone =>
      rw [List.drop_of_length_le (List.getElem?_eq_none_iff.mp hnone)]
      exact (List.append_nil _).symm
    case h_2 first hfirst =>
      obtain ⟨hstart, hget⟩ := List.getElem?_eq_some_iff.mp hfirst
      have hnext : start < runEnd key items start first := by
        rw [runEnd]
        omega
      have hrest : items.drop (runEnd key items start first) =
          (items.drop (start + 1)).dropWhile fun item => decide (key item = key first) := by
        rw [runEnd, ← List.drop_drop]
        generalize items.drop (start + 1) = tail
        have hsplit := @List.takeWhile_append_dropWhile _ (fun item => decide (key item = key first)) tail
        exact (congrArg _ hsplit.symm).trans List.drop_left
      have htake : (items.set compacted (items.getD (runEnd key items start first - 1) first)).take
          (compacted + 1) =
            items.take compacted ++ [items.getD (runEnd key items start first - 1) first] := by
        have hcompacted : compacted < items.length := Nat.lt_of_le_of_lt hroom hstart
        rw [List.take_add_one, List.take_set_of_le (Nat.le_refl _), List.getElem?_set_self hcompacted]
        rfl
      dsimp only
      rw [ih (Nat.lt_of_le_of_lt hroom hnext) (by rw [List.length_set]; omega), htake,
        List.drop_set_of_lt (Nat.lt_of_le_of_lt hroom hnext), hrest, getD_runEnd key hfirst,
        List.drop_eq_getElem_cons hstart, hget, lastOfRuns_cons, List.append_assoc, List.singleton_append]

theorem compact_eq (items : List α) : compact key items = lastOfRuns key items :=
  compactFrom_eq key (Nat.le_refl 0) (Nat.le_of_eq (Nat.zero_add _).symm)

/-- A key without a last item is that of no item. -/
theorem lastValue_eq_none_iff {β : Type*} (value : α → β) (k : κ) (items : List α) :
    lastValue (fun item => if key item = k then some (value item) else none) items = none ↔
      k ∉ items.map key := by
  rw [lastValue_eq_none]
  constructor
  · intro h hmem
    obtain ⟨item, hitem, hkey⟩ := List.mem_map.mp hmem
    have hvalue := h item hitem
    rw [if_pos hkey] at hvalue
    cases hvalue
  · exact fun hnot item hitem => if_neg fun heq => hnot (List.mem_map.mpr ⟨item, hitem, heq⟩)

theorem length_compact_le (items : List α) : (compact key items).length ≤ items.length := by
  rw [compact_eq]
  exact (sublist_lastOfRuns key items).length_le

/-- The item of a key that is left is the last one. -/
theorem lastValue_lastOfRuns {β : Type*} (value : α → β) (k : κ) (items : List α) :
    lastValue (fun item => if key item = k then some (value item) else none) (lastOfRuns key items) =
      lastValue (fun item => if key item = k then some (value item) else none) items := by
  induction items with
  | nil => rfl
  | cons first rest ih =>
    cases rest with
    | nil => rfl
    | cons second more =>
      rw [lastOfRuns]
      split_ifs with hkey
      · rw [ih, lastValue_cons _ first, lastValue_cons]
        by_cases hk : key second = k
        · rw [if_pos hk, Option.or_assoc, Option.some_or]
        · rw [if_neg hk, hkey, if_neg hk, Option.or_none, Option.or_none]
      · rw [lastValue_cons, ih, lastValue_cons _ first]

section Sorting

variable {key} {le : α → α → Prop} [DecidableRel le]

/-- A stable sort keeps the order of the items of one key. -/
theorem filter_insertionSort (hkey : ∀ a b, key a = key b → le a b) (k : κ) (items : List α) :
    (items.insertionSort le).filter (fun item => decide (key item = k)) =
      items.filter fun item => decide (key item = k) := by
  have hpairwise : (items.filter fun item => decide (key item = k)).Pairwise le := by
    refine List.pairwise_of_forall_mem_list fun a ha b hb => hkey a b ?_
    exact (of_decide_eq_true (List.mem_filter.mp ha).2).trans (of_decide_eq_true (List.mem_filter.mp hb).2).symm
  have hsublist := (List.sublist_insertionSort hpairwise List.filter_sublist).filter
    fun item => decide (key item = k)
  rw [List.filter_filter] at hsublist
  simp only [Bool.and_self] at hsublist
  exact (hsublist.eq_of_length ((List.perm_insertionSort le items).filter _).length_eq.symm).symm

theorem lastValue_insertionSort {β : Type*} (hkey : ∀ a b, key a = key b → le a b) (value : α → β) (k : κ)
    (items : List α) :
    lastValue (fun item => if key item = k then some (value item) else none) (items.insertionSort le) =
      lastValue (fun item => if key item = k then some (value item) else none) items := by
  have hkeep (list : List α) :
      lastValue (fun item => if key item = k then some (value item) else none)
          (list.filter fun item => decide (key item = k)) =
        lastValue (fun item => if key item = k then some (value item) else none) list :=
    lastValue_filter fun item _ hdrop => if_neg (of_decide_eq_false hdrop)
  rw [← hkeep, filter_insertionSort hkey, hkeep]

omit [DecidableRel le] in
/-- In a sorted list every key makes one run. -/
theorem nodup_lastOfRuns [IsTrans α le] (hkey : ∀ a b, key a = key b ↔ le a b ∧ le b a) {items : List α}
    (hsorted : items.Pairwise le) : ((lastOfRuns key items).map key).Nodup := by
  induction items with
  | nil => exact List.nodup_nil
  | cons first rest ih =>
    cases rest with
    | nil => exact List.nodup_singleton _
    | cons second more =>
      obtain ⟨hfirst, hrest⟩ := List.pairwise_cons.mp hsorted
      rw [lastOfRuns]
      split_ifs with hne
      · exact ih hrest
      · rw [List.map_cons, List.nodup_cons]
        refine ⟨fun hmem => ?_, ih hrest⟩
        obtain ⟨item, hitem, hsame⟩ := List.mem_map.mp hmem
        have hback := ((hkey _ _).mp hsame).1
        rcases List.mem_cons.mp ((sublist_lastOfRuns key _).subset hitem) with rfl | hmore
        · exact hne hsame.symm
        · have hsecond : le second item := (List.pairwise_cons.mp hrest).1 item hmore
          exact hne ((hkey _ _).mpr ⟨hfirst second List.mem_cons_self, trans_of le hsecond hback⟩)

variable [IsTrans α le] [Std.Total le]

/-- Sorting and compacting leaves of every key the last item, once. -/
theorem compact_insertionSort (hkey : ∀ a b, key a = key b ↔ le a b ∧ le b a) (items : List α) :
    ((compact key (items.insertionSort le)).map key).Nodup ∧
      (∀ item ∈ compact key (items.insertionSort le), item ∈ items) ∧
      ∀ {β : Type*} (value : α → β) (k : κ),
        lastValue (fun item => if key item = k then some (value item) else none)
            (compact key (items.insertionSort le)) =
          lastValue (fun item => if key item = k then some (value item) else none) items := by
  rw [compact_eq]
  refine ⟨nodup_lastOfRuns hkey (List.pairwise_insertionSort le items), fun item hitem => ?_,
    fun value k => ?_⟩
  · exact (List.mem_insertionSort le).mp ((sublist_lastOfRuns key _).subset hitem)
  · rw [lastValue_lastOfRuns, lastValue_insertionSort fun a b h => ((hkey a b).mp h).1]

end Sorting

end KeepLast
