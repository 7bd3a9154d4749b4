import WaterStructure.Library.BitPacking

/-!
# Fields that do not cross word boundaries

Each word holds as many fields of one width as fit; the bits above them stay unused. Storing a value
by OR changes its own field only, so packing fields into zeroed words keeps each of them.
-/

namespace AlignedPacking

variable {w : ℕ}

/-- How many fields a word holds. -/
def perWord (w width : ℕ) : ℕ := w / width

/-- Field number `i`; fields outside the array are zero. -/
def field (width : ℕ) (words : List (BitVec w)) (i : ℕ) : BitVec w :=
  ((words[i / perWord w width]?).getD 0 >>> (i % perWord w width * width)) &&& BitPacking.mask width

/-- OR a value into field number `i`. -/
def store (width : ℕ) (words : List (BitVec w)) (i : ℕ) (value : BitVec w) : List (BitVec w) :=
  words.modify (i / perWord w width) (· ||| value <<< (i % perWord w width * width))

@[simp] theorem length_store (width : ℕ) (words : List (BitVec w)) (i : ℕ) (value : BitVec w) :
    (store width words i value).length = words.length := List.length_modify _ _ _

/-- A field ends inside its word. -/
theorem field_end {width : ℕ} (i : ℕ) (hpos : 0 < perWord w width) :
    i % perWord w width * width + width ≤ w := by
  have hlt : i % perWord w width + 1 ≤ perWord w width := Nat.mod_lt i hpos
  calc i % perWord w width * width + width = (i % perWord w width + 1) * width := by ring
    _ ≤ perWord w width * width := Nat.mul_le_mul_right width hlt
    _ ≤ w := Nat.div_mul_le_self w width

variable {width : ℕ} {words : List (BitVec w)} {i : ℕ}

/-- The bits of a field. -/
theorem getLsbD_field (hwidth : width < w) (words : List (BitVec w)) (i b : ℕ) :
    (field width words i).getLsbD b = (decide (b < width) &&
      ((words[i / perWord w width]?).getD 0).getLsbD (i % perWord w width * width + b)) := by
  rw [field, BitVec.getLsbD_and, BitVec.getLsbD_ushiftRight, BitPacking.getLsbD_mask hwidth,
    Bool.and_comm]

/-- Different fields of a word have different bits. -/
theorem field_disjoint {a b bit : ℕ} (hne : a ≠ b) (hbit : bit < width) :
    a * width + bit < b * width ∨ b * width + width ≤ a * width + bit := by
  rcases Nat.lt_or_gt_of_ne hne with hlt | hgt
  · left
    have := Nat.mul_le_mul_right width (Nat.succ_le_of_lt hlt)
    rw [Nat.succ_mul] at this
    omega
  · right
    have := Nat.mul_le_mul_right width (Nat.succ_le_of_lt hgt)
    rw [Nat.succ_mul] at this
    omega

/-- Storing changes one field. -/
theorem field_store (hwidth : width < w) (hper : 0 < perWord w width)
    (hi : i / perWord w width < words.length) {value : BitVec w} (hvalue : value.toNat < 2 ^ width)
    (j : ℕ) :
    field width (store width words i value) j =
      if j = i then field width words i ||| value else field width words j := by
  apply BitVec.eq_of_getLsbD_eq
  intro b hb
  rw [getLsbD_field hwidth, store, List.getElem?_modify]
  by_cases hword : i / perWord w width = j / perWord w width
  · simp only [if_pos hword, Option.map_eq_map]
    rw [← hword, List.getElem?_eq_getElem hi]
    simp only [Option.map_some, Option.getD_some, BitVec.getLsbD_or, BitVec.getLsbD_shiftLeft]
    by_cases hsame : j = i
    · subst hsame
      have hend := @field_end w width j hper
      rw [if_pos rfl, BitVec.getLsbD_or, getLsbD_field hwidth, List.getElem?_eq_getElem hi,
        Option.getD_some]
      by_cases hlow : b < width
      · simp only [hlow, decide_true, Bool.true_and, Nat.add_sub_cancel_left,
          show j % perWord w width * width + b < w by omega,
          show ¬ j % perWord w width * width + b < j % perWord w width * width by omega,
          decide_false, Bool.not_false]
      · simp only [hlow, decide_false, Bool.false_and, Bool.false_or,
          BitPacking.getLsbD_eq_false_of_lt hvalue (Nat.le_of_not_lt hlow)]
    · rw [if_neg hsame, getLsbD_field hwidth, ← hword, List.getElem?_eq_getElem hi,
        Option.getD_some]
      by_cases hlow : b < width
      · have hrest : j % perWord w width ≠ i % perWord w width := by
          intro hmod
          apply hsame
          rw [← Nat.div_add_mod j (perWord w width), ← Nat.div_add_mod i (perWord w width), hword,
            hmod]
        have hoff : (value.getLsbD
            (j % perWord w width * width + b - i % perWord w width * width) &&
              !decide (j % perWord w width * width + b < i % perWord w width * width)) = false := by
          rcases field_disjoint hrest hlow with hbefore | hbehind
          · simp [hbefore]
          · rw [BitPacking.getLsbD_eq_false_of_lt hvalue (by omega), Bool.false_and]
        cases hbit : decide (j % perWord w width * width + b < i % perWord w width * width) with
        | true => simp
        | false =>
          rw [hbit, Bool.not_false, Bool.and_true] at hoff
          simp [hoff]
      · simp [hlow]
  · simp only [if_neg hword, Option.map_eq_map, Option.map_id_fun', id_eq]
    rw [if_neg (by rintro rfl; exact hword rfl), getLsbD_field hwidth]

/-- Store values one after the other, from field number `i` on. -/
def packFrom (width : ℕ) : List (BitVec w) → ℕ → List (BitVec w) → List (BitVec w)
  | words, _, [] => words
  | words, i, value :: rest => packFrom width (store width words i value) (i + 1) rest

@[simp] theorem length_packFrom (width : ℕ) (words : List (BitVec w)) (i : ℕ)
    (values : List (BitVec w)) : (packFrom width words i values).length = words.length := by
  induction values generalizing words i with
  | nil => rfl
  | cons value rest ih => rw [packFrom, ih, length_store]

/-- Values stored into empty fields are read back, and the other fields stay. -/
theorem field_packFrom (hwidth : width < w) (hper : 0 < perWord w width) {values : List (BitVec w)}
    (hvalues : ∀ value ∈ values, value.toNat < 2 ^ width)
    (hfits : i + values.length ≤ words.length * perWord w width)
    (hempty : ∀ j, i ≤ j → field width words j = 0) (j : ℕ) :
    field width (packFrom width words i values) j =
      if j < i then field width words j else (values[j - i]?).getD 0 := by
  induction values generalizing words i with
  | nil =>
    rw [packFrom, List.getElem?_nil, Option.getD_none]
    split_ifs with hge
    · rfl
    · exact hempty j (Nat.le_of_not_lt hge)
  | cons value rest ih =>
    rw [List.length_cons] at hfits
    have hi : i / perWord w width < words.length := by
      rw [Nat.div_lt_iff_lt_mul hper]
      omega
    have hstored := field_store hwidth hper hi (hvalues value List.mem_cons_self)
    rw [packFrom, ih (fun other hother => hvalues other (List.mem_cons_of_mem _ hother))
      (by rw [length_store]; omega) (fun k hk => by
        rw [hstored, if_neg (by omega)]
        exact hempty k (by omega)), hstored]
    by_cases hsame : j = i
    · subst hsame
      rw [if_pos (Nat.lt_succ_self j), if_pos rfl, if_neg (lt_irrefl j), Nat.sub_self,
        hempty j le_rfl]
      simp
    · by_cases hlt : j < i
      · rw [if_pos (by omega), if_neg hsame, if_pos hlt]
      · rw [if_neg (by omega), if_neg hlt, show j - i = j - (i + 1) + 1 by omega,
          List.getElem?_cons_succ]

/-- The fields of zeroed words are zero. -/
theorem field_replicate_zero (width n i : ℕ) :
    field width (List.replicate n (0 : BitVec w)) i = 0 := by
  rw [field, List.getElem?_replicate]
  split <;> simp

end AlignedPacking
