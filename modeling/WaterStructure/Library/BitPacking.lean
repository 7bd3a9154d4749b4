import Mathlib.Data.List.GetD
import Mathlib.Tactic.Ring

/-!
# Fixed-width fields packed into machine words

A list of `w`-bit words is read as one bit stream: bit `i` of the stream is bit `i % w` of word
`i / w`. A field of `width` bits that starts at any bit lies in one word or in two adjacent
ones. Storing a field by OR changes the stream in the field's bits only, and a field read back
is a window of the stream. Packing consecutive fields into zeroed words therefore keeps each
of them.
-/

namespace BitPacking

variable {w : ℕ}

/-- Bit `i` of the stream; bits past the last word are zero. -/
def bitAt (words : List (BitVec w)) (i : ℕ) : Bool :=
  (words[i / w]?.getD 0).getLsbD (i % w)

/-- OR a pattern into one word; `none` outside the array. -/
def orWord (words : List (BitVec w)) (i : ℕ) (pattern : BitVec w) : Option (List (BitVec w)) :=
  words[i]?.map fun word => words.set i (word ||| pattern)

/-- Store a field: its low bits in the word where it starts, the rest in the next one. -/
def orField (words : List (BitVec w)) (start width : ℕ) (value : BitVec w) :
    Option (List (BitVec w)) :=
  (orWord words (start / w) (value <<< (start % w))).bind fun words =>
    if start % w + width > w then orWord words (start / w + 1) (value >>> (w - start % w))
    else some words

/-- The lowest `width` bits. -/
def mask (width : ℕ) : BitVec w := (1 : BitVec w) <<< width - 1

/-- Load a field; words outside the array read as zero. -/
def readField (words : List (BitVec w)) (start width : ℕ) : BitVec w :=
  match words[start / w]? with
  | none => 0
  | some word =>
    let value := word >>> (start % w)
    let value :=
      if start % w + width > w then
        match words[start / w + 1]? with
        | some next => value ||| next <<< (w - start % w)
        | none => value
      else value
    value &&& mask width

/-- Store one field after the other, from field number `k` on. -/
def packFrom (width : ℕ) : List (BitVec w) → ℕ → List (BitVec w) → Option (List (BitVec w))
  | words, _, [] => some words
  | words, k, value :: rest =>
    (orField words (k * width) width value).bind fun words => packFrom width words (k + 1) rest

/-- Bit `i` of the stream that consists of the given fields. -/
def fieldBit (width : ℕ) (values : List (BitVec w)) (i : ℕ) : Bool :=
  (values[i / width]?.getD 0).getLsbD (i % width)

/-- Zeroed words hold no bit. -/
theorem bitAt_replicate_zero (n i : ℕ) : bitAt (List.replicate n (0 : BitVec w)) i = false := by
  unfold bitAt
  rw [List.getElem?_replicate]
  split <;> simp

variable {words : List (BitVec w)} {i : ℕ} {value : BitVec w} {width : ℕ}

/-- A pattern reaches the bits of its own word. -/
theorem orWord_spec (hi : i < words.length) (pattern : BitVec w) :
    ∃ words', orWord words i pattern = some words' ∧ words'.length = words.length ∧
      ∀ j, bitAt words' j = (bitAt words j || (decide (j / w = i) && pattern.getLsbD (j % w))) := by
  refine ⟨words.set i (words[i] ||| pattern), ?_, List.length_set, fun j => ?_⟩
  · simp [orWord, hi]
  · unfold bitAt
    rw [List.getElem?_set]
    by_cases hword : i = j / w
    · subst hword
      simp [hi]
    · simp [hword, Ne.symm hword]

/-- The bits of a narrow value end at its width. -/
theorem getLsbD_eq_false_of_lt (hvalue : value.toNat < 2 ^ width) (hi : width ≤ i) :
    value.getLsbD i = false :=
  Nat.testBit_lt_two_pow (hvalue.trans_le (Nat.pow_le_pow_right (by decide) hi))

/-- The low part of a field fills the rest of the word where the field starts. -/
theorem low_bits (hw : 0 < w) (start j : ℕ) (value : BitVec w) :
    (decide (j / w = start / w) && (value <<< (start % w)).getLsbD (j % w)) =
      (decide (start ≤ j) && decide (j < (start / w + 1) * w) && value.getLsbD (j - start)) := by
  have hstart := Nat.div_add_mod' start w
  have hj := Nat.div_add_mod' j w
  have hjoffset := Nat.mod_lt j hw
  have hnext : (start / w + 1) * w = start / w * w + w := Nat.succ_mul _ _
  rcases lt_trichotomy (j / w) (start / w) with hlt | heq | hgt
  · have hle : (j / w + 1) * w ≤ start / w * w := Nat.mul_le_mul_right w hlt
    have hbefore : ¬ start ≤ j := by rw [Nat.succ_mul] at hle; omega
    simp [hlt.ne, hbefore]
  · rw [heq] at hj
    have hbefore : j < (start / w + 1) * w := by omega
    by_cases hoffset : j % w < start % w
    · have hless : ¬ start ≤ j := by omega
      simp [heq, hoffset, hless]
    · have hmore : start ≤ j := by omega
      have hsub : j % w - start % w = j - start := by omega
      rw [BitVec.getLsbD_shiftLeft, hsub]
      simp [heq, hoffset, hmore, hbefore, hjoffset]
  · have hle : (start / w + 1) * w ≤ j / w * w := Nat.mul_le_mul_right w hgt
    have hafter : ¬ j < (start / w + 1) * w := by omega
    simp [hgt.ne', hafter]

/-- The high part of a field continues at the start of the next word. -/
theorem high_bits (hw : 0 < w) (start j : ℕ) (value : BitVec w) :
    (decide (j / w = start / w + 1) && (value >>> (w - start % w)).getLsbD (j % w)) =
      (decide ((start / w + 1) * w ≤ j) && value.getLsbD (j - start)) := by
  have hstart := Nat.div_add_mod' start w
  have hj := Nat.div_add_mod' j w
  have hoffset := Nat.mod_lt start hw
  have hjoffset := Nat.mod_lt j hw
  have hnext : (start / w + 1) * w = start / w * w + w := Nat.succ_mul _ _
  rcases lt_trichotomy (j / w) (start / w + 1) with hlt | heq | hgt
  · have hle : (j / w + 1) * w ≤ (start / w + 1) * w := Nat.mul_le_mul_right w hlt
    have hbefore : ¬ (start / w + 1) * w ≤ j := by rw [Nat.succ_mul] at hle; omega
    simp [hlt.ne, hbefore]
  · have hafter : (start / w + 1) * w ≤ j := by rw [← heq]; omega
    have hsub : w - start % w + j % w = j - start := by rw [heq] at hj; omega
    simp [heq, hafter, hsub]
  · have hle : (start / w + 1 + 1) * w ≤ j / w * w := Nat.mul_le_mul_right w hgt
    have hfar : w ≤ j - start := by rw [Nat.succ_mul] at hle; omega
    simp [hgt.ne', BitVec.getLsbD_of_ge value _ hfar]

/-- A stored field ORs its value into its own bits and no others. -/
theorem orField_spec (hw : 0 < w) {start : ℕ} (hpos : 0 < width) (hvalue : value.toNat < 2 ^ width)
    (hfits : start + width ≤ words.length * w) :
    ∃ words', orField words start width value = some words' ∧ words'.length = words.length ∧
      ∀ j, bitAt words' j = (bitAt words j || (decide (start ≤ j) && value.getLsbD (j - start))) := by
  have hstart := Nat.div_add_mod' start w
  have hnext : (start / w + 1) * w = start / w * w + w := Nat.succ_mul _ _
  have hword : start / w < words.length := by
    rw [Nat.div_lt_iff_lt_mul hw]
    omega
  obtain ⟨low, hlow, hlowLength, hlowBits⟩ := orWord_spec hword (value <<< (start % w))
  simp only [orField, hlow, Option.bind_some]
  by_cases hspill : start % w + width > w
  · have hin : start / w + 1 < low.length := by
      rw [hlowLength]
      by_contra hlast
      have hle : words.length * w ≤ (start / w + 1) * w := Nat.mul_le_mul_right w (by omega)
      omega
    obtain ⟨high, hhigh, hhighLength, hhighBits⟩ := orWord_spec hin (value >>> (w - start % w))
    rw [if_pos hspill]
    refine ⟨high, hhigh, hhighLength.trans hlowLength, fun j => ?_⟩
    rw [hhighBits, hlowBits, Bool.or_assoc, low_bits hw, high_bits hw]
    by_cases hfirst : j < (start / w + 1) * w
    · simp [hfirst, Nat.not_le.mpr hfirst]
    · have hlate : start ≤ j := by have := Nat.mod_lt start hw; omega
      simp [hfirst, Nat.le_of_not_lt hfirst, hlate]
  · rw [if_neg hspill]
    refine ⟨low, rfl, hlowLength, fun j => ?_⟩
    rw [hlowBits, low_bits hw]
    by_cases hfirst : j < (start / w + 1) * w
    · simp [hfirst]
    · have hpast : value.getLsbD (j - start) = false := getLsbD_eq_false_of_lt hvalue (by omega)
      simp [hpast]

/-- The mask keeps the bits below the width. -/
theorem getLsbD_mask (hwidth : width < w) (i : ℕ) :
    (mask width : BitVec w).getLsbD i = decide (i < width) := by
  have hmask : (mask width : BitVec w).toNat = 2 ^ width - 1 := by
    have hone : 1 < 2 ^ w := Nat.one_lt_two_pow (by omega)
    have hpow : 2 ^ width < 2 ^ w := Nat.pow_lt_pow_right (by decide) hwidth
    have hpos : 0 < 2 ^ width := Nat.two_pow_pos width
    rw [mask, BitVec.toNat_sub, BitVec.toNat_shiftLeft]
    simp only [BitVec.ofNat_eq_ofNat, BitVec.toNat_ofNat, Nat.mod_eq_of_lt hone,
      Nat.shiftLeft_eq, Nat.one_mul, Nat.mod_eq_of_lt hpow]
    rw [show 2 ^ w - 1 + 2 ^ width = 2 ^ w + (2 ^ width - 1) by omega, Nat.add_mod_left,
      Nat.mod_eq_of_lt (by omega)]
  rw [BitVec.getLsbD, hmask, Nat.testBit_two_pow_sub_one]

/-- Where bit `i` of a field lies: in its first word, or in the next one. -/
theorem window_position (hw : 0 < w) (start : ℕ) (hi : i < w) :
    (start % w + i < w ∧ (start + i) / w = start / w ∧ (start + i) % w = start % w + i) ∨
      (w ≤ start % w + i ∧ (start + i) / w = start / w + 1 ∧
        (start + i) % w = start % w + i - w) := by
  have hoffset := Nat.mod_lt start hw
  have hsplit : start + i = start % w + i + w * (start / w) := by
    have := Nat.mod_add_div start w
    omega
  rw [hsplit, Nat.add_mul_div_left _ _ hw, Nat.add_mul_mod_self_left]
  by_cases hfirst : start % w + i < w
  · exact .inl ⟨hfirst, by rw [Nat.div_eq_of_lt hfirst, Nat.zero_add], Nat.mod_eq_of_lt hfirst⟩
  · have hlate : w ≤ start % w + i := Nat.le_of_not_lt hfirst
    refine .inr ⟨hlate, ?_, ?_⟩
    · rw [Nat.div_eq_sub_div hw hlate, Nat.div_eq_of_lt (by omega)]
      omega
    · rw [Nat.mod_eq_sub_mod hlate, Nat.mod_eq_of_lt (by omega)]

/-- A field read back is a window of the stream. -/
theorem getLsbD_readField (hw : 0 < w) {start : ℕ} (hpos : 0 < width) (hwidth : width < w)
    (hfits : start + width ≤ words.length * w) (i : ℕ) :
    (readField words start width).getLsbD i = (decide (i < width) && bitAt words (start + i)) := by
  have hstart := Nat.div_add_mod' start w
  have hword : start / w < words.length := by
    rw [Nat.div_lt_iff_lt_mul hw]
    omega
  by_cases hi : i < width
  case neg =>
    unfold readField
    simp [hword, getLsbD_mask hwidth, hi]
  case pos =>
    have hnext (hspill : w ≤ start % w + i) : start / w + 1 < words.length := by
      by_contra hlast
      have hle : words.length * w ≤ (start / w + 1) * w := Nat.mul_le_mul_right w (by omega)
      rw [Nat.succ_mul] at hle
      omega
    rcases window_position hw start (hi.trans hwidth) with
      ⟨hfirst, hdiv, hmod⟩ | ⟨hlate, hdiv, hmod⟩
    · simp only [bitAt, hdiv, hmod, readField, List.getElem?_eq_getElem hword, Option.getD_some,
        BitVec.getLsbD_and, getLsbD_mask hwidth, hi, decide_true, Bool.and_true, Bool.true_and]
      split
      · split
        · have hearly : i < w - start % w := by omega
          simp [hearly]
        · simp
      · simp
    · have hspill : start % w + width > w := by omega
      have hin := hnext hlate
      have hpart : ¬ i < w - start % w := by omega
      have hsub : i - (w - start % w) = start % w + i - w := by
        have := Nat.mod_lt start hw
        omega
      simp only [bitAt, hdiv, hmod, readField, List.getElem?_eq_getElem hword,
        List.getElem?_eq_getElem hin, if_pos hspill, Option.getD_some, BitVec.getLsbD_and,
        BitVec.getLsbD_or, BitVec.getLsbD_ushiftRight, BitVec.getLsbD_shiftLeft,
        getLsbD_mask hwidth, BitVec.getLsbD_of_ge _ _ hlate, hsub]
      simp [hi, hi.trans hwidth, hpart]

/-- Appending a field adds its bits behind the earlier ones. -/
theorem fieldBit_append (hpos : 0 < width) (values : List (BitVec w))
    (hvalue : value.toNat < 2 ^ width) (j : ℕ) :
    fieldBit width (values ++ [value]) j =
      (fieldBit width values j ||
        (decide (values.length * width ≤ j) && value.getLsbD (j - values.length * width))) := by
  have hj := Nat.div_add_mod' j width
  have hmod := Nat.mod_lt j hpos
  unfold fieldBit
  rcases lt_trichotomy (j / width) values.length with hlt | heq | hgt
  · have hle : (j / width + 1) * width ≤ values.length * width := Nat.mul_le_mul_right width hlt
    have hbefore : ¬ values.length * width ≤ j := by rw [Nat.succ_mul] at hle; omega
    simp [List.getElem?_append_left hlt, hbefore]
  · have hsub : j - values.length * width = j % width := by rw [← heq]; omega
    have hafter : values.length * width ≤ j := by rw [← heq]; omega
    simp [heq, hsub, hafter]
  · have hle : (values.length + 1) * width ≤ j / width * width := Nat.mul_le_mul_right width hgt
    have hfar : width ≤ j - values.length * width := by rw [Nat.succ_mul] at hle; omega
    have hend : values.length ≤ j / width := hgt.le
    have hout : (values ++ [value]).length ≤ j / width := by simpa using Nat.succ_le_of_lt hgt
    simp [List.getElem?_eq_none hend, List.getElem?_eq_none hout,
      getLsbD_eq_false_of_lt hvalue hfar]

/-- Packing keeps the fields already stored and adds the new ones, whatever word boundaries
they cross. -/
theorem packFrom_spec (hw : 0 < w) (hpos : 0 < width) (done rest : List (BitVec w))
    (words : List (BitVec w)) (hbits : ∀ j, bitAt words j = fieldBit width done j)
    (hrest : ∀ value ∈ rest, value.toNat < 2 ^ width)
    (hfits : (done.length + rest.length) * width ≤ words.length * w) :
    ∃ words', packFrom width words done.length rest = some words' ∧
      words'.length = words.length ∧ ∀ j, bitAt words' j = fieldBit width (done ++ rest) j := by
  induction rest generalizing done words with
  | nil => exact ⟨words, rfl, rfl, by simpa using hbits⟩
  | cons value rest ih =>
    have hvalue := hrest value List.mem_cons_self
    have hlength : done.length + (value :: rest).length = (done ++ [value]).length + rest.length := by
      simp only [List.length_cons, List.length_append, List.length_nil]
      omega
    have hfield : done.length * width + width ≤ words.length * w := by
      have hle : (done.length + 1) * width ≤ (done.length + (value :: rest).length) * width :=
        Nat.mul_le_mul_right width (by simp)
      rw [Nat.succ_mul] at hle
      omega
    obtain ⟨stored, hstored, hsame, hadded⟩ := orField_spec hw hpos hvalue hfield
    obtain ⟨words', hpacked, hwords', hall⟩ :=
      ih (done ++ [value]) stored
        (fun j => by rw [hadded, hbits, fieldBit_append hpos done hvalue])
        (fun v hv => hrest v (List.mem_cons_of_mem value hv))
        (by rw [← hlength, hsame]; exact hfits)
    refine ⟨words', ?_, hwords'.trans hsame, fun j => by rw [hall, List.append_assoc]; rfl⟩
    rw [packFrom, hstored, Option.bind_some, ← hpacked, List.length_append, List.length_singleton]

/-- Reading field `i` of a stream that holds the given fields returns that field. -/
theorem readField_of_fieldBit (hw : 0 < w) (hpos : 0 < width) (hwidth : width < w)
    {values : List (BitVec w)} (hbits : ∀ j, bitAt words j = fieldBit width values j)
    (hvalues : ∀ value ∈ values, value.toNat < 2 ^ width)
    (hfits : values.length * width ≤ words.length * w) (hi : i < values.length) :
    readField words (i * width) width = values[i] := by
  have hfield : i * width + width ≤ words.length * w := by
    have hle : (i + 1) * width ≤ values.length * width := Nat.mul_le_mul_right width hi
    rw [Nat.succ_mul] at hle
    omega
  apply BitVec.eq_of_getLsbD_eq
  intro b _
  rw [getLsbD_readField hw hpos hwidth hfield, hbits]
  by_cases hb : b < width
  · have hdiv : (i * width + b) / width = i := by
      rw [Nat.mul_comm, Nat.mul_add_div hpos, Nat.div_eq_of_lt hb, Nat.add_zero]
    have hmod : (i * width + b) % width = b := by
      rw [Nat.mul_comm, Nat.mul_add_mod, Nat.mod_eq_of_lt hb]
    simp [fieldBit, hb, hdiv, hmod, hi]
  · simp [hb, getLsbD_eq_false_of_lt (hvalues _ (List.getElem_mem hi)) (Nat.le_of_not_lt hb)]

end BitPacking
