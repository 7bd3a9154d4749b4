import Mathlib.Algebra.BigOperators.Group.List.Basic
import Mathlib.Algebra.GroupWithZero.Nat
import Mathlib.Algebra.Order.Group.Nat
import Mathlib.Data.List.Basic

/-!
# Variable-length numbers in a byte stream

A number is stored in groups of seven bits, the lowest group first; every byte but the last has
its high bit set, and at most five bytes belong to one number. `Codes bytes codes` says that a
stream is a sequence of such numbers, each given with its value and its length in bytes. The
byte offset of number `i` is the sum of the earlier lengths, and reading may start at any such
offset.
-/

namespace Varint

/-- Add the seven bits of a byte above the bits read so far. -/
def addByte (value shift : ℕ) (byte : UInt8) : ℕ := value ||| ((byte &&& 0x7f).toNat <<< shift)

/-- Read one number, given the bits read so far; the value and the number of bytes. -/
def decodeFrom (value shift : ℕ) : List UInt8 → Option (ℕ × ℕ)
  | [] => none
  | byte :: rest =>
    if byte &&& 0x80 = 0 then some (addByte value shift byte, 1)
    else if shift + 7 ≥ 35 then none
    else (decodeFrom (addByte value shift byte) (shift + 7) rest).map fun code =>
      (code.1, code.2 + 1)

/-- Read the number at the start of the stream. -/
def decode (bytes : List UInt8) : Option (ℕ × ℕ) := decodeFrom 0 0 bytes

/-- Read `count` numbers that are at most `limit`; the values and the rest of the stream. -/
def readValues (limit : ℕ) : ℕ → List UInt8 → Option (List ℕ × List UInt8)
  | 0, bytes => some ([], bytes)
  | count + 1, bytes =>
    match decode bytes with
    | none => none
    | some (value, size) =>
      if value > limit then none
      else (readValues limit count (bytes.drop size)).map fun (values, rest) =>
        (value :: values, rest)

/-- The values of a stream, at most `fuel` of them. -/
def valuesOf : ℕ → List UInt8 → List ℕ
  | 0, _ => []
  | fuel + 1, bytes =>
    match decode bytes with
    | none => []
    | some (value, size) => value :: valuesOf fuel (bytes.drop size)

/-- The stream is a sequence of numbers with these values and lengths. -/
inductive Codes : List UInt8 → List (ℕ × ℕ) → Prop where
  | nil : Codes [] []
  | cons {bytes : List UInt8} {value size : ℕ} {rest : List (ℕ × ℕ)} :
      decode bytes = some (value, size) → Codes (bytes.drop size) rest →
      Codes bytes ((value, size) :: rest)

/-- The byte offset of a number of the stream. -/
def offset (codes : List (ℕ × ℕ)) (index : ℕ) : ℕ := ((codes.take index).map Prod.snd).sum

@[simp] theorem offset_zero (codes : List (ℕ × ℕ)) : offset codes 0 = 0 := rfl

@[simp] theorem offset_cons_succ (code : ℕ × ℕ) (rest : List (ℕ × ℕ)) (index : ℕ) :
    offset (code :: rest) (index + 1) = code.2 + offset rest index := by
  rw [offset, List.take_succ_cons, List.map_cons, List.sum_cons, offset]

/-- Offsets add up along the stream. -/
theorem offset_add (codes : List (ℕ × ℕ)) (first count : ℕ) :
    offset codes (first + count) = offset codes first + offset (codes.drop first) count := by
  rw [offset, List.take_add, List.map_append, List.sum_append, offset, offset]

/-- Later numbers have later offsets. -/
theorem offset_mono (codes : List (ℕ × ℕ)) {first last : ℕ} (h : first ≤ last) :
    offset codes first ≤ offset codes last := by
  obtain ⟨count, rfl⟩ := Nat.exists_eq_add_of_le h
  rw [offset_add]
  exact Nat.le_add_right _ _

variable {value shift : ℕ} {bytes : List UInt8} {code : ℕ × ℕ} {count : ℕ} {codes : List (ℕ × ℕ)}

/-- A number has at least one byte, and its bytes are in the stream. -/
theorem decodeFrom_size (h : decodeFrom value shift bytes = some code) :
    0 < code.2 ∧ code.2 ≤ bytes.length := by
  induction bytes generalizing value shift code with
  | nil => cases h
  | cons byte rest ih =>
    rw [decodeFrom] at h
    split at h
    case isTrue =>
      cases h
      simp
    case isFalse =>
      split at h
      · cases h
      · obtain ⟨inner, hinner, rfl⟩ := Option.map_eq_some_iff.mp h
        have hsize := ih hinner
        rw [List.length_cons]
        dsimp only
        omega

theorem decode_size (h : decode bytes = some code) :
    0 < code.2 ∧ code.2 ≤ bytes.length := decodeFrom_size h

/-- Reading looks at no byte behind the number. -/
theorem decodeFrom_take (h : decodeFrom value shift bytes = some code) (hcount : code.2 ≤ count) :
    decodeFrom value shift (bytes.take count) = some code := by
  induction bytes generalizing value shift code count with
  | nil => cases h
  | cons byte rest ih =>
    obtain ⟨count, rfl⟩ : ∃ n, count = n + 1 :=
      ⟨count - 1, by have := (decodeFrom_size h).1; omega⟩
    rw [decodeFrom] at h
    rw [List.take_succ_cons, decodeFrom]
    split at h
    case isTrue hlast => rw [if_pos hlast, ← h]
    case isFalse hmore =>
      rw [if_neg hmore]
      split at h
      case isTrue => cases h
      case isFalse hshift =>
        obtain ⟨inner, hinner, rfl⟩ := Option.map_eq_some_iff.mp h
        rw [if_neg hshift, ih hinner (by simpa using hcount)]
        rfl

/-- The stream from the offset of a number on. -/
theorem Codes.drop (h : Codes bytes codes) (index : ℕ) :
    Codes (bytes.drop (offset codes index)) (codes.drop index) := by
  induction h generalizing index with
  | nil => simpa [offset] using Codes.nil
  | cons hdecode hrest ih =>
    cases index with
    | zero => exact .cons hdecode hrest
    | succ index =>
      rw [offset_cons_succ, List.drop_succ_cons, ← List.drop_drop]
      exact ih index

/-- The stream up to the offset of a number. -/
theorem Codes.take (h : Codes bytes codes) (index : ℕ) :
    Codes (bytes.take (offset codes index)) (codes.take index) := by
  induction h generalizing index with
  | nil => simpa [offset] using Codes.nil
  | cons hdecode hrest ih =>
    cases index with
    | zero => exact .nil
    | succ index =>
      rw [offset_cons_succ, List.take_succ_cons]
      refine .cons (decodeFrom_take hdecode (Nat.le_add_right _ _)) ?_
      rw [List.drop_take, Nat.add_sub_cancel_left]
      exact ih index

/-- The bytes of all numbers are the stream. -/
theorem Codes.length (h : Codes bytes codes) : bytes.length = offset codes codes.length := by
  induction h with
  | nil => rfl
  | cons hdecode hrest ih =>
    have hsize := (decode_size hdecode).2
    rw [List.length_cons, offset_cons_succ, ← ih, List.length_drop]
    dsimp only at *
    omega

/-- The rows of a stream: `count` numbers from number `first` on. -/
theorem Codes.slice (h : Codes bytes codes) (first count : ℕ) :
    Codes ((bytes.drop (offset codes first)).take
      (offset codes (first + count) - offset codes first)) ((codes.drop first).take count) := by
  rw [offset_add, Nat.add_sub_cancel_left]
  exact (h.drop first).take count

variable {limit fuel low number : ℕ}

/-- Reading numbers that are there and within the limit. -/
theorem Codes.readValues (h : Codes bytes codes) (hlimit : ∀ code ∈ codes, code.1 ≤ limit)
    (hcount : count ≤ codes.length) :
    readValues limit count bytes =
      some ((codes.take count).map Prod.fst, bytes.drop (offset codes count)) := by
  induction h generalizing count with
  | nil =>
    obtain rfl : count = 0 := by simpa using hcount
    rfl
  | cons hdecode hrest ih =>
    cases count with
    | zero => rfl
    | succ count =>
      have hfirst := hlimit _ List.mem_cons_self
      dsimp only at hfirst
      rw [Varint.readValues, hdecode]
      dsimp only
      rw [if_neg (Nat.not_lt.mpr hfirst),
        ih (fun code hcode => hlimit code (List.mem_cons_of_mem _ hcode)) (by simpa using hcount)]
      simp [List.drop_drop]

/-- The values of a stream do not depend on how it is read. -/
theorem Codes.valuesOf (h : Codes bytes codes) (hfuel : bytes.length ≤ fuel) :
    valuesOf fuel bytes = codes.map Prod.fst := by
  induction h generalizing fuel with
  | nil => cases fuel <;> rfl
  | cons hdecode hrest ih =>
    obtain ⟨hpos, hsize⟩ := decode_size hdecode
    dsimp only at hpos hsize
    cases fuel with
    | zero => omega
    | succ fuel =>
      rw [Varint.valuesOf, hdecode]
      dsimp only
      rw [ih (by rw [List.length_drop]; omega), List.map_cons]

/-- The values do not depend on the fuel, if there is enough of it. -/
theorem valuesOf_congr {fuel' : ℕ} (h : bytes.length ≤ fuel) (h' : bytes.length ≤ fuel') :
    valuesOf fuel bytes = valuesOf fuel' bytes := by
  induction fuel generalizing fuel' bytes with
  | zero =>
    obtain rfl : bytes = [] := List.length_eq_zero_iff.mp (by omega)
    cases fuel' <;> rfl
  | succ fuel ih =>
    cases fuel' with
    | zero =>
      obtain rfl : bytes = [] := List.length_eq_zero_iff.mp (by omega)
      rfl
    | succ fuel' =>
      rw [Varint.valuesOf, Varint.valuesOf]
      cases hdecode : decode bytes with
      | none => rfl
      | some code =>
        obtain ⟨hpos, hsize⟩ := decode_size hdecode
        have hrest : valuesOf fuel (bytes.drop code.2) = valuesOf fuel' (bytes.drop code.2) := by
          apply ih
          · rw [List.length_drop]
            omega
          · rw [List.length_drop]
            omega
        dsimp only
        rw [hrest]

/-- Reading numbers splits the values of the stream. -/
theorem valuesOf_of_readValues {rest : List UInt8} {values : List ℕ}
    (h : readValues limit count bytes = some (values, rest)) :
    values.length = count ∧
      valuesOf bytes.length bytes = values ++ valuesOf rest.length rest := by
  induction count generalizing bytes values with
  | zero =>
    cases h
    exact ⟨rfl, rfl⟩
  | succ count ih =>
    rw [readValues] at h
    split at h
    case h_1 => cases h
    case h_2 value size hdecode =>
      split at h
      · cases h
      · obtain ⟨⟨values', rest'⟩, hread, heq⟩ := Option.map_eq_some_iff.mp h
        cases heq
        obtain ⟨hlength, hvalues⟩ := ih hread
        obtain ⟨hpos, hsize⟩ := decode_size hdecode
        dsimp only at hpos hsize
        constructor
        · rw [List.length_cons, hlength]
        · obtain ⟨fuel, hfuel⟩ := Nat.exists_eq_succ_of_ne_zero (show bytes.length ≠ 0 by omega)
          rw [hfuel, Varint.valuesOf, hdecode]
          dsimp only
          rw [List.cons_append, ← hvalues,
            valuesOf_congr (by rw [List.length_drop]; omega) le_rfl]

/-- Write a number in as few bytes as possible. -/
def encode (value : ℕ) : List UInt8 :=
  if value < 128 then [UInt8.ofNat value]
  else (UInt8.ofNat (value % 128) ||| 0x80) :: encode (value / 128)
termination_by value
decreasing_by omega

/-- A byte below 128 is read as it is. -/
theorem addByte_last (value shift : ℕ) (h : low < 128) :
    UInt8.ofNat low &&& 0x80 = 0 ∧
      addByte value shift (UInt8.ofNat low) = value ||| low <<< shift := by
  have hbyte : ∀ low < 128, UInt8.ofNat low &&& 0x80 = 0 ∧
      (UInt8.ofNat low &&& 0x7f).toNat = low := by decide +kernel
  rw [addByte, (hbyte low h).2]
  exact ⟨(hbyte low h).1, rfl⟩

theorem and_high_eq_zero_iff (byte : UInt8) : byte &&& 0x80 = 0 ↔ byte.toNat < 128 := by
  have hbyte : ∀ number < 256, UInt8.ofNat number &&& 0x80 = 0 ↔ number < 128 := by decide +kernel
  have hthis := hbyte byte.toNat byte.toNat_lt
  rwa [UInt8.ofNat_toNat] at hthis

/-- A number of one byte. -/
theorem addByte_single {byte : UInt8} (h : byte &&& 0x80 = 0) : addByte 0 0 byte = byte.toNat := by
  have hlast := (addByte_last 0 0 ((and_high_eq_zero_iff byte).mp h)).2
  rwa [UInt8.ofNat_toNat, Nat.zero_or, Nat.shiftLeft_zero] at hlast

/-- The high bit of a byte is not part of its value. -/
theorem addByte_more (value shift : ℕ) (h : low < 128) :
    (UInt8.ofNat low ||| 0x80) &&& 0x80 ≠ 0 ∧
      addByte value shift (UInt8.ofNat low ||| 0x80) = value ||| low <<< shift := by
  have hbyte : ∀ low < 128, (UInt8.ofNat low ||| 0x80) &&& 0x80 ≠ 0 ∧
      ((UInt8.ofNat low ||| 0x80) &&& 0x7f).toNat = low := by decide +kernel
  rw [addByte, (hbyte low h).2]
  exact ⟨(hbyte low h).1, rfl⟩

/-- The lowest seven bits, and the bits above them. -/
theorem or_shiftLeft_seven (value shift : ℕ) :
    (value % 128) <<< shift ||| (value / 128) <<< (shift + 7) = value <<< shift := by
  have hsplit : (value / 128) <<< 7 ||| value % 128 = value := by
    rw [← Nat.shiftLeft_add_eq_or_of_lt (show value % 128 < 2 ^ 7 from Nat.mod_lt value (by decide)),
      Nat.shiftLeft_eq]
    exact Nat.div_add_mod' value 128
  rw [Nat.or_comm, Nat.add_comm, Nat.shiftLeft_add, ← Nat.shiftLeft_or_distrib, hsplit]

/-- Reading what was written, behind the bits read so far. -/
theorem decodeFrom_encode (rest : List UInt8) (hfits : number < 2 ^ (35 - shift))
    (hshift : shift < 35) (hseven : shift % 7 = 0) :
    decodeFrom value shift (encode number ++ rest) =
      some (value ||| number <<< shift, (encode number).length) := by
  induction number using Nat.strong_induction_on generalizing value shift with
  | _ number ih =>
    rw [encode]
    split_ifs with hmore
    · obtain ⟨hbit, hvalue⟩ := addByte_last value shift hmore
      rw [List.singleton_append, decodeFrom, if_pos hbit, hvalue]
      rfl
    · have hlow : number % 128 < 128 := Nat.mod_lt _ (by decide)
      obtain ⟨hbit, hvalue⟩ := addByte_more value shift hlow
      have hnext : shift + 7 < 35 := by
        by_contra hlong
        obtain rfl : shift = 28 := by omega
        exact hmore hfits
      have hdiv : number / 128 < 2 ^ (35 - (shift + 7)) := by
        rw [Nat.div_lt_iff_lt_mul (by decide), show 128 = 2 ^ 7 from rfl, ← Nat.pow_add,
          show 35 - (shift + 7) + 7 = 35 - shift by omega]
        exact hfits
      rw [List.cons_append, decodeFrom, if_neg hbit, if_neg (by omega), hvalue,
        ih (number / 128) (by omega) hdiv hnext (by omega)]
      simp only [Option.map_some, List.length_cons, Nat.or_assoc, or_shiftLeft_seven]

/-- Reading what was written. -/
theorem decode_encode (rest : List UInt8) (hfits : number < 2 ^ 35) :
    decode (encode number ++ rest) = some (number, (encode number).length) := by
  rw [decode, decodeFrom_encode rest hfits (by decide) rfl, Nat.zero_or, Nat.shiftLeft_zero]

/-- Numbers that are written one after the other. -/
theorem codes_encode {numbers : List ℕ} (hfits : ∀ number ∈ numbers, number < 2 ^ 35) :
    Codes (numbers.flatMap encode)
      (numbers.map fun number => (number, (encode number).length)) := by
  induction numbers with
  | nil => exact .nil
  | cons number numbers ih =>
    rw [List.flatMap_cons, List.map_cons]
    refine .cons (decode_encode _ (hfits number List.mem_cons_self)) ?_
    rw [List.drop_left]
    exact ih fun other hother => hfits other (List.mem_cons_of_mem _ hother)

end Varint
