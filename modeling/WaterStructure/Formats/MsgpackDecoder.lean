import WaterStructure.Formats.Msgpack
import WaterStructure.Library.BoundedInput
import WaterStructure.Library.MessagePack

/-!
# The MessagePack stream decoder

The decoder reads from a file whose size it was told. It has readers for the values the formats are made of
and passes over every other value by its marker. Skipping a value takes exactly the bytes that encode it,
and no operation reaches past the declared size.
-/

namespace WaterStructure

namespace StreamDecoder

open BoundedInput MessagePack
open Msgpack (failure kMaxContainerItems kMaxStringBytes kMaxNestingDepth)

variable (bytes : List UInt8) (size : ℕ)

def fail {α : Type} (field : String) : Decoder α := BoundedInput.fail (failure field)

def byte (field : String) : Decoder ℕ := do
  let data ← take bytes size (failure field) (failure field) 1
  return number data

/-- `unsigned_be`. -/
def unsignedBe (width : ℕ) (field : String) : Decoder ℕ := do
  if width = 0 ∨ width > 8 then fail field
  else
    let data ← take bytes size (failure field) (failure field) width
    return number data

/-- The count of an array whose marker has been read; the markers `0x90` to `0x9f` have it in them. -/
def countAfter (marker : ℕ) (field : String) : Decoder ℕ :=
  if marker / 16 = 0x9 then pure (marker % 16)
  else if marker = 0xdc then unsignedBe bytes size 2 field
  else if marker = 0xdd then unsignedBe bytes size 4 field
  else fail (field ++ " is not an array")

def arrayLength (field : String) : Decoder ℕ := do
  let marker ← byte bytes size field
  let count ← countAfter bytes size marker field
  if count > kMaxContainerItems then fail (field ++ " exceeds item limit") else return count

def lengthAfter (marker : ℕ) (field : String) : Decoder ℕ :=
  if marker / 32 = 0x5 then pure (marker % 32)
  else if marker = 0xd9 then unsignedBe bytes size 1 field
  else if marker = 0xda then unsignedBe bytes size 2 field
  else if marker = 0xdb then unsignedBe bytes size 4 field
  else fail (field ++ " is not a string")

/-- The rest of a string behind its marker. -/
def stringAfter (marker : ℕ) (field : String) : Decoder (List UInt8) := do
  let length ← lengthAfter bytes size marker field
  if length > kMaxStringBytes then fail (field ++ " exceeds length limit")
  else take bytes size (failure (field ++ " exceeds length limit")) (failure field) length

def string (field : String) : Decoder (List UInt8) := do
  let marker ← byte bytes size field
  stringAfter bytes size marker field

def checkedUnsigned (value : ℕ) (field : String) : Decoder ℤ :=
  lift (if value > 9223372036854775807 then .error ("MessagePack " ++ field ++ " exceeds int64")
    else .ok value)

/-- A number in two's complement. -/
def signedBe (width : ℕ) (field : String) : Decoder ℤ := do
  let value ← unsignedBe bytes size width field
  return Int.bmod value (256 ^ width)

/-- A number without a sign that must fit `std::int64_t`. -/
def smallUnsignedBe (width : ℕ) (field : String) : Decoder ℤ := do
  let value ← unsignedBe bytes size width field
  checkedUnsigned value field

/-- The rest of an integer behind its marker. -/
def integerAfter (marker : ℕ) (field : String) : Decoder ℤ :=
  if marker ≤ 0x7f then pure marker
  else if marker ≥ 0xe0 then pure (Int.bmod marker 256)
  else if marker = 0xcc then smallUnsignedBe bytes size 1 field
  else if marker = 0xcd then smallUnsignedBe bytes size 2 field
  else if marker = 0xce then smallUnsignedBe bytes size 4 field
  else if marker = 0xcf then smallUnsignedBe bytes size 8 field
  else if marker = 0xd0 then signedBe bytes size 1 field
  else if marker = 0xd1 then signedBe bytes size 2 field
  else if marker = 0xd2 then signedBe bytes size 4 field
  else if marker = 0xd3 then signedBe bytes size 8 field
  else fail (field ++ " is not an integer")

def integer (field : String) : Decoder ℤ := do
  let marker ← byte bytes size field
  integerAfter bytes size marker field

def boolean (field : String) : Decoder Bool := do
  let marker ← byte bytes size field
  if marker = 0xc2 then return false
  else if marker = 0xc3 then return true
  else fail (field ++ " is not a boolean")

def skipBytes (length : ℕ) (field : String) : Decoder Unit := skip size (failure field) length

/-- Skip what a length announces, and so many bytes more. -/
def skipSized (width more : ℕ) (field : String) : Decoder Unit := do
  let length ← unsignedBe bytes size width field
  skipBytes size (more + length) field

/-- Skip the items that a count announces. -/
def skipCounted (skipItem : Decoder Unit) (width factor : ℕ) (field : String) : Decoder Unit := do
  let count ← unsignedBe bytes size width field
  if count > kMaxContainerItems then fail field else repeated skipItem (count * factor)

/-- The body of `skip_after`, given how an item of a container is skipped. -/
def skipMarked (field : String) (skipItem : Decoder Unit) (marker : ℕ) : Decoder Unit :=
  if marker ≤ 0x7f ∨ marker ≥ 0xe0 ∨ marker = 0xc0 ∨ marker = 0xc2 ∨ marker = 0xc3 then pure ()
  else if marker / 32 = 0x5 then skipBytes size (marker % 32) field
  else if marker / 16 = 0x9 then repeated skipItem (marker % 16)
  else if marker / 16 = 0x8 then repeated skipItem (marker % 16 * 2)
  else match marker with
    | 0xcc | 0xd0 => skipBytes size 1 field
    | 0xca => skipBytes size 4 field
    | 0xcb => skipBytes size 8 field
    | 0xc1 => fail "reserved marker"
    | 0xc4 | 0xd9 => skipSized bytes size 1 0 field
    | 0xc5 | 0xda => skipSized bytes size 2 0 field
    | 0xc6 | 0xdb => skipSized bytes size 4 0 field
    | 0xc7 => skipSized bytes size 1 1 field
    | 0xc8 => skipSized bytes size 2 1 field
    | 0xc9 => skipSized bytes size 4 1 field
    | 0xdc => skipCounted bytes size skipItem 2 1 field
    | 0xdd => skipCounted bytes size skipItem 4 1 field
    | 0xde => skipCounted bytes size skipItem 2 2 field
    | 0xdf => skipCounted bytes size skipItem 4 2 field
    | 0xcd | 0xd1 | 0xd4 => skipBytes size 2 field
    | 0xce | 0xd2 => skipBytes size 4 field
    | 0xcf | 0xd3 => skipBytes size 8 field
    | 0xd5 => skipBytes size 3 field
    | 0xd6 => skipBytes size 5 field
    | 0xd7 => skipBytes size 9 field
    | 0xd8 => skipBytes size 17 field
    | _ => fail (field ++ " has unsupported marker")

/-- `skip_after` with so many levels of nesting left. -/
def skipAfter (field : String) : ℕ → ℕ → Decoder Unit
  | 0, _ => fail (field ++ " nesting is too deep")
  | levels + 1, marker =>
    skipMarked bytes size field (do
      let marker ← byte bytes size field
      skipAfter field levels marker) marker

/-- `skip_value` with so many levels of nesting left. -/
def skipItem (field : String) (levels : ℕ) : Decoder Unit := do
  let marker ← byte bytes size field
  skipAfter bytes size field levels marker

def skipValue (field : String) : Decoder Unit := skipItem bytes size field (kMaxNestingDepth + 1)

/-- The markers of integers, and those of strings. -/
def IsIntegerMarker (marker : ℕ) : Prop := marker ≤ 0x7f ∨ marker ≥ 0xe0 ∨ (0xcc ≤ marker ∧ marker ≤ 0xd3)

def IsStringMarker (marker : ℕ) : Prop := marker / 32 = 0x5 ∨ marker = 0xd9 ∨ marker = 0xda ∨ marker = 0xdb

instance (marker : ℕ) : Decidable (IsIntegerMarker marker) := inferInstanceAs (Decidable (_ ∨ _))

instance (marker : ℕ) : Decidable (IsStringMarker marker) := inferInstanceAs (Decidable (_ ∨ _))

/-- What `data` gives. -/
inductive Data where
  | other
  | integer (value : ℤ)
  | string (value : List UInt8)

def data (field : String) : Decoder Data := do
  let marker ← byte bytes size field
  if IsIntegerMarker marker then
    let value ← integerAfter bytes size marker field
    return .integer value
  else if IsStringMarker marker then
    let value ← stringAfter bytes size marker field
    return .string value
  else
    skipAfter bytes size field (kMaxNestingDepth + 1) marker
    return .other

/-! ## Skipping -/

variable {bytes} {size} {field : String} {levels : ℕ} {part : List UInt8}

theorem takes_byte (marker : UInt8) : Takes bytes size (byte bytes size field) [marker] marker.toNat := by
  refine (@takes_take bytes [marker] size 1 (failure field) (failure field) rfl).bind_pure ?_
  have hnumber : number [marker] = marker.toNat := Nat.zero_add _
  rw [hnumber]
  exact takes_pure

theorem takes_unsignedBe (width : Width) {value : ℕ} (h : value < 256 ^ width.bytes) :
    Takes bytes size (unsignedBe bytes size width.bytes field) (bigEndian width.bytes value) value := by
  have hwidth : ¬ (width.bytes = 0 ∨ width.bytes > 8) := by cases width <;> decide
  rw [unsignedBe, if_neg hwidth]
  refine (takes_take (bigEndian_length _ _)).bind_pure ?_
  rw [number_bigEndian h]
  exact takes_pure

theorem takes_skipSized (width : Width) (more : ℕ) {announced rest : List UInt8}
    (h : announced.length < 256 ^ width.bytes) (hwidth : width ≠ .eight) (hmore : more ≤ 1)
    (hrest : rest.length = more + announced.length) :
    Takes bytes size (skipSized bytes size width.bytes more field)
      (bigEndian width.bytes announced.length ++ rest) () := by
  refine (takes_unsignedBe width h).bind (takes_skip hrest ?_)
  have hsmall : 256 ^ width.bytes ≤ 4294967296 := by
    cases width with
    | eight => exact absurd rfl hwidth
    | one | two | four => decide
  rw [maxSeek]
  omega

theorem takes_skipCounted (width : Width) {skipItem : Decoder Unit} {count factor : ℕ}
    {parts : List (List UInt8)} (h : count < 256 ^ width.bytes) (hlimit : count ≤ kMaxContainerItems)
    (hparts : parts.length = count * factor) (hitems : ∀ part ∈ parts, Takes bytes size skipItem part ()) :
    Takes bytes size (skipCounted bytes size skipItem width.bytes factor field)
      (bigEndian width.bytes count ++ parts.flatten) () := by
  refine (takes_unsignedBe width h).bind ?_
  rw [if_neg (Nat.not_lt.mpr hlimit), ← hparts]
  exact takes_repeated hitems

/-- A marker and what is skipped behind it. -/
theorem takes_skipItem {marker : UInt8} {rest : List UInt8}
    (h : Takes bytes size (skipAfter bytes size field levels marker.toNat) rest ()) :
    Takes bytes size (skipItem bytes size field levels) (marker :: rest) () :=
  (takes_byte marker).bind h

section Marked

variable {skipItem : Decoder Unit} {width : Width} {text data : List UInt8} {value : ℕ} {marker : ℕ}
  {type : UInt8} {parts : List (List UInt8)} {count factor : ℕ}

theorem takes_skipMarked_small (h : marker ≤ 0x7f ∨ marker ≥ 0xe0) :
    Takes bytes size (skipMarked bytes size field skipItem marker) [] () := by
  unfold skipMarked
  rw [if_pos (h.imp_right .inl)]
  exact takes_pure

theorem takes_skipMarked_number (hmarker : marker = 0xcc ∨ marker = 0xd0) (h : data.length = width.bytes) :
    Takes bytes size (skipMarked bytes size field skipItem (marker + width.step)) data () := by
  have hskip : skipMarked bytes size field skipItem (marker + width.step) =
      skipBytes size width.bytes field := by
    rcases hmarker with rfl | rfl <;> cases width <;> rfl
  rw [hskip]
  refine takes_skip h ?_
  cases width <;> decide

theorem takes_skipMarked_fixstr (h : text.length < 32) :
    Takes bytes size (skipMarked bytes size field skipItem (0xa0 + text.length)) text () := by
  unfold skipMarked
  rw [if_neg (by omega), if_pos (by omega)]
  exact takes_skip (by omega) (by rw [maxSeek]; omega)

theorem takes_skipMarked_sized (hmarker : marker = 0xd9 ∨ marker = 0xc4) (hwidth : width ≠ .eight)
    (h : data.length < 256 ^ width.bytes) :
    Takes bytes size (skipMarked bytes size field skipItem (marker + width.step))
      (bigEndian width.bytes data.length ++ data) () := by
  have hskip : skipMarked bytes size field skipItem (marker + width.step) =
      skipSized bytes size width.bytes 0 field := by
    rcases hmarker with rfl | rfl <;> cases width <;> first | rfl | exact absurd rfl hwidth
  rw [hskip]
  exact takes_skipSized width 0 h hwidth (by decide) (Nat.zero_add _).symm

theorem takes_skipMarked_ext (hwidth : width ≠ .eight) (h : data.length < 256 ^ width.bytes) :
    Takes bytes size (skipMarked bytes size field skipItem (0xc7 + width.step))
      (bigEndian width.bytes data.length ++ type :: data) () := by
  have hskip : skipMarked bytes size field skipItem (0xc7 + width.step) =
      skipSized bytes size width.bytes 1 field := by
    cases width <;> first | rfl | exact absurd rfl hwidth
  rw [hskip]
  exact takes_skipSized width 1 h hwidth le_rfl (Nat.add_comm _ _)

theorem takes_skipMarked_fixext {exponent : ℕ} (hexponent : exponent ≤ 4) (h : data.length = 2 ^ exponent) :
    Takes bytes size (skipMarked bytes size field skipItem (0xd4 + exponent)) (type :: data) () := by
  have hskip : skipMarked bytes size field skipItem (0xd4 + exponent) =
      skipBytes size (2 ^ exponent + 1) field := by
    obtain rfl | rfl | rfl | rfl | rfl : exponent = 0 ∨ exponent = 1 ∨ exponent = 2 ∨ exponent = 3 ∨
      exponent = 4 := by omega
    all_goals rfl
  rw [hskip]
  refine takes_skip ?_ ?_
  · rw [List.length_cons, h]
  · have hpow : 2 ^ exponent ≤ 2 ^ 4 := Nat.pow_le_pow_right (by decide) hexponent
    rw [maxSeek]
    omega

theorem takes_skipMarked_fix (hcount : count < 16)
    (hmarker : marker = 0x90 ∧ factor = 1 ∨ marker = 0x80 ∧ factor = 2) (hparts : parts.length = count * factor)
    (hitems : ∀ part ∈ parts, Takes bytes size skipItem part ()) :
    Takes bytes size (skipMarked bytes size field skipItem (marker + count)) parts.flatten () := by
  have hskip : skipMarked bytes size field skipItem (marker + count) = repeated skipItem (count * factor) := by
    rcases hmarker with ⟨rfl, rfl⟩ | ⟨rfl, rfl⟩
    · unfold skipMarked
      rw [if_neg (by omega), if_neg (by omega), if_pos (by omega)]
      congr 1
      omega
    · unfold skipMarked
      rw [if_neg (by omega), if_neg (by omega), if_neg (by omega), if_pos (by omega)]
      congr 1
      omega
  rw [hskip, ← hparts]
  exact takes_repeated hitems

theorem takes_skipMarked_counted (hwidth : width = .two ∨ width = .four) (hcount : count < 256 ^ width.bytes)
    (hlimit : count ≤ kMaxContainerItems) (hmarker : marker = 0xdb ∧ factor = 1 ∨ marker = 0xdd ∧ factor = 2)
    (hparts : parts.length = count * factor) (hitems : ∀ part ∈ parts, Takes bytes size skipItem part ()) :
    Takes bytes size (skipMarked bytes size field skipItem (marker + width.step))
      (bigEndian width.bytes count ++ parts.flatten) () := by
  have hskip : skipMarked bytes size field skipItem (marker + width.step) =
      skipCounted bytes size skipItem width.bytes factor field := by
    rcases hmarker with ⟨rfl, rfl⟩ | ⟨rfl, rfl⟩ <;> rcases hwidth with rfl | rfl <;> rfl
  rw [hskip]
  exact takes_skipCounted width hcount hlimit hparts hitems

end Marked

theorem toNat_ofNat {marker : ℕ} (h : marker < 256) : (UInt8.ofNat marker).toNat = marker :=
  UInt8.toNat_ofNat_of_lt h

theorem step_le (width : Width) : width.step ≤ 3 := by
  cases width <;> decide

variable {α : Type} {available : ℕ}

theorem ne_nil_of_mem_zip {β : Type} {items : List α} {parts : List β} {pair : α × β}
    (h : pair ∈ items.zip parts) : items ≠ [] := by
  rintro rfl
  cases h

/-- The parts of a map, keys and values in turn. -/
def entryParts (parts : List (List UInt8 × List UInt8)) : List (List UInt8) :=
  parts.flatMap fun part => [part.1, part.2]

theorem entryParts_flatten (parts : List (List UInt8 × List UInt8)) :
    (entryParts parts).flatten = parts.flatMap fun part => part.1 ++ part.2 := by
  induction parts with
  | nil => rfl
  | cons part rest ih =>
    rw [List.flatMap_cons, ← ih, List.append_assoc]
    rfl

theorem entryParts_length (parts : List (List UInt8 × List UInt8)) :
    (entryParts parts).length = parts.length * 2 := by
  induction parts with
  | nil => rfl
  | cons part rest ih =>
    change (entryParts rest).length + 2 = (rest.length + 1) * 2
    rw [ih, Nat.succ_mul]

theorem forall_entryParts {entries : List α} {parts : List (List UInt8 × List UInt8)} {P : List UInt8 → Prop}
    (hparts : parts.length = entries.length) (hkeys : ∀ pair ∈ entries.zip parts, P pair.2.1)
    (hvalues : ∀ pair ∈ entries.zip parts, P pair.2.2) : ∀ part ∈ entryParts parts, P part := by
  intro part hpart
  obtain ⟨entry, hentry, hpart⟩ := List.mem_flatMap.mp hpart
  have hboth := @NestedLoop.forall_of_zip _ _ _ _ (fun entry => P entry.1 ∧ P entry.2) hparts
    (fun pair hpair => ⟨hkeys pair hpair, hvalues pair hpair⟩) entry hentry
  rcases List.mem_cons.mp hpart with rfl | hlast
  · exact hboth.1
  · rw [List.mem_singleton.mp hlast]
    exact hboth.2

variable (bytes size field) in
/-- The bytes begin with a marker behind which the rest is skipped. -/
def SkippedBehind (available : ℕ) (part : List UInt8) : Prop :=
  ∃ marker rest, part = marker :: rest ∧
    Takes bytes size (skipAfter bytes size field available marker.toNat) rest ()

theorem SkippedBehind.of_marked {marker : ℕ} {rest : List UInt8} (hmarker : marker < 256)
    (h : Takes bytes size (skipMarked bytes size field (skipItem bytes size field available) marker) rest ()) :
    SkippedBehind bytes size field (available + 1) (UInt8.ofNat marker :: rest) := by
  refine ⟨_, _, rfl, ?_⟩
  rw [toNat_ofNat hmarker]
  exact h

/-- An item below is skipped with the levels that are left. -/
theorem takes_item {below levels : ℕ} (hbelow : below < levels) (hlevels : levels < available + 1)
    (h : ∀ available, below < available + 1 → SkippedBehind bytes size field (available + 1) part) :
    Takes bytes size (skipItem bytes size field available) part () := by
  obtain ⟨available, rfl⟩ : ∃ n, available = n + 1 := ⟨available - 1, by omega⟩
  obtain ⟨marker, rest, rfl, htakes⟩ := h available (by omega)
  exact takes_skipItem htakes

/-- Skipping behind the marker takes the rest of the encoding. -/
theorem takes_skipAfter {value : Value} (h : Encodes kMaxContainerItems levels value part) {available : ℕ}
    (hlevels : levels < available) : SkippedBehind bytes size field available part := by
  obtain ⟨available, rfl⟩ : ∃ n, available = n + 1 := ⟨available - 1, by omega⟩
  induction h generalizing available with
  | nil | false | true => exact ⟨_, _, rfl, takes_pure⟩
  | @positive levels value hvalue =>
    exact .of_marked (by omega) (takes_skipMarked_small (by omega))
  | @negative levels distance hpos hle =>
    exact .of_marked (by omega) (takes_skipMarked_small (by omega))
  | @unsigned levels value width hvalue =>
    have hstep := step_le width
    exact .of_marked (by omega) (takes_skipMarked_number (.inl rfl) (bigEndian_length _ _))
  | @signed levels value width hlow hhigh =>
    have hstep := step_le width
    exact .of_marked (by omega) (takes_skipMarked_number (.inr rfl) (bigEndian_length _ _))
  | @float32 levels bits hbits => exact ⟨_, _, rfl, takes_skip hbits (by decide)⟩
  | @float64 levels bits hbits => exact ⟨_, _, rfl, takes_skip hbits (by decide)⟩
  | @fixstr levels text htext =>
    exact .of_marked (by omega) (takes_skipMarked_fixstr htext)
  | @str levels text width hwidth htext =>
    have hstep := step_le width
    exact .of_marked (by omega) (takes_skipMarked_sized (.inl rfl) hwidth htext)
  | @bin levels data width hwidth hdata =>
    have hstep := step_le width
    exact .of_marked (by omega) (takes_skipMarked_sized (.inr rfl) hwidth hdata)
  | @fixext levels type data exponent hexponent hdata =>
    exact .of_marked (by omega) (takes_skipMarked_fixext hexponent hdata)
  | @ext levels type data width hwidth hdata =>
    have hstep := step_le width
    exact .of_marked (by omega) (takes_skipMarked_ext hwidth hdata)
  | @fixarray levels below items parts hfix hlimit hparts hbelow hitems ih =>
    refine .of_marked (by omega) <| takes_skipMarked_fix hfix (.inl ⟨rfl, rfl⟩) (hparts.trans (Nat.mul_one _).symm) <|
      NestedLoop.forall_of_zip hparts fun pair hpair =>
        takes_item (hbelow (ne_nil_of_mem_zip hpair)) hlevels (ih pair hpair)
  | @array levels below items parts width hwidth hfits hlimit hparts hbelow hitems ih =>
    have hstep := step_le width
    refine .of_marked (by omega) <| takes_skipMarked_counted hwidth hfits hlimit (.inl ⟨rfl, rfl⟩) (hparts.trans (Nat.mul_one _).symm) <|
      NestedLoop.forall_of_zip hparts fun pair hpair =>
        takes_item (hbelow (ne_nil_of_mem_zip hpair)) hlevels (ih pair hpair)
  | @fixmap levels below entries parts hfix hlimit hparts hbelow hkeys hvalues ihkeys ihvalues =>
    refine .of_marked (by omega) ?_
    rw [← entryParts_flatten]
    exact takes_skipMarked_fix hfix (.inr ⟨rfl, rfl⟩) (hparts ▸ entryParts_length parts) <|
      forall_entryParts hparts
        (fun pair hpair => takes_item (hbelow (ne_nil_of_mem_zip hpair)) hlevels (ihkeys pair hpair))
        fun pair hpair => takes_item (hbelow (ne_nil_of_mem_zip hpair)) hlevels (ihvalues pair hpair)
  | @map levels below entries parts width hwidth hfits hlimit hparts hbelow hkeys hvalues ihkeys ihvalues =>
    have hstep := step_le width
    refine .of_marked (by omega) ?_
    rw [← entryParts_flatten]
    exact takes_skipMarked_counted hwidth hfits hlimit (.inr ⟨rfl, rfl⟩) (hparts ▸ entryParts_length parts) <|
      forall_entryParts hparts
        (fun pair hpair => takes_item (hbelow (ne_nil_of_mem_zip hpair)) hlevels (ihkeys pair hpair))
        fun pair hpair => takes_item (hbelow (ne_nil_of_mem_zip hpair)) hlevels (ihvalues pair hpair)

theorem takes_skipValue {value : Value} (h : Encodes kMaxContainerItems kMaxNestingDepth value part) :
    Takes bytes size (skipValue bytes size field) part () := by
  obtain ⟨marker, rest, hpart, htakes⟩ :=
    @takes_skipAfter bytes size field kMaxNestingDepth part value h (kMaxNestingDepth + 1) (Nat.lt_succ_self _)
  rw [hpart]
  exact takes_skipItem htakes

/-! ## Data -/

section Data

variable {marker : UInt8} {rest text : List UInt8} {number : ℤ}

theorem takes_data_integer (hmarker : IsIntegerMarker marker.toNat)
    (h : Takes bytes size (integerAfter bytes size marker.toNat field) rest number) :
    Takes bytes size (data bytes size field) (marker :: rest) (.integer number) := by
  refine (takes_byte marker).bind ?_
  rw [if_pos hmarker]
  exact h.bind_pure takes_pure

theorem fails_data_integer (hmarker : IsIntegerMarker marker.toNat)
    (h : Fails bytes size (integerAfter bytes size marker.toNat field) rest) :
    Fails bytes size (data bytes size field) (marker :: rest) := by
  refine (takes_byte marker).bind_fails ?_
  rw [if_pos hmarker]
  exact h.bind

theorem takes_data_string (hinteger : ¬ IsIntegerMarker marker.toNat) (hstring : IsStringMarker marker.toNat)
    (h : Takes bytes size (stringAfter bytes size marker.toNat field) rest text) :
    Takes bytes size (data bytes size field) (marker :: rest) (.string text) := by
  refine (takes_byte marker).bind ?_
  rw [if_neg hinteger, if_pos hstring]
  exact h.bind_pure takes_pure

theorem fails_data_string (hinteger : ¬ IsIntegerMarker marker.toNat) (hstring : IsStringMarker marker.toNat)
    (h : Fails bytes size (stringAfter bytes size marker.toNat field) rest) :
    Fails bytes size (data bytes size field) (marker :: rest) := by
  refine (takes_byte marker).bind_fails ?_
  rw [if_neg hinteger, if_pos hstring]
  exact h.bind

theorem takes_data_other (hinteger : ¬ IsIntegerMarker marker.toNat) (hstring : ¬ IsStringMarker marker.toNat)
    (h : Takes bytes size (skipAfter bytes size field (kMaxNestingDepth + 1) marker.toNat) rest ()) :
    Takes bytes size (data bytes size field) (marker :: rest) .other := by
  refine (takes_byte marker).bind ?_
  rw [if_neg hinteger, if_neg hstring]
  exact h.bind_pure takes_pure

end Data

/-- An integer is given if it fits 64 bits with a sign, and refused if not. -/
theorem data_integer {value : ℤ} (h : Encodes kMaxContainerItems levels (.integer value) part) :
    (value ≤ 9223372036854775807 → Takes bytes size (data bytes size field) part (.integer value)) ∧
      (9223372036854775807 < value → Fails bytes size (data bytes size field) part) := by
  cases h with
  | @positive _ value hvalue =>
    have htoNat := @toNat_ofNat value (by omega)
    refine ⟨fun _ => takes_data_integer ?_ ?_, fun hlarge => by omega⟩
    · rw [htoNat]
      exact .inl (by omega)
    · rw [htoNat, integerAfter, if_pos (by omega)]
      exact takes_pure
  | @negative _ distance hpos hle =>
    have htoNat := @toNat_ofNat (256 - distance) (by omega)
    refine ⟨fun _ => takes_data_integer ?_ ?_, fun hlarge => by omega⟩
    · rw [htoNat]
      exact .inr (.inl (by omega))
    · have hvalue : Int.bmod ((256 - distance : ℕ) : ℤ) 256 = -(distance : ℤ) := by
        rw [Int.bmod_def]
        omega
      rw [htoNat, integerAfter, if_neg (by omega), if_pos (by omega), hvalue]
      exact takes_pure
  | @unsigned _ value width hvalue =>
    have hstep := step_le width
    have htoNat := @toNat_ofNat (0xcc + width.step) (by omega)
    have hmarker : IsIntegerMarker (UInt8.ofNat (0xcc + width.step)).toNat := by
      rw [htoNat]
      exact .inr (.inr ⟨by omega, by omega⟩)
    have hafter : integerAfter bytes size (0xcc + width.step) field =
        smallUnsignedBe bytes size width.bytes field := by cases width <;> rfl
    refine ⟨fun hsmall => takes_data_integer hmarker ?_, fun hlarge => fails_data_integer hmarker ?_⟩
    · rw [htoNat, hafter]
      refine (takes_unsignedBe width hvalue).bind_pure (takes_lift (if_neg (by omega)))
    · rw [htoNat, hafter]
      have hchecked : Fails bytes size (checkedUnsigned value field) [] := by
        rw [checkedUnsigned, if_pos (by omega)]
        exact fails_lift
      have hfails : Fails bytes size
          (unsignedBe bytes size width.bytes field >>= fun value => checkedUnsigned value field)
          (bigEndian width.bytes value ++ []) := (takes_unsignedBe width hvalue).bind_fails hchecked
      rwa [List.append_nil] at hfails
  | @signed _ _ width hlow hhigh =>
    have hstep := step_le width
    have htoNat := @toNat_ofNat (0xd0 + width.step) (by omega)
    have hmarker : IsIntegerMarker (UInt8.ofNat (0xd0 + width.step)).toNat := by
      rw [htoNat]
      exact .inr (.inr ⟨by omega, by omega⟩)
    have hafter : integerAfter bytes size (0xd0 + width.step) field = signedBe bytes size width.bytes field := by
      cases width <;> rfl
    refine ⟨fun _ => takes_data_integer hmarker ?_, fun hlarge => ?_⟩
    · rw [htoNat, hafter]
      have hpositive : 0 < 256 ^ width.bytes := Nat.pow_pos (by decide)
      have hrest := Int.emod_nonneg value (Int.natCast_ne_zero.mpr (Nat.ne_of_gt hpositive))
      have hsmall := Int.emod_lt_of_pos value (Int.natCast_pos.mpr hpositive)
      have hback : Int.bmod ((value % (256 ^ width.bytes : ℕ)).toNat : ℤ) (256 ^ width.bytes) = value := by
        rw [Int.toNat_of_nonneg hrest, Int.emod_bmod]
        exact Int.bmod_eq_of_le (by omega) (by omega)
      refine (takes_unsignedBe width (by omega)).bind_pure ?_
      rw [hback]
      exact takes_pure
    · have hbytes : 256 ^ width.bytes ≤ 256 ^ 8 := Nat.pow_le_pow_right (by decide) (by cases width <;> decide)
      have height : 256 ^ 8 = 18446744073709551616 := rfl
      omega

section Strings

variable {marker : ℕ} {announced text : List UInt8}

/-- A string is given if it is short enough, and refused if not. -/
theorem stringAfter_of_length
    (h : Takes bytes size (lengthAfter bytes size marker field) announced text.length) :
    (text.length ≤ kMaxStringBytes →
      Takes bytes size (stringAfter bytes size marker field) (announced ++ text) text) ∧
    (kMaxStringBytes < text.length →
      Fails bytes size (stringAfter bytes size marker field) (announced ++ text)) := by
  refine ⟨fun hshort => h.bind ?_, fun hlong => h.bind_fails ?_⟩
  · rw [if_neg (Nat.not_lt.mpr hshort)]
    exact takes_take rfl
  · rw [if_pos hlong]
    exact fails_fail

end Strings

theorem data_string {text : List UInt8} (h : Encodes kMaxContainerItems levels (.string text) part) :
    (text.length ≤ kMaxStringBytes → Takes bytes size (data bytes size field) part (.string text)) ∧
      (kMaxStringBytes < text.length → Fails bytes size (data bytes size field) part) := by
  cases h with
  | @fixstr _ _ htext =>
    have htoNat := @toNat_ofNat (0xa0 + text.length) (by omega)
    have hinteger : ¬ IsIntegerMarker (UInt8.ofNat (0xa0 + text.length)).toNat := by
      rw [htoNat, IsIntegerMarker]
      omega
    have hstring : IsStringMarker (UInt8.ofNat (0xa0 + text.length)).toNat := by
      rw [htoNat]
      exact .inl (by omega)
    have hlength : Takes bytes size (lengthAfter bytes size (0xa0 + text.length) field) [] text.length := by
      have hmod : (0xa0 + text.length) % 32 = text.length := by omega
      rw [lengthAfter, if_pos (by omega), hmod]
      exact takes_pure
    obtain ⟨hshort, hlong⟩ := stringAfter_of_length hlength
    rw [← htoNat] at hshort hlong
    exact ⟨fun h => takes_data_string hinteger hstring (hshort h),
      fun h => fails_data_string hinteger hstring (hlong h)⟩
  | @str _ _ width hwidth htext =>
    have hstep : width.step ≤ 2 := by
      cases width with
      | eight => exact absurd rfl hwidth
      | one | two | four => decide
    have htoNat := @toNat_ofNat (0xd9 + width.step) (by omega)
    have hinteger : ¬ IsIntegerMarker (UInt8.ofNat (0xd9 + width.step)).toNat := by
      rw [htoNat, IsIntegerMarker]
      omega
    have hstring : IsStringMarker (UInt8.ofNat (0xd9 + width.step)).toNat := by
      rw [htoNat]
      exact .inr (by omega)
    have hafter : lengthAfter bytes size (0xd9 + width.step) field = unsignedBe bytes size width.bytes field := by
      cases width <;> first | rfl | exact absurd rfl hwidth
    have hlength : Takes bytes size (lengthAfter bytes size (0xd9 + width.step) field)
        (bigEndian width.bytes text.length) text.length := by
      rw [hafter]
      exact takes_unsignedBe width htext
    obtain ⟨hshort, hlong⟩ := stringAfter_of_length hlength
    rw [← htoNat] at hshort hlong
    exact ⟨fun h => takes_data_string hinteger hstring (hshort h),
      fun h => fails_data_string hinteger hstring (hlong h)⟩

/-- Any other value has a marker of its own. -/
theorem marker_other {value : Value} (h : Encodes kMaxContainerItems levels value part)
    (hinteger : ∀ number, value ≠ .integer number) (hstring : ∀ text, value ≠ .string text) {marker : UInt8}
    {rest : List UInt8} (hpart : part = marker :: rest) :
    ¬ IsIntegerMarker marker.toNat ∧ ¬ IsStringMarker marker.toNat := by
  have hother {number : ℕ} (hmarker : UInt8.ofNat number = marker)
      (hrange : 0x80 ≤ number ∧ number ≤ 0x9f ∨ 0xc0 ≤ number ∧ number ≤ 0xcb ∨ 0xd4 ≤ number ∧ number ≤ 0xd8 ∨
        0xdc ≤ number ∧ number ≤ 0xdf) : ¬ IsIntegerMarker marker.toNat ∧ ¬ IsStringMarker marker.toNat := by
    rw [← hmarker, toNat_ofNat (by omega), IsIntegerMarker, IsStringMarker]
    constructor <;> omega
  cases h with
  | nil | false | true => exact hother (List.cons.inj hpart).1 (by decide)
  | positive | negative | unsigned | signed => exact absurd rfl (hinteger _)
  | float32 => exact hother (List.cons.inj hpart).1 (by decide)
  | float64 => exact hother (List.cons.inj hpart).1 (by decide)
  | fixstr => exact absurd rfl (hstring _)
  | str => exact absurd rfl (hstring _)
  | @bin _ _ width hwidth =>
    refine hother (List.cons.inj hpart).1 ?_
    cases width <;> decide
  | fixext => exact hother (List.cons.inj hpart).1 (by omega)
  | @ext _ _ _ width hwidth =>
    refine hother (List.cons.inj hpart).1 ?_
    cases width <;> decide
  | fixarray => exact hother (List.cons.inj hpart).1 (by omega)
  | array width hwidth =>
    refine hother (List.cons.inj hpart).1 ?_
    rcases hwidth with rfl | rfl <;> decide
  | fixmap => exact hother (List.cons.inj hpart).1 (by omega)
  | map width hwidth =>
    refine hother (List.cons.inj hpart).1 ?_
    rcases hwidth with rfl | rfl <;> decide

theorem data_other {value : Value} (h : Encodes kMaxContainerItems kMaxNestingDepth value part)
    (hinteger : ∀ number, value ≠ .integer number) (hstring : ∀ text, value ≠ .string text) :
    Takes bytes size (data bytes size field) part .other := by
  obtain ⟨marker, rest, hpart, htakes⟩ :=
    @takes_skipAfter bytes size field kMaxNestingDepth part value h (kMaxNestingDepth + 1) (Nat.lt_succ_self _)
  obtain ⟨hnumber, htext⟩ := marker_other h hinteger hstring hpart
  rw [hpart]
  exact takes_data_other hnumber htext htakes

/-! ## The declared size -/

theorem confined_byte : Confined size (byte bytes size field) :=
  confined_take.bind fun _ => confined_pure

theorem confined_unsignedBe {width : ℕ} : Confined size (unsignedBe bytes size width field) :=
  confined_ite confined_fail (confined_take.bind fun _ => confined_pure)

theorem confined_countAfter {marker : ℕ} : Confined size (countAfter bytes size marker field) :=
  confined_ite confined_pure (confined_ite confined_unsignedBe (confined_ite confined_unsignedBe confined_fail))

theorem confined_arrayLength : Confined size (arrayLength bytes size field) :=
  confined_byte.bind fun _ => confined_countAfter.bind fun _ => confined_ite confined_fail confined_pure

theorem confined_stringAfter {marker : ℕ} : Confined size (stringAfter bytes size marker field) := by
  have hlength : Confined size (lengthAfter bytes size marker field) :=
    confined_ite confined_pure (confined_ite confined_unsignedBe (confined_ite confined_unsignedBe
      (confined_ite confined_unsignedBe confined_fail)))
  exact hlength.bind fun _ => confined_ite confined_fail confined_take

theorem confined_string : Confined size (string bytes size field) :=
  confined_byte.bind fun _ => confined_stringAfter

theorem confined_integerAfter {marker : ℕ} : Confined size (integerAfter bytes size marker field) := by
  have hunsigned {width : ℕ} : Confined size (smallUnsignedBe bytes size width field) :=
    confined_unsignedBe.bind fun _ => confined_lift
  have hsigned {width : ℕ} : Confined size (signedBe bytes size width field) :=
    confined_unsignedBe.bind fun _ => confined_pure
  unfold integerAfter
  repeat' apply confined_ite
  all_goals first | exact confined_pure | exact hunsigned | exact hsigned | exact confined_fail

theorem confined_integer : Confined size (integer bytes size field) :=
  confined_byte.bind fun _ => confined_integerAfter

theorem confined_boolean : Confined size (boolean bytes size field) :=
  confined_byte.bind fun _ => confined_ite confined_pure (confined_ite confined_pure confined_fail)

theorem confined_skipMarked {skipItem : Decoder Unit} (h : Confined size skipItem) {marker : ℕ} :
    Confined size (skipMarked bytes size field skipItem marker) := by
  have hsized {width more : ℕ} : Confined size (skipSized bytes size width more field) :=
    confined_unsignedBe.bind fun _ => confined_skip
  have hcounted {width factor : ℕ} : Confined size (skipCounted bytes size skipItem width factor field) :=
    confined_unsignedBe.bind fun _ => confined_ite confined_fail (confined_repeated h _)
  unfold skipMarked
  refine confined_ite confined_pure (confined_ite confined_skip
    (confined_ite (confined_repeated h _) (confined_ite (confined_repeated h _) ?_)))
  split
  all_goals first | exact confined_skip | exact hsized | exact hcounted | exact confined_fail

theorem confined_skipAfter {marker : ℕ} : Confined size (skipAfter bytes size field levels marker) := by
  induction levels generalizing marker with
  | zero => exact confined_fail
  | succ levels ih => exact confined_skipMarked (confined_byte.bind fun _ => ih)

theorem confined_skipValue : Confined size (skipValue bytes size field) :=
  confined_byte.bind fun _ => confined_skipAfter

theorem confined_data : Confined size (data bytes size field) :=
  confined_byte.bind fun _ => confined_ite (confined_integerAfter.bind fun _ => confined_pure)
    (confined_ite (confined_stringAfter.bind fun _ => confined_pure)
      (confined_skipAfter.bind fun _ => confined_pure))

/-- Skipping takes exactly the encoding of a value, data gives the small integers and strings and refuses the
large ones, and nothing reaches past the declared size. -/
theorem streamDecoder_exact (bytes : List UInt8) (size : ℕ) (field : String) :
    (∀ value part, Encodes kMaxContainerItems kMaxNestingDepth value part →
      Takes bytes size (skipValue bytes size field) part () ∧
      (∀ number, value = .integer number →
        (number ≤ 9223372036854775807 → Takes bytes size (data bytes size field) part (.integer number)) ∧
        (9223372036854775807 < number → Fails bytes size (data bytes size field) part)) ∧
      (∀ text, value = .string text →
        (text.length ≤ kMaxStringBytes → Takes bytes size (data bytes size field) part (.string text)) ∧
        (kMaxStringBytes < text.length → Fails bytes size (data bytes size field) part)) ∧
      ((∀ number, value ≠ .integer number) → (∀ text, value ≠ .string text) →
        Takes bytes size (data bytes size field) part .other)) ∧
    Confined size (skipValue bytes size field) ∧ Confined size (data bytes size field) ∧
    Confined size (arrayLength bytes size field) ∧ Confined size (string bytes size field) ∧
    Confined size (integer bytes size field) ∧ Confined size (boolean bytes size field) := by
  refine ⟨fun value part h => ⟨takes_skipValue h, ?_, ?_, data_other h⟩, confined_skipValue, confined_data,
    confined_arrayLength, confined_string, confined_integer, confined_boolean⟩
  · rintro number rfl
    exact data_integer h
  · rintro text rfl
    exact data_string h

/-- The largest number without a sign is skipped, and refused by `data`. -/
theorem streamDecoder_large : (∃ next, skipValue (0xcf :: List.replicate 8 0xff) 9 "data" {} = (.ok (), next)) ∧
    ∃ message next, data (0xcf :: List.replicate 8 0xff) 9 "data" {} = (.error message, next) :=
  ⟨⟨_, rfl⟩, _, _, rfl⟩

end StreamDecoder

end WaterStructure
