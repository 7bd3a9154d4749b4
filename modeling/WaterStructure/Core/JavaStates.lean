import Mathlib.Data.Char
import Mathlib.Data.List.Lex
import WaterStructure.Core.StateKeys
import WaterStructure.Core.Text
import WaterStructure.Library.AssocMap

/-!
# Java block states as text

The normal form of a Java block state, the text of a decoded one, and the loose comparisons with
which the registry looks for a compatible state.
-/

namespace WaterStructure

/-- What stands between the first opening bracket of a kind and the last closing one. -/
def bracketContents (opening closing : Char → Bool) (text : List Char) : Option (List Char) :=
  match text.dropWhile fun c => !opening c with
  | [] => none
  | _ :: rest =>
    some (if rest.any closing then (rest.rdropWhile fun c => !closing c).dropLast else rest)

/-- `trim`. -/
def trim (value : List Char) : List Char := trimBy isBlank value

/-- A property list in brackets; nothing for the empty list. -/
def bracketed (entries : List (List Char)) : List Char :=
  if entries.isEmpty then [] else '[' :: [','].intercalate entries ++ [']']

def normalizeJavaState (encoded : List Char) : List Char :=
  let name := trim (encoded.takeWhile fun c => c ≠ '[' ∧ c ≠ '\x7b')
  let name := (if ':' ∈ name then name else "minecraft:".toList ++ name).map toLower
  match bracketContents (fun c => c = '[' ∨ c = '\x7b') (fun c => c = ']' ∨ c = '\x7d') encoded with
  | none => name
  | some contents =>
    let properties := ((splitAtEach ',' contents).filterMap (cutAtFirst '=')).map fun property =>
      (trim property.1, trim property.2)
    let sorted := properties.insertionSort fun left right =>
      left.1 < right.1 ∨ left.1 = right.1 ∧ left.2 ≤ right.2
    name ++ bracketed (sorted.map fun property => property.1 ++ '=' :: property.2)

def encodeJavaState (state : BlockState) : List Char :=
  let name := if ':' ∈ state.name then state.name else "minecraft:".toList ++ state.name
  if state.states.isEmpty then normalizeJavaState name
  else
    let properties := state.states.insertionSort fun left right => left.name ≤ right.name
    normalizeJavaState (name ++ bracketed (properties.map fun property =>
      property.name ++ '=' ::
        (if property.type = .Byte then
          if property.value = ['0'] then "false".toList else "true".toList
        else property.value)))

/-- The name of a Java state: everything before the bracket. -/
def javaName (encoded : List Char) : List Char := encoded.takeWhile (· ≠ '[')

/-- `java_property_views` and `java_properties`: of two properties of one name the first counts. -/
def javaProperties (encoded : List Char) : List (List Char × List Char) :=
  match bracketContents (· = '[') (· = ']') encoded with
  | none => []
  | some contents =>
    ((splitAtEach ',' contents).filterMap (cutAtFirst '=')).foldl
      (fun properties property =>
        if properties.any (·.1 = property.1) then properties else properties ++ [property]) []

/-- `std::from_chars` to `std::int64_t`, reading the whole text. -/
def fromChars64 (text : List Char) : Option ℤ := do
  let value ← match text with
    | '-' :: digits => (digitsValue digits).map (- ·)
    | digits => digitsValue digits
  if -9223372036854775808 ≤ value ∧ value ≤ 9223372036854775807 then some value else none

def fuzzyJavaInteger (value : List Char) : Option ℤ :=
  if asciiIequals value "true".toList ∨ asciiIequals value "1b".toList ∨ value = ['1'] then some 1
  else if asciiIequals value "false".toList ∨ asciiIequals value "0b".toList ∨ value = ['0'] then
    some 0
  else
    match value with
    | '+' :: number => fromChars64 number
    | number => fromChars64 number

def fuzzyJavaEqual (left right : List Char) : Bool :=
  match fuzzyJavaInteger left, fuzzyJavaInteger right with
  | some left, some right => left = right
  | none, none => asciiIequals left right
  | _, _ => false

/-- `std::stoll` on a whole text: space and a sign may stand before the digits. -/
def stollWhole (text : List Char) : Option ℤ :=
  match text.dropWhile isSpace with
  | '+' :: number => if number.head? = some '-' then none else fromChars64 number
  | number => fromChars64 number

def fuzzyJavaValue (value : List Char) : List Char :=
  let value := value.map toLower
  if value = "true".toList ∨ value = "1b".toList ∨ value = ['1'] then ['1']
  else if value = "false".toList ∨ value = "0b".toList ∨ value = ['0'] then ['0']
  else
    match stollWhole value with
    | some number => decimal number
    | none => value

def canonicalJavaOrderKey (encoded : List Char) : List Char :=
  let normalized := normalizeJavaState encoded
  let entries := (javaProperties normalized).map fun property =>
    property.1 ++ '=' :: fuzzyJavaValue property.2
  javaName normalized ++ bracketed (entries.insertionSort (· ≤ ·))

/-- A text without every `minecraft:` in it, each taken out where it first occurs. -/
def eraseNamespace (fuel : ℕ) (name : List Char) : List Char :=
  match fuel with
  | 0 => name
  | fuel + 1 =>
    match (List.range (name.length + 1)).find? fun position =>
        "minecraft:".toList.isPrefixOf (name.drop position) with
    | none => name
    | some position => eraseNamespace fuel (name.take position ++ name.drop (position + 10))

def legacyStateSearchKey (states : List BlockStateProperty) : List Char :=
  let renamed := states.map fun property =>
    { property with name := eraseNamespace property.name.length property.name }
  let sorted := renamed.insertionSort fun left right => left.name ≤ right.name
  let value (property : BlockStateProperty) : List Char :=
    match property.type with
    | .Byte => if property.value = ['0'] then "0b".toList else "1b".toList
    | .String =>
      if property.value = "true".toList ∨ property.value = "1b".toList then "1b".toList
      else if property.value = "false".toList ∨ property.value = "0b".toList then "0b".toList
      else property.value
    | _ => property.value
  '\x7b' :: [','].intercalate (sorted.map fun property =>
    property.name ++ ':' :: value property) ++ ['\x7d']

/-- The properties that a legacy search key spells. -/
def parseLegacyProperties (encoded : List Char) : List (List Char × List Char) :=
  let inner :=
    if 2 ≤ encoded.length ∧ encoded.head? = some '\x7b' ∧ encoded.getLast? = some '\x7d' then
      encoded.tail.dropLast
    else encoded
  ((splitAtEach ',' inner).filterMap (cutAtFirst ':')).foldl
    (fun properties property =>
      if properties.any (·.1 = property.1) then properties else properties ++ [property]) []

end WaterStructure
