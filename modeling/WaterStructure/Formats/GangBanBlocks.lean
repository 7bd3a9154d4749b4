import WaterStructure.Formats.FuHongBlocks
import WaterStructure.Formats.GangBanEntries

/-!
# Blocks and block entities of GangBan documents

Numbers, palettes and payloads of a GangBan document, and the bounds of its blocks. Texts are lists of
bytes, given as characters. A number of 2^63 that is written with a fraction or an exponent, whose
conversion is undefined in the source, is outside of an `int64` here.
-/

namespace WaterStructure

namespace GangBan

open FuHong (Bounds Registry addBounds compoundOf containerIds hasPart toSigned)
open NbtTag

/-! ## Numbers -/

def jsonInteger (value : Json) (field : String) : Except String ℤ :=
  match value with
  | .integer number => .ok number
  | .unsigned number => .ok (toSigned 64 number)
  | .float number =>
    if -9223372036854775808 ≤ number ∧ number < 9223372036854775808 then
      .ok (number.num.tdiv number.den)
    else .error (field ++ " is outside int64")
  | .string text =>
    match fromChars64 text with
    | some number => .ok number
    | none => .error (field ++ " is not an integer")
  | _ => .error (field ++ " is not an integer")

def jsonI32 (value : Json) (field : String) : Except String ℤ := do
  let number ← jsonInteger value field
  if IsInt32 number then return number else .error (field ++ " exceeds int32")

def jsonU16 (value : Json) (field : String) : Except String ℕ := do
  let number ← jsonInteger value field
  if 0 ≤ number ∧ number ≤ 65535 then return number.toNat else .error (field ++ " exceeds uint16")

/-- The names of a palette from some place on. -/
def paletteNames (field : String) : ℕ → List Json → Except String (List (List Char))
  | _, [] => .ok []
  | index, .string name :: rest => (paletteNames field (index + 1) rest).map (name :: ·)
  | index, _ :: _ => .error (field ++ " entry " ++ toString index ++ " is not a string")

def stringPalette (value : Json) (field : String) : Except String (List (List Char)) :=
  match value with
  | .array (item :: rest) => paletteNames field 0 (item :: rest)
  | _ => .error (field ++ " is not a non-empty array")

def subtract (value origin : BlockPos) : Except String BlockPos :=
  if IsInt32 (value.x - origin.x) ∧ IsInt32 (value.y - origin.y) ∧ IsInt32 (value.z - origin.z) then
    .ok (value.sub origin)
  else .error "local block coordinate exceeds int32"

/-- `Bounds::size`. -/
def boundsSize (bounds : Option Bounds) : Except String Size :=
  match bounds with
  | none => .error "structure has no blocks"
  | some bounds =>
    let width := bounds.maximum.x - bounds.minimum.x + 1
    let height := bounds.maximum.y - bounds.minimum.y + 1
    let length := bounds.maximum.z - bounds.minimum.z + 1
    if width ≤ 0 ∨ height ≤ 0 ∨ length ≤ 0 ∨ width > int32Max ∨ height > int32Max ∨ length > int32Max then
      .error "structure bounds exceed int32 dimensions"
    else .ok ⟨width, height, length⟩

/-- The minimum of the bounds; it is the origin before the first block. -/
def minimumOf (bounds : Option Bounds) : BlockPos := (bounds.map Bounds.minimum).getD ⟨0, 0, 0⟩

/-! ## Blocks -/

/-- `GangBanStructure::runtime_id`. -/
def runtimeId (registry : Registry) (name : List Char) (data : ℕ) : RuntimeId :=
  (registry.legacyRuntimeId name data <|> registry.find "minecraft:unknown".toList []).getD
    (registry.registerState ⟨"minecraft:unknown".toList, [], 0⟩)

/-- `validate_palette_index`, with the name at the index. -/
def paletteName (palette : List (List Char)) (index : ℤ) (blockIndex : ℕ) : Except String (List Char) :=
  match if index < 0 then none else palette[index.toNat]? with
  | some name => .ok name
  | none =>
    .error ("block index " ++ toString blockIndex ++ " palette index " ++ toString index ++ " is out of range")

def commandBlockName (variant : ℤ) : String :=
  if variant = 1 then "minecraft:repeating_command_block"
  else if variant = 2 then "minecraft:chain_command_block"
  else "minecraft:command_block"

/-! ## Payloads -/

/-- A member that is a string. -/
def textMember (value : Json) (name : String) : Option (List Char) :=
  match value.member? name with
  | some (.string text) => some text
  | _ => none

/-- A member that is true, as a byte. -/
def flagMember (value : Json) (name : String) : ℤ :=
  match value.member? name with
  | some (.boolean true) => 1
  | _ => 0

def delayMember (value : Json) : Option ℤ :=
  (value.member? "delay").bind fun delay => (jsonI32 delay "command delay").toOption

/-- `command_nbt_v5`, before it is written. -/
def commandNbtV5 (value : Json) (variant : ℤ) : Compound :=
  compoundOf
    ([("id", .string "CommandBlock".toList), ("Command", .string ((textMember value "cmd").getD []))] ++
      ((textMember value "name").map fun name => ("CustomName", Tag.string name)).toList ++
      ((delayMember value).map fun delay => ("TickDelay", Tag.int delay)).toList ++
      [("ExecuteOnFirstTick", .byte (flagMember value "auto")), ("TrackOutput", .byte 0),
        ("conditionalMode", .byte (flagMember value "condition")), ("auto", .byte (flagMember value "auto")),
        ("Powered", .byte 0), ("LPCommandMode", .int variant), ("LastOutput", .string [])])

def containerId (name : List Char) : Option String :=
  match containerIds.find? fun entry => entry.1.toList = name with
  | some entry => some entry.2
  | none => if hasPart name "shulker_box" then some "ShulkerBox" else none

def integerOrZero (raw : Json) (key : String) : ℤ :=
  ((raw.member? key).bind fun value => (jsonInteger value key).toOption).getD 0

/-- The loop body over the items of a container; what is no object is left out. -/
def containerItem (raw : Json) : Option Compound :=
  if raw.isObject then
    some (compoundOf
      [("Slot", .byte (toSigned 8 (integerOrZero raw "slot"))),
        ("Name", .string ((textMember raw "ns").getD [])),
        ("Count", .byte (toSigned 8 (integerOrZero raw "num"))),
        ("Damage", .short (toSigned 16 (integerOrZero raw "aux")))])
  else none

/-- `container_nbt`, before it is written. -/
def containerNbt (blockName : List Char) (payload : List Json) : Option Compound :=
  let items := payload.filterMap containerItem
  let id := containerId blockName
  if id = none ∧ items = [] then none
  else some (compoundOf
    ((id.map fun id => ("id", Tag.string id.toList)).toList ++
      if items = [] then []
      else [("Items", .list .Compound (items.map fun item => .compound item.entries))]))

end GangBan

end WaterStructure
