import Mathlib.Data.List.Infix
import WaterStructure.Core.Grid
import WaterStructure.Core.JavaStates
import WaterStructure.Core.Registry
import WaterStructure.Library.JsonCallback
import WaterStructure.Library.NbtTag

/-!
# Blocks and block entities of FuHong documents

Numbers, block names and the extra payloads of a FuHong document. A name may bring its states in
brackets, and is looked up in the palette cache before the registry is asked. The registry is what the
reader asks of it, and printing a JSON value is a parameter. A number of 2^63, whose conversion is
undefined in the source, is no integer here.
-/

namespace WaterStructure

namespace FuHong

open NbtTag

/-- What the reader and the writer ask the registry. `register_state` is asked for one state. -/
structure Registry where
  airRuntimeId : RuntimeId
  state : RuntimeId → Option BlockState
  find : List Char → List BlockStateProperty → Option RuntimeId
  legacyRuntimeId : List Char → ℕ → Option RuntimeId
  javaRuntimeId : List Char → Option RuntimeId
  registerState : BlockState → RuntimeId

/-- Whether a text has a part. -/
def hasPart (text : List Char) (part : String) : Bool := decide (part.toList <:+: text)

/-- The characters that `trim` removes. -/
def isTrimmed (c : Char) : Bool := isBlank c || c = '"'

def trim (value : List Char) : List Char := trimBy isTrimmed value

/-- A conversion to a signed integer of some bits. -/
def toSigned (bits : ℕ) (value : ℤ) : ℤ := (value + 2 ^ (bits - 1)) % 2 ^ bits - 2 ^ (bits - 1)

def jsonString (dump : Json → List Char) : Json → List Char
  | .null => "<nil>".toList
  | .string value => value
  | value => dump value

def integer (value : Json) (field : String) : Except String ℤ :=
  let number : Option ℤ := match value with
    | .integer number => some number
    | .unsigned number => some (toSigned 64 number)
    | .float number =>
      if -9223372036854775808 ≤ number ∧ number < 9223372036854775808 then
        some (number.num.tdiv number.den)
      else none
    | .string text => fromChars64 text
    | _ => none
  match number with
  | some number => .ok number
  | none => .error (field ++ " is not an integer")

/-- The value of a check that throws, or a default. -/
def caught (result : Except String ℤ) : ℤ := result.toOption.getD 0

def i32 (value : Json) (field : String) : Except String ℤ := do
  let number ← integer value field
  if IsInt32 number then return number else .error (field ++ " exceeds int32")

def checkedAdd (left right : ℤ) (field : String) : Except String ℤ :=
  if IsInt32 (left + right) then .ok (left + right) else .error (field ++ " exceeds int32")

def localPosition (world origin : BlockPos) : BlockPos := world.sub origin

/-- The blocks seen so far. -/
structure Bounds where
  minimum : BlockPos
  maximum : BlockPos

/-- `Bounds::add`; without a block there are no bounds. -/
def addBounds (bounds : Option Bounds) (pos : BlockPos) : Option Bounds :=
  match bounds with
  | none => some ⟨pos, pos⟩
  | some bounds => some
      { minimum := ⟨min bounds.minimum.x pos.x, min bounds.minimum.y pos.y, min bounds.minimum.z pos.z⟩
        maximum := ⟨max bounds.maximum.x pos.x, max bounds.maximum.y pos.y, max bounds.maximum.z pos.z⟩ }

def Bounds.size (bounds : Bounds) (format : String) : Except String Size :=
  let width := bounds.maximum.x - bounds.minimum.x + 1
  let height := bounds.maximum.y - bounds.minimum.y + 1
  let length := bounds.maximum.z - bounds.minimum.z + 1
  if width ≤ 0 ∨ height ≤ 0 ∨ length ≤ 0 ∨ width > int32Max ∨ height > int32Max ∨ length > int32Max then
    .error (format ++ " bounds are invalid")
  else .ok ⟨width, height, length⟩

/-! ## Block names -/

/-- The states of a block by their names. -/
abbrev States := SortedMap (List Char) (List Char)

/-- One of the states in brackets; the first one of a name counts. -/
def addState (states : States) (part : List Char) : States :=
  match cutAtFirst '=' (trim part) with
  | some (property, value) => states.emplace (trim property) (trim value)
  | none => states

/-- The name of a block without its states in brackets, and these states. -/
def nameAndStates (raw : List Char) (states : States) : List Char × States :=
  let name := trim raw
  if '[' ∈ name ∧ name.getLast? = some ']' then
    let encoded := (name.dropWhile (· ≠ '[')).tail.dropLast
    (trim (name.takeWhile (· ≠ '[')), (splitAtEach ',' encoded).foldl addState states)
  else (name, states)

def paletteKey (name : List Char) (aux : ℤ) (states : States) : List Char :=
  name ++ '|' :: if states.entries.isEmpty then decimal aux
    else states.entries.flatMap fun entry => entry.1 ++ '=' :: (entry.2 ++ [','])

/-- A property of the default state with the value that the document gives it. -/
def mergeProperty (states : States) (property : BlockStateProperty) : BlockStateProperty :=
  match states.lookup property.name with
  | none => property
  | some value =>
    { property with value := if value = "true".toList then ['1'] else if value = "false".toList then ['0']
                             else value }

/-- A property that the default state does not have. -/
def extraProperty (entry : List Char × List Char) : BlockStateProperty :=
  if entry.2 = "true".toList ∨ entry.2 = "false".toList then
    ⟨entry.1, .Byte, if entry.2 = "true".toList then ['1'] else ['0']⟩
  else if entry.2 ≠ [] ∧ entry.2.all fun c => c.isDigit || c = '-' then ⟨entry.1, .Int, entry.2⟩
  else ⟨entry.1, .String, entry.2⟩

/-- The default state with the states of the document. -/
def mergedStates (default : List BlockStateProperty) (states : States) : List BlockStateProperty :=
  default.map (mergeProperty states) ++ (states.entries.filter fun entry =>
    default.all fun property => property.name ≠ entry.1).map extraProperty

/-- The Java text of a block with its states. -/
def javaText (name : List Char) (states : States) : List Char :=
  name ++ '[' :: ([','].intercalate (states.entries.map fun entry => entry.1 ++ '=' :: entry.2) ++ [']'])

/-- The part of `runtime_id` behind the cache. -/
def resolve (registry : Registry) (name : List Char) (aux : ℤ) (states : States) : RuntimeId :=
  let byStates : Option RuntimeId :=
    if states.entries.isEmpty then none
    else
      ((registry.find name []).bind registry.state).bind (fun state =>
          registry.find name (mergedStates state.states states)) <|>
        registry.javaRuntimeId (javaText name states)
  let found := byStates <|> registry.legacyRuntimeId name (aux % 65536).toNat <|>
    registry.javaRuntimeId name <|> registry.find "minecraft:unknown".toList []
  found.getD (registry.registerState ⟨"minecraft:unknown".toList, [], 0⟩)

/-- `mPaletteCache`. -/
abbrev PaletteCache := AList fun _ : List Char => RuntimeId

/-- `FuHongStructure::runtime_id`. -/
def runtimeId (registry : Registry) (cache : PaletteCache) (raw : List Char) (aux : ℤ)
    (states : States) : RuntimeId × PaletteCache :=
  let parts := nameAndStates raw states
  let key := paletteKey parts.1 aux parts.2
  match cache.lookup key with
  | some id => (id, cache)
  | none =>
    let id := resolve registry parts.1 aux parts.2
    (id, cache.insert key id)

/-! ## Extra payloads -/

section Extras

variable (dump : Json → List Char)

def autoByte (value : Json) : ℤ :=
  let number := if caught (integer value "auto") ≠ 0 then 1 else 0
  match value with
  | .boolean value => if value then 1 else 0
  | .string text =>
    let text := (trim text).map toLower
    if text = "true".toList then 1 else if text = "false".toList ∨ text = [] then 0 else number
  | _ => number

/-- A compound from its entries. -/
def compoundOf (entries : List (String × Tag)) : Compound :=
  entries.foldl (fun result entry => result.set entry.1.toList entry.2) .empty

def commandNbt : Json → Option Compound
  | .array (command :: rest) =>
    let text := jsonString dump command
    some (compoundOf
      [("id", .string "CommandBlock".toList), ("Command", .string text),
        ("CustomName", .string ((rest[2]?.map (jsonString dump)).getD [])),
        ("ExecuteOnFirstTick", .byte 1), ("auto", .byte ((rest[1]?.map autoByte).getD 0)),
        ("TickDelay", .int ((rest[0]?.map fun delay =>
          toInt32 (caught (integer delay "TickDelay"))).getD 0)),
        ("conditionalMode", .byte 0), ("TrackOutput", .byte 1),
        ("Version", .int (if hasPart text "execute" then 38 else 19))])
  | _ => none

/-- The names of containers and their ids. -/
def containerIds : List (String × String) :=
  [("minecraft:blast_furnace", "BlastFurnace"), ("minecraft:lit_blast_furnace", "BlastFurnace"),
    ("minecraft:furnace", "Furnace"), ("minecraft:lit_furnace", "Furnace"),
    ("minecraft:smoker", "Smoker"), ("minecraft:lit_smoker", "Smoker"), ("minecraft:chest", "Chest"),
    ("minecraft:trapped_chest", "Chest"), ("minecraft:hopper", "Hopper"),
    ("minecraft:dispenser", "Dispenser"), ("minecraft:dropper", "Dropper"),
    ("minecraft:barrel", "Barrel"), ("minecraft:crafter", "Crafter")]

def containerId (rawName : List Char) : Option String :=
  let name := trim rawName
  match containerIds.find? fun entry => entry.1.toList = name with
  | some entry => some entry.2
  | none => if hasPart name "shulker_box" then some "ShulkerBox" else none

/-- The first of several members that is there and not null. -/
def firstMember (object : Json) (names : List String) : Option Json :=
  names.findSome? fun name => (object.member? name).filter fun value => !(value matches .null)

def integerOrZero (object : Json) (names : List String) : ℤ :=
  ((firstMember object names).map fun value => caught (integer value "")).getD 0

def stringField (object : Json) (names : List String) : List Char :=
  ((firstMember object names).map (jsonString dump)).getD []

def itemName (raw : List Char) : List Char :=
  let name := trim raw
  if name ≠ [] ∧ ':' ∉ name then "minecraft:".toList ++ name else name

def itemBlockNbt (name : List Char) : Compound :=
  compoundOf [("name", .string name), ("states", .compound []), ("val", .short 0),
    ("version", .int 17959425)]

/-- An item of a container: its name, damage, count and slot. -/
def itemNbt (name : List Char) (damage count slot : ℤ) : Compound :=
  compoundOf [("Name", .string name), ("Count", .byte (toSigned 8 count)),
    ("Damage", .short (toSigned 16 damage)), ("Slot", .byte (toSigned 8 slot)),
    ("Block", .compound (itemBlockNbt name).entries)]

/-- The loop body over the items of a container; what is no item is left out. -/
def containerItem (raw : Json) : Option Compound :=
  let parts : Option (List Char × ℤ × ℤ × ℤ) := match raw with
    | .array (name :: damage :: count :: slot :: _) =>
      some (itemName (jsonString dump name), caught (integer damage "Damage"),
        caught (integer count "Count"), caught (integer slot "Slot"))
    | .object members =>
      let raw := Json.object members
      some (itemName (stringField dump raw ["Name", "name", "ns"]),
        integerOrZero raw ["Damage", "damage", "aux"], integerOrZero raw ["Count", "count", "num"],
        integerOrZero raw ["Slot", "slot"])
    | _ => none
  match parts with
  | some (name, damage, count, slot) => if name = [] then none else some (itemNbt name damage count slot)
  | none => none

def containerNbtV3 (blockName : List Char) (payload : Json) : Option Compound :=
  (containerId blockName).map fun id =>
    let items := (payload.items?.getD []).filterMap (containerItem dump)
    compoundOf
      [("id", .string id.toList), ("Findable", .byte 0), ("IsOpened", .byte 0), ("isMovable", .byte 1),
        ("Items", .list .Compound (items.map fun item => .compound item.entries))]

def signText (text : List Char) : Compound :=
  compoundOf [("FilteredText", .string []), ("HideGlowOutline", .byte 0), ("IgnoreLighting", .byte 0),
    ("PersistFormatting", .byte 1), ("SignTextColor", .int (-16777216)), ("Text", .string text),
    ("TextOwner", .string [])]

def signNbt (blockName : List Char) (payload : Json) : Compound :=
  let text := match payload with
    | .array lines => ['\n'].intercalate (lines.map (jsonString dump))
    | payload => jsonString dump payload
  let hanging := "hanging_sign".toList.isSuffixOf (trim blockName)
  compoundOf
    [("id", .string (if hanging then "HangingSign" else "Sign").toList), ("IsWaxed", .byte 0),
      ("isMovable", .byte 1), ("BackText", .compound (signText []).entries),
      ("FrontText", .compound (signText text).entries)]

def extraNbt (blockName : List Char) (payload : Json) : Option Compound :=
  let lower := blockName.map toLower
  if hasPart lower "command_block" then commandNbt dump payload
  else if (containerId blockName).isSome then containerNbtV3 dump blockName payload
  else if hasPart lower "sign" then some (signNbt dump blockName payload)
  else none

end Extras

end FuHong

end WaterStructure
