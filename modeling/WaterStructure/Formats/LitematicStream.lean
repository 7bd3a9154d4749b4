import WaterStructure.Core.Decimal
import WaterStructure.Core.GridStream
import WaterStructure.Library.NbtReader

/-!
# Reading a Litematic without its tree

The reader goes through the tags of a document once, keeps the fields of one region and skips the rest. That
region is the first one by name, whose name may come late, and of the tags with one key the first counts.
`room` is the number of levels that are left, `kMaxNbtDepth + 1 - depth` in the words of the code. The payload
of a block entity is given by the entries that are written again.
-/

namespace WaterStructure

namespace LitematicStream

open ByteReader NbtReader NbtTag

def kMaxNbtDepth : ℕ := 1024

def stringMessage : String := "Error reading string"

def skipBytes (byteCount : ℕ) : Reader Unit := fun input =>
  if input.length < byteCount then .error "Error skipping NBT payload" else .ok ((), input.drop byteCount)

/-- `skip_payload`; no room is a failed `check_depth`. -/
def skipPayload : (room : ℕ) → TagType → Reader Unit
  | 0, _ => fail "Too deeply nested"
  | room + 1, type =>
    match type with
    | .Byte => do
      let _ ← signed 1 "Error reading tag_byte"
      pure ()
    | .Short => do
      let _ ← signed 2 "Error reading tag_short"
      pure ()
    | .Int => do
      let _ ← signed 4 "Error reading tag_int"
      pure ()
    | .Long => do
      let _ ← signed 8 "Error reading tag_long"
      pure ()
    | .Float => do
      let _ ← number 4 "Error reading tag_float"
      pure ()
    | .Double => do
      let _ ← number 8 "Error reading tag_double"
      pure ()
    | .ByteArray => do
      let length ← readLength "Error reading length of tag_byte_array"
      skipBytes length
    | .String => do
      let _ ← readString stringMessage
      pure ()
    | .List => do
      let element ← readType true
      let length ← readLength "Error reading length of tag_list"
      -- the length of a list of end tags does not count
      if element = .End then pure ()
      else times (fun _ => skipPayload room element) length ()
    | .Compound => readEntries (fun _ => stringMessage) (fun _ _ type => skipPayload room type) ()
    | .IntArray => do
      let length ← readLength "Error reading length of tag_int_array"
      skipBytes (length * 4)
    | .LongArray => do
      let length ← readLength "Error reading length of tag_long_array"
      skipBytes (length * 8)
    | .End => fail "Invalid NBT payload type"

/-- `read_int_value` -/
def readIntValue (room : ℕ) : TagType → Reader (Option ℤ)
  | .Byte => do
    let value ← signed 1 "Error reading integer byte"
    pure (some value)
  | .Short => do
    let value ← signed 2 "Error reading integer short"
    pure (some value)
  | .Int => do
    let value ← signed 4 "Error reading integer int"
    pure (some value)
  | .Long => do
    let value ← signed 8 "Error reading integer long"
    pure (some (Int.bmod value 4294967296))
  | type => do
    skipPayload room type
    pure none

structure XyzState where
  result : BlockPos := ⟨0, 0, 0⟩
  seenX : Bool := false
  seenY : Bool := false
  seenZ : Bool := false

/-- A turn of the loop of `read_xyz_compound`. -/
def xyzEntry (room : ℕ) (state : XyzState) (key : List Char) (type : TagType) : Reader XyzState :=
  if key = "x".toList ∧ state.seenX = false then do
    let value ← readIntValue room type
    pure { state with seenX := true, result := { state.result with x := value.getD 0 } }
  else if key = "y".toList ∧ state.seenY = false then do
    let value ← readIntValue room type
    pure { state with seenY := true, result := { state.result with y := value.getD 0 } }
  else if key = "z".toList ∧ state.seenZ = false then do
    let value ← readIntValue room type
    pure { state with seenZ := true, result := { state.result with z := value.getD 0 } }
  else do
    skipPayload room type
    pure state

/-- `read_xyz_compound` -/
def readXyzCompound : (room : ℕ) → Reader BlockPos
  | 0 => fail "Too deeply nested"
  | room + 1 => do
    let state ← readEntries (fun _ => stringMessage) (xyzEntry room) {}
    pure state.result

/-- `EncodedProperties`; a property without a value keeps its key. -/
abbrev EncodedProperties := SortedMap (List Char) (Option (List Char))

/-- `read_property_value` -/
def readPropertyValue (room : ℕ) : TagType → Reader (Option (List Char))
  | .Byte => do
    let value ← signed 1 "Error reading property byte"
    pure (some (if value = 0 then "false".toList else "true".toList))
  | .Short => do
    let value ← signed 2 "Error reading property short"
    pure (some (decimal value))
  | .Int => do
    let value ← signed 4 "Error reading property int"
    pure (some (decimal value))
  | .Long => do
    let value ← signed 8 "Error reading property long"
    pure (some (decimal value))
  | .String => do
    let value ← readString stringMessage
    pure (some value)
  | type => do
    skipPayload room type
    pure none

/-- A turn of the loop of `read_properties_compound`. -/
def propertyEntry (room : ℕ) (values : EncodedProperties) (name : List Char) (type : TagType) :
    Reader EncodedProperties :=
  if (values.lookup name).isSome then do
    skipPayload room type
    pure values
  else do
    let value ← readPropertyValue room type
    pure (values.emplace name value)

/-- `read_properties_compound` -/
def readPropertiesCompound : (room : ℕ) → Reader EncodedProperties
  | 0 => fail "Too deeply nested"
  | room + 1 => readEntries (fun _ => stringMessage) (propertyEntry room) {}

/-- The text of a palette entry: its name, and its properties in brackets unless there are none. -/
def encodedName (name : List Char) : Option (List (List Char × Option (List Char))) → List Char
  | none | some [] => name
  | some values =>
    name ++ '[' :: [','].intercalate (values.filterMap fun property =>
      property.2.map fun value => property.1 ++ '=' :: value) ++ [']']

def unknownName : List Char := "minecraft:unknown".toList

structure PaletteEntryState where
  name : List Char := unknownName
  seenName : Bool := false
  seenProperties : Bool := false
  properties : Option EncodedProperties := none

/-- A turn of the loop of `read_palette_entry`. -/
def paletteField (room : ℕ) (state : PaletteEntryState) (key : List Char) (type : TagType) :
    Reader PaletteEntryState :=
  if key = "Name".toList ∧ state.seenName = false then
    if type = .String then do
      let name ← readString stringMessage
      pure { state with seenName := true, name := name }
    else do
      skipPayload room type
      pure { state with seenName := true }
  else if key = "Properties".toList ∧ state.seenProperties = false then
    if type = .Compound then do
      let properties ← readPropertiesCompound room
      pure { state with seenProperties := true, properties := some properties }
    else do
      skipPayload room type
      pure { state with seenProperties := true }
  else do
    skipPayload room type
    pure state

/-- `read_palette_entry` -/
def readPaletteEntry : (room : ℕ) → Reader (List Char)
  | 0 => fail "Too deeply nested"
  | room + 1 => do
    let state ← readEntries (fun _ => stringMessage) (paletteField room) {}
    pure (encodedName state.name (state.properties.map SortedMap.entries))

/-- A turn of the loop of `read_palette_list`. -/
def paletteItem (room : ℕ) (element : TagType) (result : List (List Char)) : Reader (List (List Char)) :=
  if element = .Compound then do
    let name ← readPaletteEntry room
    pure (result ++ [name])
  else do
    skipPayload room element
    pure (result ++ [unknownName])

/-- `read_palette_list` -/
def readPaletteList : (room : ℕ) → Reader (List (List Char))
  | 0 => fail "Too deeply nested"
  | room + 1 => do
    let element ← readType true
    let length ← readLength "Error reading Litematic palette length"
    if element = .End then pure []
    else times (paletteItem room element) length []

/-- `read_long_array` -/
def readLongArray : Reader (List ℤ) := do
  let length ← readLength "Error reading length of tag_long_array"
  readValues 8 "Error reading contents of tag_long_array" length

/-- The value that `int_value` takes from a tag. -/
def intValue : Tag → Option ℤ
  | .byte value | .short value | .int value => some value
  | .long value => some (Int.bmod value 4294967296)
  | _ => none

/-- `int_value` -/
def intAt (compound : Entries) (key : String) : Option ℤ := (SortedMap.find compound key.toList).bind intValue

/-- The block entity of a compound that has its three coordinates. -/
def entityOf : Tag → Option (BlockEntity Entries)
  | .compound entries => do
    let x ← intAt entries "x"
    let y ← intAt entries "y"
    let z ← intAt entries "z"
    return ⟨⟨x, y, z⟩, entries⟩
  | _ => none

/-- A turn of the loop of `read_tile_entities`; an entity is read as a payload of its own. -/
def tileEntity (room : ℕ) (element : TagType) (result : List (BlockEntity Entries)) :
    Reader (List (BlockEntity Entries)) :=
  if element ≠ .Compound then do
    skipPayload room element
    pure result
  else do
    let tag ← readPayload maxDepth .Compound
    pure (result ++ (entityOf tag).toList)

/-- `read_tile_entities` -/
def readTileEntities : (room : ℕ) → Reader (List (BlockEntity Entries))
  | 0 => fail "Too deeply nested"
  | room + 1 => do
    let element ← readType true
    let length ← readLength "Error reading Litematic TileEntities length"
    if element = .End then pure []
    else times (tileEntity room element) length []

inductive RequiredFieldState where
  | Missing
  | WrongType
  | Valid
  deriving DecidableEq

@[ext]
structure StreamedRegion where
  positionState : RequiredFieldState := .Missing
  sizeState : RequiredFieldState := .Missing
  paletteState : RequiredFieldState := .Missing
  blockStatesState : RequiredFieldState := .Missing
  position : BlockPos := ⟨0, 0, 0⟩
  signedSize : BlockPos := ⟨0, 0, 0⟩
  palette : List (List Char) := []
  packedStates : List ℤ := []
  blockEntities : List (BlockEntity Entries) := []

/-- The region while it is read. -/
structure RegionState where
  region : StreamedRegion := {}
  seenTileEntities : Bool := false

/-- Read a field if it has the expected type, and skip it otherwise. -/
def readField {α : Type} (room : ℕ) (type expected : TagType) (read : Reader α) (valid : α → RegionState)
    (wrongType : RegionState) : Reader RegionState :=
  if type = expected then do
    let value ← read
    pure (valid value)
  else do
    skipPayload room type
    pure wrongType

/-- A turn of the loop of `read_region_compound`. -/
def regionEntry (room : ℕ) (state : RegionState) (key : List Char) (type : TagType) : Reader RegionState :=
  let region := state.region
  if key = "Position".toList ∧ region.positionState = .Missing then
    readField room type .Compound (readXyzCompound room)
      (fun value => { state with region := { region with position := value, positionState := .Valid } })
      { state with region := { region with positionState := .WrongType } }
  else if key = "Size".toList ∧ region.sizeState = .Missing then
    readField room type .Compound (readXyzCompound room)
      (fun value => { state with region := { region with signedSize := value, sizeState := .Valid } })
      { state with region := { region with sizeState := .WrongType } }
  else if key = "BlockStatePalette".toList ∧ region.paletteState = .Missing then
    readField room type .List (readPaletteList room)
      (fun value => { state with region := { region with palette := value, paletteState := .Valid } })
      { state with region := { region with paletteState := .WrongType } }
  else if key = "BlockStates".toList ∧ region.blockStatesState = .Missing then
    readField room type .LongArray readLongArray
      (fun value => { state with region := { region with packedStates := value, blockStatesState := .Valid } })
      { state with region := { region with blockStatesState := .WrongType } }
  else if key = "TileEntities".toList ∧ state.seenTileEntities = false then
    readField room type .List (readTileEntities room)
      (fun value => { state with region := { region with blockEntities := value }, seenTileEntities := true })
      { state with seenTileEntities := true }
  else do
    skipPayload room type
    pure state

/-- `read_region_compound` -/
def readRegionCompound : (room : ℕ) → Reader StreamedRegion
  | 0 => fail "Too deeply nested"
  | room + 1 => do
    let state ← readEntries (fun _ => stringMessage) (regionEntry room) {}
    pure state.region

structure StreamedRegions where
  hasEntry : Bool := false
  selectedIsCompound : Bool := false
  selectedName : List Char := []
  selected : StreamedRegion := {}

/-- A turn of the loop of `read_regions_compound`. -/
def regionsEntry (room : ℕ) (result : StreamedRegions) (name : List Char) (type : TagType) :
    Reader StreamedRegions :=
  if result.hasEntry = false ∨ name < result.selectedName then
    if type = .Compound then do
      let selected ← readRegionCompound room
      pure ⟨true, true, name, selected⟩
    else do
      skipPayload room type
      pure ⟨true, false, name, {}⟩
  else do
    skipPayload room type
    pure result

/-- `read_regions_compound` -/
def readRegionsCompound : (room : ℕ) → Reader StreamedRegions
  | 0 => fail "Too deeply nested"
  | room + 1 => readEntries (fun _ => stringMessage) (regionsEntry room) {}

structure StreamedRoot where
  regionsPresent : Bool := false
  regionsIsCompound : Bool := false
  regions : StreamedRegions := {}

/-- A turn of the loop of `read_litematic_root`. -/
def rootEntry (result : StreamedRoot) (key : List Char) (type : TagType) : Reader StreamedRoot :=
  if key = "Regions".toList ∧ result.regionsPresent = false then
    if type = .Compound then do
      let regions ← readRegionsCompound kMaxNbtDepth
      pure ⟨true, true, regions⟩
    else do
      skipPayload kMaxNbtDepth type
      pure { result with regionsPresent := true, regionsIsCompound := false }
  else do
    skipPayload kMaxNbtDepth type
    pure result

/-- `read_litematic_root` -/
def readLitematicRoot : Reader StreamedRoot := do
  let type ← readType false
  failIf (type ≠ .Compound) "Tag is not a compound"
  let _ ← readString stringMessage
  readEntries (fun _ => stringMessage) rootEntry {}

end LitematicStream

end WaterStructure
