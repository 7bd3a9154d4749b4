import WaterStructure.Core.Decimal
import WaterStructure.Core.Registry
import WaterStructure.Core.SparseBlockStore
import WaterStructure.Formats.RecordCounts
import WaterStructure.Library.NbtTag
import WaterStructure.Library.SeekReader

/-!
# Construction files

A Construction file ends with a compound that has an index of sections and a palette. A section is a box
of palette indices at its own place; it may lie outside of the bounds, and sections may overlap. `read`
looks through all sections for their block entities and the number of their blocks, but keeps only the
index. `get_chunks` reads the sections again that can meet a requested chunk. How bytes become a compound,
compressed or not, is a matter of other libraries.
-/

namespace WaterStructure

open NbtTag SeekReader

namespace Construction

/-- What the reader leaves to the libraries for compression and NBT. -/
structure Codec (Nbt : Type) where
  /-- The compound of a range of bytes; the text stands before the error. -/
  decode : List UInt8 → String → Except String Compound
  widenFloat : UInt32 → UInt64
  serialize : Compound → Except String Nbt

/-- `constrct` -/
def kMagic : List UInt8 := [99, 111, 110, 115, 116, 114, 99, 116]

def kIndexEntrySize : ℕ := 23

def readExact (file : File) (offset length : ℕ) (context : String) : Except String (List UInt8) :=
  if offset + length ≤ file.length then .ok ((file.drop offset).take length)
  else
    .error (context ++ " truncated at file offset " ++
      toString (offset + min length (file.length - offset)))

def readBigEndianCompound {Nbt : Type} (codec : Codec Nbt) (file : File) (offset length : ℕ)
    (context : String) : Except String Compound := do
  let _ ← readExact file offset (min length 2) context
  let range ← readExact file offset length context
  codec.decode range context

/-! ## Values of compounds -/

def intValue : Option Tag → Option ℤ
  | some (.byte value) => some value
  | some (.short value) => some value
  | some (.int value) => some value
  | some (.long value) => some (toInt32 value)
  | _ => none

def stringValue : Option Tag → Option (List Char)
  | some (.string value) => some value
  | _ => none

/-- An entry of the index: where a section begins, its extents, and its range in the file. -/
structure SectionIndex where
  startX : ℤ
  startY : ℤ
  startZ : ℤ
  shapeX : ℕ
  shapeY : ℕ
  shapeZ : ℕ
  position : ℤ
  length : ℤ

/-- `reinterpret_cast` of a byte array. -/
def unsignedByte (value : ℤ) : UInt8 := UInt8.ofNat (value % 256).toNat

def readLeI32 (data : List UInt8) (offset : ℕ) : ℤ :=
  toInt32 (little ((data.drop offset).take 4))

def indexEntry (data : List UInt8) (offset : ℕ) : SectionIndex where
  startX := readLeI32 data offset
  startY := readLeI32 data (offset + 4)
  startZ := readLeI32 data (offset + 8)
  shapeX := (data[offset + 12]?.getD 0).toNat
  shapeY := (data[offset + 13]?.getD 0).toNat
  shapeZ := (data[offset + 14]?.getD 0).toNat
  position := readLeI32 data (offset + 15)
  length := readLeI32 data (offset + 19)

def parseIndex (raw : List ℤ) : Except String (List SectionIndex) :=
  if raw.length = 0 ∨ raw.length % kIndexEntrySize ≠ 0 then
    .error ("Construction section index length is invalid: " ++ toString raw.length)
  else
    .ok ((List.range (raw.length / kIndexEntrySize)).map fun entry =>
      indexEntry (raw.map unsignedByte) (entry * kIndexEntrySize))

/-- The section has no block to read. -/
def SectionIndex.IsEmpty (part : SectionIndex) : Prop :=
  part.length ≤ 0 ∨ part.shapeX = 0 ∨ part.shapeY = 0 ∨ part.shapeZ = 0

instance (part : SectionIndex) : Decidable part.IsEmpty :=
  inferInstanceAs (Decidable (_ ∨ _ ∨ _ ∨ _))

/-! ## Bounds -/

structure Bounds where
  minimum : BlockPos
  maximum : BlockPos

def Bounds.initial : Bounds := ⟨⟨int32Max, int32Max, int32Max⟩, ⟨int32Min, int32Min, int32Min⟩⟩

def Bounds.widen (bounds : Bounds) (low high : BlockPos) : Bounds where
  minimum := ⟨min bounds.minimum.x low.x, min bounds.minimum.y low.y, min bounds.minimum.z low.z⟩
  maximum := ⟨max bounds.maximum.x high.x, max bounds.maximum.y high.y, max bounds.maximum.z high.z⟩

def Bounds.IsEmpty (bounds : Bounds) : Prop :=
  bounds.maximum.x ≤ bounds.minimum.x ∨ bounds.maximum.y ≤ bounds.minimum.y ∨
    bounds.maximum.z ≤ bounds.minimum.z

instance (bounds : Bounds) : Decidable bounds.IsEmpty :=
  inferInstanceAs (Decidable (_ ∨ _ ∨ _))

/-- The bounds of the selection boxes. -/
def boxBounds (bounds : Bounds) : List ℤ → Bounds
  | x1 :: y1 :: z1 :: x2 :: y2 :: z2 :: rest =>
    boxBounds (bounds.widen ⟨x1, y1, z1⟩ ⟨x2, y2, z2⟩) rest
  | _ => bounds

/-- Widen the bounds by a section. -/
def sectionBounds (bounds : Bounds) (part : SectionIndex) : Except String Bounds :=
  if part.shapeX = 0 ∨ part.shapeY = 0 ∨ part.shapeZ = 0 then .ok bounds
  else
    let high : BlockPos :=
      ⟨part.startX + part.shapeX, part.startY + part.shapeY, part.startZ + part.shapeZ⟩
    if high.x > int32Max ∨ high.y > int32Max ∨ high.z > int32Max then
      .error "Construction section bounds overflow int32"
    else .ok (bounds.widen ⟨part.startX, part.startY, part.startZ⟩ high)

/-- The bounds: those of the selection boxes, or of the sections where there are no boxes of use. -/
def findBounds (metadata : Compound) (sections : List SectionIndex) : Except String Bounds := do
  let boxes := match metadata.lookup "selection_boxes".toList with
    | some (.intArray values) => boxBounds Bounds.initial values
    | _ => Bounds.initial
  let bounds ← if boxes.IsEmpty then sections.foldlM sectionBounds Bounds.initial else .ok boxes
  if bounds.IsEmpty then throw "Construction bounds are invalid"
  return bounds

/-- `checked_product3`. -/
def checkedProduct3 (first second third : ℕ) (context : String) : Except String ℕ :=
  if first ≠ 0 ∧ second > uint64Max / first then .error (context ++ " volume overflow")
  else if first * second ≠ 0 ∧ third > uint64Max / (first * second) then
    .error (context ++ " volume overflow")
  else .ok (first * second * third)

def readSize (bounds : Bounds) : Except String Size := do
  let width := bounds.maximum.x - bounds.minimum.x
  let height := bounds.maximum.y - bounds.minimum.y
  let length := bounds.maximum.z - bounds.minimum.z
  if width ≤ 0 ∨ height ≤ 0 ∨ length ≤ 0 ∨ width > int32Max ∨ height > int32Max ∨
      length > int32Max then
    throw "Construction size exceeds int32 range"
  let _ ← checkedProduct3 width.toNat height.toNat length.toNat "Construction size"
  return ⟨width, height, length⟩

/-! ## The palette -/

/-- `palette_property_variants`. -/
def palettePropertyVariants (name : List Char) : Tag → List BlockStateProperty
  | .byte value => [⟨name, .Int, decimal value⟩]
  | .short value => [⟨name, .Int, decimal value⟩]
  | .int value => [⟨name, .Int, decimal value⟩]
  | .long value => [⟨name, .Int, decimal (toInt32 value)⟩]
  | .string value => [⟨name, .String, value⟩]
  | _ => []

/-- `try_properties`. -/
def tryProperties (registry : StateRegistry) (name : List Char) (properties : List BlockStateProperty) :
    List (List BlockStateProperty) → Option RuntimeId
  | [] => registry.find name properties 0
  | variants :: rest => variants.findSome? fun property =>
    tryProperties registry name (properties ++ [property]) rest

def unknownState : BlockState := ⟨"minecraft:unknown".toList, [], 0⟩

/-- `palette_runtime_id`. -/
def paletteRuntimeId (registry : StateRegistry) (entry : Compound) :
    Except String (RuntimeId × StateRegistry) :=
  match stringValue (entry.lookup "namespace".toList), stringValue (entry.lookup "blockname".toList) with
  | some nameSpace, some blockName =>
    let name := nameSpace ++ [':'] ++ blockName
    let defaultRuntime := registry.find name [] 0
    let properties : Compound := match entry.lookup "properties".toList with
      | some (.compound entries) => SortedMap.ofEntries entries
      | _ => SortedMap.empty
    let options := properties.entries.filterMap fun property =>
      if property.1 = "__version__".toList then none
      else
        let variants := palettePropertyVariants property.1 property.2
        if variants = [] then none else some variants
    match tryProperties registry name [] options with
    | some runtime => .ok (runtime, registry)
    | none =>
      match defaultRuntime with
      | some runtime => .ok (runtime, registry)
      | none =>
        match registry.find unknownState.name [] 0 with
        | some unknown => .ok (unknown, registry)
        | none => .ok (registry.registerState unknownState)
  | _, _ => .error "Construction palette entry is missing namespace/blockname"

def readPalette (registry : StateRegistry) (items : List Tag) :
    Except String (List RuntimeId × StateRegistry) :=
  items.foldlM (fun (palette, registry) item =>
    match item with
    | .compound entries => do
      let (runtime, registry) ← paletteRuntimeId registry (SortedMap.ofEntries entries)
      return (palette ++ [runtime], registry)
    | _ => .error "Construction palette entry is not a compound") ([], registry)

/-- The id for indices outside of the palette; the state is registered in any case. -/
def unknownRuntime (registry : StateRegistry) : RuntimeId × StateRegistry :=
  let registered := registry.registerState unknownState
  match registry.find unknownState.name [] 0 with
  | some unknown => (unknown, registered.2)
  | none => registered

/-! ## Sections -/

/-- `section_blocks`. -/
def sectionBlocks (part : Compound) : Except String (List ℤ) :=
  match intValue (part.lookup "blocks_array_type".toList), part.lookup "blocks".toList with
  | some arrayType, some blocks =>
    let mismatch : Except String (List ℤ) := .error
      ("Construction blocks type does not match blocks_array_type " ++ String.ofList (decimal arrayType))
    match blocks with
    | .byteArray values => if arrayType = 7 then .ok (values.map (· % 256)) else mismatch
    | .intArray values => if arrayType = 11 then .ok values else mismatch
    | .longArray values => if arrayType = 12 then .ok (values.map toInt32) else mismatch
    | _ => mismatch
  | _, _ => .ok []

/-- `section_shape`. -/
def sectionShape (part : Compound) : ℤ × ℤ × ℤ :=
  let shape := ["shape".toList, "size".toList].findSome? fun key =>
    match part.lookup key with
    | some (.list _ [x, y, z]) => do
      let x ← intValue (some x)
      let y ← intValue (some y)
      let z ← intValue (some z)
      return (x, y, z)
    | _ => none
  shape.getD (0, 0, 0)

def sectionContext (sectionIndex : ℕ) : String := "Construction section #" ++ toString sectionIndex

/-- Read a section and check its blocks; `negative` is the error of a negative position. -/
def openSection {Nbt : Type} (codec : Codec Nbt) (file : File) (negative : String) (part : SectionIndex)
    (sectionIndex : ℕ) : Except String (Compound × List ℤ) := do
  let context := sectionContext sectionIndex
  if part.position < 0 then throw (context ++ negative)
  if part.position > file.length ∨ part.length > file.length - part.position then
    throw (context ++ " has invalid range at file offset " ++ String.ofList (decimal part.position))
  let content ← readBigEndianCompound codec file part.position.toNat part.length.toNat context
  let blocks ← sectionBlocks content
  let shape := sectionShape content
  if shape.1 > 0 ∧ shape.2.1 > 0 ∧ shape.2.2 > 0 then
    let expected ← checkedProduct3 shape.1.toNat shape.2.1.toNat shape.2.2.toNat context
    if expected ≠ blocks.length then throw (context ++ " block count mismatch")
  if blocks.length ≠ 0 ∧ blocks.length < part.shapeX * part.shapeY * part.shapeZ then
    throw (context ++ " blocks are truncated at index " ++ toString blocks.length)
  return (content, blocks)

/-- The index of a block in its section. -/
def SectionIndex.blockIndex (part : SectionIndex) (x y z : ℕ) : ℕ :=
  (x * part.shapeY + y) * part.shapeZ + z

/-- The id of a palette index. -/
def runtimeOf (palette : List RuntimeId) (unknown : RuntimeId) (paletteIndex : ℤ) : RuntimeId :=
  if 0 ≤ paletteIndex then palette[paletteIndex.toNat]?.getD unknown else unknown

/-- The number of blocks of a section that are not air. -/
def countBlocks (palette : List RuntimeId) (unknown air : RuntimeId) (part : SectionIndex)
    (blocks : List ℤ) : ℕ :=
  if blocks.length ≠ 0 then
    (List.range part.shapeX).foldl (fun count x =>
      (List.range part.shapeY).foldl (fun count y =>
        (List.range part.shapeZ).foldl (fun count z =>
          if runtimeOf palette unknown (blocks[part.blockIndex x y z]?.getD 0) = air then count
          else count + 1) count) count) 0
  else 0

/-! ## Block entities -/

mutual

/-- `normalize_nbt`. -/
def normalizeNbt (widenFloat : UInt32 → UInt64) : Tag → Tag
  | .byte value => .int value
  | .short value => .int value
  | .int value => .int value
  | .long value => .int (toInt32 value)
  | .float bits => .double (widenFloat bits)
  | .double bits => .double bits
  | .byteArray values => .byteArray values
  | .string value => .string value
  | .list element items => .list (normalType element) (normalizeItems widenFloat items)
  | .compound entries => .compound (normalizeEntries widenFloat entries)
  | .intArray values => .intArray values
  | .longArray values => .longArray values
termination_by structural tag => tag
where
  /-- The type of the items after their change. -/
  normalType : TagType → TagType
    | .Byte => .Int
    | .Short => .Int
    | .Long => .Int
    | .Float => .Double
    | other => other

def normalizeItems (widenFloat : UInt32 → UInt64) : List Tag → List Tag
  | [] => []
  | item :: rest => normalizeNbt widenFloat item :: normalizeItems widenFloat rest
termination_by structural items => items

def normalizeEntries (widenFloat : UInt32 → UInt64) : Entries → Entries
  | [] => []
  | entry :: rest => normalizeEntry widenFloat entry :: normalizeEntries widenFloat rest
termination_by structural entries => entries

def normalizeEntry (widenFloat : UInt32 → UInt64) : List Char × Tag → List Char × Tag
  | (name, tag) => (name, normalizeNbt widenFloat tag)
termination_by structural entry => entry

end

/-- The block entity that an item of a section stands for, with its place. -/
def readEntity {Nbt : Type} (codec : Codec Nbt) (minimum : BlockPos) :
    Tag → Except String (Option (BlockPos × Nbt))
  | .compound entries =>
    let entity : Compound := SortedMap.ofEntries entries
    match intValue (entity.lookup ['x']), intValue (entity.lookup ['y']), intValue (entity.lookup ['z']) with
    | some x, some y, some z => do
      let normalized : Compound := match entity.lookup "nbt".toList with
        | some (.compound entries) => SortedMap.ofEntries (normalizeEntries codec.widenFloat entries)
        | _ => SortedMap.empty
      let nameSpace := (stringValue (entity.lookup "namespace".toList)).getD []
      let baseName := (stringValue (entity.lookup "base_name".toList)).getD []
      let named : Compound :=
        if (normalized.lookup "id".toList).isSome ∨ baseName = [] then normalized
        else normalized.set "id".toList
          (.string (if nameSpace = [] then baseName else nameSpace ++ [':'] ++ baseName))
      let payload ← codec.serialize named
      return some (⟨toInt32 (x - minimum.x), toInt32 (y - minimum.y), toInt32 (z - minimum.z)⟩, payload)
    | _, _, _ => .ok none
  | _ => .ok none

/-- The block entities of a section. -/
def readEntities {Nbt : Type} (codec : Codec Nbt) (minimum : BlockPos) (content : Compound)
    (store : SparseBlockStore Nbt) : Except String (SparseBlockStore Nbt) :=
  match content.lookup "block_entities".toList with
  | some (.list _ items) => items.foldlM (fun store item => do
      match ← readEntity codec minimum item with
      | some (position, payload) => return store.putEntity position (some payload)
      | none => return store) store
  | _ => .ok store

end Construction

/-- `ConstructionReader`, with the fields of its state. -/
structure ConstructionReader (Nbt : Type) where
  store : SparseBlockStore Nbt
  originalSize : Size
  minimum : BlockPos
  sections : List Construction.SectionIndex
  palette : List RuntimeId
  unknownRuntime : RuntimeId
  nonAirBlocks : ℕ

namespace ConstructionReader

open Construction

variable {Nbt : Type}

def setOffset (reader : ConstructionReader Nbt) (offset : BlockPos) : ConstructionReader Nbt :=
  { reader with store := reader.store.setOffset offset }

/-- The part of `read` before the sections. -/
def readMetadata (codec : Codec Nbt) (file : File) : Except String Compound := do
  if file.length < kMagic.length * 2 + 5 then
    throw ("file is truncated at offset " ++ toString file.length)
  let header ← readExact file 0 (kMagic.length + 1) "Construction header"
  if header.take kMagic.length ≠ kMagic then throw "invalid header magic at offset 0"
  if header.drop kMagic.length ≠ [0] then
    throw ("unsupported format version " ++ toString ((header[kMagic.length]?.getD 0).toNat) ++
      " at offset " ++ toString kMagic.length)
  let footer ← readExact file (file.length - 12) 12 "Construction footer"
  if footer.drop 4 ≠ kMagic then
    throw ("invalid footer magic at offset " ++ toString (file.length - kMagic.length))
  let metadataStart := little (footer.take 4).reverse
  if metadataStart < kMagic.length + 1 ∨ metadataStart ≥ file.length - 12 then
    throw ("invalid metadata pointer " ++ toString metadataStart ++ " at file offset " ++
      toString (file.length - 12))
  readBigEndianCompound codec file metadataStart (file.length - 12 - metadataStart)
    "Construction metadata"

def indexTable (metadata : Compound) : Except String (List ℤ) :=
  match metadata.lookup "section_index_table".toList with
  | some (.byteArray raw) => .ok raw
  | _ => .error "Construction metadata section_index_table is missing or invalid"

def blockPalette (metadata : Compound) : Except String (List Tag) :=
  match metadata.lookup "block_palette".toList with
  | some (.list _ (item :: rest)) => .ok (item :: rest)
  | _ => .error "Construction metadata block_palette is missing or empty"

/-- What `read` does with a section: count its blocks and store its block entities. -/
def readSection (codec : Codec Nbt) (file : File) (air : RuntimeId) (minimum : BlockPos)
    (palette : List RuntimeId) (unknown : RuntimeId) (state : SparseBlockStore Nbt × ℕ)
    (part : SectionIndex × ℕ) : Except String (SparseBlockStore Nbt × ℕ) :=
  if part.1.IsEmpty then .ok state
  else do
    let (content, blocks) ← openSection codec file
      (" has invalid range at file offset " ++ String.ofList (decimal part.1.position)) part.1 part.2
    let store ← readEntities codec minimum content state.1
    return (store, state.2 + countBlocks palette unknown air part.1 blocks)

/-- `read`, without what stands before its errors; the palette may add a state to the registry. -/
def read (codec : Codec Nbt) (registry : StateRegistry) (file : File) :
    Except String (ConstructionReader Nbt × StateRegistry) := do
  let metadata ← readMetadata codec file
  let raw ← indexTable metadata
  let items ← blockPalette metadata
  let sections ← parseIndex raw
  let bounds ← findBounds metadata sections
  let size ← readSize bounds
  let (palette, registry) ← Construction.readPalette registry items
  let (unknown, registry) := Construction.unknownRuntime registry
  let (store, nonAirBlocks) ← sections.zipIdx.foldlM
    (readSection codec file registry.airRuntimeId bounds.minimum palette unknown)
    ((({} : SparseBlockStore Nbt).setSize size), 0)
  return ({
    store
    originalSize := size
    minimum := bounds.minimum
    sections
    palette
    unknownRuntime := unknown
    nonAirBlocks }, registry)

/-! ## Chunks -/

/-- The chunks that a section can meet after clipping: their least and their greatest position. -/
def chunkRange (reader : ConstructionReader Nbt) (part : SectionIndex) : Option (ChunkPos × ChunkPos) :=
  let localMinX := part.startX - reader.minimum.x
  let localMinZ := part.startZ - reader.minimum.z
  let clippedMinX := max 0 localMinX
  let clippedMinZ := max 0 localMinZ
  let clippedMaxX := min (reader.originalSize.width - 1) (localMinX + part.shapeX - 1)
  let clippedMaxZ := min (reader.originalSize.length - 1) (localMinZ + part.shapeZ - 1)
  if clippedMinX > clippedMaxX ∨ clippedMinZ > clippedMaxZ then none
  else
    let offset := reader.store.offset
    some (⟨floorDiv64 (clippedMinX + offset.x) 16, floorDiv64 (clippedMinZ + offset.z) 16⟩,
      ⟨floorDiv64 (clippedMaxX + offset.x) 16, floorDiv64 (clippedMaxZ + offset.z) 16⟩)

/-- A requested chunk is in the range of the section. -/
def meets (reader : ConstructionReader Nbt) (positions : List ChunkPos) (part : SectionIndex) : Bool :=
  match reader.chunkRange part with
  | none => false
  | some (low, high) => positions.any fun position =>
    low.x ≤ position.x ∧ position.x ≤ high.x ∧ low.z ≤ position.z ∧ position.z ≤ high.z

/-- Store the block of a cell of a section in its chunk. -/
def placeBlock (reader : ConstructionReader Nbt) (air : RuntimeId) (part : SectionIndex × ℕ)
    (blocks : List ℤ) (chunkPosition : ChunkPos) (x z : ℕ) (worldX worldZ : ℤ) (chunks : ChunkMap)
    (y : ℕ) : Except String ChunkMap :=
  let localY := part.1.startY - reader.minimum.y + y
  if localY < 0 ∨ localY ≥ reader.originalSize.height then .ok chunks
  else
    let runtime := runtimeOf reader.palette reader.unknownRuntime
      (blocks[part.1.blockIndex x y z]?.getD 0)
    if runtime = air then .ok chunks
    else
      let worldY := localY + reader.store.offset.y
      if ¬ IsInt32 worldY then .error (sectionContext part.2 ++ " Y coordinate exceeds int32 range")
      else
        let subY := floorDiv64 (worldY - 64) 16
        if ¬ IsInt32 subY then .error (sectionContext part.2 ++ " subchunk Y exceeds int32 range")
        else
          .ok (AssocMap.update chunks chunkPosition fun chunk => chunk.setBlock air subY
            ((floorMod64 (worldY - 64) 16 * 16 + floorMod64 worldZ 16) * 16 +
              floorMod64 worldX 16).toNat runtime)

/-- The blocks of a section above one place. -/
def placeColumn (reader : ConstructionReader Nbt) (air : RuntimeId) (part : SectionIndex × ℕ)
    (blocks : List ℤ) (x : ℕ) (worldX : ℤ) (chunks : ChunkMap) (z : ℕ) : Except String ChunkMap :=
  let localZ := part.1.startZ - reader.minimum.z + z
  if localZ < 0 ∨ localZ ≥ reader.originalSize.length then .ok chunks
  else
    let worldZ := localZ + reader.store.offset.z
    if ¬ IsInt32 worldZ then .error (sectionContext part.2 ++ " Z coordinate exceeds int32 range")
    else
      let chunkPosition : ChunkPos := ⟨floorDiv64 worldX 16, floorDiv64 worldZ 16⟩
      if ¬ IsInt32 chunkPosition.x ∨ ¬ IsInt32 chunkPosition.z then
        .error (sectionContext part.2 ++ " chunk coordinate exceeds int32 range")
      else if (chunks.lookup chunkPosition).isNone then .ok chunks
      else
        (List.range part.1.shapeY).foldlM
          (reader.placeBlock air part blocks chunkPosition x z worldX worldZ) chunks

/-- The blocks of a section at one x. -/
def placeSlice (reader : ConstructionReader Nbt) (air : RuntimeId) (part : SectionIndex × ℕ)
    (blocks : List ℤ) (chunks : ChunkMap) (x : ℕ) : Except String ChunkMap :=
  let localX := part.1.startX - reader.minimum.x + x
  if localX < 0 ∨ localX ≥ reader.originalSize.width then .ok chunks
  else
    let worldX := localX + reader.store.offset.x
    if ¬ IsInt32 worldX then .error (sectionContext part.2 ++ " X coordinate exceeds int32 range")
    else (List.range part.1.shapeZ).foldlM (reader.placeColumn air part blocks x worldX) chunks

/-- Read a section again and store its blocks. -/
def fillSection (codec : Codec Nbt) (file : File) (reader : ConstructionReader Nbt) (air : RuntimeId)
    (chunks : ChunkMap) (part : SectionIndex × ℕ) : Except String ChunkMap := do
  let (_, blocks) ← openSection codec file " has negative file offset" part.1 part.2
  if blocks.length = 0 then return chunks
  else (List.range part.1.shapeX).foldlM (reader.placeSlice air part blocks) chunks

/-- `materialize_chunks` while the file is the one that has been read. -/
def getChunks (codec : Codec Nbt) (file : File) (reader : ConstructionReader Nbt) (air : RuntimeId)
    (positions : List ChunkPos) : Except String ChunkMap :=
  if positions = [] then .ok (ChunkMap.emplaceAll positions)
  else
    reader.sections.zipIdx.foldlM (fun chunks part =>
      if part.1.IsEmpty then .ok chunks
      else if reader.meets positions part.1 then fillSection codec file reader air chunks part
      else .ok chunks) (ChunkMap.emplaceAll positions)

end ConstructionReader

end WaterStructure
