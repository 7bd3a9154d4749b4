import WaterStructure.Core.BlockEntities
import WaterStructure.Core.Decimal
import WaterStructure.Library.NbtTag

/-!
# MCStructure: reading

A file has two lists of palette indices, in the order of x, y and z, a palette, and entities under
the index of their cell, as text. The reader walks over the document once. The registry is a
parameter, and so is the form in which the NBT data of an entity is kept.
-/

namespace WaterStructure

open NbtTag

/-- The registry as the reader of a palette sees it; `unknown` is what it gives for other states. -/
structure PaletteRegistry where
  air : RuntimeId
  unknown : RuntimeId
  find : List Char → List BlockStateProperty → Option RuntimeId
  findName : List Char → Option RuntimeId

/-- The bytes of a payload, which hold the entries of a compound or no document. -/
structure PayloadFormat (Payload : Type) where
  empty : Payload → Bool
  document : Payload → Option Entries
  serialize : Compound → Payload

namespace McStructure

/-- Indices are kept in 16 bits until one does not fit. -/
inductive BlockIndexArray where
  | compact (values : List UInt16)
  | full (values : List ℤ)

namespace BlockIndexArray

def empty : BlockIndexArray := .compact []

def decodeCompact (encoded : UInt16) : ℤ := if encoded = 65535 then -1 else (encoded.toNat : ℤ)

def pushBack : BlockIndexArray → ℤ → BlockIndexArray
  | .compact values, value =>
    if value ≥ -1 ∧ value ≤ 65534 then
      .compact (values ++ [if value < 0 then 65535 else UInt16.ofNat value.toNat])
    else .full (values.map decodeCompact ++ [value])
  | .full values, value => .full (values ++ [value])

def size : BlockIndexArray → ℕ
  | .compact values => values.length
  | .full values => values.length

def at? : BlockIndexArray → ℕ → Option ℤ
  | .compact values, index => values[index]?.map decodeCompact
  | .full values, index => values[index]?

end BlockIndexArray

end McStructure

structure McStructure (Payload : Type) where
  originalSize : Size := ⟨0, 0, 0⟩
  size : Size := ⟨0, 0, 0⟩
  offset : BlockPos := ⟨0, 0, 0⟩
  primaryIndices : McStructure.BlockIndexArray := .empty
  secondaryIndices : McStructure.BlockIndexArray := .empty
  palette : List RuntimeId := []
  blockEntities : AList fun _ : ℤ => Payload := ∅
  nonAirBlocks : ℕ := 0

namespace McStructure

variable {Payload : Type}

def setOffset (s : McStructure Payload) (offset : BlockPos) : McStructure Payload :=
  { s with
    offset
    size := ⟨s.originalSize.width + |offset.x|, s.originalSize.height + |offset.y|,
      s.originalSize.length + |offset.z|⟩ }

def isIntegerType (type : TagType) : Bool :=
  type = .Byte || type = .Short || type = .Int || type = .Long

/-- `read_integer` and `int_value`. -/
def readInteger : Tag → Option ℤ
  | .byte value => some value
  | .short value => some value
  | .int value => some value
  | .long value => some (toInt32 value)
  | _ => none

/-- The elements of a list of integers. -/
def readIntegers (items : List Tag) : Except String (List ℤ) :=
  items.mapM fun item =>
    match readInteger item with
    | some value => .ok value
    | none => .error "MCStructure NBT value is not an integer"

def stateProperty (name : List Char) : Tag → Option BlockStateProperty
  | .byte value => some ⟨name, .Byte, decimal value⟩
  | .short value => some ⟨name, .Short, decimal value⟩
  | .int value => some ⟨name, .Int, decimal value⟩
  | .long value => some ⟨name, .Long, decimal value⟩
  | .string value => some ⟨name, .String, value⟩
  | _ => none

/-- The state of a palette entry. -/
def paletteState (block : Compound) : BlockState where
  name :=
    match block.lookup "name".toList with
    | some (.string name) => name
    | _ => "minecraft:unknown".toList
  states :=
    match block.lookup "states".toList with
    | some (.compound states) =>
      (SortedMap.ofEntries states).entries.filterMap fun property =>
        stateProperty property.1 property.2
    | _ => []
  version := ((block.lookup "version".toList).bind readInteger).getD 0

/-- `append_palette_entry`. -/
def resolveState (registry : PaletteRegistry) (state : BlockState) : RuntimeId :=
  if state.name = "minecraft:air".toList ∧ state.states = [] then registry.air
  else ((registry.find state.name state.states).or (registry.findName state.name)).getD
    registry.unknown

/-- What `read` has seen. -/
structure ReadState (Payload : Type) where
  result : McStructure Payload := {}
  hasSize : Bool := false
  hasStructure : Bool := false
  hasIndices : Bool := false
  hasPalette : Bool := false
  hasDefaultPalette : Bool := false
  hasBlockPalette : Bool := false

def readSize (state : ReadState Payload) (element : TagType) (items : List Tag) :
    Except String (ReadState Payload) :=
  if items.length < 3 ∨ items.length > 1024 ∨ ¬ isIntegerType element then
    .error "MCStructure size 格式无效"
  else do
    let values ← readIntegers items
    let size : Size := ⟨values.getD 0 0, values.getD 1 0, values.getD 2 0⟩
    if size.width ≤ 0 ∨ size.height ≤ 0 ∨ size.length ≤ 0 then .error "MCStructure size 无效"
    else return { state with result := { state.result with originalSize := size, size },
                             hasSize := true }

/-- One of the two layers. -/
def readLayer : Tag → Except String BlockIndexArray
  | .list element items =>
    if ¬ isIntegerType element then .error "MCStructure block index 不是整数列表"
    else return (← readIntegers items).foldl .pushBack .empty
  | _ => .error "MCStructure block_indices 格式无效"

def readIndices (state : ReadState Payload) (element : TagType) (items : List Tag) :
    Except String (ReadState Payload) :=
  if element ≠ .List then .error "MCStructure block_indices 格式无效"
  else
    match items with
    | [primary, secondary] => do
      let primaryIndices ← readLayer primary
      let secondaryIndices ← readLayer secondary
      return { state with result := { state.result with primaryIndices, secondaryIndices },
                          hasIndices := true }
    | _ => .error "MCStructure block_indices 层数无效"

/-- An element of the palette. -/
def readPaletteEntry (registry : PaletteRegistry) : Tag → Except String RuntimeId
  | .compound entries => do
    let block ← readCompoundPayload entries
    return resolveState registry (paletteState block)
  | _ => return registry.unknown

def readBlockPalette (registry : PaletteRegistry) (state : ReadState Payload) (items : List Tag) :
    Except String (ReadState Payload) := do
  let palette ← items.mapM (readPaletteEntry registry)
  return { state with result := { state.result with palette }, hasBlockPalette := true }

/-- The entity data among the entries of a position; the last one counts. -/
def readEntityData (format : PayloadFormat Payload) (validIndex : Bool) (entries : Entries) :
    Except String (Option Payload) :=
  entries.foldlM (fun payload entry =>
    match entry with
    | (key, .compound data) =>
      if validIndex ∧ key = "block_entity_data".toList then do
        let compound ← readCompoundPayload data
        return some (format.serialize compound)
      else return payload
    | _ => return payload) none

/-- Entities so far, with the text of the key under which each was found. -/
structure PositionState (Payload : Type) where
  blockEntities : AList fun _ : ℤ => Payload
  sourceKeys : AList fun _ : ℤ => List Char := ∅

/-- One position; among texts with one index the least one counts. -/
def readPosition (format : PayloadFormat Payload) (state : PositionState Payload) :
    List Char × Tag → Except String (PositionState Payload)
  | (indexText, .compound entries) => do
    let index := fromChars indexText
    match index, ← readEntityData format index.isSome entries with
    | some index, some payload =>
      match state.sourceKeys.lookup index with
      | none =>
        return { blockEntities := AssocMap.tryEmplace state.blockEntities index payload
                 sourceKeys := state.sourceKeys.insert index indexText }
      | some source =>
        if indexText < source then
          return { blockEntities := state.blockEntities.insert index payload
                   sourceKeys := state.sourceKeys.insert index indexText }
        else return state
    | _, _ => return state
  | _ => return state

def readPositionData (format : PayloadFormat Payload) (state : ReadState Payload)
    (entries : Entries) : Except String (ReadState Payload) := do
  let found ← entries.foldlM (readPosition format) { blockEntities := state.result.blockEntities }
  return { state with result := { state.result with blockEntities := found.blockEntities } }

/-- What is known of the default palette, and which of its keys have occurred. -/
structure DefaultState (Payload : Type) where
  state : ReadState Payload
  sawBlockPalette : Bool := false
  sawPositionData : Bool := false

/-- An entry of the default palette; of keys that occur twice the first counts, whatever its type
is. -/
def readDefaultEntry (registry : PaletteRegistry) (format : PayloadFormat Payload)
    (found : DefaultState Payload) (entry : List Char × Tag) : Except String (DefaultState Payload) :=
  if entry.1 = "block_palette".toList ∧ ¬ found.sawBlockPalette then
    match entry.2 with
    | .list _ items => do
      let state ← readBlockPalette registry found.state items
      return { found with state, sawBlockPalette := true }
    | _ => return { found with sawBlockPalette := true }
  else if entry.1 = "block_position_data".toList ∧ ¬ found.sawPositionData then
    match entry.2 with
    | .compound positions => do
      let state ← readPositionData format found.state positions
      return { found with state, sawPositionData := true }
    | _ => return { found with sawPositionData := true }
  else return found

def readDefaultPalette (registry : PaletteRegistry) (format : PayloadFormat Payload)
    (state : ReadState Payload) (entries : Entries) : Except String (ReadState Payload) := do
  let found ← entries.foldlM (readDefaultEntry registry format)
    { state := { state with hasDefaultPalette := true } }
  return found.state

/-- An entry of the palettes; only the first default one counts. -/
def readPaletteKey (registry : PaletteRegistry) (format : PayloadFormat Payload)
    (found : ReadState Payload × Bool) (entry : List Char × Tag) :
    Except String (ReadState Payload × Bool) :=
  if entry.1 = "default".toList ∧ ¬ found.2 then
    match entry.2 with
    | .compound default => do
      let state ← readDefaultPalette registry format found.1 default
      return (state, true)
    | _ => return (found.1, true)
  else return found

def readPalette (registry : PaletteRegistry) (format : PayloadFormat Payload)
    (state : ReadState Payload) (entries : Entries) : Except String (ReadState Payload) := do
  let start : ReadState Payload :=
    { state with
      hasPalette := true
      hasDefaultPalette := false
      hasBlockPalette := false
      result := { state.result with palette := [], blockEntities := ∅ } }
  let found ← entries.foldlM (readPaletteKey registry format) (start, false)
  return found.1

def readStructure (registry : PaletteRegistry) (format : PayloadFormat Payload)
    (state : ReadState Payload) (entries : Entries) : Except String (ReadState Payload) := do
  let found ← entries.foldlM (fun state entry =>
    match entry with
    | (key, .list element items) =>
      if key = "block_indices".toList then readIndices state element items else return state
    | (key, .compound palettes) =>
      if key = "palette".toList then readPalette registry format state palettes else return state
    | _ => return state) state
  return { found with hasStructure := true }

def readRoot (registry : PaletteRegistry) (format : PayloadFormat Payload) (entries : Entries) :
    Except String (ReadState Payload) :=
  entries.foldlM (fun state entry =>
    match entry with
    | (key, .list element items) =>
      if key = "size".toList then readSize state element items else return state
    | (key, .compound body) =>
      if key = "structure".toList then readStructure registry format state body
      else return state
    | _ => return state) {}

/-- The block that an index stands for. -/
def paletteAt (s : McStructure Payload) (index : ℤ) : Option RuntimeId :=
  if index < 0 then none else s.palette[index.toNat]?

/-- `read`, for a document with this root. -/
def read (registry : PaletteRegistry) (format : PayloadFormat Payload) (root : Entries) :
    Except String (McStructure Payload) := do
  let state ← readRoot registry format root
  let s := state.result
  if ¬ (state.hasSize ∧ state.hasStructure ∧ state.hasIndices ∧ state.hasPalette) then
    .error "MCStructure 缺少 size、structure、block_indices 或 palette"
  else if s.primaryIndices.size ≠ s.originalSize.volume.toNat ∨
      s.secondaryIndices.size ≠ s.originalSize.volume.toNat then
    .error "MCStructure block_indices 长度与 size 不一致"
  else if ¬ state.hasDefaultPalette then .error "MCStructure 缺少默认 palette"
  else if ¬ state.hasBlockPalette then .error "MCStructure 缺少 block_palette"
  else
    let nonAirBlocks := (List.range s.primaryIndices.size).countP fun flatIndex =>
      match (s.primaryIndices.at? flatIndex).bind s.paletteAt with
      | none => false
      | some id => id ≠ registry.air
    return McStructure.setOffset { s with nonAirBlocks } ⟨0, 0, 0⟩

/-- The index of a cell, in the order of x, y and z. -/
def flatIndex (size : Size) (cell : BlockPos) : ℤ :=
  cell.x * (size.height * size.length) + cell.y * size.length + cell.z

/-- The source cells that the shifted chunk covers, x outermost. -/
def cellsOf (s : McStructure Payload) (chunkPos : ChunkPos) : List BlockPos :=
  let minX := max 0 (chunkPos.x * 16 - s.offset.x)
  let maxX := min (s.originalSize.width - 1) (chunkPos.x * 16 + 15 - s.offset.x)
  let minZ := max 0 (chunkPos.z * 16 - s.offset.z)
  let maxZ := min (s.originalSize.length - 1) (chunkPos.z * 16 + 15 - s.offset.z)
  if minX > maxX ∨ minZ > maxZ then []
  else
    (Int.range minX (maxX + 1)).flatMap fun x =>
      (Int.range 0 s.originalSize.height).flatMap fun y =>
        (Int.range minZ (maxZ + 1)).map fun z => ⟨x, y, z⟩

/-- The block of a cell in a layer; air and what is not in the palette are left out. -/
def blockOf (s : McStructure Payload) (air : RuntimeId) (indices : BlockIndexArray)
    (cell : BlockPos) : Option RuntimeId :=
  match (indices.at? (flatIndex s.originalSize cell).toNat).bind s.paletteAt with
  | none => none
  | some id => if id = air then none else some id

/-- Store a cell in the second layer. -/
def setSecondary (chunk : ChunkData) (air : RuntimeId) (subY : ℤ) (index : ℕ) (id : RuntimeId) :
    ChunkData :=
  { chunk with
    subChunks := AssocMap.update (AssocMap.tryEmplace chunk.subChunks subY (.filled air)) subY
      fun sub => { sub with layer1 := Function.update sub.layer1 index id } }

/-- The loop body of `write_layer`, for the first or the second layer. -/
def storeCell (s : McStructure Payload) (air : RuntimeId) (indices : BlockIndexArray)
    (secondary : Bool) (chunkPos : ChunkPos) (chunk : ChunkData) (cell : BlockPos) : ChunkData :=
  match s.blockOf air indices cell with
  | none => chunk
  | some id =>
    let world := cell.add s.offset
    let subY := floorDiv (world.y - 64) 16
    let localX := world.x - chunkPos.x * 16
    let localY := world.y - (subY * 16 + 64)
    let localZ := world.z - chunkPos.z * 16
    let index := ((localY * 16 + localZ) * 16 + localX).toNat
    if secondary then setSecondary chunk air subY index id else chunk.setBlock air subY index id

/-- `write_layer`. -/
def writeLayer (s : McStructure Payload) (air : RuntimeId) (indices : BlockIndexArray)
    (secondary : Bool) (chunks : ChunkMap) : ChunkMap :=
  if indices.size = 0 then chunks
  else chunks.forEach fun chunkPos chunk =>
    (s.cellsOf chunkPos).foldl (s.storeCell air indices secondary chunkPos) chunk

/-- `get_chunks`, with both layers. -/
def getChunks (s : McStructure Payload) (air : RuntimeId) (positions : List ChunkPos) : ChunkMap :=
  s.writeLayer air s.secondaryIndices true
    (s.writeLayer air s.primaryIndices false (ChunkMap.emplaceAll positions))

/-- The cell of an index. -/
def cellAt (size : Size) (flatIndex : ℤ) : BlockPos :=
  ⟨flatIndex / (size.height * size.length), flatIndex / size.length % size.height,
    flatIndex % size.length⟩

/-- The entities with an index inside the structure, at their cells. -/
def entityCells (s : McStructure Payload) : List (BlockPos × Payload) :=
  s.blockEntities.entries.filterMap fun entity =>
    if entity.1 < 0 ∨ entity.1.toNat ≥ s.primaryIndices.size then none
    else some (cellAt s.originalSize entity.1, entity.2)

def getChunkNbt (s : McStructure Payload) (positions : List ChunkPos) : NbtChunkMap Payload :=
  s.entityCells.foldl (NbtChunkMap.place s.offset) (NbtChunkMap.emplaceAll positions)

end McStructure

end WaterStructure
