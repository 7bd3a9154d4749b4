import WaterStructure.Core.Text
import WaterStructure.Formats.Litematic
import WaterStructure.Formats.McStructure

/-!
# MCStructure: writing

The writer goes over the cells twice, once for each layer, and numbers the blocks it meets. Air of
the second layer gets no number. The bytes of the document are left out; what fails while they are
written is a list with too many elements.
-/

namespace WaterStructure.McStructure

open InternTable NbtTag

/-- `std::strtoll`: the value of the digits at the front, behind space and a sign. -/
def integerPrefix (text : List Char) : Option ℤ :=
  let body := text.dropWhile isSpace
  let digits := if body.head? = some '-' ∨ body.head? = some '+' then body.tail else body
  (digitsValue (digits.takeWhile Char.isDigit)).map fun value =>
    if body.head? = some '-' then -value else value

/-- `std::stoi`. -/
def stoi (text : List Char) : Except String ℤ :=
  match integerPrefix text with
  | none => .error "stoi"
  | some value => if IsInt32 value then .ok value else .error "stoi"

/-- `std::stol` and `std::stoll`. -/
def stoll (text : List Char) : Except String ℤ :=
  match integerPrefix text with
  | none => .error "stoll"
  | some value => if -int64Max - 1 ≤ value ∧ value ≤ int64Max then .ok value else .error "stoll"

/-- `static_cast` to a signed number with so many values. -/
def wrap (values value : ℤ) : ℤ := (value + values / 2) % values - values / 2

def putProperty (states : Compound) (property : BlockStateProperty) : Except String Compound :=
  match property.type with
  | .Byte => (stoi property.value).map fun value => states.set property.name (.byte (wrap 256 value))
  | .Short =>
    (stoi property.value).map fun value => states.set property.name (.short (wrap 65536 value))
  | .Int => (stoll property.value).map fun value => states.set property.name (.int (toInt32 value))
  | .Long => (stoll property.value).map fun value => states.set property.name (.long value)
  | .String => .ok (states.set property.name (.string property.value))

/-- The palette entry of a state. -/
def encodeState (state : BlockState) : Except String Compound := do
  let states ← state.states.foldlM putProperty .empty
  return ((SortedMap.empty.set "name".toList (.string state.name)).set "states".toList
    (.compound states.entries)).set "version".toList (.int state.version)

/-- The registry as the writer sees it. -/
structure StateLookup where
  air : RuntimeId
  state : RuntimeId → Option BlockState

/-- The state that is written for a block. -/
def StateLookup.written (registry : StateLookup) (id : RuntimeId) : BlockState :=
  (registry.state id).getD
    (if id = registry.air then ⟨"minecraft:air".toList, [], 0⟩ else ⟨"minecraft:unknown".toList, [], 0⟩)

namespace Writer

/-- The block of a cell in a layer. -/
def blockAt (chunks : ChunkMap) (air : RuntimeId) (pos : BlockPos) (secondary : Bool) : RuntimeId :=
  match chunks.lookup ⟨floorDiv pos.x 16, floorDiv pos.z 16⟩ with
  | none => air
  | some chunk =>
    let subY := floorDiv (pos.y - 64) 16
    match chunk.subChunks.lookup subY with
    | none => air
    | some sub =>
      let localY := pos.y - (subY * 16 + 64)
      let index := ((localY * 16 + floorMod pos.z 16) * 16 + floorMod pos.x 16).toNat
      if secondary then sub.layer1 index else sub.layer0 index

/-- The cells in the order of x, y and z. -/
def cellsXYZ (size : Size) : List BlockPos :=
  (Int.range 0 size.width).flatMap fun x =>
    (Int.range 0 size.height).flatMap fun y =>
      (Int.range 0 size.length).map fun z => ⟨x, y, z⟩

abbrev PaletteTable := Table RuntimeId RuntimeId

/-- `palette_index`. -/
def paletteIndex (table : PaletteTable) (id : RuntimeId) : ℤ × PaletteTable :=
  let table := table.add (fun id => id) id
  (((table.indices.lookup id).getD 0 : ℕ), table)

/-- The indices of a layer, and the palette afterwards. -/
def encodeLayer (air : RuntimeId) (secondary : Bool) : PaletteTable → List RuntimeId →
    List ℤ × PaletteTable
  | table, [] => ([], table)
  | table, id :: rest =>
    if secondary ∧ id = air then
      let encoded := encodeLayer air secondary table rest
      (-1 :: encoded.1, encoded.2)
    else
      let entry := paletteIndex table id
      let encoded := encodeLayer air secondary entry.2 rest
      (entry.1 :: encoded.1, encoded.2)

variable {Payload : Type}

/-- Where the writer puts an entity. -/
def entityCell (chunk : ChunkPos) (entity : BlockEntity Payload) : BlockPos :=
  ⟨chunk.x * 16 + entity.pos.x, entity.pos.y - kOverworldMinY, chunk.z * 16 + entity.pos.z⟩

/-- All intermediate values of the index fit. -/
def FlatIndexFits (size : Size) (cell : BlockPos) : Prop :=
  IsInt32 (cell.x * size.height) ∧ IsInt32 (cell.x * size.height * size.length) ∧
    IsInt32 (cell.y * size.length) ∧
    IsInt32 (cell.x * size.height * size.length + cell.y * size.length) ∧
    IsInt32 (cell.x * size.height * size.length + cell.y * size.length + cell.z)

instance (size : Size) (cell : BlockPos) : Decidable (FlatIndexFits size cell) :=
  inferInstanceAs (Decidable (_ ∧ _ ∧ _ ∧ _ ∧ _))

/-- The data of an entity, with its cell. -/
def entityData (compound : Compound) (cell : BlockPos) : Compound :=
  ((compound.set "x".toList (.int cell.x)).set "y".toList (.int cell.y)).set "z".toList (.int cell.z)

/-- Add one entity. -/
def putEntity (format : PayloadFormat Payload) (size : Size) (positionData : Compound)
    (entity : ChunkPos × BlockEntity Payload) : Except String Compound :=
  let cell := entityCell entity.1 entity.2
  if ¬ size.Contains cell ∨ format.empty entity.2.payload then .ok positionData
  else
    match format.document entity.2.payload with
    | none => .error "Tag is not a compound"
    | some entries => do
      let compound ← readCompound entries
      if ¬ FlatIndexFits size cell then .error "signed integer overflow"
      else
        return positionData.set (decimal (cell.x * size.height * size.length + cell.y * size.length +
          cell.z)) (.compound (SortedMap.empty.set "block_entity_data".toList
            (.compound (entityData compound cell).entries)).entries)

/-- The entities of all chunks, chunk by chunk. -/
def allEntities (entities : NbtChunkMap Payload) : List (ChunkPos × BlockEntity Payload) :=
  entities.entries.flatMap fun chunk => chunk.2.map fun entity => (chunk.1, entity)

/-- The document with these contents. -/
def document (size : Size) (primary secondary : List ℤ) (palette : List Compound)
    (positionData : Compound) : Entries :=
  let default := (SortedMap.empty.set "block_palette".toList
    (.list .Compound (palette.map fun entry => .compound entry.entries))).set
      "block_position_data".toList (.compound positionData.entries)
  let palettes := SortedMap.empty.set "default".toList (.compound default.entries)
  [("format_version".toList, .int 1),
    ("size".toList, .list .Int [.int size.width, .int size.height, .int size.length]),
    ("structure_world_origin".toList, .list .Int [.int 0, .int 0, .int 0]),
    ("structure".toList, .compound
      [("block_indices".toList, .list .List
        [.list .Int (primary.map .int), .list .Int (secondary.map .int)]),
        ("entities".toList, .list .Compound []),
        ("palette".toList, .compound palettes.entries)])]

/-- The contents of the document. -/
def serialize (registry : StateLookup) (format : PayloadFormat Payload) (size : Size)
    (chunks : ChunkMap) (entities : NbtChunkMap Payload) : Except String Entries := do
  let start := (paletteIndex ⟨[], ∅⟩ registry.air).2
  let idsOf := fun secondary => (cellsXYZ size).map fun pos => blockAt chunks registry.air pos secondary
  let primary := encodeLayer registry.air false start (idsOf false)
  let secondary := encodeLayer registry.air true primary.2 (idsOf true)
  let palette ← (secondary.2.values.map registry.written).mapM encodeState
  let positionData ← (allEntities entities).foldlM (putEntity format size) .empty
  if (palette.length : ℤ) > int32Max then .error "List is too large for NBT"
  else return document size primary.1 secondary.1 palette positionData

/-- `write_mcstructure`. -/
def writeMcstructure (registry : StateLookup) (format : PayloadFormat Payload)
    (source : ChunkSource Payload) (options : ConversionOptions) : Except String Entries :=
  let size := source.size
  if size.width ≤ 0 ∨ size.height ≤ 0 ∨ size.length ≤ 0 ∨ size.volume > int32Max then
    .error "MCStructure 输出尺寸无效或体积超过 int32"
  else if options.softMemoryBudgetBytes < 64 * 1024 then
    .error "MCStructure writer soft_memory_budget 至少需要 64 KiB"
  else
    let chunkCount := size.chunkXCount.toNat * size.chunkZCount.toNat % 2 ^ 64
    if options.maxInFlightChunks ≠ 0 ∧ chunkCount > options.maxInFlightChunks then
      .error "MCStructure writer 需要读取完整 chunk 集合，超过 max_in_flight_chunks"
    else
      let estimatedSubchunks := (size.height.toNat + 15) / 16
      let estimatedChunkBytes := max (64 * 1024) (estimatedSubchunks * 4096 * 4 * 2 + 8 * 1024)
      if chunkCount * estimatedChunkBytes % 2 ^ 64 > options.softMemoryBudgetBytes then
        .error "MCStructure writer 的 chunk 窗口超过 soft_memory_budget"
      else
        match source.getChunks (Litematic.Writer.positions size) with
        | .error error => .error ("生成 MCStructure chunks 失败: " ++ error)
        | .ok chunks =>
          match source.getChunkNbt (Litematic.Writer.positions size) with
          | .error error => .error ("生成 MCStructure NBT 失败: " ++ error)
          | .ok entities =>
            match serialize registry format size chunks entities with
            | .error error => .error ("序列化 MCStructure 失败: " ++ error)
            | .ok document => .ok document

end Writer

end WaterStructure.McStructure
