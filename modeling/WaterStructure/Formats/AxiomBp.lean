import WaterStructure.Core.SparseBlockStore
import WaterStructure.Formats.McStructureWriter
import WaterStructure.Library.AlignedPacking
import WaterStructure.Library.ByteReader

/-!
# AxiomBP blueprints

The writer cuts a structure into cubes of sixteen cells, each with its own palette and its palette
numbers packed into longs, and stores more cubes than the structure needs. The reader takes the
bounds from the coordinates of the cubes and the size from the blocks that are not air. The
compressed NBT between them is a parameter; the registry is what both sides ask of it. Offsets in
error texts are left out. Signed overflow, undefined in the source, is an error here.
-/

namespace WaterStructure

namespace AxiomBp

open InternTable NbtTag

def kMagic : ℤ := 0x0AE5BB36

def kJavaDataVersion : ℤ := 4556

/-- What the writer and the reader ask the registry. `register_state` is asked for one state. -/
structure Registry where
  airRuntimeId : RuntimeId
  javaState : RuntimeId → Option BlockState
  javaRuntimeId : List Char → Option RuntimeId
  compatibleJavaRuntimeId : List Char → Option RuntimeId
  find : List Char → List BlockStateProperty → Option RuntimeId
  registerState : BlockState → RuntimeId

/-- The NBT document as it is compressed, and as it is found again. -/
structure Codec where
  compress : Entries → List UInt8
  inflate : List UInt8 → Except String Entries

def bitsForPalette (size : ℕ) : ℕ := max 4 (Litematic.countBits (if size > 0 then size - 1 else 0))

/-- The bits of one palette number. -/
def mask (bits : ℕ) : BitVec 64 := (1 : BitVec 64) <<< bits - 1

/-! ## Writing -/

/-- The block of a cell; outside the structure there is air. -/
def blockAt (chunks : ChunkMap) (air : RuntimeId) (size : Size) (pos : BlockPos) : RuntimeId :=
  if ¬ size.Contains pos then air else Litematic.Writer.blockAt chunks air pos

def packIndices (indices : List ℕ) (paletteSize : ℕ) : List (BitVec 64) :=
  let bits := bitsForPalette paletteSize
  let valuesPerLong := max 1 (64 / bits)
  let longCount := (indices.length + valuesPerLong - 1) / valuesPerLong
  indices.zipIdx.foldl
    (fun result entry => result.modify (entry.2 / valuesPerLong)
      (· ||| (BitVec.ofNat 64 entry.1 &&& mask bits) <<< (entry.2 % valuesPerLong * bits)))
    (List.replicate longCount 0)

def putProperty : Compound → BlockStateProperty → Except String Compound := McStructure.putProperty

def paletteEntry (registry : Registry) (id : RuntimeId) : Except String Compound :=
  let state := Litematic.Writer.javaPaletteState registry.javaState id
  let result := SortedMap.empty.set "Name".toList (.string state.name)
  if state.states.isEmpty then .ok result
  else do
    let properties ← state.states.foldlM putProperty .empty
    return result.set "Properties".toList (.compound properties.entries)

/-- The variables of the loops over one region. -/
structure RegionState where
  palette : Table RuntimeId RuntimeId
  indices : List ℕ
  blockCount : ℕ

/-- The cells of a region, y outermost. -/
def localCells : List BlockPos := Size.cellsYZX ⟨16, 16, 16⟩

/-- The cell of the structure that a cell of a region stands for. -/
def cellOf (region cell : BlockPos) : BlockPos :=
  ⟨region.x * 16 + cell.x, region.y * 16 + cell.y, region.z * 16 + cell.z⟩

/-- The innermost loop body. -/
def RegionState.add (air : RuntimeId) (block : BlockPos → RuntimeId) (region : BlockPos)
    (state : RegionState) (cell : BlockPos) : RegionState :=
  let id := block (cellOf region cell)
  let palette := state.palette.add (fun id => id) id
  { palette
    indices := state.indices.set (cell.y * 256 + cell.z * 16 + cell.x).toNat
      ((palette.indices.lookup id).getD 0)
    blockCount := if id ≠ air then state.blockCount + 1 else state.blockCount }

/-- The palette starts with air. -/
def regionState (air : RuntimeId) (block : BlockPos → RuntimeId) (region : BlockPos) :
    RegionState :=
  localCells.foldl (RegionState.add air block region)
    ⟨Table.add (fun id => id) ⟨[], ∅⟩ air, List.replicate 4096 0, 0⟩

/-- The compound of one region, its entries in key order, and the number of its blocks. -/
def encodeRegion (registry : Registry) (block : BlockPos → RuntimeId) (region : BlockPos) :
    Except String (Tag × ℕ) := do
  let state := regionState registry.airRuntimeId block region
  let palette ← state.palette.values.mapM (paletteEntry registry)
  return (.compound
    [("BlockStates".toList, .compound
        [("data".toList, .longArray
            ((packIndices state.indices state.palette.values.length).map BitVec.toInt)),
          ("palette".toList, .list .Compound (palette.map fun entry => .compound entry.entries))]),
      ("X".toList, .int region.x), ("Y".toList, .int region.y), ("Z".toList, .int region.z)],
    state.blockCount)

/-- The number of regions on an axis, with the end counted in. -/
def regionCount (extent : ℤ) : Except String ℤ :=
  let last := extent - 1
  if ¬ IsInt32 (last + floorMod last 16 + 15) then .error "signed integer overflow"
  else .ok ((last + floorMod last 16 + 15).tdiv 16 + 1)

/-- The regions in the order in which they are written. -/
def regionsYZX (regionsX regionsY regionsZ : ℤ) : List BlockPos :=
  Size.cellsYZX ⟨regionsX, regionsY, regionsZ⟩

/-- The NBT document. -/
def documentOf (regions : List Tag) : Entries :=
  [("BlockRegion".toList, .list .Compound regions), ("DataVersion".toList, .int kJavaDataVersion)]

/-- The chunks in the order in which they are asked for. -/
def positions (size : Size) : List ChunkPos :=
  (Int.range 0 size.chunkZCount).flatMap fun z => (Int.range 0 size.chunkXCount).map fun x => ⟨x, z⟩

/-- From the chunks to the document; the number of blocks is counted on the way. -/
def blockData (registry : Registry) (size : Size)
    (getChunksLayer0 : List ChunkPos → Except String ChunkMap) : Except String (Entries × ℕ) :=
  match getChunksLayer0 (positions size) with
  | .error error => .error ("生成 AxiomBP chunks 失败: " ++ error)
  | .ok chunks => do
    let regionsX ← regionCount size.width
    let regionsY ← regionCount size.height
    let regionsZ ← regionCount size.length
    let totalRegions := regionsX * regionsY * regionsZ
    if totalRegions ≤ 0 ∨ totalRegions > int32Max then
      .error "AxiomBP Region 数量无效或超过 int32"
    else
      match (regionsYZX regionsX regionsY regionsZ).mapM
          (encodeRegion registry (blockAt chunks registry.airRuntimeId size)) with
      | .error error => .error ("序列化 AxiomBP 方块数据失败: " ++ error)
      | .ok regions => .ok (documentOf (regions.map Prod.fst), (regions.map Prod.snd).sum)

/-- `write_axiom_bp`: the bytes of the file. `metadataBytes` is given the number of blocks and
whether there is air. -/
def writeAxiomBp (registry : Registry) (codec : Codec) (metadataBytes : ℕ → Bool → List UInt8)
    (size : Size) (getChunksLayer0 : List ChunkPos → Except String ChunkMap)
    (allowTemporarySpool : Bool) (options : ConversionOptions) :
    Except String (List UInt8) :=
  if allowTemporarySpool = false then
    .error "capability error: AxiomBP writer 需要临时压缩块数据，allow_temporary_spool=false"
  else if size.width ≤ 0 ∨ size.height ≤ 0 ∨ size.length ≤ 0 ∨ size.volume ≤ 0 ∨
      size.volume > int32Max then
    .error "AxiomBP 输出尺寸无效或体积超过 int32"
  else if options.softMemoryBudgetBytes < 64 * 1024 then
    .error "AxiomBP writer soft_memory_budget 至少需要 64 KiB"
  else
    let chunkCount := size.chunkXCount.toNat * size.chunkZCount.toNat
    if options.maxInFlightChunks ≠ 0 ∧ chunkCount > options.maxInFlightChunks then
      .error ("AxiomBP writer 需要读取完整 chunk 集合，超过 max_in_flight_chunks；" ++
        "请增大窗口或使用流式目标")
    else
      let subchunkCount := (size.height.toNat + 15) / 16
      let estimatedChunkBytes := max (64 * 1024) (subchunkCount * 4096 * 4 + 8 * 1024)
      if chunkCount > 0 ∧ estimatedChunkBytes > options.softMemoryBudgetBytes / chunkCount then
        .error "AxiomBP writer 需要的 chunk 窗口超过 soft_memory_budget；无法安全物化输入"
      else do
        let (document, blockCount) ← blockData registry size getChunksLayer0
        let compressed := codec.compress document
        if (blockCount : ℤ) > int32Max then .error "AxiomBP 非空气方块数量超过 int32"
        else if (compressed.length : ℤ) > int32Max then
          .error "AxiomBP 压缩方块数据过大或无法读取大小"
        else
          let metadata := metadataBytes blockCount (decide ((blockCount : ℤ) < size.volume))
          if (metadata.length : ℤ) > int32Max then .error "AxiomBP metadata 超过 int32"
          else
            return ByteReader.be32 kMagic ++ (ByteReader.be32 metadata.length ++ (metadata ++
              (ByteReader.be32 0 ++ (ByteReader.be32 compressed.length ++ compressed))))

/-! ## Reading -/

/-- `find_value`. The entries of a compound that has been read have different names. -/
def findValue (compound : Entries) (key : String) : Option Tag := SortedMap.find compound key.toList

def intValue : Option Tag → Option ℤ
  | some (.byte value) => some value
  | some (.short value) => some value
  | some (.int value) => some value
  | some (.long value) => some (toInt32 value)
  | _ => none

def stringValue : Option Tag → Option (List Char)
  | some (.string value) => some value
  | _ => none

def stateProperty (name : List Char) : Tag → Option BlockStateProperty
  | .byte value => some ⟨name, .Byte, decimal value⟩
  | .short value => some ⟨name, .Short, decimal value⟩
  | .int value => some ⟨name, .Int, decimal value⟩
  | .long value => some ⟨name, .Long, decimal value⟩
  | .string value => some ⟨name, .String, value⟩
  | _ => none

def paletteRuntime (registry : Registry) (entry : Entries) : RuntimeId :=
  let name := (stringValue (findValue entry "Name")).getD "minecraft:unknown".toList
  let raw : Option (List BlockStateProperty) := match findValue entry "Properties" with
    | some (.compound raw) => some ((SortedMap.ofEntries raw).entries.filterMap fun property =>
        stateProperty property.1 property.2)
    | _ => none
  let javaState := match raw with
    | some properties => name ++ '[' :: [','].intercalate
        ((properties.filter fun property => property.name ≠ "waterlogged".toList).map
          fun property => property.name ++ '=' :: property.value) ++ [']']
    | none => name
  let found := registry.javaRuntimeId javaState <|> registry.compatibleJavaRuntimeId javaState <|>
    registry.find name (raw.getD []) <|> registry.find name [] <|>
    registry.find "minecraft:unknown".toList []
  found.getD (registry.registerState ⟨"minecraft:unknown".toList, [], 0⟩)

/-- What the reader takes from the compound of a region. -/
structure RegionParts where
  region : BlockPos
  palette : List Tag
  packed : List ℤ

/-- The loop body of the first pass, which checks a region. -/
def regionParts (raw : Tag) (regionIndex : ℕ) : Except String RegionParts :=
  match raw with
  | .compound region =>
    match intValue (findValue region "X"), intValue (findValue region "Y"),
        intValue (findValue region "Z"), findValue region "BlockStates" with
    | some x, some y, some z, some (.compound states) =>
      match findValue states "palette", findValue states "data" with
      | some (.list _ palette), some (.longArray packed) => .ok ⟨⟨x, y, z⟩, palette, packed⟩
      | _, _ => .error ("AxiomBP region #" ++ toString regionIndex ++ " lacks BlockStates palette/data")
    | _, _, _, _ =>
      .error ("AxiomBP region #" ++ toString regionIndex ++ " lacks X/Y/Z/BlockStates")
  | _ => .error ("AxiomBP region #" ++ toString regionIndex ++ " is not a compound")

/-- The members of the reader, and the variables of the second pass. -/
structure AxiomBpReader where
  store : SparseBlockStore Tag := {}
  nonAirBlocks : ℕ := 0
  maxBlock : BlockPos := ⟨0, 0, 0⟩

/-- Keep a block and what is known of the size. -/
def AxiomBpReader.place (air : RuntimeId) (reader : AxiomBpReader) (position : BlockPos)
    (runtime : RuntimeId) : AxiomBpReader where
  store := reader.store.put air position runtime
  nonAirBlocks := reader.nonAirBlocks + 1
  maxBlock := ⟨max reader.maxBlock.x (position.x + 1), max reader.maxBlock.y (position.y + 1),
    max reader.maxBlock.z (position.z + 1)⟩

/-- One palette number of a region. Behind the last long the source leaves the loop; all later
numbers are behind it too. -/
def readIndex (air : RuntimeId) (palette : List RuntimeId) (packed : List (BitVec 64))
    (region : BlockPos) (reader : AxiomBpReader) (index : ℕ) : AxiomBpReader :=
  let bits := bitsForPalette palette.length
  let perLong := 64 / bits
  match packed[index / perLong]? with
  | none => reader
  | some long =>
    match palette[((long >>> (index % perLong * bits)) &&& mask bits).toNat]? with
    | none => reader
    | some runtime =>
      if runtime = air then reader
      else
        reader.place air (cellOf region ⟨(index % 16 : ℕ), (index / 256 : ℕ), (index % 256 / 16 : ℕ)⟩)
          runtime

def regionPalette (registry : Registry) (palette : List Tag) : List RuntimeId :=
  palette.map fun
    | .compound entry => paletteRuntime registry entry
    | _ => registry.airRuntimeId

/-- The loop body of the second pass. -/
def readRegion (registry : Registry) (first : BlockPos) (reader : AxiomBpReader)
    (parts : RegionParts) : AxiomBpReader :=
  (List.range 4096).foldl
    (readIndex registry.airRuntimeId (regionPalette registry parts.palette)
      (parts.packed.map (BitVec.ofInt 64)) (parts.region.sub first)) reader

/-- The cells that the regions span on one axis. -/
def provisionalExtent (first last : ℤ) : ℤ := (last - first + 1) * 16

/-- The part of `read` behind the document. -/
def readDocument (registry : Registry) (root : Entries) : Except String AxiomBpReader :=
  match findValue root "BlockRegion" with
  | some (.list _ regions) =>
    if regions.isEmpty then .error "AxiomBP has no regions"
    else do
      let parts ← regions.zipIdx.mapM fun entry => regionParts entry.1 entry.2
      let bound (start : ℤ) (pick : ℤ → ℤ → ℤ) : BlockPos :=
        ⟨(parts.map fun part => part.region.x).foldl pick start,
          (parts.map fun part => part.region.y).foldl pick start,
          (parts.map fun part => part.region.z).foldl pick start⟩
      let first := bound int32Max min
      let last := bound int32Min max
      let size : Size := ⟨provisionalExtent first.x last.x, provisionalExtent first.y last.y,
        provisionalExtent first.z last.z⟩
      if size.width ≤ 0 ∨ size.height ≤ 0 ∨ size.length ≤ 0 ∨ size.width > int32Max ∨
          size.height > int32Max ∨ size.length > int32Max then
        .error "AxiomBP region bounds exceed int32"
      else
        let reader := parts.foldl (readRegion registry first)
          { store := SparseBlockStore.setSize {} size }
        let finalSize : Size := ⟨reader.maxBlock.x, reader.maxBlock.y, reader.maxBlock.z⟩
        return { reader with store := reader.store.setSize finalSize }
  | _ => .error "AxiomBP BlockRegion list is missing"

/-- `read_exact`. -/
def readExact (count : ℕ) (message : String) : ByteReader.Reader (List UInt8) := fun input =>
  if input.length < count then .error message else .ok (input.take count, input.drop count)

/-- `skip_array`. -/
def skipArray (context : String) : ByteReader.Reader Unit := do
  let length ← ByteReader.i32 "AxiomBP header"
  ByteReader.failIf (decide (length < 0 ∨ length > 2147483648)) (context ++ " length is invalid")
  ByteReader.skip length.toNat context

/-- The compressed data of a file. -/
def readBlockData : ByteReader.Reader (List UInt8) := do
  let magic ← ByteReader.i32 "AxiomBP header"
  ByteReader.failIf (decide (magic ≠ kMagic)) "invalid AxiomBP magic at offset 0"
  skipArray "AxiomBP metadata"
  skipArray "AxiomBP thumbnail"
  let length ← ByteReader.i32 "AxiomBP header"
  ByteReader.failIf (decide (length < 0)) "AxiomBP block data length is invalid"
  readExact length.toNat "AxiomBP block data length is invalid"

def read (registry : Registry) (codec : Codec) (file : List UInt8) :
    Except String AxiomBpReader :=
  let result := do
    let (compressed, _) ← readBlockData file
    let root ← codec.inflate compressed
    readDocument registry root
  result.mapError ("parse AxiomBP failed: " ++ ·)

end AxiomBp

end WaterStructure
