import WaterStructure.Formats.SchemOffset
import WaterStructure.World.WorldChunkSink

/-!
# The direct world stream

Without an offset, a Schem file is written into a world while its numbers are decoded, sixteen
layers at a time. A first loop over the chunk rows notes which chunk columns of a row hold a
block, a second one writes the noted columns of every row. The notes of one row replace those of
the row before, so the second loop finds the notes of the last row only.
-/

namespace WaterStructure

open LastValue NestedLoop Schem Varint

namespace SchemStructure

variable {Nbt : Type}

/-- The structure as the generic conversion sees it; a Schem file has no entities. -/
def chunkSource (s : SchemStructure) (air : RuntimeId) : ChunkSource Nbt where
  size := s.size
  getChunks := s.getChunks air
  getChunkNbt := fun positions =>
    .ok (positions.foldl (fun result pos => AssocMap.tryEmplace result pos []) ∅)

def planeSize (s : SchemStructure) : ℤ := s.originalSize.width * s.originalSize.length

/-- A block of the slab: `runtime_palette[slab[…]]`. -/
def slabBlock (s : SchemStructure) (slab : List ℕ) (localY z x : ℤ) : RuntimeId :=
  s.palette.runtimeIdFor
    ((slab[(localY * s.planeSize + z * s.originalSize.width + x).toNat]?).getD 0)

/-- The cells of a chunk in a slab, layer by layer, given by local layer, source row and source
column. -/
def chunkCells (s : SchemStructure) (layerCount chunkZ chunkX : ℤ) : List BlockPos :=
  (Int.range 0 layerCount).flatMap fun localY =>
    (Int.range (chunkZ * 16) (min s.originalSize.length (chunkZ * 16 + 16))).flatMap fun z =>
      (Int.range (chunkX * 16) (min s.originalSize.width (chunkX * 16 + 16))).map fun x =>
        ⟨x, localY, z⟩

/-- The scan of one chunk, up to the first block. -/
def foundNonAir (s : SchemStructure) (air : RuntimeId) (slab : List ℕ)
    (layerCount chunkZ chunkX : ℤ) : Bool :=
  (s.chunkCells layerCount chunkZ chunkX).any fun cell =>
    s.slabBlock slab cell.y cell.z cell.x ≠ air

/-- `chunk_row_non_air` behind the loop that fills it. -/
def chunkRowNonAir (s : SchemStructure) (air : RuntimeId) (slab : List ℕ) (layerCount : ℤ) :
    List Bool :=
  (Int.range 0 s.originalSize.chunkZCount).foldl
    (fun _ chunkZ => (Int.range 0 s.originalSize.chunkXCount).map
      (s.foundNonAir air slab layerCount chunkZ))
    (List.replicate s.originalSize.chunkXCount.toNat false)

/-- Materialise one chunk of the slab, in the layout of the encoder. -/
def materializeChunk (s : SchemStructure) (air : RuntimeId) (slab : List ℕ)
    (layerCount targetSubY chunkZ chunkX : ℤ) : ChunkData where
  layout := .Native
  subChunks := AssocMap.tryEmplace ∅ targetSubY
    { layer0 := (s.chunkCells layerCount chunkZ chunkX).foldl (fun layer cell =>
        let id := s.slabBlock slab cell.y cell.z cell.x
        if id = air then layer
        else
          Function.update layer ((cell.x - chunkX * 16) * 256 + cell.y * 16 +
            (cell.z - chunkZ * 16)).toNat id) fun _ => air
      layer1 := fun _ => air }

/-- The chunks of one chunk row that are written. -/
def rowWrites (s : SchemStructure) (air : RuntimeId) (start : SubChunkPos) (slab : List ℕ)
    (layerCount targetSubY chunkZ : ℤ) : List ChunkWrite :=
  (Int.range 0 s.originalSize.chunkXCount).filterMap fun chunkX =>
    if (((s.chunkRowNonAir air slab layerCount)[chunkX.toNat]?).getD false) = true then
      some ⟨⟨chunkX + start.x, chunkZ + start.z⟩,
        s.materializeChunk air slab layerCount targetSubY chunkZ chunkX⟩
    else none

/-- One turn of the loop over slabs: decode, scan, check the height, write row after row. -/
def writeSlab (s : SchemStructure) (air : RuntimeId) (start : SubChunkPos)
    (state : List (WorldCall Nbt) × List UInt8) (slabIndex : ℤ) :
    Except String (List (WorldCall Nbt) × List UInt8) :=
  let layerCount := min 16 (s.originalSize.height - slabIndex * 16)
  match readValues s.palette.maxIndex (s.planeSize * layerCount).toNat state.2 with
  | none => .error "Schem BlockData varint 读取失败或 palette 索引越界"
  | some (slab, rest) =>
    let targetSubY := start.y + slabIndex
    if ¬ IsInt32 targetSubY then .error "Schem 目标 subchunk 坐标溢出"
    else if targetSubY < kOverworldMinY.tdiv 16 ∨ targetSubY > 19 then
      .error ("目标 subchunk 超出 Overworld 高度范围: subY=" ++ toString targetSubY)
    else
      .ok (state.1 ++ (Int.range 0 s.originalSize.chunkZCount).map fun chunkZ =>
        .saveChunks (s.rowWrites air start slab layerCount targetSubY chunkZ), rest)

/-- The chunks from a start coordinate on have coordinates in range. -/
def coordinateRangeOk (startCoordinate count : ℤ) : Bool :=
  decide (count = 0 ∨ startCoordinate ≥ int32Min ∧ startCoordinate + (count - 1) ≤ int32Max)

/-- The slab and the chunks of a row fit the memory budget. -/
def slabFits (s : SchemStructure) (softMemoryBudgetBytes : ℕ) : Bool :=
  let planeSize := s.planeSize.toNat
  let slabValues := if planeSize > Schem.sizeMax / 16 then Schem.sizeMax else planeSize * 16
  let slabBytes := if slabValues > Schem.sizeMax / 2 then Schem.sizeMax else slabValues * 2
  let kPipelineReserve := 32 * 1024 * 1024
  let chunkXCount := s.originalSize.chunkXCount.toNat
  let rowReserve :=
    if chunkXCount > (Schem.sizeMax - kPipelineReserve) / (40 * 1024) then Schem.sizeMax
    else kPipelineReserve + chunkXCount * (40 * 1024)
  decide (slabBytes ≤ softMemoryBudgetBytes ∧ rowReserve ≤ softMemoryBudgetBytes - slabBytes)

/-- `write_from_reader`, for a world that records what it is told to save. -/
def writeFromReader (s : SchemStructure) (air : RuntimeId) (start : SubChunkPos)
    (softMemoryBudgetBytes : ℕ) (bytes : List UInt8) : Except String (List (WorldCall Nbt)) :=
  let size := s.originalSize
  if size.width ≤ 0 ∨ size.height ≤ 0 ∨ size.length ≤ 0 then .error "Schem 尺寸必须为正数"
  else if size.chunkXCount ≠ 0 ∧ size.chunkZCount.toNat > Schem.sizeMax / size.chunkXCount.toNat then
    .error "Schem chunk 数量溢出"
  else if coordinateRangeOk start.x size.chunkXCount = false ∨
      coordinateRangeOk start.z size.chunkZCount = false then .error "Schem 目标 chunk 坐标溢出"
  else if size.width.toNat > Schem.sizeMax / size.length.toNat then .error "Schem 平面尺寸溢出"
  else if s.slabFits softMemoryBudgetBytes = false then
    .error ("Schem 直接世界流的 16 层 slab 超过 soft_memory_budget；" ++
      "该尺寸需要启用受控 BlockData spool/stripe 路径")
  else
    match (Int.range 0 ((size.height + 15) / 16)).foldlM (s.writeSlab air start) ([], bytes) with
    | .error error => .error error
    | .ok (calls, rest) =>
      if rest.isEmpty then .ok calls else .error "Schem BlockData 方块数超过 size"

/-- `write_to_world` on the direct path: the data come from the source file, which has not changed
since it was read, or from the temporary file. -/
def writeToWorldDirect (s : SchemStructure) (air : RuntimeId) (start : SubChunkPos)
    (softMemoryBudgetBytes : ℕ) : Except String (List (WorldCall Nbt)) :=
  match s.blockData with
  | some bytes => s.writeFromReader air start softMemoryBudgetBytes bytes
  | none =>
    match s.source.blockData with
    | none => .error "Schem 流式写入时未找到 BlockData"
    | some bytes =>
      if bytes.length ≠ s.blockDataBytes then .error "Schem BlockData 长度在流式写入前后不一致"
      else s.writeFromReader air start softMemoryBudgetBytes bytes

/-- `write_to_world`, once the data of a palette above uint16 are in a temporary file. -/
def WritesToWorld (s : SchemStructure) (air : RuntimeId) (start : SubChunkPos)
    (options : WorldConversionOptions) (calls : List (WorldCall Nbt)) : Prop :=
  if s.offset ≠ ⟨0, 0, 0⟩ ∨ s.palette.maxIndex > 65535 then
    ConvertsToWorld (s.chunkSource air) s.size.chunkXCount.toNat start options calls
  else s.writeToWorldDirect air start options.softMemoryBudgetBytes = .ok calls

end SchemStructure

end WaterStructure
