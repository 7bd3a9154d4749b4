import WaterStructure.Core.StructureSource
import WaterStructure.Formats.BdxBytes
import WaterStructure.Formats.Litematic

/-!
# Writing a BDX file

The writer goes through the cells of a structure subchunk by subchunk. In front of a block that is not
air it moves the cursor along the three axes, with the shortest command for each distance, and defines
the two constants of a block state when it meets the state for the first time.
-/

namespace WaterStructure.Bdx

open ByteReader NestedLoop

/-- The first loop of `append_move_axis`, with the distance that it leaves. -/
def appendFarUp (int32Command : UInt8) (difference : ℤ) : Input × ℤ :=
  if _h : difference > int32Max then
    let rest := appendFarUp int32Command (difference - int32Max)
    (int32Command :: be32 int32Max ++ rest.1, rest.2)
  else ([], difference)
termination_by difference.toNat
decreasing_by
  rw [int32Max] at *
  omega

/-- The second loop. -/
def appendFarDown (int32Command : UInt8) (difference : ℤ) : Input × ℤ :=
  if _h : difference < int32Min then
    let rest := appendFarDown int32Command (difference - int32Min)
    (int32Command :: be32 int32Min ++ rest.1, rest.2)
  else ([], difference)
termination_by (-difference).toNat
decreasing_by
  rw [int32Min] at *
  omega

/-- The command for a distance that fits. -/
def appendNear (difference : ℤ) (increment decrement int8Command int16Command int32Command : UInt8) :
    Input :=
  if difference = 1 then [increment]
  else if difference = -1 then [decrement]
  else if -128 ≤ difference ∧ difference ≤ 127 then
    [int8Command, UInt8.ofNat (difference % 256).toNat]
  else if -32768 ≤ difference ∧ difference ≤ 32767 then int16Command :: be16 difference
  else int32Command :: be32 difference

/-- `append_move_axis` -/
def appendMoveAxis (difference : ℤ)
    (increment decrement int8Command int16Command int32Command : UInt8) : Input :=
  if difference = 0 then []
  else
    let up := appendFarUp int32Command difference
    let down := appendFarDown int32Command up.2
    up.1 ++ down.1 ++ appendNear down.2 increment decrement int8Command int16Command int32Command

/-- `append_move` -/
def appendMove (cursor target : BlockPos) : Input :=
  appendMoveAxis (target.x - cursor.x) 14 15 28 20 21 ++
    appendMoveAxis (target.y - cursor.y) 16 17 29 22 23 ++
    appendMoveAxis (target.z - cursor.z) 18 19 30 24 25

/-- The output so far, the position of the cursor, and the ids with constants, in the order of their
constants. -/
structure WriterState where
  output : Input
  cursor : BlockPos
  palette : List RuntimeId

/-- How many states can have two constants each. -/
def kMaximumPalette : ℕ := (65535 + 1) / 2

section Write

variable (registry : RuntimeRegistry)

/-- The state of a runtime id; a missing one is written as unknown. -/
def writtenState (id : RuntimeId) : BlockState :=
  (registry.state id).getD ⟨"minecraft:unknown".toList, [], 0⟩

def appendConstant (text : List Char) : Input := 1 :: (textBytes text ++ [0])

/-- The constants of a state. -/
def appendState (id : RuntimeId) : Input :=
  appendConstant (writtenState registry id).name ++
    appendConstant (stateString (writtenState registry id))

/-- The command for the block whose state is at an index of the palette. -/
def appendPlacement (index : ℕ) : Input :=
  5 :: (be16 ((index * 2 : ℕ) : ℤ) ++ be16 ((index * 2 + 1 : ℕ) : ℤ))

/-- Place a block. -/
def placeBlock (s : WriterState) (id : RuntimeId) (pos : BlockPos) : Except String WriterState :=
  let output := s.output ++ appendMove s.cursor pos
  match s.palette.idxOf? id with
  | some index => .ok ⟨output ++ appendPlacement index, pos, s.palette⟩
  | none =>
    if s.palette.length ≥ kMaximumPalette then .error "BDX writer palette 超过 constant string uint16 范围"
    else
      .ok ⟨output ++ appendState registry id ++ appendPlacement s.palette.length, pos, s.palette ++ [id]⟩

/-- The cells of a subchunk that lie in the structure, in the order of the loops. -/
def subChunkCells (size : Size) (chunk : ChunkPos) (subY : ℤ) : List BlockPos :=
  (Int.range 0 16).flatMap fun localX =>
    if chunk.x * 16 + localX ≥ size.width then []
    else
      (Int.range 0 16).flatMap fun localY =>
        if subY * 16 + 64 + localY < 0 ∨ subY * 16 + 64 + localY ≥ size.height then []
        else
          ((Int.range 0 16).filter fun localZ => chunk.z * 16 + localZ < size.length).map fun localZ =>
            ⟨chunk.x * 16 + localX, subY * 16 + 64 + localY, chunk.z * 16 + localZ⟩

/-- `layer_at` -/
def layerAt (chunks : ChunkMap) (chunk : ChunkPos) (subY : ℤ) : Option BlockLayer :=
  (chunks.lookup chunk).bind fun data => (data.subChunks.lookup subY).map SubChunkData.layer0

def writeCell (layer : BlockLayer) (chunk : ChunkPos) (subY : ℤ) (s : WriterState) (pos : BlockPos) :
    Except String WriterState :=
  let id := layer (BlockLayerLayout.Internal.index (pos.x - chunk.x * 16) (pos.y - (subY * 16 + 64))
    (pos.z - chunk.z * 16))
  if id = registry.airRuntimeId then .ok s else placeBlock registry s id pos

def writeSubChunk (size : Size) (chunks : ChunkMap) (chunk : ChunkPos) (s : WriterState) (subY : ℤ) :
    Except String WriterState :=
  match layerAt chunks chunk subY with
  | none => .ok s
  | some layer => (subChunkCells size chunk subY).foldlM (writeCell registry layer chunk subY) s

/-- The rows of subchunks of a structure. -/
def subChunkRows (size : Size) : List ℤ :=
  Int.range (floorDiv (-64) 16) (floorDiv (size.height - 1 - 64) 16 + 1)

def writeChunk (size : Size) (chunks : ChunkMap) (s : WriterState) (chunk : ChunkPos) :
    Except String WriterState :=
  (subChunkRows size).foldlM (writeSubChunk registry size chunks chunk) s

def writeBatch (source : StructureSource) (s : WriterState) (positions : List ChunkPos) :
    Except String WriterState :=
  match source.getChunksLayer0 positions with
  | .error error => .error ("BDX writer 获取 chunks 失败: " ++ error)
  | .ok chunks => positions.foldlM (writeChunk registry source.size chunks) s

end Write

/-- The columns of a row of chunks, batch by batch from one on. -/
def batchesFrom (count batchSize batchX : ℤ) : List (List ℤ) :=
  if _h : batchX < count ∧ 0 < batchSize then
    Int.range batchX (min count (batchX + batchSize)) :: batchesFrom count batchSize (batchX + batchSize)
  else []
termination_by (count - batchX).toNat

/-- All batches of chunks. -/
def batches (size : Size) (batchSize : ℤ) : List (List ChunkPos) :=
  (Int.range 0 size.chunkZCount).flatMap fun z =>
    (batchesFrom size.chunkXCount batchSize 0).map fun columns => columns.map fun x => ⟨x, z⟩

/-- The largest value of `std::uint64_t`. -/
def uint64Max : ℕ := 18446744073709551615

/-- The checks of the options and the size; the result is the number of chunks in a batch. -/
def batchSizeOf (size : Size) (options : ConversionOptions) : Except String ℕ :=
  if size.width ≤ 0 ∨ size.height ≤ 0 ∨ size.length ≤ 0 then .error "BDX writer: 结构尺寸无效"
  else if options.softMemoryBudgetBytes < 64 * 1024 then
    .error "BDX writer soft_memory_budget 至少需要 64 KiB"
  else
    let requestedBatch := if options.maxInFlightChunks = 0 then 32 else max 1 options.maxInFlightChunks
    let subChunkCount := ((size.height + 15) / 16).toNat
    let kChunkOverheadBytes := 64 * 1024
    let kSubchunkBytes := 2 * 4096 * 4
    if subChunkCount > (uint64Max - kChunkOverheadBytes) / kSubchunkBytes then
      .error "BDX writer chunk memory estimate overflow"
    else
      let estimatedChunkBytes := min (kChunkOverheadBytes + subChunkCount * kSubchunkBytes) uint64Max
      let budgetBatch := options.softMemoryBudgetBytes / 2 / max 1 estimatedChunkBytes
      if budgetBatch = 0 then .error "BDX writer 单 chunk 超过 soft_memory_budget"
      else .ok (min 32 (min requestedBatch budgetBatch))

/-- The magic, an empty author and the version. -/
def headerBytes : Input := [66, 68, 88, 0, 0]

/-- `write_bdx`; the result is the stream that is compressed. -/
def writeBdx (registry : RuntimeRegistry) (source : StructureSource) (options : ConversionOptions) :
    Except String Input := do
  let batchSize ← batchSizeOf source.size options
  let s ← (batches source.size batchSize).foldlM (writeBatch registry source)
    ⟨headerBytes, ⟨0, 0, 0⟩, []⟩
  return s.output ++ [88]

end WaterStructure.Bdx
