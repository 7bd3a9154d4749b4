import WaterStructure.Formats.CuboidCommand
import WaterStructure.Library.Csr
import WaterStructure.Library.TransitionSystem

/-!
# Chunk materialisation of the two command readers

Both readers build their index on the first request after the offset changed and keep it until
the offset changes again. The MCFunction reader stores it as compressed rows over a rectangle of
chunks and fills whole rows of a layer; the IBImport reader stores a hash map and writes single
blocks. A command that would make the index too large goes to a list that is replayed for every
chunk. Array accesses of the compressed rows are checked and fail outside the array.
-/

namespace WaterStructure

/-- `expanded` of `set_offset`: the extent grown by the offset, saturating. -/
def expanded (base delta : ℤ) : ℤ :=
  min (base + if delta < 0 then -delta else delta) int32Max

/-- The size that a reader reports under an offset. -/
def Size.expand (size : Size) (offset : BlockPos) : Size :=
  ⟨expanded size.width offset.x, expanded size.height offset.y, expanded size.length offset.z⟩

/-- What a caller can do with a structure once it is read. -/
inductive ChunkRequest where
  | setOffset (offset : BlockPos)
  | getChunks (positions : List ChunkPos)

namespace McFunction

def kMaxIndexEntries : ℕ := 8000000

/-- The rectangle of chunks for which the index has cells. -/
structure IndexRange where
  minX : ℤ
  minZ : ℤ
  width : ℤ
  length : ℤ
  dense : Bool
  cellCount : ℕ

/-- The rectangle of a shifted structure; a huge one is left without cells. -/
def IndexRange.of (size : Size) (offset : BlockPos) : IndexRange :=
  let minX := floorDiv offset.x 16
  let minZ := floorDiv offset.z 16
  let maxX := floorDiv64 (offset.x + max (size.width - 1) 0) 16
  let maxZ := floorDiv64 (offset.z + max (size.length - 1) 0) 16
  let width64 := maxX - minX + 1
  let length64 := maxZ - minZ + 1
  let rangeValid := decide (0 < width64 ∧ 0 < length64 ∧ width64 ≤ int32Max ∧
    length64 ≤ int32Max ∧ IsInt32 maxX ∧ IsInt32 maxZ)
  let cellCount64 := if rangeValid then width64.toNat * length64.toNat else uint64Max
  let dense := rangeValid && decide (cellCount64 ≤ 1048576)
  { minX
    minZ
    width := if rangeValid then width64 else 0
    length := if rangeValid then length64 else 0
    dense
    cellCount := if dense then cellCount64 else 0 }

/-- `cell_for`, in the arithmetic of `std::size_t`. -/
def IndexRange.cellFor (range : IndexRange) (x z : ℤ) : ℕ :=
  (toSizeT (z - range.minZ) * toSizeT range.width + toSizeT (x - range.minX)) %
    18446744073709551616

/-- `indexed_commands`: a command stays out of the index when it covers too many chunks, or more
than the entries that are left. -/
def indexedFlags (dense : Bool) (offset : BlockPos) : ℕ → List CuboidCommand → List Bool
  | _, [] => []
  | indexEntries, command :: rest =>
    let covered := (ChunkRange.of command offset).covered
    if dense = false ∨ covered > 4096 ∨ covered > kMaxIndexEntries - indexEntries then
      false :: indexedFlags dense offset indexEntries rest
    else true :: indexedFlags dense offset (indexEntries + covered) rest

def isIndexed (dense : Bool) (offset : BlockPos) (commands : List CuboidCommand)
    (index : ℕ) : Bool :=
  (indexedFlags dense offset 0 commands)[index]?.getD false

/-- The `(cell, command)` pairs of the index, by command and within a command z outermost. -/
def cellEntries (range : IndexRange) (offset : BlockPos) (commands : List CuboidCommand) :
    List (ℕ × ℕ) :=
  (List.range commands.length).flatMap fun index =>
    (if isIndexed range.dense offset commands index then positionsOf commands offset index
      else []).map fun pos => (range.cellFor (toInt32 pos.x) (toInt32 pos.z), index)

structure CommandIndex where
  range : IndexRange
  commandOffsets : List ℕ
  commandIndices : List ℕ
  broadCommands : List ℕ

/-- Build the index. An access outside the arrays, which the source would make unchecked, is an
error here. -/
def CommandIndex.build (size : Size) (offset : BlockPos) (commands : List CuboidCommand) :
    Except String CommandIndex :=
  let range := IndexRange.of size offset
  let broadCommands := broadIndices commands (isIndexed range.dense offset commands)
  if range.dense then
    match Csr.build range.cellCount 0 (cellEntries range offset commands) with
    | none => .error "index out of range"
    | some (commandOffsets, commandIndices) =>
      .ok { range, commandOffsets, commandIndices, broadCommands }
  else .ok { range, commandOffsets := [], commandIndices := [], broadCommands }

/-- The slice of a requested chunk; empty outside the rectangle, `none` for an access outside the
arrays. -/
def CommandIndex.slice (index : CommandIndex) (chunkPos : ChunkPos) : Option (List ℕ) :=
  if index.commandOffsets ≠ [] ∧ index.range.minX ≤ chunkPos.x ∧ index.range.minZ ≤ chunkPos.z ∧
      chunkPos.x < index.range.minX + index.range.width ∧
      chunkPos.z < index.range.minZ + index.range.length then
    Csr.slice index.commandOffsets index.commandIndices (index.range.cellFor chunkPos.x chunkPos.z)
  else some []

/-- The layer indices of the rows that one subchunk receives. -/
def rowIndices (localX1 width localY1 localY2 z1 z2 chunkZ : ℤ) : List ℕ :=
  (Int.range localY1 (localY2 + 1)).flatMap fun localY =>
    (Int.range z1 (z2 + 1)).flatMap fun z =>
      (List.range width.toNat).map ((((localY * 16 + (z - chunkZ)) * 16 + localX1).toNat) + ·)

/-- The body of the subchunk loop. A new all-air subchunk needs no air written. -/
def processSubChunk (air : RuntimeId) (offset : BlockPos) (chunkPos : ChunkPos)
    (command : CuboidCommand) (chunk : ChunkData) (subY : ℤ) : ChunkData :=
  let clip := command.clip offset chunkPos
  let created := (chunk.subChunks.lookup subY).isNone
  let chunk := chunk.ensureSubChunk air subY
  if created = true ∧ command.runtimeId = air then chunk
  else
    let subBaseY := subY * 16 + 64
    let localX1 := clip.x1 - chunkPos.x * 16
    let localX2 := clip.x2 - chunkPos.x * 16
    let localY1 := max (command.y1 + offset.y) subBaseY - subBaseY
    let localY2 := min (command.y2 + offset.y) (subBaseY + 15) - subBaseY
    (rowIndices localX1 (localX2 - localX1 + 1) localY1 localY2 clip.z1 clip.z2
      (chunkPos.z * 16)).foldl
        (fun chunk index => chunk.setBlock air subY index command.runtimeId) chunk

/-- Replay one command on one chunk; a subchunk row outside `std::int32_t` ends the replay. -/
def process (air : RuntimeId) (offset : BlockPos) (chunkPos : ChunkPos) (chunk : ChunkData)
    (command : CuboidCommand) : Except String ChunkData :=
  let clip := command.clip offset chunkPos
  if clip.x1 > clip.x2 ∨ clip.z1 > clip.z2 then .ok chunk
  else
    let firstSubY := floorDiv64 (command.y1 + offset.y - 64) 16
    let lastSubY := floorDiv64 (command.y2 + offset.y - 64) 16
    .ok (((Int.range firstSubY (lastSubY + 1)).takeWhile fun subY => IsInt32 subY).foldl
      (processSubChunk air offset chunkPos command) chunk)

end McFunction

/-- A structure that the MCFunction reader has filled. -/
structure McFunctionStructure where
  commands : List CuboidCommand
  originalSize : Size
  size : Size
  offset : BlockPos
  index : Option McFunction.CommandIndex

namespace McFunctionStructure

open McFunction

/-- Changing the offset drops the index. -/
def setOffset (s : McFunctionStructure) (offset : BlockPos) : McFunctionStructure :=
  { s with offset, index := none, size := s.originalSize.expand offset }

/-- The end of `read`. -/
def ofRead (commands : List CuboidCommand) (size : Size) : McFunctionStructure :=
  setOffset
    { commands, originalSize := size, size := ⟨0, 0, 0⟩, offset := ⟨0, 0, 0⟩, index := none }
    ⟨0, 0, 0⟩

/-- The cached index, or a new one. -/
def ensureIndex (s : McFunctionStructure) : Except String CommandIndex :=
  match s.index with
  | some index => .ok index
  | none =>
    if s.commands.length > 4294967295 then .error "MCFunction 命令数量超过索引容量"
    else CommandIndex.build s.originalSize s.offset s.commands

/-- Materialise the requested chunks; the index stays behind. -/
def getChunks (s : McFunctionStructure) (air : RuntimeId) (positions : List ChunkPos) :
    Except String (ChunkMap × McFunctionStructure) := do
  let index ← s.ensureIndex
  let chunks ← (ChunkMap.emplaceAll positions).forEachM fun chunkPos chunk =>
    match index.slice chunkPos with
    | none => .error "index out of range"
    | some indices =>
      replay s.commands (process air s.offset chunkPos)
        (OrderedMerge.merge indices index.broadCommands) chunk
  return (chunks, { s with index := some index })

/-- One request of a caller; offsets are `std::int32_t`. -/
def step (air : RuntimeId) (s : McFunctionStructure) : ChunkRequest → Option McFunctionStructure
  | .setOffset offset => if offset.FitsInt32 then some (s.setOffset offset) else none
  | .getChunks positions =>
    match s.getChunks air positions with
    | .error _ => some s
    | .ok (_, s) => some s

end McFunctionStructure

namespace IbImport

def kMaxIndexEntries : ℕ := 500000

/-- All chunks of the range have `std::int32_t` coordinates. -/
def fitsIndex (range : ChunkRange) : Bool :=
  !decide (range.x1 < int32Min ∨ range.x2 > int32Max ∨ range.z1 < int32Min ∨ range.z2 > int32Max)

/-- Which commands are filed in the hash map. A command whose chunks have no `std::int32_t`
coordinates uses up its entries all the same. -/
def indexedFlags (offset : BlockPos) : ℕ → List CuboidCommand → List Bool
  | _, [] => []
  | indexEntries, command :: rest =>
    let range := ChunkRange.of command offset
    if range.covered > 4096 ∨
        range.covered > kMaxIndexEntries - min indexEntries kMaxIndexEntries then
      false :: indexedFlags offset indexEntries rest
    else fitsIndex range :: indexedFlags offset (indexEntries + range.covered) rest

def isIndexed (offset : BlockPos) (commands : List CuboidCommand) (index : ℕ) : Bool :=
  (indexedFlags offset 0 commands)[index]?.getD false

/-- The `(chunk, command)` pairs of the index, by command and within a command z outermost. -/
def chunkEntries (offset : BlockPos) (commands : List CuboidCommand) : List (ChunkPos × ℕ) :=
  (List.range commands.length).flatMap fun index =>
    (if isIndexed offset commands index then positionsOf commands offset index else []).map
      fun pos => (⟨toInt32 pos.x, toInt32 pos.z⟩, index)

structure CommandIndex where
  commandIndex : AList fun _ : ChunkPos => List ℕ
  broadCommands : List ℕ

def CommandIndex.build (offset : BlockPos) (commands : List CuboidCommand) : CommandIndex where
  commandIndex := (chunkEntries offset commands).foldl
    (fun index entry => AssocMap.pushBack index entry.1 entry.2) ∅
  broadCommands := broadIndices commands (isIndexed offset commands)

/-- The columns of the clip, z outermost. -/
def columnsOf (clip : ColumnClip) : List (ℤ × ℤ) :=
  (Int.range clip.z1 (clip.z2 + 1)).flatMap fun z =>
    (Int.range clip.x1 (clip.x2 + 1)).map fun x => (x, z)

/-- Store one block after checking its chunk-local coordinates. -/
def storeBlock (air : RuntimeId) (chunkPos : ChunkPos) (id : RuntimeId) (subY localY y : ℤ)
    (chunk : ChunkData) (column : ℤ × ℤ) : Except String ChunkData :=
  let localX := column.1 - chunkPos.x * 16
  let localZ := column.2 - chunkPos.z * 16
  if localY < 0 ∨ localY ≥ 16 ∨ localX < 0 ∨ localX ≥ 16 ∨ localZ < 0 ∨ localZ ≥ 16 then
    .error ("IBImport chunk-local coordinate out of range at (" ++ toString column.1 ++ "," ++
      toString y ++ "," ++ toString column.2 ++ ")")
  else .ok (chunk.setBlock air subY ((localY * 16 + localZ) * 16 + localX).toNat id)

/-- The body of the row loop; a row whose subchunk is outside `std::int32_t` is skipped. -/
def processRow (air : RuntimeId) (offset : BlockPos) (chunkPos : ChunkPos)
    (command : CuboidCommand) (chunk : ChunkData) (y : ℤ) : Except String ChunkData :=
  let subY := floorDiv64 (y - 64) 16
  if ¬ IsInt32 subY then .ok chunk
  else
    (columnsOf (command.clip offset chunkPos)).foldlM
      (storeBlock air chunkPos command.runtimeId subY (y - (subY * 16 + 64)) y)
      (chunk.ensureSubChunk air subY)

/-- Replay one command on one chunk. -/
def process (air : RuntimeId) (offset : BlockPos) (chunkPos : ChunkPos) (chunk : ChunkData)
    (command : CuboidCommand) : Except String ChunkData :=
  let clip := command.clip offset chunkPos
  if clip.x1 > clip.x2 ∨ clip.z1 > clip.z2 then .ok chunk
  else
    (Int.range (command.y1 + offset.y) (command.y2 + offset.y + 1)).foldlM
      (processRow air offset chunkPos command) chunk

end IbImport

/-- A structure that the IBImport reader has filled, without its block entities. -/
structure IbImportStructure where
  commands : List CuboidCommand
  originalSize : Size
  size : Size
  offset : BlockPos
  index : Option IbImport.CommandIndex

namespace IbImportStructure

open IbImport

/-- Changing the offset drops the index. -/
def setOffset (s : IbImportStructure) (offset : BlockPos) : IbImportStructure :=
  { s with offset, index := none, size := s.originalSize.expand offset }

/-- The end of `read`. -/
def ofRead (commands : List CuboidCommand) (size : Size) : IbImportStructure :=
  setOffset
    { commands, originalSize := size, size := ⟨0, 0, 0⟩, offset := ⟨0, 0, 0⟩, index := none }
    ⟨0, 0, 0⟩

/-- The cached index, or a new one. -/
def ensureIndex (s : IbImportStructure) : Except String CommandIndex :=
  match s.index with
  | some index => .ok index
  | none =>
    if s.commands.length > 4294967295 then .error "IBImport 命令数量超过索引容量"
    else .ok (CommandIndex.build s.offset s.commands)

/-- Materialise the requested chunks; the index stays behind. -/
def getChunks (s : IbImportStructure) (air : RuntimeId) (positions : List ChunkPos) :
    Except String (ChunkMap × IbImportStructure) := do
  let index ← s.ensureIndex
  let chunks ← (ChunkMap.emplaceAll positions).forEachM fun chunkPos chunk =>
    replay s.commands (process air s.offset chunkPos)
      (OrderedMerge.merge ((index.commandIndex.lookup chunkPos).getD []) index.broadCommands) chunk
  return (chunks, { s with index := some index })

/-- One request of a caller; offsets are `std::int32_t`. -/
def step (air : RuntimeId) (s : IbImportStructure) : ChunkRequest → Option IbImportStructure
  | .setOffset offset => if offset.FitsInt32 then some (s.setOffset offset) else none
  | .getChunks positions =>
    match s.getChunks air positions with
    | .error _ => some s
    | .ok (_, s) => some s

end IbImportStructure

end WaterStructure
