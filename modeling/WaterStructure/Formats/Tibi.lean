import WaterStructure.Formats.CommandReaders

/-!
# TIBI

A TIBI file is a list of commands that set a block or fill a box. For a request the commands of each
chunk are replayed in the order of the file: those that an index files under the chunk, merged with
those that are kept in a broad list because they cover too many chunks or the index is full. A fill is
clipped to the chunk whose commands are replayed, while a single block is stored in whichever
requested chunk holds it.
-/

namespace WaterStructure

/-- A decoded command; `type` is 0 for a block, 1 for a box, and anything else is skipped. -/
structure TibiCommand where
  type : ℕ
  runtimeId : RuntimeId
  first : BlockPos
  second : BlockPos
  deriving DecidableEq

namespace Tibi

def kMinimumMemoryBudget : ℕ := 524288

def kMaxCommands : ℕ := 4000000

def kMaxIndexEntries : ℕ := 500000

def kMaxMaterializedBlocksPerRequest : ℕ := 16000000

/-- A command as it stands in the file, with its runtime id resolved. The second corner is only
there for a box. -/
structure RawCommand where
  type : ℕ
  runtimeId : RuntimeId
  first : ℕ × ℕ × ℕ
  second : ℕ × ℕ × ℕ

/-- A coordinate is a varint that must fit `std::int32_t`. -/
def coordinate (value commandIndex : ℕ) (name : String) : Except String ℤ :=
  if (value : ℤ) > int32Max then
    .error ("TIBI command #" ++ toString commandIndex ++ " " ++ name ++ " coordinate exceeds int32")
  else .ok value

/-- Decode one command. -/
def readCommand (commandIndex : ℕ) (raw : RawCommand) : Except String TibiCommand := do
  let x ← coordinate raw.first.1 commandIndex "x"
  let y ← coordinate raw.first.2.1 commandIndex "y"
  let z ← coordinate raw.first.2.2 commandIndex "z"
  if raw.type = 1 then
    let dx ← coordinate raw.second.1 commandIndex "dx"
    let dy ← coordinate raw.second.2.1 commandIndex "dy"
    let dz ← coordinate raw.second.2.2 commandIndex "dz"
    return ⟨raw.type, raw.runtimeId, ⟨x, y, z⟩, ⟨dx, dy, dz⟩⟩
  else
    return ⟨raw.type, raw.runtimeId, ⟨x, y, z⟩, ⟨x, y, z⟩⟩

/-- The corners of the commands that set blocks. -/
def corners (commands : List TibiCommand) : List BlockPos :=
  (commands.filter fun command => command.type = 0 ∨ command.type = 1).flatMap fun command =>
    [command.first, command.second]

/-- The extent between two coordinates. -/
def dimension (minimum maximum : ℤ) : Except String ℤ :=
  let value := maximum - minimum + 1
  if value ≤ 0 ∨ value > int32Max then .error "TIBI dimensions exceed int32" else .ok value

/-- The smallest value of a field, starting from the largest one of `std::int32_t`. -/
def least (field : BlockPos → ℤ) (positions : List BlockPos) : ℤ :=
  positions.foldl (fun value pos => min value (field pos)) int32Max

/-- The largest value of a field, starting from the smallest one of `std::int32_t`. -/
def greatest (field : BlockPos → ℤ) (positions : List BlockPos) : ℤ :=
  positions.foldl (fun value pos => max value (field pos)) int32Min

structure CommandIndex where
  commandIndex : AList fun _ : ChunkPos => List ℕ
  broadCommands : List ℕ

end Tibi

structure TibiReader where
  commands : List TibiCommand := []
  origin : BlockPos := ⟨0, 0, 0⟩
  offset : BlockPos := ⟨0, 0, 0⟩
  originalSize : Size := ⟨0, 0, 0⟩
  size : Size := ⟨0, 0, 0⟩
  softMemoryBudgetBytes : ℕ := 471859200
  /-- The index, once `mCommandIndexReady` is set. -/
  index : Option Tibi.CommandIndex := none

namespace TibiReader

open Tibi

def setStreamingOptions (reader : TibiReader) (softMemoryBudgetBytes : ℕ) : TibiReader :=
  { reader with
    softMemoryBudgetBytes := if softMemoryBudgetBytes = 0 then 471859200 else softMemoryBudgetBytes
    index := none }

def setOffset (reader : TibiReader) (offset : BlockPos) : TibiReader :=
  { reader with offset, index := none, size := reader.originalSize.expand offset }

/-- The end of `read`, after the tables have been decoded. -/
def readCommands (reader : TibiReader) (raw : List RawCommand) : Except String TibiReader := do
  if reader.softMemoryBudgetBytes < kMinimumMemoryBudget then
    throw "TIBI reader soft_memory_budget must be at least 512 KiB"
  if raw.length > kMaxCommands then throw "TIBI command count is invalid or exceeds limit"
  let commands ← raw.zipIdx.mapM fun entry => readCommand entry.2 entry.1
  let positions := corners commands
  let min : BlockPos := ⟨least BlockPos.x positions, least BlockPos.y positions,
    least BlockPos.z positions⟩
  if min.x = int32Max then throw "TIBI has no setblock or fill commands"
  let width ← dimension min.x (greatest BlockPos.x positions)
  let height ← dimension min.y (greatest BlockPos.y positions)
  let length ← dimension min.z (greatest BlockPos.z positions)
  return { reader with
    commands
    origin := min
    offset := ⟨0, 0, 0⟩
    originalSize := ⟨width, height, length⟩
    size := ⟨width, height, length⟩
    index := none }

def read (reader : TibiReader) (raw : List RawCommand) : Except String TibiReader :=
  (reader.readCommands raw).mapError ("parse TIBI failed: " ++ ·)

/-- `local`: a position of the file, shifted. -/
def toLocal (reader : TibiReader) (value : BlockPos) : BlockPos :=
  (value.sub reader.origin).add reader.offset

/-- The chunks of a command. -/
def rangeOf (reader : TibiReader) (command : TibiCommand) : ChunkRange :=
  let first := reader.toLocal command.first
  let second := reader.toLocal command.second
  { x1 := floorDiv64 (min first.x second.x) 16
    x2 := floorDiv64 (max first.x second.x) 16
    z1 := floorDiv64 (min first.z second.z) 16
    z2 := floorDiv64 (max first.z second.z) 16 }

def maxIndexEntries (reader : TibiReader) : ℕ :=
  min kMaxIndexEntries (max 1024 (reader.softMemoryBudgetBytes / 64))

/-- Whether each command is filed in the index; `none` for one that is skipped. -/
def indexedFlags (reader : TibiReader) : ℕ → List TibiCommand → List (Option Bool)
  | _, [] => []
  | indexEntries, command :: rest =>
    let range := reader.rangeOf command
    if command.type ≠ 0 ∧ command.type ≠ 1 then none :: reader.indexedFlags indexEntries rest
    else if range.covered > 4096 ∨
        range.covered > reader.maxIndexEntries - min indexEntries reader.maxIndexEntries ∨
        ¬ IbImport.fitsIndex range then
      some false :: reader.indexedFlags indexEntries rest
    else some true :: reader.indexedFlags (indexEntries + range.covered) rest

def flagOf (reader : TibiReader) (index : ℕ) : Option Bool :=
  ((reader.indexedFlags 0 reader.commands)[index]?).join

/-- The chunks reached by the command at an index. -/
def positionsOf (reader : TibiReader) (index : ℕ) : List ChunkPos :=
  match reader.commands[index]? with
  | none => []
  | some command => (reader.rangeOf command).positions

/-- The `(chunk, command)` pairs of the index, by command and within a command z outermost. -/
def chunkEntries (reader : TibiReader) : List (ChunkPos × ℕ) :=
  (List.range reader.commands.length).flatMap fun index =>
    (if reader.flagOf index = some true then reader.positionsOf index else []).map fun pos =>
      (pos, index)

def buildIndex (reader : TibiReader) : CommandIndex where
  commandIndex := reader.chunkEntries.foldl
    (fun index entry => AssocMap.pushBack index entry.1 entry.2) ∅
  broadCommands := (List.range reader.commands.length).filter fun index =>
    reader.flagOf index = some false

/-- `set_block`: store a block in the requested chunk that holds it, if any. -/
def setBlock (air : RuntimeId) (runtime : RuntimeId) (chunks : ChunkMap) (position : BlockPos) :
    ChunkMap :=
  let chunkPosition := blockToChunk position
  let subY := floorDiv (position.y - 64) 16
  let localX := position.x - chunkPosition.x * 16
  let localY := position.y - (subY * 16 + 64)
  let localZ := position.z - chunkPosition.z * 16
  AssocMap.update chunks chunkPosition fun chunk =>
    chunk.setBlock air subY ((localY * 16 + localZ) * 16 + localX).toNat runtime

/-- The part of a fill that is replayed for a chunk: its lowest and its highest cell. -/
def clipped (reader : TibiReader) (chunkPosition : ChunkPos) (command : TibiCommand) :
    BlockPos × BlockPos :=
  let first := reader.toLocal command.first
  let second := reader.toLocal command.second
  (⟨max (min first.x second.x) (chunkPosition.x * 16), min first.y second.y,
      max (min first.z second.z) (chunkPosition.z * 16)⟩,
    ⟨min (max first.x second.x) (chunkPosition.x * 16 + 15), max first.y second.y,
      min (max first.z second.z) (chunkPosition.z * 16 + 15)⟩)

/-- The cells of a box, x outermost and z innermost. -/
def cellsXYZ (low high : BlockPos) : List BlockPos :=
  (Int.range low.x (high.x + 1)).flatMap fun x =>
    (Int.range low.y (high.y + 1)).flatMap fun y =>
      (Int.range low.z (high.z + 1)).map fun z => ⟨x, y, z⟩

/-- Replay a command for a chunk; the second component counts the blocks that were stored. -/
def process (reader : TibiReader) (air : RuntimeId) (chunkPosition : ChunkPos)
    (state : ChunkMap × ℕ) (command : TibiCommand) : Except String (ChunkMap × ℕ) :=
  if command.runtimeId = air then .ok state
  else if command.type = 0 then
    let chunks := setBlock air command.runtimeId state.1 (reader.toLocal command.first)
    if state.2 + 1 > kMaxMaterializedBlocksPerRequest then .error "TIBI 请求展开量超过限制"
    else .ok (chunks, state.2 + 1)
  else if command.type ≠ 1 then .ok state
  else
    let (low, high) := reader.clipped chunkPosition command
    if low.x > high.x ∨ low.z > high.z then .ok state
    else
      let volume := (high.x - low.x + 1).toNat * (high.z - low.z + 1).toNat *
        (high.y - low.y + 1).toNat
      if volume > kMaxMaterializedBlocksPerRequest - state.2 then
        .error "TIBI fill 请求展开量超过限制"
      else
        .ok ((cellsXYZ low high).foldl (setBlock air command.runtimeId) state.1, state.2 + volume)

/-- Replay the commands of a chunk. An index outside the list, which the source would read unchecked,
is an error here. -/
def replayChunk (reader : TibiReader) (air : RuntimeId) (index : CommandIndex) (state : ChunkMap × ℕ)
    (chunkPosition : ChunkPos) : Except String (ChunkMap × ℕ) :=
  (OrderedMerge.merge ((index.commandIndex.lookup chunkPosition).getD []) index.broadCommands).foldlM
    (fun state commandIndex =>
      match reader.commands[commandIndex]? with
      | none => .error "index out of range"
      | some command => reader.process air chunkPosition state command) state

/-- `get_chunks`; `order` is the order in which the chunk map is iterated. -/
def getChunks (reader : TibiReader) (air : RuntimeId) (positions order : List ChunkPos) :
    Except String ChunkMap × TibiReader :=
  let index := reader.index.getD reader.buildIndex
  ((order.foldlM (reader.replayChunk air index) (ChunkMap.emplaceAll positions, 0)).map Prod.fst,
    { reader with index := some index })

end TibiReader

end WaterStructure
