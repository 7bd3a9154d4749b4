import WaterStructure.Core.GridStream
import WaterStructure.Library.StatefulRun
import WaterStructure.World.StoredWorld

/-!
# MCWorld

A selection of a stored world. Chunks of the world are loaded through a cache, whose entries may have
been loaded without the second layer; one flag says whether the second layer is there. Chunks that
lie on the grid of the world are copied as whole subchunks, the others cell by cell.
-/

namespace WaterStructure

open StatefulRun ChunkStream

/-- `mChunkCache` and `mChunkCacheHasLayer1`. -/
structure ChunkCache where
  chunks : AList fun _ : ChunkPos => ChunkData := ∅
  hasLayer1 : Bool := false

structure McWorldStructure where
  size : Size := ⟨0, 0, 0⟩
  originalSize : Size := ⟨0, 0, 0⟩
  offset : BlockPos := ⟨0, 0, 0⟩
  min : BlockPos := ⟨0, 0, 0⟩
  max : BlockPos := ⟨0, 0, 0⟩
  world : Option StoredWorld := none

/-- A block differs from air, in the layers that are asked for. -/
def SubChunkData.hasNonAir (sub : SubChunkData) (air : RuntimeId) (includeLayer1 : Bool) : Bool :=
  (List.range 4096).any (fun index => sub.layer0 index ≠ air) ||
    (includeLayer1 && (List.range 4096).any fun index => sub.layer1 index ≠ air)

namespace McWorldStructure

def setOffset (s : McWorldStructure) (offset : BlockPos) : McWorldStructure :=
  { s with
    offset
    size := ⟨s.originalSize.width + |offset.x|, s.originalSize.height + |offset.y|,
      s.originalSize.length + |offset.z|⟩ }

/-- Open a world with the two corners of a selection, however they were found. -/
def read (world : StoredWorld) (first second : BlockPos) : McWorldStructure :=
  let min : BlockPos := ⟨Min.min first.x second.x, Min.min first.y second.y, Min.min first.z second.z⟩
  let max : BlockPos := ⟨Max.max first.x second.x, Max.max first.y second.y, Max.max first.z second.z⟩
  setOffset
    { originalSize := ⟨max.x - min.x + 1, max.y - min.y + 1, max.z - min.z + 1⟩
      min, max
      world := some world } ⟨0, 0, 0⟩

/-- The end of `source_chunk`: load a chunk of the world and keep it. -/
def loadSource (s : McWorldStructure) (air : RuntimeId) (includeLayer1 : Bool) (pos : ChunkPos)
    (cache : ChunkCache) : Except String ChunkData × ChunkCache :=
  match s.world with
  | none => (.error "MCWorld 尚未打开", cache)
  | some world =>
    let chunk := world.loadChunkRange air pos (floorDiv s.min.y 16) (floorDiv s.max.y 16) includeLayer1
    (.ok chunk,
      { chunks := AssocMap.tryEmplace cache.chunks pos chunk
        hasLayer1 := includeLayer1 || cache.hasLayer1 })

def sourceChunk (s : McWorldStructure) (air : RuntimeId) (includeLayer1 : Bool) (pos : ChunkPos)
    (cache : ChunkCache) : Except String ChunkData × ChunkCache :=
  match cache.chunks.lookup pos with
  | none => s.loadSource air includeLayer1 pos cache
  | some chunk =>
    if includeLayer1 = false ∨ cache.hasLayer1 = true then (.ok chunk, cache)
    else s.loadSource air includeLayer1 pos { cache with chunks := cache.chunks.erase pos }

/-- Chunks of the selection are chunks of the world. -/
def AlignedFastPath (s : McWorldStructure) : Prop :=
  s.offset = ⟨0, 0, 0⟩ ∧ floorMod s.min.x 16 = 0 ∧ floorMod s.min.y 16 = 0 ∧
    floorMod s.min.z 16 = 0 ∧ s.size.height.tmod 16 = 0

instance (s : McWorldStructure) : Decidable s.AlignedFastPath :=
  inferInstanceAs (Decidable (_ ∧ _ ∧ _ ∧ _ ∧ _))

/-- What the loops of `get_chunks_impl` do with one chunk of the world. -/
inductive Task where
  | subChunks (source : ChunkPos)
  | column (localX localZ sourceX sourceZ : ℤ)
  deriving DecidableEq

/-- The chunk that is loaded. -/
def Task.source : Task → ChunkPos
  | .subChunks source => source
  | .column _ _ sourceX sourceZ => ⟨floorDiv sourceX 16, floorDiv sourceZ 16⟩

/-- The turns of the loops for a requested chunk. -/
def tasks (s : McWorldStructure) (pos : ChunkPos) : List Task :=
  if s.AlignedFastPath ∧ pos.x ≥ 0 ∧ pos.z ≥ 0 ∧ pos.x < s.size.width.tdiv 16 ∧
      pos.z < s.size.length.tdiv 16 then
    [.subChunks ⟨floorDiv s.min.x 16 + pos.x, floorDiv s.min.z 16 + pos.z⟩]
  else
    (Int.range (Max.max 0 (pos.x * 16)) (Min.min (s.size.width - 1) (pos.x * 16 + 15) + 1)).flatMap
      fun localX =>
        let originalX := localX - s.offset.x
        if originalX < 0 ∨ originalX ≥ s.originalSize.width then []
        else
          (Int.range (Max.max 0 (pos.z * 16))
            (Min.min (s.size.length - 1) (pos.z * 16 + 15) + 1)).filterMap fun localZ =>
              let originalZ := localZ - s.offset.z
              if originalZ < 0 ∨ originalZ ≥ s.originalSize.length then none
              else some (.column localX localZ (s.min.x + originalX) (s.min.z + originalZ))

/-- Copy the subchunks that are not empty. -/
def copySubChunks (s : McWorldStructure) (air : RuntimeId) (includeLayer1 : Bool)
    (source output : ChunkData) : ChunkData :=
  let sourceSubYDelta := floorDiv (s.min.y + 64) 16
  let outputMinSubY := floorDiv (-64) 16
  let outputMaxSubY := floorDiv (s.size.height - 1 - 64) 16
  { output with
    subChunks := source.subChunks.entries.foldl (fun result entry =>
      let outputSubY := entry.1 - sourceSubYDelta
      if outputSubY < outputMinSubY ∨ outputSubY > outputMaxSubY ∨
          entry.2.hasNonAir air includeLayer1 = false then result
      else AssocMap.tryEmplace result outputSubY entry.2) output.subChunks }

/-- A subchunk of the output before anything is stored in it. -/
def freshSubChunk (air : RuntimeId) (includeLayer1 : Bool) : SubChunkData where
  layer0 := fun _ => air
  layer1 := fun _ => if includeLayer1 then air else 0

/-- Copy one cell of a layer. -/
def copyCell (s : McWorldStructure) (air : RuntimeId) (includeLayer1 : Bool) (source : ChunkData)
    (localX localZ sourceX sourceZ : ℤ) (output : ChunkData) (cell : ℤ × Bool) : ChunkData :=
  let originalY := cell.1 - s.offset.y
  if originalY < 0 ∨ originalY ≥ s.originalSize.height then output
  else
    let sourceY := s.min.y + originalY
    let sourceIndex :=
      ((floorMod sourceY 16 * 16 + floorMod sourceZ 16) * 16 + floorMod sourceX 16).toNat
    let outputSubY := floorDiv (cell.1 - 64) 16
    let outputIndex :=
      (((cell.1 - (outputSubY * 16 + 64)) * 16 + floorMod localZ 16) * 16 + floorMod localX 16).toNat
    match source.subChunks.lookup (floorDiv sourceY 16) with
    | none => output
    | some sub =>
      let id := sub.layer cell.2 sourceIndex
      if id = air then output
      else output.setLayer (freshSubChunk air includeLayer1) cell.2 outputSubY outputIndex id

/-- The rows of a column, and the layers of each row. -/
def columnCells (s : McWorldStructure) (includeLayer1 : Bool) : List (ℤ × Bool) :=
  (Int.range 0 s.size.height).flatMap fun localY =>
    (if includeLayer1 then [false, true] else [false]).map fun secondary => (localY, secondary)

/-- One turn, with the chunk of the world. -/
def perform (s : McWorldStructure) (air : RuntimeId) (includeLayer1 : Bool) (source : ChunkData)
    (task : Task) (output : ChunkData) : ChunkData :=
  match task with
  | .subChunks _ => s.copySubChunks air includeLayer1 source output
  | .column localX localZ sourceX sourceZ =>
    (s.columnCells includeLayer1).foldl
      (s.copyCell air includeLayer1 source localX localZ sourceX sourceZ) output

/-- All turns of a request, with the requested chunk of each. -/
def allTasks (s : McWorldStructure) (positions : List ChunkPos) : List (ChunkPos × Task) :=
  positions.flatMap fun pos => (s.tasks pos).map fun task => (pos, task)

/-- One turn of the loops: load the chunk of the world and copy from it. -/
def runTurn (s : McWorldStructure) (air : RuntimeId) (includeLayer1 : Bool) (result : ChunkMap)
    (turn : ChunkPos × Task) : ChunkCache → Except String ChunkMap × ChunkCache :=
  andThen (s.sourceChunk air includeLayer1 turn.2.source) fun source cache =>
    (.ok (AssocMap.update result turn.1 (s.perform air includeLayer1 source turn.2)), cache)

def getChunksImpl (s : McWorldStructure) (air : RuntimeId) (includeLayer1 : Bool)
    (positions : List ChunkPos) : ChunkCache → Except String ChunkMap × ChunkCache :=
  loop (s.runTurn air includeLayer1) (s.allTasks positions) (ChunkMap.emplaceAll positions)

def getChunks (s : McWorldStructure) (air : RuntimeId) (positions : List ChunkPos) :
    ChunkCache → Except String ChunkMap × ChunkCache :=
  s.getChunksImpl air true positions

def getChunksLayer0 (s : McWorldStructure) (air : RuntimeId) (positions : List ChunkPos) :
    ChunkCache → Except String ChunkMap × ChunkCache :=
  s.getChunksImpl air false positions

/-- `std::numeric_limits<std::size_t>::max()`. -/
def maxSizeT : ℕ := 18446744073709551615

/-- Count the blocks of a layer. -/
def countLayer (air : RuntimeId) (count : ℕ) (layer : BlockLayer) : Except String ℕ :=
  (List.range 4096).foldlM (fun count index =>
    if layer index = air then .ok count
    else if count = maxSizeT then .error "MCWorld 非空气方块数量溢出"
    else .ok (count + 1)) count

/-- Count the blocks of a chunk. -/
def countChunk (air : RuntimeId) (chunk : ChunkData) (count : ℕ) : Except String ℕ :=
  chunk.subChunks.entries.foldlM (fun count entry => do
    countLayer air (← countLayer air count entry.2.layer0) entry.2.layer1) count

def releaseCachedChunks (_ : ChunkCache) : ChunkCache := {}

def countNonAirBlocks (s : McWorldStructure) (air : RuntimeId) (cache : ChunkCache) :
    Except String ℕ × ChunkCache :=
  match s.world with
  | none => (.error "MCWorld 尚未打开", cache)
  | some _ =>
    loop (fun count pos =>
      andThen (s.getChunks air [pos]) fun chunks cache =>
        match chunks.lookup pos with
        | none => (.ok count, cache)
        | some chunk =>
          match countChunk air chunk count with
          | .error error => (.error error, cache)
          | .ok count => (.ok count, releaseCachedChunks cache)) (gridPositions s.size) 0 cache

end McWorldStructure

end WaterStructure
