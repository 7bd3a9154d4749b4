import WaterStructure.Core.GridStream

/-!
# Block entities of chunks

Every structure hands out its block entities by chunk, at positions relative to the chunk. The rows
start at the overworld floor, as the rows of a chunk in the world do.
-/

namespace WaterStructure

variable {Nbt : Type}

/-- `std::unordered_map<ChunkPos, std::vector<BlockEntity>>`. -/
abbrev NbtChunkMap (Nbt : Type) := AList fun _ : ChunkPos => List (BlockEntity Nbt)

/-- The entity of a cell at the given position, relative to its chunk. -/
def chunkLocalEntity (pos : BlockPos) (payload : Nbt) : BlockEntity Nbt where
  pos := ⟨pos.x - (blockToChunk pos).x * 16, structureYToChunkLocal pos.y,
    pos.z - (blockToChunk pos).z * 16⟩
  payload

namespace NbtChunkMap

/-- No entities yet for every requested position. -/
def emplaceAll (positions : List ChunkPos) : NbtChunkMap Nbt :=
  positions.foldl (fun result pos => AssocMap.tryEmplace result pos []) ∅

/-- Add the entity of a cell, moved by the offset, if its chunk is requested. -/
def place (offset : BlockPos) (result : NbtChunkMap Nbt) (cell : BlockPos × Nbt) : NbtChunkMap Nbt :=
  let pos := cell.1.add offset
  AssocMap.update result (blockToChunk pos) (· ++ [chunkLocalEntity pos cell.2])

theorem lookup_emplaceAll (positions : List ChunkPos) (key : ChunkPos) :
    (emplaceAll positions : NbtChunkMap Nbt).lookup key = if key ∈ positions then some [] else none := by
  rw [emplaceAll, AssocMap.lookup_foldl_tryEmplace, AList.lookup_empty]

/-- A requested chunk gets the entities whose moved cells it holds, in order. -/
theorem lookup_foldl_place (offset : BlockPos) (cells : List (BlockPos × Nbt))
    (result : NbtChunkMap Nbt) (key : ChunkPos) :
    (cells.foldl (place offset) result).lookup key = (result.lookup key).map fun entities =>
      entities ++ (cells.filter fun cell => blockToChunk (cell.1.add offset) = key).map fun cell =>
        chunkLocalEntity (cell.1.add offset) cell.2 := by
  induction cells generalizing result with
  | nil => simp
  | cons cell rest ih =>
    rw [List.foldl_cons, ih, place, AssocMap.lookup_update]
    by_cases hkey : blockToChunk (cell.1.add offset) = key
    · subst hkey
      simp [Function.comp_def]
    · simp [hkey, Ne.symm hkey]

/-- A request hands out the entities of its chunks. -/
theorem lookup_place_emplaceAll (offset : BlockPos) (cells : List (BlockPos × Nbt))
    {positions : List ChunkPos} {position : ChunkPos} (hposition : position ∈ positions) :
    (cells.foldl (place offset) (emplaceAll positions)).lookup position =
      some ((cells.filter fun cell => blockToChunk (cell.1.add offset) = position).map fun cell =>
        chunkLocalEntity (cell.1.add offset) cell.2) := by
  rw [lookup_foldl_place, lookup_emplaceAll, if_pos hposition, Option.map_some, List.nil_append]

end NbtChunkMap

end WaterStructure
