import WaterStructure.Core.Grid
import WaterStructure.Formats.McStructure

/-!
# MCStructure: the chunks of a structure

A request gives the cells of the structure, moved by the offset. The second layer is written
afterwards and leaves the first one alone.
-/

namespace WaterStructure.McStructure

open LastValue NestedLoop

variable {Payload : Type}

/-- The block that a request shows for a cell. -/
def shown (s : McStructure Payload) (air : RuntimeId) (cell : BlockPos) : RuntimeId :=
  if s.originalSize.Contains cell then (s.blockOf air s.primaryIndices cell).getD air else air

/-- The loops visit the source cells that the offset moves into the chunk. -/
theorem mem_cellsOf {s : McStructure Payload} {chunkPos : ChunkPos} (cell : BlockPos) :
    cell ∈ s.cellsOf chunkPos ↔
      s.originalSize.Contains cell ∧ blockToChunk (cell.add s.offset) = chunkPos := by
  obtain ⟨x, y, z⟩ := cell
  obtain ⟨cx, cz⟩ := chunkPos
  simp only [cellsOf, blockToChunk, BlockPos.add, Size.Contains, floorDiv_sixteen,
    ChunkPos.mk.injEq]
  split_ifs with hempty
  · simp only [List.not_mem_nil, false_iff]; omega
  · simp only [List.mem_flatMap, List.mem_map, Int.mem_range_iff, BlockPos.mk.injEq]
    constructor
    · rintro ⟨x, hx, y, hy, z, hz, rfl, rfl, rfl⟩
      omega
    · rintro ⟨⟨hx, hy, hz⟩, hcx, hcz⟩
      exact ⟨x, by omega, y, by omega, z, by omega, rfl, rfl, rfl⟩

/-- Filling the first layer of a chunk is a sweep over its cells. -/
theorem foldl_storeCell_eq_sweep (s : McStructure Payload) (air : RuntimeId) (chunkPos : ChunkPos) :
    (s.cellsOf chunkPos).foldl (s.storeCell air s.primaryIndices false chunkPos) {} =
      ChunkData.sweep {} air (s.cellsOf chunkPos) (·.add s.offset)
        (s.blockOf air s.primaryIndices) := by
  refine ChunkData.foldl_eq_sweep {} fun chunk hlayout cell hcell => ?_
  obtain ⟨-, hchunk⟩ := (mem_cellsOf cell).mp hcell
  have hx : floorMod (cell.x + s.offset.x) 16 = cell.x + s.offset.x - chunkPos.x * 16 := by
    rw [← hchunk]
    rfl
  have hz : floorMod (cell.z + s.offset.z) 16 = cell.z + s.offset.z - chunkPos.z * 16 := by
    rw [← hchunk]
    rfl
  rw [storeCell]
  cases s.blockOf air s.primaryIndices cell with
  | none => rfl
  | some id => simp [ChunkData.setAt, BlockPos.add, hx, hz, hlayout, BlockLayerLayout.index]

/-- The second layer leaves the first one alone. -/
theorem blockAt_setSecondary (chunk : ChunkData) (air : RuntimeId) (subY : ℤ) (index : ℕ)
    (id : RuntimeId) (pos : BlockPos) :
    (setSecondary chunk air subY index id).blockAt air pos = chunk.blockAt air pos := by
  rw [← ChunkData.blockAt_ensureSubChunk chunk air subY pos]
  simp only [ChunkData.blockAt, ChunkData.layer0At, setSecondary, ChunkData.ensureSubChunk,
    AssocMap.lookup_update]
  by_cases hsame : floorDiv (pos.y - 64) 16 = subY
  · rw [if_pos hsame, hsame]
    cases (AssocMap.tryEmplace chunk.subChunks subY (.filled air)).lookup subY with
    | none => rfl
    | some sub => rfl
  · rw [if_neg hsame]

theorem blockAt_foldl_secondary (s : McStructure Payload) (air : RuntimeId) (chunkPos : ChunkPos)
    (cells : List BlockPos) (chunk : ChunkData) (pos : BlockPos) :
    (cells.foldl (s.storeCell air s.secondaryIndices true chunkPos) chunk).blockAt air pos =
      chunk.blockAt air pos := by
  induction cells generalizing chunk with
  | nil => rfl
  | cons cell rest ih =>
    rw [List.foldl_cons, ih, storeCell]
    cases s.blockOf air s.secondaryIndices cell with
    | none => rfl
    | some id => exact blockAt_setSecondary ..

/-- Every requested chunk shows the structure moved by the offset. -/
theorem getChunks_shown (s : McStructure Payload) (air : RuntimeId) {positions : List ChunkPos}
    {position : ChunkPos} (hposition : position ∈ positions) :
    ∃ chunk, (s.getChunks air positions).lookup position = some chunk ∧
      ∀ pos, blockToChunk pos = position →
        chunk.blockAt air pos = s.shown air (pos.sub s.offset) := by
  have hwrite (indices : BlockIndexArray) (secondary : Bool) (chunks : ChunkMap) :
      (s.writeLayer air indices secondary chunks).lookup position =
        (chunks.lookup position).map fun chunk => if indices.size = 0 then chunk
          else (s.cellsOf position).foldl (s.storeCell air indices secondary position) chunk := by
    rw [writeLayer]
    split
    · exact Option.map_id'.symm
    · exact ChunkMap.lookup_forEach ..
  rw [getChunks, hwrite, hwrite, ChunkMap.lookup_emplaceAll, if_pos hposition]
  refine ⟨_, rfl, fun pos hpos => ?_⟩
  have hsecondary (chunk : ChunkData) : (if s.secondaryIndices.size = 0 then chunk else
      (s.cellsOf position).foldl (s.storeCell air s.secondaryIndices true position) chunk).blockAt
        air pos = chunk.blockAt air pos := by
    split
    · rfl
    · exact s.blockAt_foldl_secondary ..
  rw [hsecondary, shown]
  split
  case isTrue hempty =>
    -- A layer without indices has no block.
    have hnone : s.blockOf air s.primaryIndices (pos.sub s.offset) = none := by
      rw [blockOf]
      cases hindices : s.primaryIndices with
      | compact values =>
        rw [hindices, BlockIndexArray.size, List.length_eq_zero_iff] at hempty
        rw [hempty]
        rfl
      | full values =>
        rw [hindices, BlockIndexArray.size, List.length_eq_zero_iff] at hempty
        rw [hempty]
        rfl
    rw [hnone, Option.getD_none, ite_self, ChunkData.blockAt_empty]
  case isFalse =>
    dsimp only
    rw [foldl_storeCell_eq_sweep]
    subst hpos
    exact ChunkData.blockAt_sweep_add mem_cellsOf _

end WaterStructure.McStructure
