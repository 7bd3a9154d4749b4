import WaterStructure.Core.NonAirCount
import WaterStructure.Formats.BdxWriter

/-!
# The cells that the BDX writer visits

The nested loops of the writer are one loop over cells, which visits every cell of the structure once.
A subchunk that is missing has air only, so nothing is lost where the writer skips it.
-/

namespace WaterStructure.Bdx

open ByteReader ChunkStream NestedLoop

section Cells

/-- The cells of a chunk, in the order of the loops. -/
def chunkCells (size : Size) (chunk : ChunkPos) : List BlockPos :=
  (subChunkRows size).flatMap (subChunkCells size chunk)

/-- All cells, in the order of the loops. -/
def writtenCells (size : Size) (batchSize : ℤ) : List BlockPos :=
  (batches size batchSize).flatMap fun positions => positions.flatMap (chunkCells size)

theorem mem_subChunkCells {size : Size} {chunk : ChunkPos} {subY : ℤ} {pos : BlockPos} :
    pos ∈ subChunkCells size chunk subY ↔
      (pos.x / 16 = chunk.x ∧ pos.z / 16 = chunk.z ∧ (pos.y - 64) / 16 = subY) ∧
        pos.x < size.width ∧ (0 ≤ pos.y ∧ pos.y < size.height) ∧ pos.z < size.length := by
  rw [subChunkCells, List.mem_flatMap]
  constructor
  · rintro ⟨localX, hx, hmem⟩
    rw [Int.mem_range_iff] at hx
    split_ifs at hmem with hwidth
    · cases hmem
    · obtain ⟨localY, hy, hmem⟩ := List.mem_flatMap.mp hmem
      rw [Int.mem_range_iff] at hy
      split_ifs at hmem with hheight
      · cases hmem
      · obtain ⟨localZ, hz, rfl⟩ := List.mem_map.mp hmem
        rw [List.mem_filter, Int.mem_range_iff, decide_eq_true_iff] at hz
        dsimp only
        omega
  · rintro ⟨⟨hx, hz, hy⟩, hwidth, ⟨hlow, hheight⟩, hlength⟩
    refine ⟨pos.x % 16, Int.mem_range_iff.mpr (by omega), ?_⟩
    rw [if_neg (by omega), List.mem_flatMap]
    refine ⟨(pos.y - 64) % 16, Int.mem_range_iff.mpr (by omega), ?_⟩
    rw [if_neg (by omega), List.mem_map]
    refine ⟨pos.z % 16, List.mem_filter.mpr ⟨Int.mem_range_iff.mpr (by omega), ?_⟩, ?_⟩
    · rw [decide_eq_true_iff]
      omega
    · obtain ⟨x, y, z⟩ := pos
      rw [BlockPos.mk.injEq]
      dsimp only at *
      omega

theorem nodup_subChunkCells (size : Size) (chunk : ChunkPos) (subY : ℤ) :
    (subChunkCells size chunk subY).Nodup := by
  refine @nodup_flatMap_of_tag _ _ _ _ (fun pos : BlockPos => pos.x - chunk.x * 16) (nodup_range 0 16)
    (fun localX _ => ?_) fun localX _ pos hpos => ?_
  · split
    · exact List.nodup_nil
    · refine @nodup_flatMap_of_tag _ _ _ _ (fun pos : BlockPos => pos.y - (subY * 16 + 64))
        (nodup_range 0 16) (fun localY _ => ?_) fun localY _ pos hpos => ?_
      · split
        · exact List.nodup_nil
        · refine ((nodup_range 0 16).filter _).map fun first second h => ?_
          have hz := (BlockPos.mk.inj h).2.2
          omega
      · split at hpos
        · cases hpos
        · obtain ⟨localZ, -, rfl⟩ := List.mem_map.mp hpos
          dsimp only
          omega
  · split at hpos
    · cases hpos
    · obtain ⟨localY, -, hpos⟩ := List.mem_flatMap.mp hpos
      split at hpos
      · cases hpos
      · obtain ⟨localZ, -, rfl⟩ := List.mem_map.mp hpos
        dsimp only
        omega

theorem mem_chunkCells {size : Size} {chunk : ChunkPos} {pos : BlockPos} :
    pos ∈ chunkCells size chunk ↔ (pos.x / 16 = chunk.x ∧ pos.z / 16 = chunk.z) ∧
      pos.x < size.width ∧ (0 ≤ pos.y ∧ pos.y < size.height) ∧ pos.z < size.length := by
  rw [chunkCells, subChunkRows, floorDiv_sixteen, floorDiv_sixteen, List.mem_flatMap]
  constructor
  · rintro ⟨subY, -, hmem⟩
    have h := mem_subChunkCells.mp hmem
    exact ⟨⟨h.1.1, h.1.2.1⟩, h.2⟩
  · intro h
    exact ⟨(pos.y - 64) / 16, Int.mem_range_iff.mpr (by omega),
      mem_subChunkCells.mpr ⟨⟨h.1.1, h.1.2, rfl⟩, h.2⟩⟩

theorem nodup_chunkCells (size : Size) (chunk : ChunkPos) : (chunkCells size chunk).Nodup :=
  @nodup_flatMap_of_tag _ _ _ _ (fun pos : BlockPos => (pos.y - 64) / 16) (nodup_range _ _)
    (fun subY _ => nodup_subChunkCells size chunk subY) fun _ _ _ hpos => (mem_subChunkCells.mp hpos).1.2.2

/-- The batches of a row are the row. -/
theorem flatten_batchesFrom {count batchSize batchX : ℤ} (hbatch : 0 < batchSize) (hle : batchX ≤ count) :
    (batchesFrom count batchSize batchX).flatten = Int.range batchX count := by
  induction batchX using batchesFrom.induct count batchSize with
  | case1 batchX hmore ih =>
    rw [batchesFrom, dif_pos hmore, List.flatten_cons]
    by_cases hlast : count ≤ batchX + batchSize
    · have hnone : batchesFrom count batchSize (batchX + batchSize) = [] := by
        rw [batchesFrom, dif_neg fun h => Int.not_lt.mpr hlast h.1]
      rw [hnone, List.flatten_nil, List.append_nil, Int.min_eq_left hlast]
    · rw [ih (by omega), Int.min_eq_right (by omega), range_append (by omega) (by omega)]
  | case2 batchX hdone =>
    rw [batchesFrom, dif_neg hdone, List.flatten_nil, range_eq_nil (by omega)]

/-- The batches are the grid of chunks. -/
theorem flatten_batches {size : Size} {batchSize : ℤ} (hbatch : 0 < batchSize) (hwidth : 0 < size.width) :
    (batches size batchSize).flatten = gridPositions size := by
  have hcount : 0 ≤ size.chunkXCount := by
    rw [Size.chunkXCount, chunkCount_eq _ hwidth]
    omega
  rw [batches, gridPositions, ← List.flatMap_id, List.flatMap_assoc]
  refine List.flatMap_congr fun z _ => ?_
  rw [List.flatMap_id, ← List.map_flatten, flatten_batchesFrom hbatch hcount]

variable {size : Size} {batchSize : ℤ}

theorem writtenCells_eq (hbatch : 0 < batchSize) (hwidth : 0 < size.width) :
    writtenCells size batchSize = (gridPositions size).flatMap (chunkCells size) := by
  rw [← flatten_batches hbatch hwidth, ← List.flatMap_id, List.flatMap_assoc]
  rfl

/-- The writer visits the cells of the structure. -/
theorem mem_writtenCells (hbatch : 0 < batchSize) (hwidth : 0 < size.width) (hlength : 0 < size.length)
    {pos : BlockPos} : pos ∈ writtenCells size batchSize ↔ size.Contains pos := by
  simp only [writtenCells_eq hbatch hwidth, List.mem_flatMap, mem_chunkCells, mem_gridPositions,
    Size.chunkXCount, Size.chunkZCount, chunkCount_eq _ hwidth, chunkCount_eq _ hlength, Size.Contains]
  constructor
  · rintro ⟨chunk, hgrid, hchunk, hcell⟩
    omega
  · intro h
    exact ⟨⟨pos.x / 16, pos.z / 16⟩, by dsimp only; omega, ⟨rfl, rfl⟩, by omega⟩

/-- It visits each of them once. -/
theorem nodup_writtenCells (hbatch : 0 < batchSize) (hwidth : 0 < size.width) :
    (writtenCells size batchSize).Nodup := by
  rw [writtenCells_eq hbatch hwidth]
  refine @nodup_flatMap_of_tag _ _ _ _ (fun pos : BlockPos => ChunkPos.mk (pos.x / 16) (pos.z / 16))
    (nodup_gridPositions size) (fun chunk _ => nodup_chunkCells size chunk) fun chunk _ pos hpos => ?_
  obtain ⟨⟨hx, hz⟩, -⟩ := mem_chunkCells.mp hpos
  rw [hx, hz]

end Cells

section Blocks

variable {registry : RuntimeRegistry} {source : StructureSource} {content : BlockPos → RuntimeId}
  {batchSize : ℤ}

/-- The chunks of a structure show the ids of its blocks, in the layout of the readers. -/
def ShowsIds (air : RuntimeId) (source : StructureSource) (content : BlockPos → RuntimeId) : Prop :=
  ∀ positions chunks, source.getChunksLayer0 positions = .ok chunks →
    (∀ key chunk, chunks.lookup key = some chunk → chunk.layout = .Internal) ∧
      ∀ pos, source.size.Contains pos → blockToChunk pos ∈ positions →
        chunks.runtimeAt air pos = content pos

/-- Write a cell whose id is known. -/
def writeId (registry : RuntimeRegistry) (content : BlockPos → RuntimeId) (s : WriterState)
    (pos : BlockPos) : Except String WriterState :=
  if content pos = registry.airRuntimeId then .ok s else placeBlock registry s (content pos) pos

theorem foldlM_writeId_of_air {cells : List BlockPos} (s : WriterState)
    (h : ∀ pos ∈ cells, content pos = registry.airRuntimeId) :
    cells.foldlM (writeId registry content) s = .ok s := by
  induction cells with
  | nil => rfl
  | cons pos rest ih =>
    rw [List.foldlM_cons, writeId, if_pos (h pos List.mem_cons_self), ok_bind]
    exact ih fun other hother => h other (List.mem_cons_of_mem pos hother)

theorem foldlM_congr {σ : Type} {α : Type} {step step' : σ → α → Except String σ} {items : List α}
    (h : ∀ s, ∀ a ∈ items, step s a = step' s a) (s : σ) :
    items.foldlM step s = items.foldlM step' s := by
  induction items generalizing s with
  | nil => rfl
  | cons a rest ih =>
    rw [List.foldlM_cons, List.foldlM_cons, h s a List.mem_cons_self]
    refine congrArg (step' s a >>= ·) (funext fun next => ?_)
    exact ih (fun s b hb => h s b (List.mem_cons_of_mem a hb)) next

/-- A subchunk is written cell by cell, also when it is missing. -/
theorem writeSubChunk_eq {chunks : ChunkMap} {chunk : ChunkPos} {subY : ℤ}
    (hshows : ∀ pos, source.size.Contains pos → blockToChunk pos = chunk →
      chunks.runtimeAt registry.airRuntimeId pos = content pos)
    (hlayout : ∀ key data, chunks.lookup key = some data → data.layout = .Internal) (s : WriterState)
    (hchunk : chunk ∈ gridPositions source.size) :
    writeSubChunk registry source.size chunks chunk s subY =
      (subChunkCells source.size chunk subY).foldlM (writeId registry content) s := by
  have hcell : ∀ pos ∈ subChunkCells source.size chunk subY, chunks.runtimeAt registry.airRuntimeId pos =
      content pos ∧ blockToChunk pos = chunk ∧ floorDiv (pos.y - 64) 16 = subY := by
    intro pos hpos
    obtain ⟨⟨hx, hz, hy⟩, hwidth, hheight, hlength⟩ := mem_subChunkCells.mp hpos
    have hkey : blockToChunk pos = chunk := by
      rw [blockToChunk, floorDiv_sixteen, floorDiv_sixteen, hx, hz]
    obtain ⟨hgridX, hgridZ⟩ := mem_gridPositions.mp hchunk
    refine ⟨hshows pos ⟨⟨?_, hwidth⟩, hheight, ?_, hlength⟩ hkey, hkey, floorDiv_sixteen _ ▸ hy⟩
    · omega
    · omega
  rw [writeSubChunk, layerAt]
  cases hlookup : chunks.lookup chunk with
  | none =>
    refine (foldlM_writeId_of_air s fun pos hpos => ?_).symm
    obtain ⟨hid, hkey, -⟩ := hcell pos hpos
    rw [← hid, ChunkMap.runtimeAt, ChunkMap.blockAt, hkey, hlookup]
    rfl
  | some data =>
    dsimp only [Option.bind_some]
    cases hsub : data.subChunks.lookup subY with
    | none =>
      refine (foldlM_writeId_of_air s fun pos hpos => ?_).symm
      obtain ⟨hid, hkey, hrow⟩ := hcell pos hpos
      rw [← hid, ChunkMap.runtimeAt, ChunkMap.blockAt, hkey, hlookup, Option.map_some, Option.getD_some,
        ChunkData.blockAt]
      rw [hrow, ChunkData.layer0At, hsub]
    | some sub =>
      refine foldlM_congr (fun s pos hpos => ?_) s
      obtain ⟨hid, hkey, hrow⟩ := hcell pos hpos
      have hlocal : sub.layer0 (BlockLayerLayout.Internal.index (pos.x - chunk.x * 16)
          (pos.y - (subY * 16 + 64)) (pos.z - chunk.z * 16)) = content pos := by
        have hx : floorMod pos.x 16 = pos.x - chunk.x * 16 := by
          rw [← hkey, blockToChunk, floorMod]
        have hz : floorMod pos.z 16 = pos.z - chunk.z * 16 := by
          rw [← hkey, blockToChunk, floorMod]
        rw [← hid, ChunkMap.runtimeAt, ChunkMap.blockAt, hkey, hlookup, Option.map_some, Option.getD_some,
          ChunkData.blockAt]
        rw [hrow, ChunkData.layer0At, hsub, hlayout _ _ hlookup, hx, hz]
      rw [writeCell, writeId]
      rw [hlocal]

/-- The chunks of a batch are written cell by cell. -/
theorem foldlM_writeChunk_eq (hbatch : 0 < batchSize) (hwidth : 0 < source.size.width)
    {positions : List ChunkPos} (hpositions : positions ∈ batches source.size batchSize) {chunks : ChunkMap}
    (hlayout : ∀ key chunk, chunks.lookup key = some chunk → chunk.layout = .Internal)
    (hblock : ∀ pos, source.size.Contains pos → blockToChunk pos ∈ positions →
      chunks.runtimeAt registry.airRuntimeId pos = content pos) (s : WriterState) :
    positions.foldlM (writeChunk registry source.size chunks) s =
      (positions.flatMap (chunkCells source.size)).foldlM (writeId registry content) s := by
  refine foldlM_flatMap_of_eq (fun s chunk hchunk => foldlM_flatMap_of_eq (fun s subY _ => ?_) s) s
  have hgrid : chunk ∈ gridPositions source.size := by
    rw [← flatten_batches hbatch hwidth]
    exact List.mem_flatten_of_mem hpositions hchunk
  exact writeSubChunk_eq (fun pos hpos hkey => hblock pos hpos (hkey ▸ hchunk)) hlayout s hgrid

/-- What the writer does is one loop over its cells. -/
theorem foldlM_writeId_of_writeBatches (hshows : ShowsIds registry.airRuntimeId source content)
    (hbatch : 0 < batchSize) (hwidth : 0 < source.size.width) {s t : WriterState}
    (h : (batches source.size batchSize).foldlM (writeBatch registry source) s = .ok t) :
    (writtenCells source.size batchSize).foldlM (writeId registry content) s = .ok t := by
  refine foldlM_flatMap_of_ok (fun s positions hpositions t hwrite => ?_) h
  rw [writeBatch] at hwrite
  split at hwrite
  case h_1 => cases hwrite
  case h_2 chunks hchunks =>
    obtain ⟨hlayout, hblock⟩ := hshows positions chunks hchunks
    rwa [foldlM_writeChunk_eq hbatch hwidth hpositions hlayout hblock] at hwrite

/-- As long as the structure gives its chunks. -/
theorem foldlM_writeBatch_eq (hshows : ShowsIds registry.airRuntimeId source content)
    (hbatch : 0 < batchSize) (hwidth : 0 < source.size.width)
    (hchunks : ∀ positions, ∃ chunks, source.getChunksLayer0 positions = .ok chunks) (s : WriterState) :
    (batches source.size batchSize).foldlM (writeBatch registry source) s =
      (writtenCells source.size batchSize).foldlM (writeId registry content) s := by
  refine foldlM_flatMap_of_eq (fun s positions hpositions => ?_) s
  obtain ⟨chunks, hgiven⟩ := hchunks positions
  obtain ⟨hlayout, hblock⟩ := hshows positions chunks hgiven
  rw [writeBatch, hgiven]
  exact foldlM_writeChunk_eq hbatch hwidth hpositions hlayout hblock s

end Blocks

end WaterStructure.Bdx
