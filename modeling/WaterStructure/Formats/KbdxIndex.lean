import WaterStructure.Formats.Kbdx

/-!
# The chunk index of the KBDX reader

The index lists for every chunk the numbers of the blocks that the offset moves into it. A request that
finds the blocks inside `int32` shows each of them at its moved position, whether the index was there or
is built for it.
-/

namespace WaterStructure

open LastValue NestedLoop

namespace Kbdx

variable {blocks : List Block} {offset : BlockPos} {buckets : Buckets}

/-- The bucket of a chunk has the numbers of its blocks, in order. -/
theorem lookup_buildIndex (h : buildIndex blocks offset = some buckets) (pos : ChunkPos) :
    (buckets.lookup pos).getD [] = (blocks.zipIdx.filter fun entry =>
      decide (blockToChunk (entry.1.pos.add offset) = pos)).map Prod.snd := by
  rw [buildIndex] at h
  obtain ⟨-, h⟩ := else_of_some h
  cases h
  rw [AssocMap.lookup_foldl_pushBack, AList.lookup_empty, List.filter_map, List.map_map]
  rfl

theorem exists_buildIndex (h : blocks.length ≤ 4294967295) (offset : BlockPos) :
    ∃ buckets, buildIndex blocks offset = some buckets :=
  ⟨_, if_neg (Nat.not_lt.mpr h)⟩

/-- A number in a bucket is that of a block of the chunk. -/
theorem exists_of_mem_bucket (h : buildIndex blocks offset = some buckets) {pos : ChunkPos} {index : ℕ}
    (hindex : index ∈ (buckets.lookup pos).getD []) :
    ∃ block, blocks[index]? = some block ∧ blockToChunk (block.pos.add offset) = pos := by
  rw [lookup_buildIndex h] at hindex
  obtain ⟨entry, hentry, rfl⟩ := List.mem_map.mp hindex
  obtain ⟨hmem, hchunk⟩ := List.mem_filter.mp hentry
  exact ⟨entry.1, List.mem_zipIdx_iff_getElem?.mp hmem, of_decide_eq_true hchunk⟩

end Kbdx

open Kbdx

/-- The id that a block moved onto a position has. -/
def KbdxStructure.moved (offset pos : BlockPos) (block : Block) : Option RuntimeId :=
  if block.pos.add offset = pos then some block.runtimeId else none

/-- Storing the blocks of a bucket fills its chunk, if each of them is stored at its moved position. -/
theorem Kbdx.fillBucket_ok {air : RuntimeId} {blocks : List Block} {offset : BlockPos} {buckets : Buckets}
    (hindex : buildIndex blocks offset = some buckets) {chunkPos : ChunkPos}
    {store : ChunkData → ℕ → Except String ChunkData} (hstore : ∀ index block chunk,
      blocks[index]? = some block → blockToChunk (block.pos.add offset) = chunkPos → chunk.layout = .Internal →
        store chunk index = .ok (chunk.setAt air (block.pos.add offset) block.runtimeId)) :
    ∃ chunk, ((buckets.lookup chunkPos).getD []).foldlM store {} = .ok chunk ∧
      ∀ pos, blockToChunk pos = chunkPos →
        chunk.blockAt air pos = (lastValue (KbdxStructure.moved offset pos) blocks).getD air := by
  have hentry {entry : Block × ℕ} (hmem : entry ∈ blocks.zipIdx.filter fun entry =>
      decide (blockToChunk (entry.1.pos.add offset) = chunkPos)) :
      blocks[entry.2]? = some entry.1 ∧ blockToChunk (entry.1.pos.add offset) = chunkPos :=
    ⟨List.mem_zipIdx_iff_getElem?.mp (List.mem_filter.mp hmem).1, of_decide_eq_true (List.mem_filter.mp hmem).2⟩
  rw [lookup_buildIndex hindex, List.foldlM_map]
  generalize hentries : (blocks.zipIdx.filter fun entry =>
    decide (blockToChunk (entry.1.pos.add offset) = chunkPos)) = entries at *
  obtain ⟨chunk, hchunk, -, hblocks⟩ := @foldlM_observe_inv _ _ _ _ _
    (fun (pos : {pos : BlockPos // blockToChunk pos = chunkPos}) (chunk : ChunkData) => chunk.blockAt air pos)
    (fun pos (entry : Block × ℕ) => KbdxStructure.moved offset pos entry.1)
    (fun chunk entry => store chunk entry.2)
    (fun chunk => chunk.layout = .Internal) entries {} rfl (fun chunk hlayout entry hmem => by
      obtain ⟨hget, hpos⟩ := hentry hmem
      refine ⟨_, hstore _ _ _ hget hpos hlayout, hlayout, fun pos => ?_⟩
      rw [ChunkData.blockAt_setAt _ _ _ (pos.2.trans hpos.symm).symm, KbdxStructure.moved]
      by_cases hplace : entry.1.pos.add offset = pos.1
      · rw [if_pos hplace.symm, if_pos hplace, Option.getD_some]
      · rw [if_neg (Ne.symm hplace), if_neg hplace, Option.getD_none])
  refine ⟨chunk, hchunk, fun pos hpos => ?_⟩
  have hall : lastValue (fun entry : Block × ℕ => KbdxStructure.moved offset pos entry.1) entries =
      lastValue (KbdxStructure.moved offset pos) blocks := by
    rw [← hentries, lastValue_filter, ← lastValue_map (KbdxStructure.moved offset pos) Prod.fst,
      List.zipIdx_map_fst]
    intro entry _ hdrop
    refine if_neg fun hplace => ?_
    rw [hplace, hpos] at hdrop
    exact absurd rfl (of_decide_eq_false hdrop)
  rw [hblocks ⟨pos, hpos⟩, hall]
  rfl

namespace KbdxStructure

variable {Nbt : Type} {object : KbdxStructure Nbt}

/-- If there is an index, it is that of the blocks under the offset. -/
def Indexed (object : KbdxStructure Nbt) : Prop :=
  ∀ buckets, object.chunkIndex = some buckets → buildIndex object.blocks object.offset = some buckets

theorem Indexed.ensureIndex (h : object.Indexed) :
    object.ensureIndex = buildIndex object.blocks object.offset := by
  rw [KbdxStructure.ensureIndex]
  split
  case h_1 buckets hbuckets => exact (h buckets hbuckets).symm
  case h_2 => rfl

theorem indexed_setOffset (object : KbdxStructure Nbt) (offset : BlockPos) :
    (object.setOffset offset).Indexed := nofun

/-- A request leaves the object as it is, but for an index of its blocks. -/
theorem Indexed.getChunks_cases (h : object.Indexed) (air : RuntimeId) (positions : List ChunkPos) :
    ∃ chunkIndex, (object.getChunks air positions).2 = { object with chunkIndex } ∧
      ({ object with chunkIndex } : KbdxStructure Nbt).Indexed := by
  rw [getChunks, h.ensureIndex]
  split
  · exact ⟨object.chunkIndex, rfl, h⟩
  · split
    case h_1 => exact ⟨object.chunkIndex, rfl, h⟩
    case h_2 buckets hbuckets => exact ⟨some buckets, rfl, fun _ heq => by rw [← heq, ← hbuckets]⟩

variable {air : RuntimeId}

/-- A block of the chunk is stored at its moved position. -/
theorem storeBlock_eq {block : Block} {index : ℕ} (hindex : object.blocks[index]? = some block)
    (hfits : (block.pos.add object.offset).FitsInt32) {chunk : ChunkData} (hlayout : chunk.layout = .Internal) :
    object.storeBlock air (blockToChunk (block.pos.add object.offset)) chunk index =
      .ok (chunk.setAt air (block.pos.add object.offset) block.runtimeId) := by
  obtain ⟨-, hy, -⟩ := hfits
  unfold IsInt32 int32Min int32Max at hy
  have hsub : ¬ ¬ IsInt32 (((block.pos.add object.offset).y - 64) / 16) := by
    unfold IsInt32 int32Min int32Max
    omega
  rw [storeBlock, hindex]
  simp only [blockToChunk, floorDiv_sixteen, floorDiv64_sixteen]
  rw [if_neg hsub, if_neg (by omega), ChunkData.setAt, hlayout]
  simp only [BlockLayerLayout.index, floorDiv_sixteen, floorMod_sixteen]
  have hlocal (value : ℤ) : value - value / 16 * 16 = value % 16 := by omega
  rw [hlocal, hlocal, hlocal, show (block.pos.add object.offset).y -
    (((block.pos.add object.offset).y - 64) / 16 * 16 + 64) = ((block.pos.add object.offset).y - 64) % 16 by omega]

/-- A chunk is filled with the blocks of its bucket. -/
theorem fillChunk_ok {buckets : Buckets} (hindex : buildIndex object.blocks object.offset = some buckets)
    (hfits : ∀ block ∈ object.blocks, (block.pos.add object.offset).FitsInt32) (chunkPos : ChunkPos) :
    ∃ chunk, ((buckets.lookup chunkPos).getD []).foldlM (object.storeBlock air chunkPos) {} = .ok chunk ∧
      ∀ pos, blockToChunk pos = chunkPos →
        chunk.blockAt air pos = (lastValue (moved object.offset pos) object.blocks).getD air := by
  refine fillBucket_ok hindex fun index block chunk hget hpos hlayout => ?_
  subst hpos
  exact storeBlock_eq hget (hfits block (List.mem_of_getElem? hget)) hlayout

/-- A request shows the blocks at their moved positions, if all of them are inside `int32`. -/
theorem Indexed.getChunks_ok (h : object.Indexed) (hcount : object.blocks.length ≤ 4294967295)
    (hfits : ∀ block ∈ object.blocks, (block.pos.add object.offset).FitsInt32) (positions : List ChunkPos) :
    ∃ chunks, (object.getChunks air positions).1 = .ok chunks ∧ ∀ pos, chunks.blockAt air pos =
      if blockToChunk pos ∈ positions then
        some ((lastValue (moved object.offset pos) object.blocks).getD air)
      else none := by
  obtain ⟨buckets, hbuckets⟩ := exists_buildIndex hcount object.offset
  have hany : ¬ (object.blocks.any fun block => ¬ (block.pos.add object.offset).FitsInt32) = true := by
    rw [List.any_eq_true]
    rintro ⟨block, hblock, hout⟩
    exact of_decide_eq_true hout (hfits block hblock)
  rw [getChunks, if_neg hany, h.ensureIndex, hbuckets]
  exact ChunkMap.shows_of_fill (fun chunkPos => fillChunk_ok hbuckets hfits chunkPos) positions

theorem getChunks_error (hout : ∃ block ∈ object.blocks, ¬ (block.pos.add object.offset).FitsInt32)
    (positions : List ChunkPos) :
    (object.getChunks air positions).1 = .error "KBDX offset moves block outside int32 range" := by
  have hany : (object.blocks.any fun block => ¬ (block.pos.add object.offset).FitsInt32) = true := by
    rw [List.any_eq_true]
    exact hout.imp fun block hblock => ⟨hblock.1, decide_eq_true hblock.2⟩
  rw [getChunks, if_pos hany]

end KbdxStructure

end WaterStructure
