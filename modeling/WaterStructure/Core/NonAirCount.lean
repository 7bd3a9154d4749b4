import Mathlib.Algebra.BigOperators.Group.Finset.Basic
import WaterStructure.Core.GridStream

/-!
# Counting the blocks of a structure

`count_non_air_blocks` goes over the grid of the reported size, asks for one chunk at a time, and
counts the ids of the first layer that are not air.
-/

namespace WaterStructure

/-- The entries of the first layers that are not air. -/
def ChunkData.countNonAir (chunk : ChunkData) (air : RuntimeId) : ℕ :=
  (chunk.subChunks.entries.map fun sub =>
    (List.range 4096).countP fun index => sub.2.layer0 index ≠ air).sum

variable {State : Type}

/-- One turn of the loop; `at` throws for a chunk that was not returned. -/
def countChunk (getChunks : State → List ChunkPos → Except String (ChunkMap × State))
    (air : RuntimeId) (counted : ℕ × State) (position : ChunkPos) : Except String (ℕ × State) :=
  match getChunks counted.2 [position] with
  | .error error => .error error
  | .ok (chunks, s) =>
    match chunks.lookup position with
    | none => .error "out_of_range"
    | some chunk => .ok (counted.1 + chunk.countNonAir air, s)

/-- The loops of `count_non_air_blocks`; the structure may keep what it computes on the way. -/
def countGrid (getChunks : State → List ChunkPos → Except String (ChunkMap × State))
    (air : RuntimeId) (size : Size) (s : State) : Except String (ℕ × State) :=
  (ChunkStream.gridPositions size).foldlM (countChunk getChunks air) (0, s)

variable {getChunks : State → List ChunkPos → Except String (ChunkMap × State)} {air : RuntimeId}
  {Inv : State → Prop} {position : ChunkPos}

theorem countChunk_invariant
    (hget : ∀ s positions chunks t, Inv s → getChunks s positions = .ok (chunks, t) → Inv t)
    {counted next : ℕ × State} (hs : Inv counted.2)
    (h : countChunk getChunks air counted position = .ok next) : Inv next.2 := by
  rw [countChunk] at h
  split at h
  case h_1 => cases h
  case h_2 chunks t hchunks =>
    split at h
    case h_1 => cases h
    case h_2 =>
      cases h
      exact hget _ _ _ _ hs hchunks

/-- Counting keeps what every request keeps. -/
theorem countGrid_invariant
    (hget : ∀ s positions chunks t, Inv s → getChunks s positions = .ok (chunks, t) → Inv t)
    {size : Size} {s t : State} {count : ℕ} (hs : Inv s)
    (h : countGrid getChunks air size s = .ok (count, t)) : Inv t := by
  rw [countGrid] at h
  have hloop (positions : List ChunkPos) (counted : ℕ × State) (hcounted : Inv counted.2)
      (hfold : positions.foldlM (countChunk getChunks air) counted = .ok (count, t)) : Inv t := by
    induction positions generalizing counted with
    | nil =>
      cases hfold
      exact hcounted
    | cons position rest ih =>
      rw [List.foldlM_cons] at hfold
      obtain ⟨next, hnext, hrest⟩ := NestedLoop.exists_of_bind_ok hfold
      exact ih next (countChunk_invariant hget hcounted hnext) hrest
  exact hloop _ _ hs h

/-- Every index of a layer belongs to a local cell. -/
theorem BlockLayerLayout.exists_index (layout : BlockLayerLayout) {index : ℕ} (h : index < 4096) :
    ∃ x y z, IsLocal x ∧ IsLocal y ∧ IsLocal z ∧ layout.index x y z = index := by
  unfold IsLocal
  cases layout with
  | Internal =>
    refine ⟨(index % 16 : ℕ), (index / 256 : ℕ), (index / 16 % 16 : ℕ), ?_, ?_, ?_, ?_⟩
    · omega
    · omega
    · omega
    · simp only [BlockLayerLayout.index]
      omega
  | Native =>
    refine ⟨(index / 256 : ℕ), (index / 16 % 16 : ℕ), (index % 16 : ℕ), ?_, ?_, ?_, ?_⟩
    · omega
    · omega
    · omega
    · simp only [BlockLayerLayout.index]
      omega

/-- The row of subchunks of a block. -/
def subRow (pos : BlockPos) : ℤ := floorDiv (pos.y - 64) 16

/-- The index of a block in its subchunk. -/
def ChunkData.indexOf (chunk : ChunkData) (pos : BlockPos) : ℕ :=
  chunk.layout.index (floorMod pos.x 16) (pos.y - (subRow pos * 16 + 64)) (floorMod pos.z 16)

theorem ChunkData.blockAt_eq (chunk : ChunkData) (air : RuntimeId) (pos : BlockPos) :
    chunk.blockAt air pos = chunk.layer0At air (subRow pos) (chunk.indexOf pos) := rfl

theorem isLocal_subRow (pos : BlockPos) : IsLocal (pos.y - (subRow pos * 16 + 64)) := by
  simp only [IsLocal, subRow, floorDiv_sixteen]
  omega

theorem ChunkData.indexOf_lt (chunk : ChunkData) (pos : BlockPos) : chunk.indexOf pos < 4096 := by
  rw [ChunkData.indexOf, floorMod_sixteen, floorMod_sixteen]
  exact chunk.layout.index_lt (isLocal_emod _) (isLocal_subRow pos) (isLocal_emod _)

/-- Blocks of one subchunk have different indices. -/
theorem ChunkData.indexOf_inj (chunk : ChunkData) {pos other : BlockPos}
    (hchunk : blockToChunk pos = blockToChunk other) (hrow : subRow pos = subRow other)
    (hindex : chunk.indexOf pos = chunk.indexOf other) : pos = other := by
  simp only [ChunkData.indexOf, floorMod_sixteen] at hindex
  obtain ⟨hx, hy, hz⟩ := (chunk.layout.index_inj (isLocal_emod _) (isLocal_subRow pos)
    (isLocal_emod _) (isLocal_emod _) (isLocal_subRow other) (isLocal_emod _)).mp hindex
  obtain ⟨x, y, z⟩ := pos
  obtain ⟨x', y', z'⟩ := other
  simp only [blockToChunk, floorDiv_sixteen, ChunkPos.mk.injEq] at hchunk
  rw [BlockPos.mk.injEq]
  dsimp only at *
  omega

/-- Every index of a subchunk belongs to a block. -/
theorem ChunkData.exists_indexOf (chunk : ChunkData) (position : ChunkPos) (subY : ℤ) {index : ℕ}
    (h : index < 4096) :
    ∃ pos, blockToChunk pos = position ∧ subRow pos = subY ∧ chunk.indexOf pos = index := by
  obtain ⟨x, y, z, hx, hy, hz, hindex⟩ := chunk.layout.exists_index h
  unfold IsLocal at hx hy hz
  have hrow : subRow ⟨position.x * 16 + x, subY * 16 + 64 + y, position.z * 16 + z⟩ = subY := by
    simp only [subRow, floorDiv_sixteen]
    omega
  refine ⟨⟨position.x * 16 + x, subY * 16 + 64 + y, position.z * 16 + z⟩, ?_, hrow, ?_⟩
  · obtain ⟨chunkX, chunkZ⟩ := position
    simp only [blockToChunk, floorDiv_sixteen, ChunkPos.mk.injEq]
    omega
  · rw [ChunkData.indexOf, hrow, ← hindex]
    simp only [floorMod_sixteen]
    congr 1
    · omega
    · omega
    · omega

/-- The entries of a layer that are not air, as blocks. -/
theorem ChunkData.countP_layer0 (chunk : ChunkData) (air : RuntimeId) {cells : Finset BlockPos}
    (hcells : ∀ pos, pos ∈ cells ↔ blockToChunk pos = position ∧ chunk.blockAt air pos ≠ air)
    {subY : ℤ} {sub : SubChunkData} (hsub : chunk.subChunks.lookup subY = some sub) :
    (List.range 4096).countP (fun index => sub.layer0 index ≠ air) =
      (cells.filter fun pos => subRow pos = subY).card := by
  have hlayer (pos : BlockPos) (hrow : subRow pos = subY) :
      chunk.blockAt air pos = sub.layer0 (chunk.indexOf pos) := by
    rw [ChunkData.blockAt_eq, hrow, ChunkData.layer0At, hsub]
  rw [List.countP_eq_length_filter, ← List.toFinset_card_of_nodup (List.nodup_range.filter _)]
  symm
  apply Finset.card_bij fun pos _ => chunk.indexOf pos
  · intro pos hpos
    obtain ⟨hmem, hrow⟩ := Finset.mem_filter.mp hpos
    rw [List.mem_toFinset, List.mem_filter, List.mem_range, decide_eq_true_iff, ← hlayer pos hrow]
    exact ⟨chunk.indexOf_lt pos, ((hcells pos).mp hmem).2⟩
  · intro pos hpos other hother hindex
    obtain ⟨hmem, hrow⟩ := Finset.mem_filter.mp hpos
    obtain ⟨hmem', hrow'⟩ := Finset.mem_filter.mp hother
    exact chunk.indexOf_inj (((hcells pos).mp hmem).1.trans ((hcells other).mp hmem').1.symm)
      (hrow.trans hrow'.symm) hindex
  · intro index hindex
    rw [List.mem_toFinset, List.mem_filter, List.mem_range, decide_eq_true_iff] at hindex
    obtain ⟨pos, hposition, hrow, hpos⟩ := chunk.exists_indexOf position subY hindex.1
    refine ⟨pos, Finset.mem_filter.mpr ⟨(hcells pos).mpr ⟨hposition, ?_⟩, hrow⟩, hpos⟩
    rw [hlayer pos hrow, hpos]
    exact hindex.2

/-- The count of a chunk is the number of its blocks that are not air. -/
theorem ChunkData.countNonAir_eq_card (chunk : ChunkData) (air : RuntimeId) {position : ChunkPos}
    {cells : Finset BlockPos} (hcells : ∀ pos, pos ∈ cells ↔
      blockToChunk pos = position ∧ chunk.blockAt air pos ≠ air) :
    chunk.countNonAir air = cells.card := by
  have hrows : ∀ pos ∈ cells, subRow pos ∈ chunk.subChunks.keys.toFinset := by
    intro pos hpos
    have hblock := ((hcells pos).mp hpos).2
    rw [List.mem_toFinset, ← AList.mem_keys, ← AList.lookup_isSome]
    rw [ChunkData.blockAt_eq, ChunkData.layer0At] at hblock
    cases hlookup : chunk.subChunks.lookup (subRow pos) with
    | none =>
      rw [hlookup] at hblock
      exact absurd rfl hblock
    | some sub => rfl
  rw [Finset.card_eq_sum_card_fiberwise hrows, List.sum_toFinset _ chunk.subChunks.keys_nodup,
    ChunkData.countNonAir, AList.keys, List.keys, List.map_map]
  refine congrArg List.sum (List.map_congr_left fun entry hentry => ?_)
  exact chunk.countP_layer0 air hcells (AList.mem_lookup_iff.mpr hentry)

theorem ChunkStream.nodup_gridPositions (size : Size) : (ChunkStream.gridPositions size).Nodup := by
  rw [ChunkStream.gridPositions, List.nodup_flatMap]
  constructor
  · intro z _
    refine (NestedLoop.nodup_range _ _).map fun x x' h => ?_
    exact (ChunkPos.mk.injEq .. ▸ h).1
  · refine (NestedLoop.nodup_range 0 size.chunkZCount).imp fun hne => ?_
    intro position hposition hother
    obtain ⟨x, -, rfl⟩ := List.mem_map.mp hposition
    obtain ⟨x', -, h⟩ := List.mem_map.mp hother
    exact hne (ChunkPos.mk.inj h).2.symm

/-- The blocks of some chunks are those of the first and those of the others. -/
theorem card_filter_cons (cells : Finset BlockPos) {rest : List ChunkPos} (h : position ∉ rest) :
    (cells.filter fun pos => blockToChunk pos ∈ position :: rest).card =
      (cells.filter fun pos => blockToChunk pos = position).card +
        (cells.filter fun pos => blockToChunk pos ∈ rest).card := by
  rw [← Finset.card_union_of_disjoint, ← Finset.filter_or]
  · simp only [List.mem_cons]
  · rw [Finset.disjoint_filter]
    intro pos _ hfirst hrest
    exact h (hfirst ▸ hrest)

/-- If every request shows the chunk as it is, counting gives the number of blocks in the grid. -/
theorem countGrid_eq {block : BlockPos → RuntimeId}
    (hget : ∀ s position, Inv s → ∃ chunks chunk t, getChunks s [position] = .ok (chunks, t) ∧
      Inv t ∧ chunks.lookup position = some chunk ∧
        ∀ pos, blockToChunk pos = position → chunk.blockAt air pos = block pos)
    {cells : Finset BlockPos} (hcells : ∀ pos, pos ∈ cells ↔ block pos ≠ air) (size : Size)
    {s : State} (hs : Inv s) :
    ∃ t, Inv t ∧ countGrid getChunks air size s =
      .ok ((cells.filter fun pos => blockToChunk pos ∈ ChunkStream.gridPositions size).card, t) := by
  have hloop (positions : List ChunkPos) (hpositions : positions.Nodup) (count : ℕ) (s : State)
      (hs : Inv s) : ∃ t, Inv t ∧ positions.foldlM (countChunk getChunks air) (count, s) =
        .ok (count + (cells.filter fun pos => blockToChunk pos ∈ positions).card, t) := by
    induction positions generalizing count s with
    | nil =>
      refine ⟨s, hs, ?_⟩
      rw [Finset.filter_eq_empty_iff.mpr fun _ _ => List.not_mem_nil, Finset.card_empty]
      rfl
    | cons position rest ih =>
      obtain ⟨hposition, hrest⟩ := List.nodup_cons.mp hpositions
      obtain ⟨chunks, chunk, t, hchunks, ht, hlookup, hblocks⟩ := hget s position hs
      have hchunk : chunk.countNonAir air =
          (cells.filter fun pos => blockToChunk pos = position).card := by
        apply @ChunkData.countNonAir_eq_card chunk air position
        intro pos
        rw [Finset.mem_filter, hcells, and_comm]
        refine and_congr_right fun hpos => ?_
        rw [hblocks pos hpos]
      obtain ⟨u, hu, hcount⟩ := ih hrest (count + chunk.countNonAir air) t ht
      refine ⟨u, hu, ?_⟩
      rw [List.foldlM_cons, countChunk, hchunks]
      dsimp only
      rw [hlookup, card_filter_cons cells hposition, ← hchunk, ← Nat.add_assoc]
      exact hcount
  obtain ⟨t, ht, hcount⟩ := hloop _ (ChunkStream.nodup_gridPositions size) 0 s hs
  rw [Nat.zero_add] at hcount
  exact ⟨t, ht, hcount⟩

end WaterStructure
