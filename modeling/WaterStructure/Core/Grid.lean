import WaterStructure.Core.Types
import WaterStructure.Library.LastValue
import WaterStructure.Library.NestedLoop

/-!
# Cells of a structure and of a chunk

Most formats store a structure as one array in `(y, z, x)` order, x fastest. `cellsYZX` is the
loop nest in that order and `cellIndex` the array index; each names the place of a cell in the
other. `ChunkData.setAt` stores a block under structure coordinates, the way every reader
splits them into a subchunk row and local coordinates.
-/

namespace WaterStructure

open LastValue NestedLoop

/-- `for y … for z … for x …` over the whole structure. -/
def Size.cellsYZX (size : Size) : List BlockPos :=
  (Int.range 0 size.height).flatMap fun y =>
    (Int.range 0 size.length).flatMap fun z =>
      (Int.range 0 size.width).map fun x => ⟨x, y, z⟩

/-- The place of a cell in an array that stores x fastest and y slowest. -/
def Size.cellIndex (size : Size) (pos : BlockPos) : ℕ :=
  ((pos.y * size.length + pos.z) * size.width + pos.x).toNat

variable {size : Size} {pos : BlockPos}

/-- The loop nest visits the cells of the structure. -/
theorem Size.mem_cellsYZX : pos ∈ size.cellsYZX ↔ size.Contains pos := by
  simp only [Size.cellsYZX, Size.Contains, List.mem_flatMap, List.mem_map, Int.mem_range_iff]
  constructor
  · rintro ⟨y, hy, z, hz, x, hx, rfl⟩
    exact ⟨hx, hy, hz⟩
  · rintro ⟨hx, hy, hz⟩
    exact ⟨pos.y, hy, pos.z, hz, pos.x, hx, rfl⟩

/-- The loop nest visits each cell once. -/
theorem Size.nodup_cellsYZX (size : Size) : size.cellsYZX.Nodup := by
  rw [Size.cellsYZX, List.nodup_flatMap]
  constructor
  · intro y _
    rw [List.nodup_flatMap]
    constructor
    · intro z _
      exact (nodup_range _ _).map fun x x' h => (BlockPos.mk.inj h).1
    · refine (nodup_range 0 size.length).imp fun hne pos hpos hother => ?_
      obtain ⟨x, -, rfl⟩ := List.mem_map.mp hpos
      obtain ⟨x', -, h⟩ := List.mem_map.mp hother
      exact hne (BlockPos.mk.inj h).2.2.symm
  · refine (nodup_range 0 size.height).imp fun hne pos hpos hother => ?_
    obtain ⟨z, -, hrow⟩ := List.mem_flatMap.mp hpos
    obtain ⟨z', -, hrow'⟩ := List.mem_flatMap.mp hother
    obtain ⟨x, -, rfl⟩ := List.mem_map.mp hrow
    obtain ⟨x', -, h⟩ := List.mem_map.mp hrow'
    exact hne (BlockPos.mk.inj h).2.1.symm

/-- The number of cells is the product of the extents. -/
theorem Size.length_cellsYZX (size : Size) :
    size.cellsYZX.length = size.height.toNat * (size.length.toNat * size.width.toNat) := by
  have hrow (y z : ℤ) :
      ((Int.range 0 size.width).map fun x => (⟨x, y, z⟩ : BlockPos)).length = size.width.toNat := by
    simp
  rw [Size.cellsYZX, length_flatMap_uniform fun y _ => length_flatMap_uniform fun z _ => hrow y z]
  simp

/-- A cell inside the structure has natural coordinates. -/
theorem Size.Contains.exists_nat (h : size.Contains pos) :
    ∃ x y z : ℕ, pos = ⟨x, y, z⟩ ∧ x < size.width.toNat ∧ y < size.height.toNat ∧
      z < size.length.toNat := by
  obtain ⟨⟨hx, hx'⟩, ⟨hy, hy'⟩, ⟨hz, hz'⟩⟩ := h
  obtain ⟨x, hxn⟩ := Int.eq_ofNat_of_zero_le hx
  obtain ⟨y, hyn⟩ := Int.eq_ofNat_of_zero_le hy
  obtain ⟨z, hzn⟩ := Int.eq_ofNat_of_zero_le hz
  refine ⟨x, y, z, ?_, by omega, by omega, by omega⟩
  cases pos
  simp_all

/-- The index of a cell, computed with natural numbers. -/
theorem Size.cellIndex_nat (hwidth : 0 ≤ size.width) (hlength : 0 ≤ size.length) (x y z : ℕ) :
    size.cellIndex ⟨x, y, z⟩ =
      y * (size.length.toNat * size.width.toNat) + (z * size.width.toNat + x) := by
  obtain ⟨w, hw⟩ := Int.eq_ofNat_of_zero_le hwidth
  obtain ⟨l, hl⟩ := Int.eq_ofNat_of_zero_le hlength
  simp only [Size.cellIndex, hw, hl, Int.toNat_natCast]
  rw [show ((y : ℤ) * l + z) * w + x = ((y * (l * w) + (z * w + x) : ℕ) : ℤ) by push_cast; ring,
    Int.toNat_natCast]

/-- The loop nest visits each cell at its array index. -/
theorem Size.getElem?_cellsYZX (h : size.Contains pos) :
    size.cellsYZX[size.cellIndex pos]? = some pos := by
  obtain ⟨x, y, z, rfl, hx, hy, hz⟩ := h.exists_nat
  have hrow (y z : ℤ) :
      ((Int.range 0 size.width).map fun x => (⟨x, y, z⟩ : BlockPos)).length = size.width.toNat := by
    simp
  have hinner : z * size.width.toNat + x < size.length.toNat * size.width.toNat := by
    have hle : (z + 1) * size.width.toNat ≤ size.length.toNat * size.width.toNat :=
      Nat.mul_le_mul_right _ hz
    rw [Nat.succ_mul] at hle
    omega
  have hslab (y : ℤ) : ((Int.range 0 size.length).flatMap fun z =>
      (Int.range 0 size.width).map fun x => (⟨x, y, z⟩ : BlockPos)).length =
        size.length.toNat * size.width.toNat := by
    rw [length_flatMap_uniform fun z _ => hrow y z]
    simp
  rw [Size.cellIndex_nat (by omega) (by omega), Size.cellsYZX,
    getElem?_flatMap_uniform (fun y _ => hslab y) hinner, getElem?_range (by omega),
    Option.bind_some, getElem?_flatMap_uniform (fun z _ => hrow _ z) hx, getElem?_range (by omega),
    Option.bind_some, List.getElem?_map, getElem?_range (by omega)]
  simp

/-- Array indices of cells stay below the number of cells. -/
theorem Size.cellIndex_lt (h : size.Contains pos) : size.cellIndex pos < size.cellsYZX.length :=
  (List.getElem?_eq_some_iff.mp (Size.getElem?_cellsYZX h)).1

/-- A volume below the saturation value is the product of the extents. -/
theorem Size.volume_eq (hwidth : 0 < size.width) (hheight : 0 < size.height) (hlength : 0 < size.length)
    (hsmall : size.volume < int64Max) : size.volume = size.width * size.height * size.length := by
  unfold Size.volume at hsmall ⊢
  split at hsmall
  case isTrue hempty => omega
  case isFalse hpos =>
    rw [if_neg hpos]
    split at hsmall
    case isTrue => omega
    case isFalse harea =>
      rw [if_neg harea]
      split_ifs at hsmall with hvolume
      · omega
      · rw [if_neg hvolume]

/-- The number of cells is the volume. -/
theorem Size.length_cellsYZX_eq_volume (hwidth : 0 < size.width) (hheight : 0 < size.height)
    (hlength : 0 < size.length) (hsmall : size.volume < int64Max) :
    (size.cellsYZX.length : ℤ) = size.volume := by
  rw [Size.volume_eq hwidth hheight hlength hsmall, Size.length_cellsYZX]
  push_cast
  rw [Int.toNat_of_nonneg hwidth.le, Int.toNat_of_nonneg hheight.le,
    Int.toNat_of_nonneg hlength.le]
  ring

/-- The fields of the position fit `std::int32_t`. -/
def BlockPos.FitsInt32 (pos : BlockPos) : Prop := IsInt32 pos.x ∧ IsInt32 pos.y ∧ IsInt32 pos.z

instance (pos : BlockPos) : Decidable pos.FitsInt32 := inferInstanceAs (Decidable (_ ∧ _ ∧ _))

/-- The position moved by an offset. -/
def BlockPos.add (pos offset : BlockPos) : BlockPos :=
  ⟨pos.x + offset.x, pos.y + offset.y, pos.z + offset.z⟩

/-- The position moved back by an offset. -/
def BlockPos.sub (pos offset : BlockPos) : BlockPos :=
  ⟨pos.x - offset.x, pos.y - offset.y, pos.z - offset.z⟩

/-- Moving there and back. -/
theorem BlockPos.add_eq_iff {offset target : BlockPos} :
    pos.add offset = target ↔ pos = target.sub offset := by
  obtain ⟨px, py, pz⟩ := pos
  obtain ⟨tx, ty, tz⟩ := target
  simp only [BlockPos.add, BlockPos.sub, BlockPos.mk.injEq]
  omega

/-- Store a block given in structure coordinates, in the reader's `(y, z, x)` layout. -/
def ChunkData.setAt (chunk : ChunkData) (air : RuntimeId) (pos : BlockPos) (id : RuntimeId) :
    ChunkData :=
  let subY := floorDiv (pos.y - 64) 16
  chunk.setBlock air subY
    (chunk.layout.index (floorMod pos.x 16) (pos.y - (subY * 16 + 64)) (floorMod pos.z 16)) id

@[simp] theorem ChunkData.setAt_layout (chunk : ChunkData) (air : RuntimeId) (pos : BlockPos)
    (id : RuntimeId) : (chunk.setAt air pos id).layout = chunk.layout := rfl

/-- Blocks of one chunk have different cells, so a store changes one block. -/
theorem ChunkData.blockAt_setAt (chunk : ChunkData) (air : RuntimeId) {other : BlockPos} (id : RuntimeId)
    (hchunk : blockToChunk pos = blockToChunk other) :
    (chunk.setAt air pos id).blockAt air other =
      if other = pos then id else chunk.blockAt air other := by
  obtain ⟨px, py, pz⟩ := pos
  obtain ⟨ox, oy, oz⟩ := other
  simp only [blockToChunk, floorDiv_sixteen, ChunkPos.mk.injEq] at hchunk
  simp only [ChunkData.blockAt, ChunkData.setAt, ChunkData.layer0At_setBlock,
    ChunkData.setBlock_layout, floorDiv_sixteen, floorMod_sixteen, BlockPos.mk.injEq]
  have hlocal (y : ℤ) : IsLocal (y - ((y - 64) / 16 * 16 + 64)) := by
    unfold IsLocal
    omega
  refine if_congr ?_ rfl rfl
  rw [BlockLayerLayout.index_inj _ (isLocal_emod ox) (hlocal oy) (isLocal_emod oz)
    (isLocal_emod px) (hlocal py) (isLocal_emod pz)]
  constructor
  · rintro ⟨hsub, hx, hy, hz⟩
    omega
  · rintro ⟨rfl, rfl, rfl⟩
    simp

/-- An empty chunk reads as air. -/
@[simp] theorem ChunkData.blockAt_empty (air : RuntimeId) (layout : BlockLayerLayout)
    (pos : BlockPos) : (ChunkData.mk ∅ layout).blockAt air pos = air := rfl

/-- A loop over cells that stores the ids it finds; `place` says where a cell goes. -/
def ChunkData.sweep {β : Type*} (chunk : ChunkData) (air : RuntimeId) (cells : List β)
    (place : β → BlockPos) (block : β → Option RuntimeId) : ChunkData :=
  cells.foldl (fun chunk cell =>
    match block cell with
    | none => chunk
    | some id => chunk.setAt air (place cell) id) chunk

@[simp] theorem ChunkData.sweep_layout {β : Type*} (chunk : ChunkData) (air : RuntimeId)
    (cells : List β) (place : β → BlockPos) (block : β → Option RuntimeId) :
    (chunk.sweep air cells place block).layout = chunk.layout := by
  induction cells generalizing chunk with
  | nil => rfl
  | cons cell rest ih =>
    rw [sweep, List.foldl_cons]
    refine (ih _).trans ?_
    cases block cell <;> rfl

/-- A loop whose body stores by local coordinates is a sweep. -/
theorem ChunkData.foldl_eq_sweep {β : Type*} {step : ChunkData → β → ChunkData}
    {air : RuntimeId} {cells : List β} {place : β → BlockPos} {block : β → Option RuntimeId}
    (chunk : ChunkData)
    (hstep : ∀ chunk' : ChunkData, chunk'.layout = chunk.layout → ∀ cell ∈ cells,
      step chunk' cell = match block cell with
        | none => chunk'
        | some id => chunk'.setAt air (place cell) id) :
    cells.foldl step chunk = chunk.sweep air cells place block := by
  induction cells generalizing chunk with
  | nil => rfl
  | cons cell rest ih =>
    rw [List.foldl_cons, hstep chunk rfl cell List.mem_cons_self]
    cases hblock : block cell with
    | none =>
      rw [ih chunk fun c hc b hb => hstep c hc b (List.mem_cons_of_mem cell hb), ChunkData.sweep,
        ChunkData.sweep, List.foldl_cons, hblock]
    | some id =>
      rw [ih (chunk.setAt air (place cell) id) fun c hc b hb =>
          hstep c hc b (List.mem_cons_of_mem cell hb),
        ChunkData.sweep, ChunkData.sweep, List.foldl_cons, hblock]

/-- A sweep leaves each block the last id stored for it. -/
theorem ChunkData.blockAt_sweep {β : Type*} (chunk : ChunkData) (air : RuntimeId) (cells : List β)
    (place : β → BlockPos) (block : β → Option RuntimeId)
    (hchunk : ∀ cell ∈ cells, blockToChunk (place cell) = blockToChunk pos) :
    (chunk.sweep air cells place block).blockAt air pos =
      (lastValue (fun cell => if place cell = pos then block cell else none) cells).getD
        (chunk.blockAt air pos) := by
  refine foldl_observe (fun chunk : ChunkData => chunk.blockAt air pos) _ _ cells chunk
    fun chunk cell hcell => ?_
  cases hblock : block cell with
  | none => simp
  | some id =>
    simp only [ChunkData.blockAt_setAt chunk air id (hchunk cell hcell)]
    by_cases hplace : place cell = pos
    · simp [hplace]
    · simp [hplace, Ne.symm hplace]

/-- A sweep over the cells that an offset moves into the chunk of `pos` stores the block of the
one cell that is moved onto `pos`. -/
theorem ChunkData.blockAt_sweep_add {air : RuntimeId} {cells : List BlockPos} {offset : BlockPos}
    {block : BlockPos → Option RuntimeId} {inside : BlockPos → Prop} [DecidablePred inside]
    {pos : BlockPos} (hcells : ∀ cell, cell ∈ cells ↔
      inside cell ∧ blockToChunk (cell.add offset) = blockToChunk pos) (layout : BlockLayerLayout) :
    ((ChunkData.mk ∅ layout).sweep air cells (·.add offset) block).blockAt air pos =
      if inside (pos.sub offset) then (block (pos.sub offset)).getD air else air := by
  rw [ChunkData.blockAt_sweep _ _ _ _ _ fun cell hcell => ((hcells cell).mp hcell).2,
    ChunkData.blockAt_empty]
  have hmoved : (pos.sub offset).add offset = pos := BlockPos.add_eq_iff.mpr rfl
  split_ifs with hinside
  · have hmem : pos.sub offset ∈ cells := (hcells _).mpr ⟨hinside, by rw [hmoved]⟩
    rw [lastValue_of_unique hmem fun cell _ hne => if_neg (hne ∘ BlockPos.add_eq_iff.mp),
      if_pos hmoved]
  · rw [lastValue_eq_none.mpr, Option.getD_none]
    intro cell hcell
    refine if_neg fun hplace => hinside ?_
    rw [← BlockPos.add_eq_iff.mp hplace]
    exact ((hcells cell).mp hcell).1

/-- `for (auto& [pos, chunk] : result)`: rework every chunk of the map. -/
def ChunkMap.forEach (chunks : ChunkMap) (f : ChunkPos → ChunkData → ChunkData) : ChunkMap :=
  chunks.keys.foldl (fun result pos => AssocMap.update result pos (f pos)) chunks

/-- Every chunk is reworked once, and no chunk appears or disappears. -/
theorem ChunkMap.lookup_forEach (chunks : ChunkMap) (f : ChunkPos → ChunkData → ChunkData)
    (pos : ChunkPos) : (chunks.forEach f).lookup pos = (chunks.lookup pos).map (f pos) := by
  rw [ChunkMap.forEach, AssocMap.lookup_foldl_update chunks.keys chunks.keys_nodup]
  split_ifs with hnone
  · rfl
  · rw [AList.lookup_eq_none.mpr (fun hmem => hnone (AList.mem_keys.mp hmem))]
    rfl

/-- Materialising requested chunks answers exactly for them. -/
theorem ChunkMap.blockAt_forEach_emplaceAll (positions : List ChunkPos)
    (f : ChunkPos → ChunkData → ChunkData) (air : RuntimeId) (pos : BlockPos) :
    ((ChunkMap.emplaceAll positions).forEach f).blockAt air pos =
      if blockToChunk pos ∈ positions then
        some ((f (blockToChunk pos) {}).blockAt air pos) else none := by
  rw [ChunkMap.blockAt, ChunkMap.lookup_forEach, ChunkMap.lookup_emplaceAll]
  split <;> rfl

/-- `try_emplace` of a subchunk that starts as air. -/
def ChunkData.ensureSubChunk (chunk : ChunkData) (air : RuntimeId) (subY : ℤ) : ChunkData :=
  { chunk with subChunks := AssocMap.tryEmplace chunk.subChunks subY (.filled air) }

@[simp] theorem ChunkData.ensureSubChunk_layout (chunk : ChunkData) (air : RuntimeId) (subY : ℤ) :
    (chunk.ensureSubChunk air subY).layout = chunk.layout := rfl

/-- A new all-air subchunk reads like a missing one. -/
@[simp] theorem ChunkData.layer0At_ensureSubChunk (chunk : ChunkData) (air : RuntimeId)
    (subY subY' : ℤ) (index : ℕ) :
    (chunk.ensureSubChunk air subY).layer0At air subY' index = chunk.layer0At air subY' index := by
  simp only [ChunkData.layer0At, ChunkData.ensureSubChunk, AssocMap.lookup_tryEmplace]
  by_cases hsub : subY' = subY
  · subst hsub
    cases chunk.subChunks.lookup subY' <;> simp [SubChunkData.filled]
  · simp [hsub]

@[simp] theorem ChunkData.blockAt_ensureSubChunk (chunk : ChunkData) (air : RuntimeId)
    (subY : ℤ) (pos : BlockPos) :
    (chunk.ensureSubChunk air subY).blockAt air pos = chunk.blockAt air pos := by
  simp only [ChunkData.blockAt, ChunkData.ensureSubChunk_layout,
    ChunkData.layer0At_ensureSubChunk]

/-- Storing one id at several indices of a layer. -/
theorem ChunkData.layer0At_foldl_setBlock (chunk : ChunkData) (air : RuntimeId) (subY subY' : ℤ)
    (indices : List ℕ) (index : ℕ) (id : RuntimeId) :
    (indices.foldl (fun chunk i => chunk.setBlock air subY i id) chunk).layer0At air subY' index =
      if subY' = subY ∧ index ∈ indices then id else chunk.layer0At air subY' index := by
  induction indices generalizing chunk with
  | nil => simp
  | cons i rest ih =>
    rw [List.foldl_cons, ih, ChunkData.layer0At_setBlock]
    by_cases hsub : subY' = subY
    · by_cases hrest : index ∈ rest
      · simp [hsub, hrest]
      · simp [hsub, hrest]
    · simp [hsub]

theorem ChunkData.foldl_setBlock_layout (chunk : ChunkData) (air : RuntimeId) (subY : ℤ)
    (indices : List ℕ) (id : RuntimeId) :
    (indices.foldl (fun chunk i => chunk.setBlock air subY i id) chunk).layout = chunk.layout := by
  induction indices generalizing chunk with
  | nil => rfl
  | cons i rest ih => rw [List.foldl_cons, ih, ChunkData.setBlock_layout]

/-- `for (auto& [pos, chunk] : result)` with a body that can fail. -/
def ChunkMap.forEachM (chunks : ChunkMap) (f : ChunkPos → ChunkData → Except String ChunkData) :
    Except String ChunkMap :=
  AssocMap.forEachM chunks f chunks.keys

/-- The chunks of the map are those requested. -/
theorem ChunkMap.mem_keys_emplaceAll {positions : List ChunkPos} {pos : ChunkPos} :
    pos ∈ (ChunkMap.emplaceAll positions).keys ↔ pos ∈ positions := by
  refine AList.mem_keys.symm.trans ?_
  rw [← AList.lookup_isSome, ChunkMap.lookup_emplaceAll]
  split_ifs with hnot
  · exact ⟨fun _ => hnot, fun _ => rfl⟩
  · exact iff_of_false Bool.false_ne_true hnot

/-- If no requested chunk fails, all of them are materialised. -/
theorem ChunkMap.forEachM_emplaceAll {positions : List ChunkPos}
    {f : ChunkPos → ChunkData → Except String ChunkData}
    (h : ∀ pos ∈ positions, ∃ chunk, f pos {} = .ok chunk) :
    ∃ chunks, (ChunkMap.emplaceAll positions).forEachM f = .ok chunks ∧
      ∀ pos, chunks.lookup pos =
        if pos ∈ positions then (f pos {}).toOption else none := by
  have hlookup := ChunkMap.lookup_emplaceAll positions
  obtain ⟨chunks, hchunks, hall⟩ := AssocMap.forEachM_ok (ChunkMap.emplaceAll positions).keys_nodup
    (f := f) fun pos _ chunk hchunk => by
      rw [hlookup] at hchunk
      obtain ⟨hmem, hchunk⟩ := then_of_some hchunk
      cases hchunk; exact h pos hmem
  refine ⟨chunks, hchunks, fun pos => ?_⟩
  rw [hall, hlookup]
  by_cases hmem : pos ∈ positions
  · rw [if_pos (ChunkMap.mem_keys_emplaceAll.mpr hmem), if_pos hmem, if_pos hmem, Option.bind_some]
  · rw [if_neg (hmem ∘ ChunkMap.mem_keys_emplaceAll.mp), if_neg hmem, if_neg hmem]

/-- If every chunk is filled with what is to be shown, a request shows it. -/
theorem ChunkMap.shows_of_fill {air : RuntimeId} {fill : ChunkPos → ChunkData → Except String ChunkData}
    {shown : BlockPos → RuntimeId} (h : ∀ chunkPos, ∃ chunk, fill chunkPos {} = .ok chunk ∧
      ∀ pos, blockToChunk pos = chunkPos → chunk.blockAt air pos = shown pos) (positions : List ChunkPos) :
    ∃ chunks, (ChunkMap.emplaceAll positions).forEachM fill = .ok chunks ∧ ∀ pos, chunks.blockAt air pos =
      if blockToChunk pos ∈ positions then some (shown pos) else none := by
  obtain ⟨chunks, hchunks, hlookup⟩ := @ChunkMap.forEachM_emplaceAll positions fill
    fun chunkPos _ => (h chunkPos).imp fun _ hchunk => hchunk.1
  refine ⟨chunks, hchunks, fun pos => ?_⟩
  obtain ⟨chunk, hchunk, hblocks⟩ := h (blockToChunk pos)
  rw [ChunkMap.blockAt, hlookup, hchunk, apply_ite (Option.map _)]
  apply if_congr Iff.rfl _ rfl
  exact congrArg some (hblocks pos rfl)

/-- If a requested chunk fails, the request fails. -/
theorem ChunkMap.exists_of_forEachM_emplaceAll {positions : List ChunkPos}
    {f : ChunkPos → ChunkData → Except String ChunkData} {chunks : ChunkMap}
    (h : (ChunkMap.emplaceAll positions).forEachM f = .ok chunks) {pos : ChunkPos}
    (hpos : pos ∈ positions) : ∃ chunk, f pos {} = .ok chunk := by
  have hlookup := ChunkMap.lookup_emplaceAll positions pos
  rw [if_pos hpos] at hlookup
  exact AssocMap.exists_of_forEachM_ok (ChunkMap.emplaceAll positions).keys_nodup h
    (ChunkMap.mem_keys_emplaceAll.mpr hpos) hlookup

end WaterStructure
