import WaterStructure.Formats.SchemWorld

/-!
# When the direct stream loses no block

A chunk column is written in a slab when the last chunk row has a block there. So the world
shows the structure exactly when no other row has a block in a column and slab in which the last
row has none.
-/

namespace WaterStructure

open LastValue NestedLoop Schem Varint

namespace SchemStructure

variable {Nbt : Type}

/-- The numbers of the file. -/
def fileValues (s : SchemStructure) : List ℕ :=
  let bytes := s.source.blockData.getD []
  valuesOf bytes.length bytes

/-- The block of the file at a cell: what the palette gives the number stored for it. -/
def fileBlock (s : SchemStructure) (air : RuntimeId) (cell : BlockPos) : RuntimeId :=
  if s.originalSize.Contains cell then
    s.palette.blockId ((s.fileValues[s.originalSize.cellIndex cell]?).getD 0)
  else air

/-- The file has a block in this slab of this chunk. -/
def HasBlock (s : SchemStructure) (air : RuntimeId) (slabIndex chunkZ chunkX : ℤ) : Prop :=
  ∃ cell, s.originalSize.Contains cell ∧ s.fileBlock air cell ≠ air ∧
    cell.x / 16 = chunkX ∧ cell.y / 16 = slabIndex ∧ cell.z / 16 = chunkZ

/-- The number of the last chunk row. -/
def lastChunkZ (s : SchemStructure) : ℤ := (s.originalSize.length - 1) / 16

/-- The slab holds the numbers of its layers. -/
structure IsSlab (s : SchemStructure) (slabIndex layerCount : ℤ) (slab : List ℕ) : Prop where
  nonneg : 0 ≤ slabIndex
  layers : layerCount = min 16 (s.originalSize.height - slabIndex * 16)
  values : ∃ more, s.fileValues.drop (slabIndex * 16 * s.planeSize).toNat = slab ++ more
  count : slab.length = (s.planeSize * layerCount).toNat
  width : 0 < s.originalSize.width
  length : 0 < s.originalSize.length
  palette : ∀ index, s.palette.runtimeIdFor index = s.palette.blockId index

variable {s : SchemStructure} {slabIndex layerCount : ℤ} {slab : List ℕ} {chunkZ chunkX : ℤ} {air : RuntimeId}
  {start : SubChunkPos} {calls : List (WorldCall Nbt)}

variable {localY : ℤ} {cell : BlockPos} {bytes : List UInt8} {pos : BlockPos} {document : Document}

/-- The slab gives the blocks of the file. -/
theorem IsSlab.slabBlock_eq (h : s.IsSlab slabIndex layerCount slab) (air : RuntimeId) {x z : ℤ}
    (hy : 0 ≤ localY ∧ localY < layerCount) (hx : 0 ≤ x ∧ x < s.originalSize.width)
    (hz : 0 ≤ z ∧ z < s.originalSize.length) :
    s.slabBlock slab localY z x = s.fileBlock air ⟨x, slabIndex * 16 + localY, z⟩ := by
  have hlayers := h.layers
  have hslab := h.nonneg
  have hcontains : s.originalSize.Contains ⟨x, slabIndex * 16 + localY, z⟩ := by
    simp only [Size.Contains]
    omega
  obtain ⟨w, hw⟩ := Int.eq_ofNat_of_zero_le h.width.le
  obtain ⟨l, hl⟩ := Int.eq_ofNat_of_zero_le h.length.le
  obtain ⟨k, hk⟩ := Int.eq_ofNat_of_zero_le h.nonneg
  obtain ⟨n, hn⟩ := Int.eq_ofNat_of_zero_le (show 0 ≤ layerCount by omega)
  obtain ⟨y, rfl⟩ := Int.eq_ofNat_of_zero_le hy.1
  obtain ⟨x, rfl⟩ := Int.eq_ofNat_of_zero_le hx.1
  obtain ⟨z, rfl⟩ := Int.eq_ofNat_of_zero_le hz.1
  obtain ⟨more, hmore⟩ := h.values
  have hcount := h.count
  have hplane : s.planeSize = ((w * l : ℕ) : ℤ) := by
    rw [planeSize, hw, hl]
    push_cast
    ring
  have hplace : (((y : ℕ) : ℤ) * s.planeSize + z * s.originalSize.width + x).toNat =
      y * (w * l) + (z * w + x) := by
    rw [hplane, hw, show ((y : ℕ) : ℤ) * ((w * l : ℕ) : ℤ) + z * w + x =
      ((y * (w * l) + (z * w + x) : ℕ) : ℤ) by push_cast; ring, Int.toNat_natCast]
  have hstart : (slabIndex * 16 * s.planeSize).toNat = k * 16 * (w * l) := by
    rw [hplane, hk, show ((k : ℕ) : ℤ) * 16 * ((w * l : ℕ) : ℤ) =
      ((k * 16 * (w * l) : ℕ) : ℤ) by push_cast; ring, Int.toNat_natCast]
  have hcells : (s.planeSize * layerCount).toNat = n * (w * l) := by
    rw [hplane, hn, show ((w * l : ℕ) : ℤ) * ((n : ℕ) : ℤ) = ((n * (w * l) : ℕ) : ℤ) by
      push_cast; ring, Int.toNat_natCast]
  have hindex : s.originalSize.cellIndex ⟨x, slabIndex * 16 + y, z⟩ =
      k * 16 * (w * l) + (y * (w * l) + (z * w + x)) := by
    rw [hk, show ((k : ℕ) : ℤ) * 16 + ((y : ℕ) : ℤ) = ((k * 16 + y : ℕ) : ℤ) by push_cast; ring,
      Size.cellIndex_nat (by omega) (by omega), hw, hl]
    simp only [Int.toNat_natCast]
    ring
  have hrow : z * w + x < w * l := by
    have hrows := Nat.mul_le_mul_right w (show z + 1 ≤ l by omega)
    rw [Nat.succ_mul, Nat.mul_comm l w] at hrows
    omega
  have hlt : y * (w * l) + (z * w + x) < slab.length := by
    have hlayersLe := Nat.mul_le_mul_right (w * l) (show y + 1 ≤ n by omega)
    rw [Nat.succ_mul] at hlayersLe
    rw [hcount, hcells]
    omega
  rw [slabBlock, fileBlock, if_pos hcontains, h.palette, hindex, hplace,
    ← @List.getElem?_append_left _ _ more _ hlt, ← hmore, hstart, List.getElem?_drop]

/-- The cells of a chunk in a slab. -/
theorem mem_chunkCells :
    cell ∈ s.chunkCells layerCount chunkZ chunkX ↔
      (0 ≤ cell.y ∧ cell.y < layerCount) ∧
        (chunkZ * 16 ≤ cell.z ∧ cell.z < s.originalSize.length ∧ cell.z < chunkZ * 16 + 16) ∧
          chunkX * 16 ≤ cell.x ∧ cell.x < s.originalSize.width ∧ cell.x < chunkX * 16 + 16 := by
  simp only [chunkCells, List.mem_flatMap, List.mem_map, Int.mem_range_iff, lt_min_iff]
  constructor
  · intro ⟨y, hy, z, hz, x, hx, hcell⟩
    rw [← hcell]
    exact ⟨hy, hz, hx⟩
  · intro ⟨hy, hz, hx⟩
    exact ⟨cell.y, hy, cell.z, hz, cell.x, hx, rfl⟩

/-- The scan of a chunk finds a block if the file has one there. -/
theorem IsSlab.foundNonAir_iff (h : s.IsSlab slabIndex layerCount slab) (air : RuntimeId) (hz : 0 ≤ chunkZ)
    (hx : 0 ≤ chunkX) :
    s.foundNonAir air slab layerCount chunkZ chunkX = true ↔
      s.HasBlock air slabIndex chunkZ chunkX := by
  have hlayers := h.layers
  have hslab := h.nonneg
  simp only [foundNonAir, List.any_eq_true, decide_eq_true_eq, mem_chunkCells]
  constructor
  · rintro ⟨cell, ⟨hcellY, hcellZ, hcellX⟩, hblock⟩
    rw [h.slabBlock_eq air hcellY (by omega) (by omega)] at hblock
    refine ⟨_, ?_, hblock, ?_, ?_, ?_⟩
    · simp only [Size.Contains]
      omega
    · dsimp only
      omega
    · dsimp only
      omega
    · dsimp only
      omega
  · rintro ⟨cell, hcontains, hblock, hcellX, hcellY, hcellZ⟩
    simp only [Size.Contains] at hcontains
    have hlocal : (⟨cell.x, slabIndex * 16 + (cell.y - slabIndex * 16), cell.z⟩ : BlockPos) = cell := by
      rw [add_sub_cancel]
    have heq := h.slabBlock_eq air (show 0 ≤ cell.y - slabIndex * 16 ∧
      cell.y - slabIndex * 16 < layerCount by omega) hcontains.1 hcontains.2.2
    rw [hlocal] at heq
    refine ⟨⟨cell.x, cell.y - slabIndex * 16, cell.z⟩, by dsimp only; omega, ?_⟩
    dsimp only
    rw [heq]
    exact hblock

/-- Behind the loop the notes are those of the last chunk row. -/
theorem getElem?_chunkRowNonAir (hlength : 0 < s.originalSize.length) (air : RuntimeId) (slab : List ℕ)
    (layerCount : ℤ) (hx : 0 ≤ chunkX ∧ chunkX < s.originalSize.chunkXCount) :
    (s.chunkRowNonAir air slab layerCount)[chunkX.toNat]? =
      some (s.foundNonAir air slab layerCount s.lastChunkZ chunkX) := by
  have hcount : s.originalSize.chunkZCount = s.lastChunkZ + 1 := by
    rw [Size.chunkZCount, chunkCount_eq _ hlength, lastChunkZ]
    omega
  have hlast : 0 ≤ s.lastChunkZ := by
    rw [lastChunkZ]
    omega
  rw [chunkRowNonAir, hcount, ← range_append hlast (by omega : s.lastChunkZ ≤ s.lastChunkZ + 1),
    range_cons (by omega : s.lastChunkZ < s.lastChunkZ + 1), range_eq_nil le_rfl,
    List.foldl_append, List.foldl_cons, List.foldl_nil, List.getElem?_map,
    getElem?_range (by omega)]
  have hplace : (0 : ℤ) + chunkX.toNat = chunkX := by omega
  rw [hplace]
  rfl

/-- A chunk of the slab, cell by cell. -/
theorem layer0_materializeChunk {targetSubY : ℤ} (hlayers : layerCount ≤ 16) {localX localZ : ℤ}
    (hx : IsLocal localX) (hy : IsLocal localY) (hz : IsLocal localZ) :
    ((s.materializeChunk air slab layerCount targetSubY chunkZ chunkX).subChunks.lookup
        targetSubY).map (·.layer0 (BlockLayerLayout.Native.index localX localY localZ)) =
      some (if ⟨chunkX * 16 + localX, localY, chunkZ * 16 + localZ⟩ ∈
          s.chunkCells layerCount chunkZ chunkX then
        s.slabBlock slab localY (chunkZ * 16 + localZ) (chunkX * 16 + localX)
      else air) := by
  rw [materializeChunk]
  dsimp only
  rw [AssocMap.lookup_tryEmplace, if_pos rfl, AList.lookup_empty, Option.getD_none,
    Option.map_some]
  congr 1
  dsimp only
  -- The stores of the loop that reach the cell.
  rw [foldl_observe (fun layer : BlockLayer => layer (BlockLayerLayout.Native.index localX localY localZ))
    (fun cell : BlockPos =>
      if s.slabBlock slab cell.y cell.z cell.x = air then none
      else if cell = ⟨chunkX * 16 + localX, localY, chunkZ * 16 + localZ⟩ then
        some (s.slabBlock slab cell.y cell.z cell.x)
      else none)]
  · apply lastValue_getD_of_agree
    · intro cell hcell other hother
      obtain ⟨_, hother⟩ := else_of_some hother
      obtain ⟨hplace, hother⟩ := then_of_some hother
      subst hplace
      cases hother
      rw [if_pos hcell]
    · intro hnone
      split_ifs with hmem
      · by_contra hne
        have hreached := hnone _ hmem
        dsimp only at hreached
        rw [if_neg (Ne.symm hne), if_pos rfl] at hreached
        cases hreached
      · rfl
  · intro layer cell hcell
    rw [mem_chunkCells] at hcell
    by_cases hair : s.slabBlock slab cell.y cell.z cell.x = air
    · rw [if_pos hair, if_pos hair, Option.getD_none]
    · rw [if_neg hair, if_neg hair, Function.update_apply]
      have hindex : BlockLayerLayout.Native.index localX localY localZ =
            ((cell.x - chunkX * 16) * 256 + cell.y * 16 + (cell.z - chunkZ * 16)).toNat ↔
          localX = cell.x - chunkX * 16 ∧ localY = cell.y ∧ localZ = cell.z - chunkZ * 16 :=
        BlockLayerLayout.index_inj .Native hx hy hz
          (show IsLocal (cell.x - chunkX * 16) by unfold IsLocal; omega)
          (show IsLocal cell.y by unfold IsLocal; omega)
          (show IsLocal (cell.z - chunkZ * 16) by unfold IsLocal; omega)
      by_cases hplace : cell = ⟨chunkX * 16 + localX, localY, chunkZ * 16 + localZ⟩
      · rw [if_pos hplace, if_pos (hindex.mpr (by rw [hplace]; dsimp only; omega)), Option.getD_some]
      · rw [if_neg hplace, if_neg, Option.getD_none]
        intro heq
        apply hplace
        obtain ⟨hx', hy', hz'⟩ := hindex.mp heq
        obtain ⟨x, y, z⟩ := cell
        simp only [BlockPos.mk.injEq]
        dsimp only at hx' hy' hz'
        omega

/-- What a chunk of the slab shows at a place of the world. -/
theorem IsSlab.blockAt_write (h : s.IsSlab slabIndex layerCount slab) (air : RuntimeId) (start : SubChunkPos)
    (hz : 0 ≤ chunkZ) (hx : 0 ≤ chunkX) (pos : BlockPos) :
    (ChunkWrite.mk ⟨chunkX + start.x, chunkZ + start.z⟩ (s.materializeChunk air slab layerCount
        (start.y + slabIndex) chunkZ chunkX)).blockAt pos =
      if (pos.sub start.origin).x / 16 = chunkX ∧ (pos.sub start.origin).z / 16 = chunkZ ∧
          (pos.sub start.origin).y / 16 = slabIndex then
        some (s.fileBlock air (pos.sub start.origin))
      else none := by
  have hlayers := h.layers
  have hslab := h.nonneg
  obtain ⟨cell, hcell⟩ : ∃ cell, cell = pos.sub start.origin := ⟨_, rfl⟩
  have hpos : pos = cell.add start.origin := by
    rw [hcell]
    exact (BlockPos.add_eq_iff.mpr rfl).symm
  rw [← hcell, hpos, ChunkWrite.blockAt]
  simp only [SubChunkPos.origin, BlockPos.add, blockToChunk, worldYToSubchunk, floorDiv_sixteen,
    floorMod_sixteen, ChunkPos.mk.injEq]
  by_cases hchunk : cell.x / 16 = chunkX ∧ cell.z / 16 = chunkZ
  · rw [if_pos (by omega)]
    by_cases hsub : cell.y / 16 = slabIndex
    · have hrow : (cell.y + start.y * 16) / 16 = start.y + slabIndex := by omega
      have hlocalX : (cell.x + start.x * 16) % 16 = cell.x % 16 := by omega
      have hlocalY : (cell.y + start.y * 16) % 16 = cell.y % 16 := by omega
      have hlocalZ : (cell.z + start.z * 16) % 16 = cell.z % 16 := by omega
      have hx' : chunkX * 16 + cell.x % 16 = cell.x := by omega
      have hz' : chunkZ * 16 + cell.z % 16 = cell.z := by omega
      have hy' : slabIndex * 16 + cell.y % 16 = cell.y := by omega
      rw [if_pos ⟨hchunk.1, hchunk.2, hsub⟩, floorDiv_sixteen, hrow, hlocalX, hlocalY, hlocalZ,
        show (s.materializeChunk air slab layerCount (start.y + slabIndex) chunkZ chunkX).layout =
        .Native from rfl, layer0_materializeChunk (by omega) (isLocal_emod _) (isLocal_emod _)
        (isLocal_emod _), hx', hz']
      congr 1
      split_ifs with hmem
      · rw [mem_chunkCells] at hmem
        dsimp only at hmem
        rw [h.slabBlock_eq air hmem.1 (by omega) (by omega), hy']
      · rw [fileBlock, if_neg]
        intro hcontains
        apply hmem
        rw [mem_chunkCells]
        simp only [Size.Contains] at hcontains
        dsimp only
        omega
    · rw [if_neg (by omega), materializeChunk]
      dsimp only
      rw [floorDiv_sixteen, AssocMap.lookup_tryEmplace, if_neg (by omega), AList.lookup_empty,
        Option.map_none]
  · rw [if_neg (by omega), if_neg (by omega)]

/-- What the writes of some slabs show: only blocks of the file, and those of the noted columns. -/
structure Shows (s : SchemStructure) (air : RuntimeId) (start : SubChunkPos) (slabs : ℤ → Prop)
    (writes : List ChunkWrite) : Prop where
  blocks : ∀ write ∈ writes, ∀ pos id, write.blockAt pos = some id →
    id = s.fileBlock air (pos.sub start.origin)
  reached : ∀ pos, s.originalSize.Contains (pos.sub start.origin) →
    ((∃ write ∈ writes, (write.blockAt pos).isSome = true) ↔
      slabs ((pos.sub start.origin).y / 16) ∧ s.HasBlock air ((pos.sub start.origin).y / 16)
        s.lastChunkZ ((pos.sub start.origin).x / 16))

theorem Shows.append {slabs slabs' : ℤ → Prop} {writes writes' : List ChunkWrite}
    (h : s.Shows air start slabs writes) (h' : s.Shows air start slabs' writes') :
    s.Shows air start (fun slab => slabs slab ∨ slabs' slab) (writes ++ writes') where
  blocks := by
    intro write hwrite
    rcases List.mem_append.mp hwrite with hmem | hmem
    · exact h.blocks write hmem
    · exact h'.blocks write hmem
  reached := by
    intro pos hpos
    rw [or_and_right, ← h.reached pos hpos, ← h'.reached pos hpos]
    simp only [List.mem_append, or_and_right, exists_or]

/-- The writes of one slab. -/
theorem IsSlab.shows (h : s.IsSlab slabIndex layerCount slab) (air : RuntimeId) (start : SubChunkPos) :
    s.Shows air start (· = slabIndex) ((Int.range 0 s.originalSize.chunkZCount).flatMap
      (s.rowWrites air start slab layerCount (start.y + slabIndex))) := by
  have hmem (write : ChunkWrite) : write ∈ (Int.range 0 s.originalSize.chunkZCount).flatMap
      (s.rowWrites air start slab layerCount (start.y + slabIndex)) ↔
        ∃ chunkZ, (0 ≤ chunkZ ∧ chunkZ < s.originalSize.chunkZCount) ∧ ∃ chunkX,
          (0 ≤ chunkX ∧ chunkX < s.originalSize.chunkXCount) ∧
            s.HasBlock air slabIndex s.lastChunkZ chunkX ∧
              ⟨⟨chunkX + start.x, chunkZ + start.z⟩, s.materializeChunk air slab layerCount
                (start.y + slabIndex) chunkZ chunkX⟩ = write := by
    have hlast : 0 ≤ s.lastChunkZ := Int.ediv_nonneg (by have := h.length; omega) (by decide)
    simp only [rowWrites, List.mem_flatMap, List.mem_filterMap, Int.mem_range_iff]
    apply exists_congr
    intro chunkZ
    apply and_congr_right
    intro hchunkZ
    apply exists_congr
    intro chunkX
    apply and_congr_right
    intro hchunkX
    rw [getElem?_chunkRowNonAir h.length air slab layerCount hchunkX, Option.getD_some,
      ← h.foundNonAir_iff air hlast hchunkX.1]
    split_ifs with hfound
    · simp [hfound]
    · simp [hfound]
  constructor
  · intro write hwrite pos id hid
    obtain ⟨chunkZ, hchunkZ, chunkX, hchunkX, -, rfl⟩ := (hmem write).mp hwrite
    rw [h.blockAt_write air start hchunkZ.1 hchunkX.1] at hid
    obtain ⟨-, hid⟩ := then_of_some hid
    cases hid
    rfl
  · intro pos hpos
    constructor
    · intro ⟨write, hwrite, hsome⟩
      obtain ⟨chunkZ, hchunkZ, chunkX, hchunkX, hblock, rfl⟩ := (hmem write).mp hwrite
      rw [h.blockAt_write air start hchunkZ.1 hchunkX.1] at hsome
      split_ifs at hsome with hplace
      · rw [hplace.1, hplace.2.2]
        exact ⟨rfl, hblock⟩
      · cases hsome
    · intro ⟨hslab, hblock⟩
      rw [hslab] at hblock
      have hz : s.originalSize.chunkZCount = (s.originalSize.length + 15) / 16 :=
        chunkCount_eq _ h.length
      have hx : s.originalSize.chunkXCount = (s.originalSize.width + 15) / 16 :=
        chunkCount_eq _ h.width
      simp only [Size.Contains] at hpos
      refine ⟨_, (hmem _).mpr ⟨(pos.sub start.origin).z / 16, by omega,
        (pos.sub start.origin).x / 16, by omega, hblock, rfl⟩, ?_⟩
      rw [h.blockAt_write air start (by omega) (by omega), if_pos ⟨rfl, rfl, hslab⟩]
      rfl

theorem savedChunks_rows (rows : List ℤ) (writes : ℤ → List ChunkWrite) :
    savedChunks (rows.map fun row => (.saveChunks (writes row) : WorldCall Nbt)) =
      rows.flatMap writes := by
  rw [savedChunks, List.flatMap_map]

/-- The loop over slabs, from one slab on, if the numbers of the slabs before have been read. -/
theorem shows_of_writeSlabs (hwidth : 0 < s.originalSize.width) (hlength : 0 < s.originalSize.length)
    (hpalette : ∀ index, s.palette.runtimeIdFor index = s.palette.blockId index) {first : ℤ}
    (hfirst : 0 ≤ first) (hvalues : first < (s.originalSize.height + 15) / 16 →
      s.fileValues.drop (first * 16 * s.planeSize).toNat = valuesOf bytes.length bytes)
    {final : List (WorldCall Nbt) × List UInt8}
    (h : (Int.range first ((s.originalSize.height + 15) / 16)).foldlM (s.writeSlab air start)
      (calls, bytes) = .ok final) :
    ∃ writes, savedChunks final.1 = savedChunks calls ++ writes ∧
      s.Shows air start (fun slab => first ≤ slab ∧ slab < (s.originalSize.height + 15) / 16)
        writes := by
  obtain ⟨n, hn⟩ : ∃ n : ℕ, n = ((s.originalSize.height + 15) / 16 - first).toNat := ⟨_, rfl⟩
  induction n generalizing first bytes calls with
  | zero =>
    rw [range_eq_nil (by omega)] at h
    cases h
    refine ⟨[], (List.append_nil _).symm, (fun _ hmem => nomatch hmem), fun pos _ => ?_⟩
    constructor
    · intro ⟨_, hmem, _⟩
      cases hmem
    · intro ⟨hslab, _⟩
      omega
  | succ n ih =>
    rw [range_cons (by omega), List.foldlM_cons] at h
    obtain ⟨next, hnext, hrest⟩ := exists_of_bind_ok h
    rw [writeSlab] at hnext
    dsimp only at hnext
    split at hnext
    case h_1 => cases hnext
    case h_2 slab rest hread =>
      obtain ⟨_, hnext⟩ := else_of_ok hnext
      obtain ⟨_, hnext⟩ := else_of_ok hnext
      cases hnext
      obtain ⟨hcount, hsplit⟩ := valuesOf_of_readValues hread
      have hvalues := hvalues (by omega)
      rw [hsplit] at hvalues
      have hslab : s.IsSlab first (min 16 (s.originalSize.height - first * 16)) slab :=
        ⟨hfirst, rfl, ⟨_, hvalues⟩, hcount, hwidth, hlength, hpalette⟩
      have hplane : 0 ≤ s.planeSize := Int.mul_nonneg hwidth.le hlength.le
      obtain ⟨more, hmore, hshows⟩ := ih (by omega : 0 ≤ first + 1) (by
        -- A slab before the last one has sixteen layers.
        intro hlt
        have hlayers : min 16 (s.originalSize.height - first * 16) = 16 := by omega
        have hstart : ((first + 1) * 16 * s.planeSize).toNat =
            (first * 16 * s.planeSize).toNat + slab.length := by
          rw [hcount, hlayers, ← Int.toNat_add
            (Int.mul_nonneg (Int.mul_nonneg hfirst (by decide)) hplane)
            (Int.mul_nonneg hplane (by decide))]
          congr 1
          ring
        rw [hstart, ← List.drop_drop, hvalues, List.drop_left]) hrest (by omega)
      refine ⟨_, by rw [hmore, WorldChunkSink.savedChunks_append, savedChunks_rows,
        List.append_assoc], ?_⟩
      have hboth := (hslab.shows air start).append hshows
      refine ⟨hboth.blocks, fun pos hpos => (hboth.reached pos hpos).trans ?_⟩
      apply and_congr_left
      intro _
      omega

/-- The world that the direct stream leaves shows the slabs of all noted columns. -/
theorem shows_of_writeFromReader (hpalette : ∀ index, s.palette.runtimeIdFor index = s.palette.blockId index)
    (hbytes : s.source.blockData = some bytes) {budget : ℕ}
    (h : s.writeFromReader air start budget bytes = .ok calls) :
    s.Shows air start (fun slab => 0 ≤ slab ∧ slab < (s.originalSize.height + 15) / 16)
      (savedChunks calls) := by
  rw [writeFromReader] at h
  obtain ⟨hsize, h⟩ := else_of_ok h
  -- The checks in front of the loop.
  obtain ⟨_, h⟩ := else_of_ok h
  obtain ⟨_, h⟩ := else_of_ok h
  obtain ⟨_, h⟩ := else_of_ok h
  obtain ⟨_, h⟩ := else_of_ok h
  split at h
  case h_1 => cases h
  case h_2 final rest hslabs =>
    obtain ⟨_, h⟩ := then_of_ok h
    cases h
    obtain ⟨writes, hwrites, hshows⟩ := shows_of_writeSlabs (by omega) (by omega)
      hpalette le_rfl (by
        intro _
        rw [zero_mul, zero_mul, Int.toNat_zero, List.drop_zero, fileValues, hbytes]
        rfl) hslabs
    rw [hwrites]
    exact hshows

/-- A block outside the file is air. -/
theorem fileBlock_of_not_contains (h : ¬ s.originalSize.Contains cell) : s.fileBlock air cell = air := if_neg h

/-- A noted column of a slab shows the blocks of the file. -/
theorem Shows.recordedBlock_eq
    (h : s.Shows air start (fun slab => 0 ≤ slab ∧ slab < (s.originalSize.height + 15) / 16)
      (savedChunks calls))
    (hblock : s.HasBlock air ((pos.sub start.origin).y / 16) s.lastChunkZ ((pos.sub start.origin).x / 16)) :
    recordedBlock air calls pos = s.fileBlock air (pos.sub start.origin) := by
  apply lastValue_getD_of_agree
  · intro write hwrite id hid
    exact h.blocks write hwrite pos id hid
  · intro hnone
    by_cases hcontains : s.originalSize.Contains (pos.sub start.origin)
    · have hslab : 0 ≤ (pos.sub start.origin).y / 16 ∧
          (pos.sub start.origin).y / 16 < (s.originalSize.height + 15) / 16 := by
        simp only [Size.Contains] at hcontains
        omega
      obtain ⟨write, hwrite, hsome⟩ := (h.reached pos hcontains).mpr ⟨hslab, hblock⟩
      rw [hnone write hwrite] at hsome
      cases hsome
    · exact (fileBlock_of_not_contains hcontains).symm

/-- Other columns show air. -/
theorem Shows.recordedBlock_air
    (h : s.Shows air start (fun slab => 0 ≤ slab ∧ slab < (s.originalSize.height + 15) / 16)
      (savedChunks calls))
    (hblock : ¬ s.HasBlock air ((pos.sub start.origin).y / 16) s.lastChunkZ ((pos.sub start.origin).x / 16)) :
    recordedBlock air calls pos = air := by
  apply lastValue_getD_of_agree
  · intro write hwrite id hid
    by_cases hcontains : s.originalSize.Contains (pos.sub start.origin)
    · have hreached := (h.reached pos hcontains).mp ⟨write, hwrite, by rw [hid]; rfl⟩
      exact absurd hreached.2 hblock
    · rw [h.blocks write hwrite pos id hid, fileBlock_of_not_contains hcontains]
  · intro _
    rfl

/-- The world holds the blocks of the file, moved to the start, and nothing else. -/
def RecordsFile (s : SchemStructure) (air : RuntimeId) (start : SubChunkPos)
    (calls : List (WorldCall Nbt)) : Prop :=
  ∀ pos, recordedBlock air calls pos = s.fileBlock air (pos.sub start.origin)

/-- In every slab, a chunk column with a block in some chunk row has one in the last chunk row. -/
def LastRowShows (s : SchemStructure) (air : RuntimeId) : Prop :=
  ∀ slabIndex chunkZ chunkX, s.HasBlock air slabIndex chunkZ chunkX →
    s.HasBlock air slabIndex s.lastChunkZ chunkX

/-- The world holds the file exactly when the last chunk row shows every column. -/
theorem Shows.recordsFile_iff
    (h : s.Shows air start (fun slab => 0 ≤ slab ∧ slab < (s.originalSize.height + 15) / 16)
      (savedChunks calls)) : s.RecordsFile air start calls ↔ s.LastRowShows air := by
  constructor
  · intro hrecords slabIndex chunkZ chunkX hblock
    obtain ⟨cell, hcontains, hne, rfl, rfl, rfl⟩ := hblock
    by_contra hlast
    have hcell : (cell.add start.origin).sub start.origin = cell :=
      (BlockPos.add_eq_iff.mp rfl).symm
    have hblock := hrecords (cell.add start.origin)
    rw [h.recordedBlock_air (by rw [hcell]; exact hlast), hcell] at hblock
    exact hne hblock.symm
  · intro hlast pos
    by_cases hblock : s.HasBlock air ((pos.sub start.origin).y / 16) s.lastChunkZ
        ((pos.sub start.origin).x / 16)
    · exact h.recordedBlock_eq hblock
    · rw [h.recordedBlock_air hblock]
      by_contra hne
      apply hblock
      apply hlast _ ((pos.sub start.origin).z / 16)
      have hcontains : s.originalSize.Contains (pos.sub start.origin) := by
        by_contra hout
        exact hne (fileBlock_of_not_contains hout).symm
      exact ⟨_, hcontains, Ne.symm hne, rfl, rfl, rfl⟩

/-- The blocks of an indexed structure are the blocks of its file. -/
theorem sourceBlock_eq_fileBlock (hfile : s.FromFile document) (hindex : s.index.isSome = true)
    (air : RuntimeId) (cell : BlockPos) : s.sourceBlock air cell = s.fileBlock air cell := by
  obtain ⟨bytes, hmem, -, hstored⟩ := hfile.data
  obtain ⟨stored, _, _, h⟩ := hfile.indexed hindex
  have hbytes := h.stored
  rw [hstored stored hbytes] at hbytes
  rw [sourceBlock, fileBlock, fileValues, hfile.source, Document.blockData_eq hmem, hbytes]

/-- The generic conversion of an indexed structure leaves its file in the world. -/
theorem recordsFile_of_convertsToWorld (hfile : s.FromFile document) (hindex : s.index.isSome = true)
    {formatDefaultBatchSize : ℕ} {options : WorldConversionOptions}
    (h : ConvertsToWorld (s.chunkSource air) formatDefaultBatchSize start options calls) :
    s.RecordsFile air start calls := by
  obtain ⟨_, _, _, hindexed⟩ := hfile.indexed hindex
  have hoffset := hfile.offset
  have hrows : s.RowsFit := by
    have hheight := hfile.height
    simp only [RowsFit, hoffset, int32Min] at hheight ⊢
    omega
  have hgrid : (s.chunkSource air : ChunkSource Nbt).size = s.originalSize := hfile.size
  apply h.recordedBlock_eq
  · intro batch found hfound position hposition
    have hfollows : s.FollowsOffset air batch := by
      rw [hindexed.followsOffset_iff]
      apply Or.inr
      refine ⟨hrows, .inr (sharedAgrees_of_offset hfile.width.2 air batch ?_)⟩
      rw [hoffset]
      decide
    obtain ⟨chunks, hchunks, hblocks⟩ := hfollows
    have hsame : found = chunks := Except.ok.inj (hfound.symm.trans hchunks)
    rw [hsame]
    have hblock (pos : BlockPos) (hpos : blockToChunk pos = position) :
        chunks.blockAt air pos = some (s.fileBlock air pos) := by
      rw [hblocks, if_pos (hpos ▸ hposition), sourceBlock_eq_fileBlock hfile hindex, hoffset]
      congr 2
      simp [BlockPos.sub]
    refine ⟨?_, hblock⟩
    have hcorner := hblock ⟨position.x * 16, 0, position.z * 16⟩ (by
      obtain ⟨x, z⟩ := position
      simp only [blockToChunk, floorDiv_sixteen, ChunkPos.mk.injEq]
      omega)
    have hchunk : blockToChunk ⟨position.x * 16, 0, position.z * 16⟩ = position := by
      obtain ⟨x, z⟩ := position
      simp only [blockToChunk, floorDiv_sixteen, ChunkPos.mk.injEq]
      omega
    rw [ChunkMap.blockAt, hchunk] at hcorner
    cases hlookup : chunks.lookup position with
    | none =>
      rw [hlookup] at hcorner
      cases hcorner
    | some chunk => rfl
  · intro pos hpos
    apply fileBlock_of_not_contains
    intro hcontains
    apply hpos
    simp only [Size.Contains] at hcontains
    rw [ChunkStream.mem_gridPositions, hgrid, Size.chunkXCount, Size.chunkZCount, chunkCount_eq _ hfile.width.1,
      chunkCount_eq _ hfile.length.1, blockToChunk]
    simp only [floorDiv_sixteen]
    omega

/-- The world holds what any generic conversion of the same file leaves. -/
def SameAsGeneric (resolve : List Char → Option RuntimeId) (unknown : RuntimeId)
    (document : Document) (air : RuntimeId) (start : SubChunkPos) (calls : List (WorldCall Nbt)) :
    Prop :=
  ∀ flags t options (generic : List (WorldCall Nbt)), read resolve unknown flags document = .ok t →
    t.index.isSome = true →
    ConvertsToWorld (t.chunkSource air) t.size.chunkXCount.toNat start options generic →
    ∀ pos, recordedBlock air calls pos = recordedBlock air generic pos

/-- With a single chunk row there is no other row. -/
theorem lastRowShows_of_length (h : s.originalSize.length ≤ 16) (air : RuntimeId) : s.LastRowShows air := by
  intro slabIndex chunkZ chunkX hblock
  obtain ⟨cell, hcontains, hne, hx, hy, hz⟩ := hblock
  refine ⟨cell, hcontains, hne, hx, hy, ?_⟩
  simp only [Size.Contains] at hcontains
  rw [lastChunkZ]
  omega

/-- The direct stream writes the file, and what the generic conversion writes, exactly when in
every slab the last chunk row has a block in each column in which any chunk row has one. -/
theorem writesToWorld_recordsFile_iff {resolve : List Char → Option RuntimeId} {unknown : RuntimeId}
    {flags : ReadFlags} {document : Document} {s : SchemStructure}
    (hread : read resolve unknown flags document = .ok s) (hpalette : s.palette.maxIndex ≤ 65535)
    {air : RuntimeId} {start : SubChunkPos} {options : WorldConversionOptions}
    {calls : List (WorldCall Nbt)} (hwrite : s.WritesToWorld air start options calls) :
    s.RecordsFile air start calls ∧ SameAsGeneric resolve unknown document air start calls ↔
      s.LastRowShows air := by
  have hfile := fromFile_of_read hread
  obtain ⟨bytes, hmem, hlength, hstored⟩ := hfile.data
  have hbytes : s.source.blockData = some bytes := by
    rw [hfile.source]
    exact Document.blockData_eq hmem
  have hshows : s.Shows air start (fun slab => 0 ≤ slab ∧ slab < (s.originalSize.height + 15) / 16)
      (savedChunks calls) := by
    rw [WritesToWorld, if_neg (by rw [hfile.offset]; simpa using hpalette), writeToWorldDirect] at hwrite
    split at hwrite
    case h_1 stored hsome =>
      rw [hstored stored hsome] at hwrite
      exact shows_of_writeFromReader hfile.palette hbytes hwrite
    case h_2 =>
      rw [hbytes] at hwrite
      dsimp only at hwrite
      rw [if_neg (by rw [hlength]; omega)] at hwrite
      exact shows_of_writeFromReader hfile.palette hbytes hwrite
  rw [← hshows.recordsFile_iff]
  constructor
  · intro h
    exact h.1
  · intro hrecords
    refine ⟨hrecords, ?_⟩
    intro flags' t options' generic ht hindex hgeneric pos
    have hfile' := fromFile_of_read ht
    obtain ⟨hsize, hsame⟩ := header_of_reads hread ht
    rw [hrecords pos, recordsFile_of_convertsToWorld hfile' hindex hgeneric pos, fileBlock, fileBlock,
      fileValues, fileValues, hfile.source, hfile'.source, hsize, hsame]

/-- A file with a single chunk row is written completely: the stone block is in the world. -/
theorem writesToWorld_recordsFile_stone :
    ∃ calls : List (WorldCall Unit), stoneStructure.WritesToWorld 0 ⟨0, 0, 0⟩ {} calls ∧
      stoneStructure.RecordsFile 0 ⟨0, 0, 0⟩ calls ∧
        SameAsGeneric stoneRegistry 9 stoneDocument 0 ⟨0, 0, 0⟩ calls := by
  obtain ⟨calls, hcalls⟩ : ∃ calls : List (WorldCall Unit),
      stoneStructure.WritesToWorld 0 ⟨0, 0, 0⟩ {} calls := ⟨_, rfl⟩
  have hlast : stoneStructure.LastRowShows 0 := lastRowShows_of_length (by decide) 0
  exact ⟨calls, hcalls,
    (writesToWorld_recordsFile_iff read_stoneDocument (by decide) hcalls).mpr hlast⟩

/-- Two chunk rows, with a block in the first one only. -/
def twoRowsDocument : Document where
  tags := [.width 1, .height 1, .length 17,
    .palette [("minecraft:air".toList, 0), ("minecraft:stone".toList, 1)],
    .blockData (1 :: List.replicate 16 0)]
  unique := by decide

/-- What the reader of a direct stream makes of it. -/
def twoRowsStructure : SchemStructure where
  originalSize := ⟨1, 1, 17⟩
  size := ⟨1, 1, 17⟩
  offset := ⟨0, 0, 0⟩
  palette := ⟨(AList.insert 1 1 (AList.insert 0 0 ∅)), [0, 1], 1, 9⟩
  blockData := none
  blockDataBytes := 17
  index := none
  source := twoRowsDocument

theorem read_twoRowsDocument :
    read stoneRegistry 9 { streamingWorldImport := true, directWorldStream := true }
      twoRowsDocument = .ok twoRowsStructure := rfl

/-- The block of the first chunk row is not in the world. -/
theorem writesToWorld_loses_row :
    ∃ s, ∃ calls : List (WorldCall Unit),
      read stoneRegistry 9 { streamingWorldImport := true, directWorldStream := true }
        twoRowsDocument = .ok s ∧ s.palette.maxIndex ≤ 65535 ∧
        s.WritesToWorld 0 ⟨0, 0, 0⟩ {} calls ∧ ¬ s.RecordsFile 0 ⟨0, 0, 0⟩ calls := by
  refine ⟨twoRowsStructure, _, read_twoRowsDocument, by decide, rfl, ?_⟩
  intro hrecords
  have hblock := hrecords ⟨0, 0, 0⟩
  revert hblock
  decide

end SchemStructure

end WaterStructure
