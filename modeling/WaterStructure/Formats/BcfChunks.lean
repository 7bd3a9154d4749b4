import WaterStructure.Core.Box
import WaterStructure.Core.MappingLoad
import WaterStructure.Formats.BcfRegions

/-!
# BCF: the blocks of chunks

A request clips every region to every requested chunk. A cell has the id of the last region that is kept
and holds it, in the order of the file. Regions are kept if their palette entry is neither air nor the
id zero, which stands for no block here even where a registry has a block of that id.
-/

namespace WaterStructure

open LastValue NestedLoop SeekReader

/-- The box of a region, moved by an offset. -/
def Bcf.Region.box (region : Bcf.Region) (offset : BlockPos) : Box :=
  ⟨region.minimum.add offset, region.maximum.add offset⟩

namespace BcfStructure

open Bcf

/-- The cells of a rectangle of one layer, in the order of the two loops over it. -/
def layerCells (minimumX maximumX minimumZ maximumZ y : ℤ) : List BlockPos :=
  (Int.range minimumX (maximumX + 1)).flatMap fun x =>
    (Int.range minimumZ (maximumZ + 1)).map fun z => ⟨x, y, z⟩

variable {minimumX maximumX minimumZ maximumZ y : ℤ} {air : RuntimeId} {chunkPosition : ChunkPos}
  {chunk next : ChunkData} {offset : BlockPos} {object : BcfStructure}

theorem mem_layerCells (cell : BlockPos) :
    cell ∈ layerCells minimumX maximumX minimumZ maximumZ y ↔
      cell.y = y ∧ (minimumX ≤ cell.x ∧ cell.x ≤ maximumX) ∧ minimumZ ≤ cell.z ∧
        cell.z ≤ maximumZ := by
  obtain ⟨x', y', z'⟩ := cell
  simp only [layerCells, List.mem_flatMap, List.mem_map, Int.mem_range_iff, BlockPos.mk.injEq]
  constructor
  · rintro ⟨x, hxr, z, hzr, rfl, rfl, rfl⟩
    omega
  · rintro ⟨rfl, hxr, hzr⟩
    exact ⟨x', by omega, z', by omega, rfl, rfl, rfl⟩

/-- The two loops are one loop over the cells. -/
theorem foldl_layerCells {σ : Type} (f : σ → ℤ → ℤ → σ) (minimumX maximumX minimumZ maximumZ y : ℤ)
    (s : σ) : (Int.range minimumX (maximumX + 1)).foldl (fun s x =>
      (Int.range minimumZ (maximumZ + 1)).foldl (fun s z => f s x z) s) s =
        (layerCells minimumX maximumX minimumZ maximumZ y).foldl (fun s cell => f s cell.x cell.z)
          s := by
  rw [layerCells, List.foldl_flatMap]
  simp only [List.foldl_map]

/-- A layer of a region sets the cells of its rectangle. -/
theorem fillLayer_ok {runtime : RuntimeId} (hlayout : chunk.layout = .Internal)
    (hx : chunkPosition.x * 16 ≤ minimumX ∧ maximumX ≤ chunkPosition.x * 16 + 15)
    (hz : chunkPosition.z * 16 ≤ minimumZ ∧ maximumZ ≤ chunkPosition.z * 16 + 15)
    (h : fillLayer air chunkPosition runtime minimumX maximumX minimumZ maximumZ chunk y = .ok next) :
    next.layout = .Internal ∧ ∀ pos, blockToChunk pos = chunkPosition →
      next.blockAt air pos =
        if pos.y = y ∧ (minimumX ≤ pos.x ∧ pos.x ≤ maximumX) ∧ minimumZ ≤ pos.z ∧ pos.z ≤ maximumZ then
          runtime else chunk.blockAt air pos := by
  have hsub : floorDiv64 (y + kOverworldMinY) 16 = floorDiv (y - 64) 16 := by
    rw [floorDiv64_sixteen, floorDiv_sixteen]
    rfl
  rw [fillLayer] at h
  obtain ⟨_, h⟩ := else_of_ok h
  dsimp only at h
  obtain ⟨_, h⟩ := else_of_ok h
  cases h
  rw [hsub]
  rw [foldl_layerCells (fun (chunk : ChunkData) x z =>
    chunk.setBlock air (floorDiv (y - 64) 16)
      (((y + kOverworldMinY - floorDiv (y - 64) 16 * 16) * 16 +
        (z - chunkPosition.z * 16)) * 16 + (x - chunkPosition.x * 16)).toNat
      runtime) minimumX maximumX minimumZ maximumZ y]
  have hchunk {cell : BlockPos} (hcell : cell ∈ layerCells minimumX maximumX minimumZ maximumZ y) :
      blockToChunk cell = chunkPosition := by
    obtain ⟨-, hxc, hzc⟩ := (mem_layerCells cell).mp hcell
    obtain ⟨chunkX, chunkZ⟩ := chunkPosition
    dsimp only at hx hz
    rw [blockToChunk, floorDiv_sixteen, floorDiv_sixteen, ChunkPos.mk.injEq]
    omega
  rw [@ChunkData.foldl_eq_sweep _ _ air _ (fun cell => cell) (fun _ => some runtime) _
    fun chunk' hchunk' cell hcell => by
      have hplace := hchunk hcell
      have hlocalX : cell.x - chunkPosition.x * 16 = floorMod cell.x 16 := by
        rw [← hplace]
        rfl
      have hlocalZ : cell.z - chunkPosition.z * 16 = floorMod cell.z 16 := by
        rw [← hplace]
        rfl
      have hlocalY : y + kOverworldMinY - floorDiv (y - 64) 16 * 16 =
          y - (floorDiv (y - 64) 16 * 16 + 64) := by
        rw [kOverworldMinY]
        omega
      dsimp only
      rw [ChunkData.setAt, hchunk', ChunkData.ensureSubChunk_layout, hlayout, hlocalX, hlocalZ,
        hlocalY, ((mem_layerCells cell).mp hcell).1]
      rfl]
  refine ⟨by rw [ChunkData.sweep_layout, ChunkData.ensureSubChunk_layout, hlayout],
    fun pos hpos => ?_⟩
  rw [ChunkData.blockAt_sweep _ _ _ _ _ fun cell hcell => (hchunk hcell).trans hpos.symm,
    ChunkData.blockAt_ensureSubChunk, lastValue_const]
  refine if_congr ?_ rfl rfl
  rw [List.any_eq_true]
  constructor
  · rintro ⟨cell, hcell, hsame⟩
    rw [← of_decide_eq_true hsame]
    exact (mem_layerCells cell).mp hcell
  · intro hinside
    exact ⟨pos, (mem_layerCells pos).mpr hinside, decide_eq_true rfl⟩

/-- A region sets the cells of the chunk that its box holds. -/
theorem fillRegion_ok {region : Region} (hlayout : chunk.layout = .Internal)
    (h : fillRegion air offset chunkPosition chunk region = .ok next) :
    next.layout = .Internal ∧ ∀ pos, blockToChunk pos = chunkPosition →
      next.blockAt air pos =
        if (region.box offset).Contains pos then region.runtime else chunk.blockAt air pos := by
  have hbounds {pos : BlockPos} (hpos : blockToChunk pos = chunkPosition) :
      (chunkPosition.x * 16 ≤ pos.x ∧ pos.x ≤ chunkPosition.x * 16 + 15) ∧
        chunkPosition.z * 16 ≤ pos.z ∧ pos.z ≤ chunkPosition.z * 16 + 15 := by
    rw [← hpos, blockToChunk, floorDiv_sixteen, floorDiv_sixteen]
    dsimp only
    omega
  rw [fillRegion] at h
  split at h
  case isTrue hempty =>
    cases h
    refine ⟨hlayout, fun pos hpos => (if_neg fun hinside => ?_).symm⟩
    have := hbounds hpos
    simp only [Box.Contains, Region.box] at hinside
    omega
  case isFalse =>
    obtain ⟨_, h⟩ := else_of_ok h
    have hloop (pos : BlockPos) (hpos : blockToChunk pos = chunkPosition) :=
      @foldlM_observe_ok _ _ _ _ (fun chunk : ChunkData => chunk.blockAt air pos)
        (fun y => if pos.y = y ∧
          (max (region.minimum.add offset).x (chunkPosition.x * 16) ≤ pos.x ∧
            pos.x ≤ min (region.maximum.add offset).x (chunkPosition.x * 16 + 15)) ∧
          max (region.minimum.add offset).z (chunkPosition.z * 16) ≤ pos.z ∧
            pos.z ≤ min (region.maximum.add offset).z (chunkPosition.z * 16 + 15) then
          some region.runtime else none) _ (fun chunk => chunk.layout = .Internal) _
        (fun chunk' hchunk' y _ next' hnext' => by
          obtain ⟨hinner, hblocks⟩ := fillLayer_ok hchunk' ⟨le_max_right _ _, min_le_right _ _⟩
            ⟨le_max_right _ _, min_le_right _ _⟩ hnext'
          refine ⟨hinner, ?_⟩
          rw [hblocks pos hpos]
          split <;> rfl) _ _ hlayout h
    refine ⟨(hloop ⟨chunkPosition.x * 16, 0, chunkPosition.z * 16⟩ ?_).1, fun pos hpos => ?_⟩
    · rw [blockToChunk, floorDiv_sixteen, floorDiv_sixteen]
      obtain ⟨chunkX, chunkZ⟩ := chunkPosition
      rw [ChunkPos.mk.injEq]
      dsimp only
      omega
    · have := hbounds hpos
      rw [(hloop pos hpos).2, lastValue_const]
      refine if_congr ?_ rfl rfl
      simp only [List.any_eq_true, decide_eq_true_eq, Int.mem_range_iff, Box.Contains, Region.box]
      constructor
      · rintro ⟨y, hy, rfl, hxz⟩
        omega
      · intro hinside
        exact ⟨pos.y, by omega, rfl, by omega⟩

/-- A chunk shows of every cell the last region that holds it. -/
theorem fillRegions_ok {regions : List Region}
    (h : regions.foldlM (fillRegion air offset chunkPosition) {} = .ok chunk) {pos : BlockPos}
    (hpos : blockToChunk pos = chunkPosition) : chunk.blockAt air pos =
      (lastValue (fun region => if (region.box offset).Contains pos then some region.runtime else none)
        regions).getD air := by
  have hloop := @foldlM_observe_ok _ _ _ _ (fun chunk : ChunkData => chunk.blockAt air pos)
    (fun region : Region => if (region.box offset).Contains pos then some region.runtime else none) _
    (fun chunk => chunk.layout = .Internal) _ (fun chunk' hchunk' region _ next hnext => by
      obtain ⟨hinner, hblocks⟩ := fillRegion_ok hchunk' hnext
      refine ⟨hinner, ?_⟩
      rw [hblocks pos hpos]
      split <;> rfl) _ _ rfl h
  exact hloop.2

/-- A request that succeeds shows the last regions, chunk by chunk. -/
theorem getChunks_ok {positions : List ChunkPos} {chunks : ChunkMap}
    (h : object.getChunks air positions = .ok chunks) (pos : BlockPos) :
    chunks.blockAt air pos = if blockToChunk pos ∈ positions then
      some ((lastValue (fun region =>
        if (region.box object.offset).Contains pos then some region.runtime else none)
          object.regions).getD air) else none := by
  obtain ⟨found, hfound, hlookup⟩ := @ChunkMap.forEachM_emplaceAll positions
    (fun chunkPosition chunk =>
      object.regions.foldlM (fillRegion air object.offset chunkPosition) chunk)
    fun other hother => ChunkMap.exists_of_forEachM_emplaceAll h hother
  cases hfound.symm.trans h
  rw [ChunkMap.blockAt, hlookup]
  by_cases hpos : blockToChunk pos ∈ positions
  · obtain ⟨chunk, hchunk⟩ := ChunkMap.exists_of_forEachM_emplaceAll h hpos
    rw [if_pos hpos, if_pos hpos, hchunk]
    exact congrArg some (fillRegions_ok hchunk rfl)
  · rw [if_neg hpos, if_neg hpos]
    rfl

/-- What a scan computes of a region in 32 bits: its corners, the lengths of its edges, and its corners
relative to the bounds. -/
def scanValues (region : Region) (corner : BlockPos) : List ℤ :=
  [region.minimum.x, region.minimum.y, region.minimum.z,
    region.maximum.x, region.maximum.y, region.maximum.z,
    region.maximum.x - region.minimum.x, region.maximum.y - region.minimum.y,
    region.maximum.z - region.minimum.z,
    region.maximum.x - region.minimum.x + 1, region.maximum.y - region.minimum.y + 1,
    region.maximum.z - region.minimum.z + 1,
    region.minimum.x - corner.x, region.minimum.y - corner.y, region.minimum.z - corner.z,
    region.maximum.x - corner.x, region.maximum.y - corner.y, region.maximum.z - corner.z]

/-- The size of the bounds. -/
def boundsSize (low high : BlockPos) : Size :=
  ⟨high.x - low.x + 1, high.y - low.y + 1, high.z - low.z + 1⟩

/-- What is known of a file that has been read: the two scans have seen the same records. -/
theorem read_ok {registry : MappingRegistry} {file : File} (h : read registry file = .ok object) :
    ∃ tables sections first,
      Bcf.readTables registry file = .ok tables ∧ readSections file tables = .ok sections ∧
      scanSections file tables registry.airRuntimeId false {} = .ok first ∧
      Scanned tables registry.airRuntimeId (placements sections) first ∧
      object = {
        originalSize := boundsSize first.boundsMin first.boundsMax
        size := boundsSize first.boundsMin first.boundsMax
        offset := ⟨0, 0, 0⟩
        regions := (keptRegions tables registry.airRuntimeId sections).map (·.relativeTo first.boundsMin)
        nonAirBlocks := first.nonAirBlocks } := by
  rw [read] at h
  obtain ⟨tables, htables, h⟩ := exists_of_bind_ok h
  obtain ⟨first, hfirst, h⟩ := exists_of_bind_ok h
  obtain ⟨-, h⟩ := exists_of_guard_ok h
  obtain ⟨-, h⟩ := exists_of_guard_ok h
  obtain ⟨second, hsecond, h⟩ := exists_of_bind_ok h
  have hfile := inFile_of_readTables htables
  obtain ⟨sections, hsections, hscan⟩ := scanSections_ok hfile hfirst
  obtain ⟨sections', hsections', hscan'⟩ := scanSections_ok hfile hsecond
  cases hsections.symm.trans hsections'
  have hscanned : Scanned tables registry.airRuntimeId (placements sections) first :=
    foldlM_ok_rule (Scanned tables registry.airRuntimeId)
      (fun done state placement hplacement next hstate hstep =>
        hstate.step (readSections_short hsections placement hplacement) hstep)
      (scanned_nil tables registry.airRuntimeId) hscan
  refine ⟨tables, sections, first, htables, hsections, hfirst, hscanned, ?_⟩
  cases h
  rw [secondScan_regions hscan', hscanned.regions, List.nil_append]
  rfl

/-- The regions of a file are painted in file order, and a cell has the id of the last region that holds
it. Regions whose palette entry has the id zero or that of air are left out by both scans. -/
structure Paints (registry : MappingRegistry) (file : File) (object : BcfStructure) (tables : Tables)
    (sections : List Section) (first : ScanState) : Prop where
  tablesRead : Bcf.readTables registry file = .ok tables
  offsets : ∀ (σ : Type) (callback : ℕ → ℕ → σ → Except String σ) (s : σ),
    forEachSectionOffset file tables callback s =
      ((List.range tables.offsetCount).map fun index => (index, sectionOffset file tables index)).foldlM
        (fun s entry => callback entry.1 entry.2 s) s
  sectionsRead : readSections file tables = .ok sections
  firstScan : scanSections file tables registry.airRuntimeId false {} = .ok first
  counted : first.nonAirRegions = object.regions.length
  retained : object.regions =
    (keptRegions tables registry.airRuntimeId sections).map (·.relativeTo first.boundsMin)
  noOverflow : ∀ region ∈ keptRegions tables registry.airRuntimeId sections,
    ∀ value ∈ scanValues region first.boundsMin, IsInt32 value
  inside : ∀ region ∈ object.regions,
    object.size.Contains region.minimum ∧ object.size.Contains region.maximum
  shown : ∀ offset positions chunks,
    (object.setOffset offset).getChunks registry.airRuntimeId positions = .ok chunks →
      ∀ pos, chunks.blockAt registry.airRuntimeId pos =
        if blockToChunk pos ∈ positions then
          some ((lastValue (fun region =>
            if ((region.relativeTo first.boundsMin).box offset).Contains pos then some region.runtime
            else none) (keptRegions tables registry.airRuntimeId sections)).getD registry.airRuntimeId)
        else none

theorem read_paints {registry : MappingRegistry} {file : File} {object : BcfStructure}
    (h : read registry file = .ok object) :
    ∃ tables sections first, Paints registry file object tables sections first := by
  obtain ⟨tables, sections, first, htables, hsections, hfirst, hscanned, rfl⟩ := read_ok h
  have htame := @tame_keptRegions tables registry.airRuntimeId sections
    (readSections_short hsections)
  refine ⟨tables, sections, first, {
    tablesRead := htables
    offsets := fun σ => forEachSectionOffset_eq (inFile_of_readTables htables)
    sectionsRead := hsections
    firstScan := hfirst
    counted := hscanned.nonAirRegions.trans (List.length_map _).symm
    retained := rfl
    noOverflow := fun region hregion => ?_
    inside := fun region hregion => ?_
    shown := fun offset positions chunks hchunks pos => ?_ }⟩
  · obtain ⟨hordered, hlow, hhigh⟩ := htame region hregion
    have hwithin := hscanned.within region hregion
    have hcorner := hscanned.low
    simp only [scanValues, List.forall_mem_cons, IsInt32, int32Min, int32Max]
    refine ⟨?_, ?_, ?_, ?_, ?_, ?_, ?_, ?_, ?_, ?_, ?_, ?_, ?_, ?_, ?_, ?_, ?_, ?_, ?_⟩
    case refine_19 => exact fun value hvalue => absurd hvalue List.not_mem_nil
    all_goals omega
  · obtain ⟨kept, hkept, rfl⟩ := List.mem_map.mp hregion
    obtain ⟨hordered, -, -⟩ := htame kept hkept
    have hwithin := hscanned.within kept hkept
    simp only [Size.Contains, boundsSize, Region.relativeTo, BlockPos.sub]
    omega
  · rw [getChunks_ok hchunks pos, setOffset, lastValue_map]
    rfl

/-- A registry that holds a palette: the first of its states is a block. -/
def paletteRegistry : MappingRegistry :=
  { MappingRegistry.initial with
    toStateTables := (MappingRegistry.initial.installPalette {
      root := .null
      upgradeState := id
      states := [(0, ⟨"a:a".toList, [], 0⟩), (1, StateRegistry.airState), (2, ⟨"a:b".toList, [], 0⟩)]
      sourceAirId := 1 }).2 }

/-- A file with one section: a block of the second name, and over it one of the first. -/
def overlaid : File :=
  [66, 67, 70] ++ List.replicate 16 0 ++
    -- the pointers: the offset table, the palette, the names, and no states
    [97, 0, 0, 0, 0, 0, 0, 0] ++ [77, 0, 0, 0, 0, 0, 0, 0] ++ [59, 0, 0, 0, 0, 0, 0, 0] ++
    List.replicate 16 0 ++
    -- the names
    [2, 0, 0, 0] ++ [0, 0, 3, 0, 97, 58, 97] ++ [1, 0, 3, 0, 97, 58, 98] ++
    -- the palette
    [2, 0, 0, 0] ++ [0, 0, 0, 0, 0, 0, 0, 0] ++ [1, 0, 0, 0, 1, 0, 0, 0] ++
    -- the offset table and the section
    [1, 0, 0, 0, 0, 0, 0, 0] ++ [113, 0, 0, 0, 0, 0, 0, 0] ++
    List.replicate 14 0 ++ [2, 0, 0, 0] ++ [1, 0, 0, 0] ++ List.replicate 12 0 ++ List.replicate 16 0

theorem exists_read_overlaid : ∃ object, read paletteRegistry overlaid = .ok object :=
  NestedLoop.exists_of_isOk (by decide +kernel)

theorem overlaid_paints : ∃ object, read paletteRegistry overlaid = .ok object ∧
    ∃ tables sections first, Paints paletteRegistry overlaid object tables sections first := by
  obtain ⟨object, hobject⟩ := exists_read_overlaid
  exact ⟨object, hobject, read_paints hobject⟩

/-- The region of a record whose palette entry is not air. -/
def nonAirRegion (tables : Tables) (air : RuntimeId) (placement : BlockPos × Record) : Option Region :=
  (tables.palette.lookup placement.2.paletteId).bind fun runtime =>
    if runtime = air then none else some (placement.2.region placement.1 runtime)

/-- What a chunk shows of a cell, and the last region that holds the cell and is not air. -/
def shownAndLast (registry : MappingRegistry) (file : File) (pos : BlockPos) :
    Except String (Option RuntimeId × Option RuntimeId) := do
  let tables ← Bcf.readTables registry file
  let sections ← readSections file tables
  let object ← read registry file
  let chunks ← object.getChunks registry.airRuntimeId [blockToChunk pos]
  return (chunks.blockAt registry.airRuntimeId pos,
    lastValue (fun region => if (region.box object.offset).Contains pos then some region.runtime else none)
      ((placements sections).filterMap (nonAirRegion tables registry.airRuntimeId)))

/-- The last block of the file is not shown, for its id is zero. -/
theorem overlaid_shows_first : paletteRegistry.airRuntimeId = 1 ∧
    (shownAndLast paletteRegistry overlaid ⟨0, 0, 0⟩).toOption = some (some 2, some 0) := by
  decide +kernel

end BcfStructure

end WaterStructure
