import WaterStructure.Formats.AxiomBpRegions
import WaterStructure.Library.Extremes

/-!
# Reading a blueprint block by block

Regions that start at zero give the reader their cells one after the other. The declared size plays
no role while blocks are stored, and air leaves no trace, so the reader ends with the blocks of the
cells it has seen in the smallest box that starts at the origin and holds them.
-/

namespace WaterStructure

open NestedLoop

namespace AxiomBp

open NbtTag

/-! ## Keeping blocks one after the other -/

section Placing

variable {air : RuntimeId} {block : BlockPos → RuntimeId}

/-- The declared size plays no role while blocks are stored. -/
theorem put_setSize {store : SparseBlockStore Tag} (h : store.includeOutOfBounds = false)
    (size : Size) (cell : BlockPos) (id : RuntimeId) :
    (store.setSize size).put air cell id = (store.put air cell id).setSize size := by
  simp [SparseBlockStore.put, SparseBlockStore.setSize, h]

/-- The reader with its final size. -/
def AxiomBpReader.finish (reader : AxiomBpReader) : AxiomBpReader :=
  let size : Size := ⟨reader.maxBlock.x, reader.maxBlock.y, reader.maxBlock.z⟩
  { reader with store := reader.store.setSize size }

/-- The reader under another declared size. -/
def AxiomBpReader.withSize (reader : AxiomBpReader) (size : Size) : AxiomBpReader :=
  { reader with store := reader.store.setSize size }

theorem placeCell_withSize {reader : AxiomBpReader}
    (h : reader.store.includeOutOfBounds = false) (size : Size) (cell : BlockPos) :
    (reader.withSize size).placeCell air block cell =
      (reader.placeCell air block cell).withSize size := by
  unfold AxiomBpReader.placeCell
  split
  · rfl
  · simp only [AxiomBpReader.place, AxiomBpReader.withSize, put_setSize h]

/-- Storing a block leaves the switch for blocks outside as it is. -/
theorem includeOutOfBounds_placeCell (reader : AxiomBpReader) (cell : BlockPos) :
    (reader.placeCell air block cell).store.includeOutOfBounds =
      reader.store.includeOutOfBounds := by
  unfold AxiomBpReader.placeCell
  split <;> rfl

/-- The size that is declared first leaves no trace in the finished reader. -/
theorem finish_foldl_withSize {reader : AxiomBpReader}
    (h : reader.store.includeOutOfBounds = false) (size : Size) (cells : List BlockPos) :
    (cells.foldl (.placeCell air block) (reader.withSize size)).finish =
      (cells.foldl (.placeCell air block) reader).finish := by
  induction cells generalizing reader with
  | nil => rfl
  | cons cell rest ih =>
    rw [List.foldl_cons, List.foldl_cons, placeCell_withSize h]
    exact ih ((includeOutOfBounds_placeCell reader cell).trans h)

/-- Cells of air leave no trace. -/
theorem foldl_placeCell_filter (cells : List BlockPos) (reader : AxiomBpReader) :
    (cells.filter fun cell => block cell ≠ air).foldl (.placeCell air block) reader =
      cells.foldl (.placeCell air block) reader := by
  induction cells generalizing reader with
  | nil => rfl
  | cons cell rest ih =>
    by_cases hcell : block cell = air
    · rw [List.filter_cons_of_neg (by simpa using hcell), ih, List.foldl_cons,
        AxiomBpReader.placeCell, if_pos hcell]
    · rw [List.filter_cons_of_pos (by simpa using hcell), List.foldl_cons, ih, List.foldl_cons]

/-- The blocks after the loop over some cells. -/
theorem content_foldl_placeCell {done cells : List BlockPos} {reader : AxiomBpReader}
    (h : ∀ pos, reader.store.content air pos = if pos ∈ done then block pos else air)
    (pos : BlockPos) : (cells.foldl (.placeCell air block) reader).store.content air pos =
      if pos ∈ done ++ cells then block pos else air := by
  induction cells generalizing done reader with
  | nil => rw [List.append_nil, List.foldl_nil, h]
  | cons cell rest ih =>
    rw [List.append_cons, List.foldl_cons]
    apply ih
    intro other
    simp only [List.mem_append, List.mem_singleton]
    unfold AxiomBpReader.placeCell
    split
    case isTrue hair =>
      rw [h]
      by_cases hsame : other = cell
      · subst hsame
        simp [hair]
      · simp [hsame]
    case isFalse =>
      rw [AxiomBpReader.place, SparseBlockStore.content_put, Function.update_apply, h]
      by_cases hsame : other = cell
      · simp [hsame]
      · simp [hsame]

/-- The count after the loop over some cells. -/
theorem nonAirBlocks_foldl_placeCell (cells : List BlockPos) (reader : AxiomBpReader) :
    (cells.foldl (.placeCell air block) reader).nonAirBlocks =
      reader.nonAirBlocks + cells.countP fun cell => block cell ≠ air := by
  induction cells generalizing reader with
  | nil => rfl
  | cons cell rest ih =>
    rw [List.foldl_cons, ih, List.countP_cons, AxiomBpReader.placeCell]
    by_cases hair : block cell = air
    · simp [hair]
    · simp [hair, AxiomBpReader.place]
      omega

/-- What is known of the size after the loop over blocks. -/
theorem maxBlock_foldl_placeCell {cells : List BlockPos} (h : ∀ cell ∈ cells, block cell ≠ air)
    (reader : AxiomBpReader) :
    (cells.foldl (.placeCell air block) reader).maxBlock =
      ⟨(cells.map fun cell => cell.x + 1).foldl max reader.maxBlock.x,
        (cells.map fun cell => cell.y + 1).foldl max reader.maxBlock.y,
        (cells.map fun cell => cell.z + 1).foldl max reader.maxBlock.z⟩ := by
  induction cells generalizing reader with
  | nil => rfl
  | cons cell rest ih =>
    rw [List.foldl_cons, ih fun other hother => h other (List.mem_cons_of_mem _ hother),
      AxiomBpReader.placeCell, if_neg (h cell List.mem_cons_self)]
    rfl

/-- Blocks inside the declared size keep the store in bounds. -/
theorem inBounds_foldl_placeCell {cells : List BlockPos} {reader : AxiomBpReader}
    (h : reader.store.InBounds air)
    (hcells : ∀ cell ∈ cells, reader.store.originalSize.Contains cell) :
    (cells.foldl (.placeCell air block) reader).store.InBounds air ∧
      (cells.foldl (.placeCell air block) reader).store.offset = reader.store.offset ∧
      (cells.foldl (.placeCell air block) reader).store.originalSize =
        reader.store.originalSize := by
  induction cells generalizing reader with
  | nil => exact ⟨h, rfl, rfl⟩
  | cons cell rest ih =>
    have hrest : ∀ other ∈ rest, reader.store.originalSize.Contains other :=
      fun other hother => hcells other (List.mem_cons_of_mem _ hother)
    rw [List.foldl_cons]
    by_cases hair : block cell = air
    · rw [AxiomBpReader.placeCell, if_pos hair]
      exact ih h hrest
    · rw [AxiomBpReader.placeCell, if_neg hair]
      exact ih (h.put (hcells cell List.mem_cons_self) _) hrest

end Placing

/-! ## Reading a document -/

/-- The tag of a region that gives the blocks of its cells. -/
def Readable (registry : Registry) (block : BlockPos → RuntimeId) (region : BlockPos) (tag : Tag) :
    Prop :=
  ∃ parts, (∀ regionIndex, regionParts tag regionIndex = .ok parts) ∧ parts.region = region ∧
    ∀ reader, readRegion registry ⟨0, 0, 0⟩ reader parts =
      (regionCells region).foldl (.placeCell registry.airRuntimeId block) reader

variable {registry : Registry} {tagOf : BlockPos → Tag} {regions : List BlockPos} {values : List ℤ}

/-- The two passes over readable regions. -/
theorem exists_parts {block : BlockPos → RuntimeId}
    (h : ∀ region ∈ regions, Readable registry block region (tagOf region)) (start : ℕ) : ∃ parts,
      ((regions.map tagOf).zipIdx start).mapM (fun entry => regionParts entry.1 entry.2) = .ok parts ∧
        parts.map RegionParts.region = regions ∧
        ∀ reader, parts.foldl (readRegion registry ⟨0, 0, 0⟩) reader =
          (regions.flatMap regionCells).foldl (.placeCell registry.airRuntimeId block) reader := by
  induction regions generalizing start with
  | nil => exact ⟨[], rfl, rfl, fun _ => rfl⟩
  | cons region rest ih =>
    obtain ⟨part, hpart, rfl, hread⟩ := h region List.mem_cons_self
    obtain ⟨parts, hparts, hregions, hreads⟩ :=
      ih (fun other hother => h other (List.mem_cons_of_mem _ hother)) (start + 1)
    refine ⟨part :: parts, ?_, by rw [List.map_cons, hregions], fun reader => ?_⟩
    · rw [List.map_cons, List.zipIdx_cons, List.mapM_cons, hpart, ok_bind, hparts]
      rfl
    · rw [List.foldl_cons, List.flatMap_cons, List.foldl_append, hread, hreads]

/-- The least coordinate of regions that start at zero. -/
theorem foldl_min_eq_zero (hzero : 0 ∈ values)
    (hvalues : ∀ value ∈ values, 0 ≤ value ∧ (value + 1) * 16 ≤ int32Max) :
    values.foldl min int32Max = 0 := by
  have hbelow : ∀ value ∈ values, value ≤ int32Max := by
    intro value hvalue
    have := hvalues value hvalue
    omega
  have hleast := Extremes.isLeast_foldl_min (List.ne_nil_of_mem hzero) hbelow
  exact hleast.unique ⟨hzero, fun value hvalue => (hvalues value hvalue).1⟩

/-- The extent of regions that start at zero. -/
theorem provisionalExtent_bounds (hzero : 0 ∈ values)
    (hvalues : ∀ value ∈ values, 0 ≤ value ∧ (value + 1) * 16 ≤ int32Max) :
    0 < provisionalExtent 0 (values.foldl max int32Min) ∧
      provisionalExtent 0 (values.foldl max int32Min) ≤ int32Max := by
  have habove : ∀ value ∈ values, int32Min ≤ value := by
    intro value hvalue
    have := hvalues value hvalue
    unfold int32Min
    omega
  have hgreatest := Extremes.isGreatest_foldl_max (List.ne_nil_of_mem hzero) habove
  have hlast := hvalues _ hgreatest.1
  unfold provisionalExtent
  omega

/-- Regions that start at zero and span no more cells than an `int32` counts. -/
structure Spans (regions : List BlockPos) : Prop where
  origin : ⟨0, 0, 0⟩ ∈ regions
  x : ∀ region ∈ regions, 0 ≤ region.x ∧ (region.x + 1) * 16 ≤ int32Max
  y : ∀ region ∈ regions, 0 ≤ region.y ∧ (region.y + 1) * 16 ≤ int32Max
  z : ∀ region ∈ regions, 0 ≤ region.z ∧ (region.z + 1) * 16 ≤ int32Max

/-- A document of readable regions is read block by block. -/
theorem readDocument_eq {block : BlockPos → RuntimeId} (hspans : Spans regions)
    (h : ∀ region ∈ regions, Readable registry block region (tagOf region)) :
    readDocument registry (documentOf (regions.map tagOf)) =
      .ok ((regions.flatMap regionCells).foldl
        (AxiomBpReader.placeCell registry.airRuntimeId block) {}).finish := by
  obtain ⟨parts, hparts, hregions, hreads⟩ := exists_parts h 0
  have hmap (pick : BlockPos → ℤ) :
      (parts.map fun part => pick part.region) = regions.map pick := by
    rw [← hregions, List.map_map]
    rfl
  have haxis (pick : BlockPos → ℤ)
      (hpick : ∀ region ∈ regions, 0 ≤ pick region ∧ (pick region + 1) * 16 ≤ int32Max) :
      ∀ value ∈ regions.map pick, 0 ≤ value ∧ (value + 1) * 16 ≤ int32Max := by
    intro value hvalue
    obtain ⟨region, hregion, rfl⟩ := List.mem_map.mp hvalue
    exact hpick region hregion
  have hx := List.mem_map_of_mem (f := BlockPos.x) hspans.origin
  have hy := List.mem_map_of_mem (f := BlockPos.y) hspans.origin
  have hz := List.mem_map_of_mem (f := BlockPos.z) hspans.origin
  have hwidth := provisionalExtent_bounds hx (haxis BlockPos.x hspans.x)
  have hheight := provisionalExtent_bounds hy (haxis BlockPos.y hspans.y)
  have hlength := provisionalExtent_bounds hz (haxis BlockPos.z hspans.z)
  have hsome : (regions.map tagOf).isEmpty = false := by
    rw [List.isEmpty_eq_false_iff]
    exact List.ne_nil_of_mem (List.mem_map_of_mem hspans.origin)
  have hfind : findValue (documentOf (regions.map tagOf)) "BlockRegion" =
      some (.list .Compound (regions.map tagOf)) := rfl
  rw [readDocument, hfind]
  dsimp only
  rw [hsome, if_neg Bool.false_ne_true, hparts, ok_bind]
  simp only [hmap BlockPos.x, hmap BlockPos.y, hmap BlockPos.z,
    foldl_min_eq_zero hx (haxis BlockPos.x hspans.x),
    foldl_min_eq_zero hy (haxis BlockPos.y hspans.y),
    foldl_min_eq_zero hz (haxis BlockPos.z hspans.z)]
  rw [if_neg (by omega), hreads]
  exact congrArg Except.ok (@finish_foldl_withSize registry.airRuntimeId block {} rfl _ _)

/-! ## The tiling -/

/-- The region of a cell. -/
def regionOf (cell : BlockPos) : BlockPos := ⟨cell.x / 16, cell.y / 16, cell.z / 16⟩

/-- A cell belongs to one region. -/
theorem mem_regionCells {region cell : BlockPos} :
    cell ∈ regionCells region ↔ regionOf cell = region := by
  obtain ⟨x, y, z⟩ := cell
  obtain ⟨regionX, regionY, regionZ⟩ := region
  simp only [regionCells, List.mem_map, mem_localCells, regionOf, cellOf, IsLocal, BlockPos.mk.injEq]
  constructor
  · rintro ⟨⟨localX, localY, localZ⟩, ⟨hx, hy, hz⟩, rfl, rfl, rfl⟩
    dsimp only at hx hy hz ⊢
    omega
  · rintro ⟨rfl, rfl, rfl⟩
    refine ⟨⟨x % 16, y % 16, z % 16⟩, ?_, ?_⟩
    · dsimp only
      omega
    · dsimp only
      omega

theorem nodup_regionCells (region : BlockPos) : (regionCells region).Nodup := by
  apply (Size.nodup_cellsYZX ⟨16, 16, 16⟩).map
  intro cell other h
  obtain ⟨x, y, z⟩ := cell
  obtain ⟨x', y', z'⟩ := other
  simp only [cellOf, BlockPos.mk.injEq] at h ⊢
  omega

/-- Different regions have different cells. -/
theorem nodup_cells (h : regions.Nodup) : (regions.flatMap regionCells).Nodup :=
  nodup_flatMap_of_tag h (fun region _ => nodup_regionCells region)
    fun _ _ _ hcell => mem_regionCells.mp hcell

/-- The regions reach the end of an axis. -/
theorem regionCount_spec {extent count : ℤ} (h : regionCount extent = .ok count) (hpos : 0 < extent) :
    (extent - 1) / 16 < count := by
  unfold regionCount at h
  dsimp only at h
  obtain ⟨_, h⟩ := else_of_ok h
  cases h
  rw [floorMod_sixteen, Int.tdiv_eq_ediv_of_nonneg (by omega)]
  omega

/-- The blocks that a reader has are those of the structure, in the smallest box that starts at
the origin and holds them. -/
structure Restores (air : RuntimeId) (block : BlockPos → RuntimeId) (size : Size)
    (reader : AxiomBpReader) : Prop where
  width : IsGreatest {x | ∃ cell, size.Contains cell ∧ block cell ≠ air ∧ cell.x = x}
    (reader.store.size.width - 1)
  height : IsGreatest {y | ∃ cell, size.Contains cell ∧ block cell ≠ air ∧ cell.y = y}
    (reader.store.size.height - 1)
  length : IsGreatest {z | ∃ cell, size.Contains cell ∧ block cell ≠ air ∧ cell.z = z}
    (reader.store.size.length - 1)
  chunks : ∀ positions, ∃ chunks, reader.store.getChunks air positions = .ok chunks ∧
    ∀ pos, reader.store.size.Contains pos → blockToChunk pos ∈ positions →
      chunks.blockAt air pos = some (block pos)
  count : reader.nonAirBlocks = size.cellsYZX.countP fun cell => block cell ≠ air

/-- The greatest coordinate, from the loop that keeps one more. -/
theorem isGreatest_axis {cells : List BlockPos} (hne : cells ≠ []) (pick : BlockPos → ℤ)
    (hnonneg : ∀ cell ∈ cells, 0 ≤ pick cell) {P : BlockPos → Prop}
    (hP : ∀ cell, cell ∈ cells ↔ P cell) :
    IsGreatest {value | ∃ cell, P cell ∧ pick cell = value}
      ((cells.map fun cell => pick cell + 1).foldl max 0 - 1) := by
  have hstart : ∀ value ∈ cells.map fun cell => pick cell + 1, 0 ≤ value := by
    intro value hvalue
    obtain ⟨cell, hcell, rfl⟩ := List.mem_map.mp hvalue
    exact Int.add_nonneg (hnonneg cell hcell) (by decide)
  obtain ⟨hmem, hmax⟩ := Extremes.isGreatest_foldl_max (by simpa using hne) hstart
  constructor
  · obtain ⟨cell, hcell, hvalue⟩ := List.mem_map.mp hmem
    exact ⟨cell, (hP cell).mp hcell, by omega⟩
  · rintro value ⟨cell, hcell, rfl⟩
    have := hmax (List.mem_map_of_mem ((hP cell).mpr hcell))
    omega

/-- Two lists without repetitions that agree where a test holds have the same number of hits. -/
theorem countP_eq_of_mem_iff {α : Type*} {p : α → Bool} {items others : List α}
    (hitems : items.Nodup) (hothers : others.Nodup)
    (h : ∀ item, p item = true → (item ∈ items ↔ item ∈ others)) :
    items.countP p = others.countP p := by
  rw [List.countP_eq_length_filter, List.countP_eq_length_filter]
  apply List.Perm.length_eq
  rw [List.perm_ext_iff_of_nodup (hitems.filter _) (hothers.filter _)]
  intro item
  rw [List.mem_filter, List.mem_filter]
  exact and_congr_left (h item)

/-- Going over the cells of regions that cover the structure restores it. -/
theorem restores_of_cover {air : RuntimeId} {block : BlockPos → RuntimeId} {size : Size}
    (hnodup : regions.Nodup) (hcover : ∀ cell, size.Contains cell → regionOf cell ∈ regions)
    (hsize : size.width ≤ int32Max ∧ size.height ≤ int32Max ∧ size.length ≤ int32Max)
    (hinside : ∀ cell, block cell ≠ air → size.Contains cell)
    (hsome : ∃ cell, size.Contains cell ∧ block cell ≠ air) :
    Restores air block size
      ((regions.flatMap regionCells).foldl (AxiomBpReader.placeCell air block) {}).finish := by
  obtain ⟨cells, hcells⟩ : ∃ cells,
      (regions.flatMap regionCells).filter (fun cell => block cell ≠ air) = cells := ⟨_, rfl⟩
  have hmem : ∀ cell, cell ∈ cells ↔ size.Contains cell ∧ block cell ≠ air := by
    intro cell
    rw [← hcells, List.mem_filter, decide_eq_true_iff]
    constructor
    · exact fun h => ⟨hinside cell h.2, h.2⟩
    · intro h
      exact ⟨List.mem_flatMap.mpr ⟨_, hcover cell h.1, mem_regionCells.mpr rfl⟩, h.2⟩
  obtain ⟨first, hfirst⟩ := hsome
  have hne : cells ≠ [] := List.ne_nil_of_mem ((hmem first).mpr hfirst)
  obtain ⟨reader, hreader⟩ : ∃ reader,
      (regions.flatMap regionCells).foldl (AxiomBpReader.placeCell air block) {} = reader := ⟨_, rfl⟩
  have hfilter : cells.foldl (AxiomBpReader.placeCell air block) {} = reader := by
    rw [← hcells, ← hreader, foldl_placeCell_filter]
  have hmax := @maxBlock_foldl_placeCell air block cells (fun cell hcell => ((hmem cell).mp hcell).2)
    {}
  rw [hfilter] at hmax
  have hx := isGreatest_axis hne BlockPos.x (fun cell hcell => ((hmem cell).mp hcell).1.1.1) hmem
  have hy := isGreatest_axis hne BlockPos.y (fun cell hcell => ((hmem cell).mp hcell).1.2.1.1) hmem
  have hz := isGreatest_axis hne BlockPos.z (fun cell hcell => ((hmem cell).mp hcell).1.2.2.1) hmem
  obtain ⟨box, hbox⟩ : ∃ box : Size,
      box = ⟨reader.maxBlock.x, reader.maxBlock.y, reader.maxBlock.z⟩ := ⟨_, rfl⟩
  have hwidth : (cells.map fun cell => cell.x + 1).foldl max 0 = box.width := by rw [hbox, hmax]
  have hheight : (cells.map fun cell => cell.y + 1).foldl max 0 = box.height := by rw [hbox, hmax]
  have hlength : (cells.map fun cell => cell.z + 1).foldl max 0 = box.length := by rw [hbox, hmax]
  rw [hwidth] at hx
  rw [hheight] at hy
  rw [hlength] at hz
  simp only [and_assoc] at hx hy hz
  -- The same blocks, stored under the size that the reader finds.
  have hcontains : ∀ cell ∈ cells, box.Contains cell := by
    intro cell hcell
    obtain ⟨hcontained, hblock⟩ := (hmem cell).mp hcell
    have hleX := hx.2 ⟨cell, hcontained, hblock, rfl⟩
    have hleY := hy.2 ⟨cell, hcontained, hblock, rfl⟩
    have hleZ := hz.2 ⟨cell, hcontained, hblock, rfl⟩
    obtain ⟨hcellX, hcellY, hcellZ⟩ := hcontained
    exact ⟨by omega, by omega, by omega⟩
  obtain ⟨placed, hplaced⟩ : ∃ placed, cells.foldl (AxiomBpReader.placeCell air block)
      (AxiomBpReader.withSize {} box) = placed := ⟨_, rfl⟩
  obtain ⟨hbounds, hoffset, horiginal⟩ := @inBounds_foldl_placeCell air block cells
    (AxiomBpReader.withSize {} box) (SparseBlockStore.inBounds_setSize box air false) hcontains
  rw [hplaced] at hbounds hoffset horiginal
  have hfinish : reader.finish = placed.finish := by
    rw [← hfilter, ← hplaced, finish_foldl_withSize rfl]
  have hplacedMax : placed.maxBlock = reader.maxBlock := by
    rw [← hplaced, maxBlock_foldl_placeCell fun cell hcell => ((hmem cell).mp hcell).2, hmax]
    rfl
  have hstore : reader.finish.store = placed.store.setSize box := by
    rw [hfinish, AxiomBpReader.finish, hplacedMax, hbox]
  have hcontent : ∀ pos, (placed.store.setSize box).content air pos = block pos := by
    intro pos
    have hpos := @content_foldl_placeCell air block [] cells (AxiomBpReader.withSize {} box)
      (fun _ => rfl) pos
    rw [hplaced, List.nil_append] at hpos
    change placed.store.content air pos = block pos
    rw [hpos]
    split_ifs with hout
    · rfl
    · by_contra hblock
      exact hout ((hmem pos).mpr ⟨hinside pos (Ne.symm hblock), Ne.symm hblock⟩)
  have hboundsBox : (placed.store.setSize box).InBounds air := by
    have horiginalBox : placed.store.originalSize = box := horiginal
    exact ⟨fun cell hcell => horiginalBox ▸ hbounds.inside cell hcell, hbounds.outside,
      horiginalBox ▸ hbounds.counted⟩
  have hsizes : box.width ≤ int32Max ∧ box.height ≤ int32Max ∧ box.length ≤ int32Max := by
    obtain ⟨⟨cellX, hcellX, -, hlastX⟩, -⟩ := hx
    obtain ⟨⟨cellY, hcellY, -, hlastY⟩, -⟩ := hy
    obtain ⟨⟨cellZ, hcellZ, -, hlastZ⟩, -⟩ := hz
    have hlessX := hcellX.1.2
    have hlessY := hcellY.2.1.2
    have hlessZ := hcellZ.2.2.2
    omega
  have hmoves : (placed.store.setSize box).Moves := by
    intro cell hcell
    have hzero : (placed.store.setSize box).offset = ⟨0, 0, 0⟩ := hoffset
    obtain ⟨hcellX, hcellY, hcellZ⟩ : box.Contains cell := hcell
    rw [hzero]
    unfold IsInt32 int32Min BlockPos.add
    dsimp only
    unfold int32Max at hsizes ⊢
    omega
  rw [hreader]
  refine ⟨?_, ?_, ?_, ?_, ?_⟩
  · rw [hstore]
    exact hx
  · rw [hstore]
    exact hy
  · rw [hstore]
    exact hz
  · intro positions
    obtain ⟨chunks, hchunks, hblocks⟩ := hboundsBox.getChunks_ok hmoves positions
    refine ⟨chunks, hstore ▸ hchunks, fun pos _ hpos => ?_⟩
    have hzero : (placed.store.setSize box).offset = ⟨0, 0, 0⟩ := hoffset
    rw [hblocks, if_pos hpos, hcontent, hzero]
    simp [BlockPos.sub]
  · have hcount := @nonAirBlocks_foldl_placeCell air block (regions.flatMap regionCells) {}
    rw [hreader] at hcount
    change reader.nonAirBlocks = _
    rw [hcount]
    change 0 + _ = _
    rw [Nat.zero_add]
    apply countP_eq_of_mem_iff (nodup_cells hnodup) size.nodup_cellsYZX
    intro cell hcell
    rw [decide_eq_true_iff] at hcell
    have hcontained := hinside cell hcell
    exact iff_of_true
      (List.mem_flatMap.mpr ⟨_, hcover cell hcontained, mem_regionCells.mpr rfl⟩)
      (Size.mem_cellsYZX.mpr hcontained)

end AxiomBp

end WaterStructure
