import WaterStructure.Formats.BcfChunks
import WaterStructure.Formats.ConstructionChunks
import WaterStructure.Formats.MsgpackChunks
import WaterStructure.Formats.TibiReplay
import WaterStructure.Library.CoverCount
import WaterStructure.Library.Extremes
import WaterStructure.World.GridCoverage

/-!
# Reported block counts

The readers of records and boxes add up the blocks of their records while they read, and the cells are
only decided later. The number is that of the cells that are not air where each record counts the cells
it covers and no cell is covered twice.
-/

namespace WaterStructure

open ChunkStream CoverCount LastValue NestedLoop SeekReader

/-- The cells that are not air. -/
def ChunkMap.nonAirCells (air : RuntimeId) (chunks : ChunkMap) : Set BlockPos :=
  {pos | ∃ id, chunks.blockAt air pos = some id ∧ id ≠ air}

/-- A count over records, with what makes it the number of the cells that are reported. -/
structure RecordCount {ρ : Type} (records : List ρ) (counted : ρ → ℕ) (cells : ρ → List BlockPos)
    (CountsItsCells : ρ → Prop) (count : ℕ) (reported : Set BlockPos) : Prop
    extends Counts records counted cells count reported where
  exact : (∀ record ∈ records, CountsItsCells record) →
    (count = reported.ncard ↔ (records.flatMap cells).Nodup)

section

variable {ρ : Type} {air : RuntimeId} {chunks : ChunkMap} {size : Size} {records : List ρ}
  {value : BlockPos → ρ → Option RuntimeId}

variable {pos : BlockPos}

theorem blockToChunk_mem_gridPositions (h : size.Contains pos) : blockToChunk pos ∈ gridPositions size := by
  obtain ⟨⟨hx, hx'⟩, -, hz, hz'⟩ := h
  have hnonneg {value : ℤ} (hvalue : 0 ≤ value) : 0 ≤ floorDiv value 16 := by
    rw [floorDiv_sixteen]
    omega
  exact mem_gridPositions.mpr ⟨⟨hnonneg hx, lt_chunkCount hx hx'⟩, hnonneg hz, lt_chunkCount hz hz'⟩

/-- The chunks of a size show the last record that reaches a cell, and no record leaves the size. -/
structure ShowsRecords (air : RuntimeId) (chunks : ChunkMap) (size : Size) (records : List ρ)
    (value : BlockPos → ρ → Option RuntimeId) : Prop where
  shown : ∀ pos, chunks.blockAt air pos =
    if blockToChunk pos ∈ gridPositions size then some ((lastValue (value pos) records).getD air)
    else none
  inside : ∀ record ∈ records, ∀ pos id, value pos record = some id → size.Contains pos

theorem ShowsRecords.nonAirCells_eq (h : ShowsRecords air chunks size records value) :
    chunks.nonAirCells air = {pos | ∃ id, lastValue (value pos) records = some id ∧ id ≠ air} := by
  ext pos
  constructor
  · rintro ⟨id, hid, hair⟩
    rw [h.shown] at hid
    obtain ⟨-, hid⟩ := then_of_some hid
    cases hlast : lastValue (value pos) records with
    | none =>
      rw [hlast] at hid
      exact absurd (Option.some.inj hid).symm hair
    | some last =>
      rw [hlast] at hid
      cases hid
      exact ⟨last, hlast, hair⟩
  · rintro ⟨id, hlast, hair⟩
    obtain ⟨record, hrecord, hvalue⟩ := exists_of_lastValue hlast
    refine ⟨id, ?_, hair⟩
    rw [h.shown, if_pos (blockToChunk_mem_gridPositions (h.inside record hrecord pos id hvalue)), hlast]
    rfl

/-- What is not air lies in the size. -/
theorem ShowsRecords.contains (h : ShowsRecords air chunks size records value)
    (hpos : pos ∈ chunks.nonAirCells air) : size.Contains pos := by
  rw [h.nonAirCells_eq] at hpos
  obtain ⟨id, hlast, -⟩ := hpos
  obtain ⟨record, hrecord, hvalue⟩ := exists_of_lastValue hlast
  exact h.inside record hrecord pos id hvalue

/-- Where no record is air, the cells are those that a record reaches. -/
theorem ShowsRecords.nonAirCells_eq_of_ne (h : ShowsRecords air chunks size records value)
    (hair : ∀ record ∈ records, ∀ pos id, value pos record = some id → id ≠ air) :
    chunks.nonAirCells air = {pos | ∃ record ∈ records, ∃ id, value pos record = some id} := by
  rw [h.nonAirCells_eq]
  ext pos
  constructor
  · rintro ⟨id, hlast, -⟩
    obtain ⟨record, hrecord, hvalue⟩ := exists_of_lastValue hlast
    exact ⟨record, hrecord, id, hvalue⟩
  · rintro ⟨record, hrecord, id, hvalue⟩
    obtain ⟨last, hlast⟩ : ∃ last, lastValue (value pos) records = some last := by
      refine Option.ne_none_iff_exists'.mp fun hnone => ?_
      rw [lastValue_eq_none.mp hnone record hrecord] at hvalue
      cases hvalue
    obtain ⟨other, hother, hwritten⟩ := exists_of_lastValue hlast
    exact ⟨last, hlast, hair other hother pos last hwritten⟩

end

/-! ## Boxes -/

/-- The corners of a box are in order. -/
def InOrder (first second : BlockPos) : Prop :=
  first.x ≤ second.x ∧ first.y ≤ second.y ∧ first.z ≤ second.z

theorem length_cellsXYZ (low high : BlockPos) : (TibiReader.cellsXYZ low high).length =
    (high.x + 1 - low.x).toNat * ((high.y + 1 - low.y).toNat * (high.z + 1 - low.z).toNat) := by
  simp only [TibiReader.cellsXYZ, List.length_flatMap, List.length_map, List.map_const', Int.range,
    List.sum_replicate, List.length_range, nsmul_eq_mul, Nat.cast_id]

/-- A box with its corners in order has as many cells as are counted. -/
theorem length_cellsXYZ_of_inOrder {first second low high : BlockPos} (h : InOrder first second)
    (hx : high.x - low.x = second.x - first.x) (hy : high.y - low.y = second.y - first.y)
    (hz : high.z - low.z = second.z - first.z) :
    (TibiReader.cellsXYZ low high).length = spanVolume first second := by
  obtain ⟨hfirstX, hfirstY, hfirstZ⟩ := h
  have hextent {first second low high : ℤ} (hle : first ≤ second) (hsame : high - low = second - first) :
      (high + 1 - low).toNat = goSpan first second := by
    have := goSpan_of_le hle
    omega
  rw [length_cellsXYZ, hextent hfirstX hx, hextent hfirstY hy, hextent hfirstZ hz, spanVolume,
    Nat.mul_assoc]

/-! ## BCF -/

namespace Bcf

/-- The cells of the region of a record, relative to a corner. -/
def cellsOf (tables : Tables) (air : RuntimeId) (corner : BlockPos) (placement : BlockPos × Record) :
    List BlockPos :=
  match keptRegion tables air placement with
  | none => []
  | some region => TibiReader.cellsXYZ (region.minimum.sub corner) (region.maximum.sub corner)

/-- The corners of a record, if it is counted, are in order. -/
def IsOrdered (tables : Tables) (air : RuntimeId) (placement : BlockPos × Record) : Prop :=
  (keptRegion tables air placement).isSome → InOrder placement.2.first placement.2.second

variable {tables : Tables} {air : RuntimeId} {placement : BlockPos × Record} {corner : BlockPos}

theorem countedOf_of_isOrdered (h : IsOrdered tables air placement) :
    countedOf tables air placement = (cellsOf tables air corner placement).length := by
  rw [countedOf, cellsOf]
  cases hkept : keptRegion tables air placement with
  | none => rfl
  | some region =>
    have hordered := h (Option.isSome_of_eq_some hkept)
    obtain ⟨hx, hy, hz⟩ := hordered
    obtain ⟨runtime, -, hregion⟩ := Option.bind_eq_some_iff.mp hkept
    obtain ⟨_, hregion⟩ := else_of_some hregion
    cases hregion
    refine (length_cellsXYZ_of_inOrder ⟨hx, hy, hz⟩ ?_ ?_ ?_).symm <;>
      simp only [Record.region, BlockPos.sub] <;> omega

theorem mem_cellsOf {pos : BlockPos} : pos ∈ cellsOf tables air corner placement ↔
      ∃ region, keptRegion tables air placement = some region ∧
        ((region.relativeTo corner).box ⟨0, 0, 0⟩).Contains pos := by
  rw [cellsOf]
  cases keptRegion tables air placement with
  | none =>
    refine iff_of_false List.not_mem_nil ?_
    rintro ⟨region, hregion, -⟩
    cases hregion
  | some region =>
    simp only [Option.some.injEq, exists_eq_left', TibiReader.mem_cellsXYZ, Box.Contains, Region.box,
      Region.relativeTo, BlockPos.add, Int.add_zero]

/-- No region of air is kept. -/
theorem runtime_ne_of_keptRegion {region : Region} (h : keptRegion tables air placement = some region) :
    region.runtime ≠ air := by
  obtain ⟨runtime, -, hregion⟩ := Option.bind_eq_some_iff.mp h
  obtain ⟨hkept, hregion⟩ := else_of_some hregion
  cases hregion
  exact (not_or.mp hkept).2

end Bcf

namespace BcfStructure

open Bcf

variable {registry : MappingRegistry} {object : BcfStructure} {chunks : ChunkMap}

/-- The boxes of the regions that are kept are shown, and lie in the size. -/
theorem showsRecords {tables : Tables} {sections : List Section} {first : ScanState}
    (hscanned : Scanned tables registry.airRuntimeId (placements sections) first)
    (hsize : object.size = boundsSize first.boundsMin first.boundsMax) (hoffset : object.offset = ⟨0, 0, 0⟩)
    (hregions : object.regions =
      (keptRegions tables registry.airRuntimeId sections).map (·.relativeTo first.boundsMin))
    (hchunks : object.getChunks registry.airRuntimeId (gridPositions object.size) = .ok chunks) :
    ShowsRecords registry.airRuntimeId chunks object.size
      (keptRegions tables registry.airRuntimeId sections) fun pos region =>
        if ((region.relativeTo first.boundsMin).box ⟨0, 0, 0⟩).Contains pos then some region.runtime
        else none where
  shown := fun pos => by
    rw [getChunks_ok hchunks, hregions, hoffset, lastValue_map]
    rfl
  inside := fun region hregion pos id hvalue => by
    have hwithin := hscanned.within region hregion
    obtain ⟨hcontains, hvalue⟩ := then_of_some hvalue
    rw [hsize]
    simp only [Box.Contains, Region.box, Region.relativeTo, BlockPos.add, BlockPos.sub] at hcontains
    simp only [Size.Contains, boundsSize]
    omega

/-- The number is the sum over the records, and the cells are those of their boxes. -/
theorem recordCount {file : File} (h : read registry file = .ok object)
    (hchunks : object.getChunks registry.airRuntimeId (gridPositions object.size) = .ok chunks) :
    ∃ tables sections corner, Bcf.readTables registry file = .ok tables ∧
      readSections file tables = .ok sections ∧
      RecordCount (placements sections) (countedOf tables registry.airRuntimeId)
        (cellsOf tables registry.airRuntimeId corner) (IsOrdered tables registry.airRuntimeId)
        object.nonAirBlocks (chunks.nonAirCells registry.airRuntimeId) := by
  obtain ⟨tables, sections, first, htables, hsections, -, hscanned, hobject⟩ := read_ok h
  refine ⟨tables, sections, first.boundsMin, htables, hsections, ?_⟩
  have hshows : ShowsRecords registry.airRuntimeId chunks object.size
      (keptRegions tables registry.airRuntimeId sections) _ :=
    showsRecords hscanned (hobject ▸ rfl) (hobject ▸ rfl) (hobject ▸ rfl) hchunks
  have hcounts : Counts (placements sections) (countedOf tables registry.airRuntimeId)
      (cellsOf tables registry.airRuntimeId first.boundsMin) object.nonAirBlocks
      (chunks.nonAirCells registry.airRuntimeId) := by
    refine ⟨(hobject ▸ rfl : object.nonAirBlocks = first.nonAirBlocks).trans hscanned.counted, ?_⟩
    rw [hshows.nonAirCells_eq_of_ne]
    · ext pos
      constructor
      · rintro ⟨region, hregion, id, hvalue⟩
        obtain ⟨placement, hplacement, hkept⟩ := List.mem_filterMap.mp hregion
        refine ⟨placement, hplacement, mem_cellsOf.mpr ⟨region, hkept, ?_⟩⟩
        by_contra houtside
        rw [if_neg houtside] at hvalue
        cases hvalue
      · rintro ⟨placement, hplacement, hcell⟩
        obtain ⟨region, hkept, hcontains⟩ := mem_cellsOf.mp hcell
        exact ⟨region, List.mem_filterMap.mpr ⟨placement, hplacement, hkept⟩, region.runtime,
          if_pos hcontains⟩
    · intro region hregion pos id hvalue
      obtain ⟨-, hvalue⟩ := then_of_some hvalue
      cases hvalue
      obtain ⟨placement, -, hkept⟩ := List.mem_filterMap.mp hregion
      exact runtime_ne_of_keptRegion hkept
  exact ⟨hcounts, fun hordered => hcounts.eq_ncard_iff fun placement hplacement =>
    countedOf_of_isOrdered (hordered placement hplacement)⟩

end BcfStructure

/-! ## TIBI -/

namespace Tibi

/-- The number of blocks of a command that is not air, as `read` finds it. -/
def commandVolume (command : TibiCommand) : ℕ :=
  if command.type = 1 then
    let x := goSpan command.first.x command.second.x
    let y := goSpan command.first.y command.second.y
    let z := goSpan command.first.z command.second.z
    if x ≠ 0 ∧ y > uint64Max / x then uint64Max
    else
      let volume := x * y
      if z ≠ 0 ∧ volume > uint64Max / z then uint64Max else volume * z
  else 1

/-- The number of blocks as `read` adds it up while it goes over the commands. -/
def countBlocks (air : RuntimeId) (commands : List TibiCommand) : ℕ :=
  commands.foldl (fun nonAir command =>
    if (command.type = 0 ∨ command.type = 1) ∧ command.runtimeId ≠ air then
      saturatingAdd (commandVolume command) nonAir
    else nonAir) 0

/-- The number of blocks of a command without a limit. -/
def countedOf (air : RuntimeId) (command : TibiCommand) : ℕ :=
  if command.runtimeId = air then 0
  else if command.type = 0 then 1
  else if command.type = 1 then spanVolume command.first command.second
  else 0

/-- The cells of a command that is not air. -/
def cellsOf (reader : TibiReader) (air : RuntimeId) (command : TibiCommand) : List BlockPos :=
  let first := reader.toLocal command.first
  let second := reader.toLocal command.second
  if command.runtimeId = air then []
  else if command.type = 0 then [first]
  else if command.type = 1 then
    TibiReader.cellsXYZ ⟨min first.x second.x, min first.y second.y, min first.z second.z⟩
      ⟨max first.x second.x, max first.y second.y, max first.z second.z⟩
  else []

/-- The corners of a box are in order. -/
def IsOrdered (command : TibiCommand) : Prop :=
  command.type = 1 → InOrder command.first command.second

variable {air : RuntimeId} {command : TibiCommand} {pos : BlockPos} {reader : TibiReader} {commandIndex : ℕ}
  {field : BlockPos → ℤ} {positions : List BlockPos}

theorem countedOf_of_isOrdered (h : IsOrdered command) :
    countedOf air command = (cellsOf reader air command).length := by
  rw [countedOf, cellsOf]
  split_ifs with _ _ htype
  · rfl
  · rfl
  · obtain ⟨hx, hy, hz⟩ := h htype
    refine (length_cellsXYZ_of_inOrder ⟨hx, hy, hz⟩ ?_ ?_ ?_).symm <;>
      simp only [TibiReader.toLocal, BlockPos.add, BlockPos.sub] <;> omega
  · rfl

theorem mem_cellsOf :
    pos ∈ cellsOf reader air command ↔ command.runtimeId ≠ air ∧ reader.Reaches command pos := by
  rw [cellsOf, TibiReader.Reaches]
  split
  case isTrue hair => exact iff_of_false List.not_mem_nil fun h => h.1 hair
  case isFalse hair =>
    rw [and_iff_right hair]
    split
    case isTrue hblock =>
      rw [List.mem_singleton, hblock, and_iff_right rfl, eq_comm]
      exact (or_iff_left fun hbox => Nat.zero_ne_one hbox.1).symm
    case isFalse hblock =>
      rw [or_iff_right fun h => hblock h.1]
      split_ifs with hbox
      · rw [and_iff_right hbox, TibiReader.mem_cellsXYZ]
      · exact iff_of_false List.not_mem_nil fun h => hbox h.1

/-- The coordinates of a command are those of the file. -/
def IsFileCommand (command : TibiCommand) : Prop :=
  ∀ corner ∈ [command.first, command.second],
    (0 ≤ corner.x ∧ corner.x ≤ int32Max) ∧ (0 ≤ corner.y ∧ corner.y ≤ int32Max) ∧
      0 ≤ corner.z ∧ corner.z ≤ int32Max

/-- The limit is not exceeded by two extents. -/
theorem commandVolume_eq (h : IsFileCommand command) (htype : command.type = 0 ∨ command.type = 1)
    (hair : command.runtimeId ≠ air) : commandVolume command = min (countedOf air command) uint64Max := by
  rw [commandVolume, countedOf, if_neg hair]
  rcases htype with hblock | hbox
  · rw [if_pos hblock, if_neg (hblock ▸ Nat.zero_ne_one)]
    rfl
  · have hfirst := h command.first List.mem_cons_self
    have hsecond := h command.second (List.mem_cons_of_mem _ List.mem_cons_self)
    have hx : goSpan command.first.x command.second.x ≤ 2147483648 := by
      rw [goSpan]
      rw [int32Max] at hfirst hsecond
      omega
    have hy : goSpan command.first.y command.second.y ≤ 2147483648 := by
      rw [goSpan]
      rw [int32Max] at hfirst hsecond
      omega
    have hsmall : goSpan command.first.x command.second.x * goSpan command.first.y command.second.y ≤
        uint64Max := (Nat.mul_le_mul hx hy).trans (by decide)
    have hfits : ¬ (goSpan command.first.x command.second.x ≠ 0 ∧
        goSpan command.first.y command.second.y >
          uint64Max / goSpan command.first.x command.second.x) := by
      rintro ⟨hne, hover⟩
      have := (Nat.div_lt_iff_lt_mul (Nat.pos_of_ne_zero hne)).mp hover
      rw [Nat.mul_comm] at this
      omega
    have hnotBlock : command.type ≠ 0 := fun hblock => Nat.zero_ne_one (hblock.symm.trans hbox)
    rw [if_pos hbox, if_neg hnotBlock, if_pos hbox, if_neg hfits, spanVolume]
    dsimp only
    generalize goSpan command.first.x command.second.x * goSpan command.first.y command.second.y = area
      at hsmall ⊢
    generalize goSpan command.first.z command.second.z = z
    rw [← saturatingMultiply_eq, saturatingMultiply]
    by_cases hz : z = 0
    · rw [if_neg fun hover => hover.1 hz, if_pos (.inr hz), hz, Nat.mul_zero]
    · by_cases harea : area = 0
      · rw [if_neg fun hover => absurd hover.2 (by rw [harea]; exact Nat.not_lt_zero _),
          if_pos (.inl harea), harea, Nat.zero_mul]
      · rw [if_neg (not_or.mpr ⟨harea, hz⟩)]
        exact if_congr (and_iff_right hz) rfl rfl

/-- The number of blocks is the sum over the commands, up to the limit. -/
theorem countBlocks_eq {commands : List TibiCommand} (h : ∀ command ∈ commands, IsFileCommand command) :
    countBlocks air commands = min (commands.map (countedOf air)).sum uint64Max := by
  suffices hall : ∀ count : ℕ, commands.foldl (fun nonAir command =>
      if (command.type = 0 ∨ command.type = 1) ∧ command.runtimeId ≠ air then
        saturatingAdd (commandVolume command) nonAir
      else nonAir) (min count uint64Max) = min (count + (commands.map (countedOf air)).sum) uint64Max by
    rw [countBlocks, ← Nat.zero_add (commands.map (countedOf air)).sum, ← hall 0]
    rfl
  induction commands with
  | nil => exact fun count => rfl
  | cons command rest ih =>
    intro count
    have hrest := ih fun other hother => h other (List.mem_cons_of_mem command hother)
    rw [List.foldl_cons, List.map_cons, List.sum_cons, ← Nat.add_assoc, ← hrest]
    refine congrArg (List.foldl _ · rest) ?_
    by_cases hcounted : (command.type = 0 ∨ command.type = 1) ∧ command.runtimeId ≠ air
    · rw [if_pos hcounted, saturatingAdd_eq (Nat.min_le_right _ _),
        commandVolume_eq (h command List.mem_cons_self) hcounted.1 hcounted.2]
      omega
    · rw [if_neg hcounted]
      have hzero : countedOf air command = 0 := by
        rw [countedOf]
        split
        case isTrue => rfl
        case isFalse hair =>
          rw [if_neg fun hblock => hcounted ⟨.inl hblock, hair⟩,
            if_neg fun hbox => hcounted ⟨.inr hbox, hair⟩]
      rw [hzero, Nat.add_zero]

theorem coordinate_ok {value : ℕ} {name : String} {result : ℤ}
    (h : coordinate value commandIndex name = .ok result) : 0 ≤ result ∧ result ≤ int32Max := by
  rw [coordinate] at h
  obtain ⟨hfits, h⟩ := else_of_ok h
  cases h
  exact ⟨Int.natCast_nonneg value, not_lt.mp hfits⟩

theorem readCommand_isFileCommand {raw : RawCommand} (h : readCommand commandIndex raw = .ok command) :
    IsFileCommand command := by
  rw [readCommand] at h
  obtain ⟨x, hx, h⟩ := exists_of_bind_ok h
  obtain ⟨y, hy, h⟩ := exists_of_bind_ok h
  obtain ⟨z, hz, h⟩ := exists_of_bind_ok h
  have hfirst := And.intro (coordinate_ok hx) (And.intro (coordinate_ok hy) (coordinate_ok hz))
  split at h
  · obtain ⟨dx, hdx, h⟩ := exists_of_bind_ok h
    obtain ⟨dy, hdy, h⟩ := exists_of_bind_ok h
    obtain ⟨dz, hdz, h⟩ := exists_of_bind_ok h
    cases h
    have hsecond := And.intro (coordinate_ok hdx) (And.intro (coordinate_ok hdy) (coordinate_ok hdz))
    intro corner hcorner
    rcases List.mem_cons.mp hcorner with rfl | hcorner
    · exact hfirst
    · rw [List.mem_singleton.mp hcorner]
      exact hsecond
  · cases h
    intro corner hcorner
    rcases List.mem_cons.mp hcorner with rfl | hcorner
    · exact hfirst
    · rw [List.mem_singleton.mp hcorner]
      exact hfirst

theorem least_le (h : pos ∈ positions) : least field positions ≤ field pos := by
  have hle := Extremes.foldl_min_le (List.mem_map_of_mem (f := field) h) int32Max
  rwa [List.foldl_map] at hle

theorem le_greatest (h : pos ∈ positions) : field pos ≤ greatest field positions := by
  have hle := Extremes.le_foldl_max (List.mem_map_of_mem (f := field) h) int32Min
  rwa [List.foldl_map] at hle

theorem dimension_ok {minimum maximum value : ℤ} (h : dimension minimum maximum = .ok value) :
    value = maximum - minimum + 1 := by
  rw [dimension] at h
  obtain ⟨-, h⟩ := else_of_ok h
  cases h
  rfl

end Tibi

namespace TibiReader

open Tibi

/-- The corners lie in the size. -/
structure IsBounded (reader : TibiReader) : Prop where
  fileCommands : ∀ command ∈ reader.commands, IsFileCommand command
  inside : ∀ corner ∈ corners reader.commands, reader.size.Contains (reader.toLocal corner)

variable {raw : List RawCommand} {command : TibiCommand} {id : RuntimeId}

theorem isBounded_of_read {reader next : TibiReader} (h : reader.read raw = .ok next) : next.IsBounded := by
  rw [read] at h
  cases hcommands : reader.readCommands raw with
  | error error =>
    rw [hcommands] at h
    cases h
  | ok result =>
    rw [hcommands] at h
    cases h
    rw [readCommands] at hcommands
    obtain ⟨-, hcommands⟩ := exists_of_guard_ok hcommands
    obtain ⟨-, hcommands⟩ := exists_of_guard_ok hcommands
    obtain ⟨commands, hmap, hcommands⟩ := exists_of_bind_ok hcommands
    obtain ⟨-, hcommands⟩ := exists_of_guard_ok hcommands
    obtain ⟨width, hwidth, hcommands⟩ := exists_of_bind_ok hcommands
    obtain ⟨height, hheight, hcommands⟩ := exists_of_bind_ok hcommands
    obtain ⟨length, hlength, hcommands⟩ := exists_of_bind_ok hcommands
    cases hcommands
    refine ⟨forall_of_mapM_ok (fun entry command hcommand => readCommand_isFileCommand hcommand) hmap,
      fun corner hcorner => ?_⟩
    have hwithin (field : BlockPos → ℤ) :
        least field (corners commands) ≤ field corner ∧ field corner ≤ greatest field (corners commands) :=
      ⟨least_le hcorner, le_greatest hcorner⟩
    have hx := hwithin BlockPos.x
    have hy := hwithin BlockPos.y
    have hz := hwithin BlockPos.z
    simp only [Size.Contains, toLocal, BlockPos.sub, BlockPos.add, dimension_ok hwidth,
      dimension_ok hheight, dimension_ok hlength]
    omega

variable {reader : TibiReader} {air : RuntimeId} {pos : BlockPos}

/-- A command reaches cells of the size only. -/
theorem contains_of_reaches_of_isBounded (h : reader.IsBounded) (hcommand : command ∈ reader.commands)
    (hreaches : reader.Reaches command pos) : reader.size.Contains pos := by
  have hcorner {corner : BlockPos} (hmem : corner ∈ [command.first, command.second])
      (htype : command.type = 0 ∨ command.type = 1) : reader.size.Contains (reader.toLocal corner) :=
    h.inside corner (List.mem_flatMap.mpr
      ⟨command, List.mem_filter.mpr ⟨hcommand, decide_eq_true htype⟩, hmem⟩)
  rcases hreaches with ⟨htype, rfl⟩ | ⟨htype, hx, hy, hz⟩
  · exact hcorner List.mem_cons_self (.inl htype)
  · have hfirst := hcorner List.mem_cons_self (.inr htype)
    have hsecond := hcorner (List.mem_cons_of_mem _ List.mem_cons_self) (.inr htype)
    rw [Size.Contains] at hfirst hsecond ⊢
    omega

/-- What is stored for a chunk comes from a command that reaches the cell. -/
theorem exists_of_chunkWrites {chunkPosition : ChunkPos}
    (h : reader.chunkWrites air chunkPosition pos = some id) :
    ∃ command ∈ reader.commands, reader.writes air pos command = some id := by
  obtain ⟨index, -, hindex⟩ := exists_of_lastValue h
  obtain ⟨command, hcommand, hwrites⟩ := Option.bind_eq_some_iff.mp hindex
  rw [turnWrites] at hwrites
  obtain ⟨-, hwrites⟩ := else_of_some hwrites
  exact ⟨command, List.mem_of_getElem? hcommand, hwrites⟩

theorem writes_eq_some :
    reader.writes air pos command = some id ↔
      pos ∈ cellsOf reader air command ∧ command.runtimeId = id := by
  rw [writes, mem_cellsOf]
  split
  case isTrue hreached => rw [and_iff_right hreached, Option.some.injEq]
  case isFalse hreached => exact iff_of_false (Option.some_ne_none id).symm fun h => hreached h.1

/-- The number is the sum over the commands, up to the limit, and the cells are those of the commands. -/
theorem recordCount {initial : TibiReader} (h : initial.read raw = .ok reader) {order : List ChunkPos}
    {chunks : ChunkMap} (horder : order.Perm (ChunkMap.emplaceAll (gridPositions reader.size)).keys)
    (hchunks : (reader.getChunks air (gridPositions reader.size) order).1 = .ok chunks) :
    ∃ total, countBlocks air reader.commands = min total uint64Max ∧
      RecordCount reader.commands (countedOf air) (cellsOf reader air) IsOrdered total
        (chunks.nonAirCells air) := by
  have hbounded := isBounded_of_read h
  obtain ⟨hsingle, hindex⟩ := read_ok h
  have hindexed : reader.Indexed := by
    intro index hsome
    rw [hindex] at hsome
    cases hsome
  have hshows : ShowsRecords air chunks reader.size order fun pos chunkPosition =>
      reader.chunkWrites air chunkPosition pos := by
    refine ⟨(blockAt_getChunks hindexed horder hchunks).2, fun chunkPosition _ pos id hwritten => ?_⟩
    obtain ⟨command, hcommand, hwrites⟩ := exists_of_chunkWrites hwritten
    exact contains_of_reaches_of_isBounded hbounded hcommand (mem_cellsOf.mp (writes_eq_some.mp hwrites).1).2
  have hcounts : Counts reader.commands (countedOf air) (cellsOf reader air)
      (reader.commands.map (countedOf air)).sum (chunks.nonAirCells air) := by
    refine ⟨rfl, ?_⟩
    rw [hshows.nonAirCells_eq_of_ne]
    · ext pos
      constructor
      · rintro ⟨chunkPosition, -, id, hwritten⟩
        obtain ⟨command, hcommand, hwrites⟩ := exists_of_chunkWrites hwritten
        exact ⟨command, hcommand, (writes_eq_some.mp hwrites).1⟩
      · rintro ⟨command, hcommand, hcell⟩
        have hcontains := contains_of_reaches_of_isBounded hbounded hcommand (mem_cellsOf.mp hcell).2
        have hself := @chunkWrites_self reader air hsingle pos
        obtain ⟨id, hid⟩ : ∃ id, reader.lastCommand air pos = some id := by
          refine Option.ne_none_iff_exists'.mp fun hnone => ?_
          cases (lastValue_eq_none.mp hnone command hcommand).symm.trans (writes_eq_some.mpr ⟨hcell, rfl⟩)
        exact ⟨blockToChunk pos, horder.mem_iff.mpr (ChunkMap.mem_keys_emplaceAll.mpr
          (blockToChunk_mem_gridPositions hcontains)), id, hself.trans hid⟩
    · intro chunkPosition _ pos id hwritten
      obtain ⟨command, -, hwrites⟩ := exists_of_chunkWrites hwritten
      obtain ⟨hcell, rfl⟩ := writes_eq_some.mp hwrites
      exact (mem_cellsOf.mp hcell).1
  exact ⟨_, countBlocks_eq hbounded.fileCommands, hcounts, fun hordered =>
    hcounts.eq_ncard_iff fun command hcommand => countedOf_of_isOrdered (hordered command hcommand)⟩

end TibiReader

/-! ## Construction -/

namespace ConstructionReader

open Construction

variable {Nbt : Type}

/-- The cells of the blocks of a section. -/
def cellsOf (codec : Codec Nbt) (file : File) (reader : ConstructionReader Nbt) (air : RuntimeId)
    (part : SectionIndex × ℕ) : List BlockPos :=
  (reader.sectionPlacements air part.1 (loadedBlocks codec file part)).map Prod.fst

/-- The section lies in the size. -/
def IsWithin (reader : ConstructionReader Nbt) (part : SectionIndex × ℕ) : Prop :=
  ∀ x < part.1.shapeX, ∀ y < part.1.shapeY, ∀ z < part.1.shapeZ, reader.originalSize.Contains
    ⟨part.1.startX - reader.minimum.x + x, part.1.startY - reader.minimum.y + y,
      part.1.startZ - reader.minimum.z + z⟩

/-- Whether the block of a cell is counted. -/
def weight (reader : ConstructionReader Nbt) (air : RuntimeId) (part : SectionIndex) (blocks : List ℤ)
    (x y z : ℕ) : ℕ :=
  if runtimeOf reader.palette reader.unknownRuntime (blocks[part.blockIndex x y z]?.getD 0) = air then 0
  else 1

theorem countBlocks_eq (reader : ConstructionReader Nbt) (air : RuntimeId) (part : SectionIndex)
    (blocks : List ℤ) (h : blocks.length ≠ 0) :
    countBlocks reader.palette reader.unknownRuntime air part blocks =
      ((List.range part.shapeX).map fun x => ((List.range part.shapeY).map fun y =>
        ((List.range part.shapeZ).map fun z => reader.weight air part blocks x y z).sum).sum).sum := by
  rw [countBlocks, if_pos h]
  refine (foldl_count (fun count x => ?_) 0 _).trans (Nat.zero_add _)
  refine foldl_count (fun count y => ?_) count _
  refine foldl_count (fun count z => ?_) count _
  rw [weight]
  split <;> rfl

variable {reader : ConstructionReader Nbt} {air : RuntimeId} {part : SectionIndex × ℕ} {codec : Codec Nbt}
  {file : File}

theorem length_sectionPlacements (h : reader.IsWithin part) (blocks : List ℤ) (hblocks : blocks.length ≠ 0) :
    (reader.sectionPlacements air part.1 blocks).length =
      ((List.range part.1.shapeX).map fun x => ((List.range part.1.shapeZ).map fun z =>
        ((List.range part.1.shapeY).map fun y => reader.weight air part.1 blocks x y z).sum).sum).sum := by
  rw [sectionPlacements, if_neg hblocks, List.length_flatMap]
  refine congrArg List.sum (List.map_congr_left fun x hx => ?_)
  rw [List.length_flatMap]
  refine congrArg List.sum (List.map_congr_left fun z hz => ?_)
  rw [List.length_flatMap]
  refine congrArg List.sum (List.map_congr_left fun y hy => ?_)
  have hcell := h x (List.mem_range.mp hx) y (List.mem_range.mp hy) z (List.mem_range.mp hz)
  rw [placement, weight]
  by_cases hair : runtimeOf reader.palette reader.unknownRuntime
      (blocks[part.1.blockIndex x y z]?.getD 0) = air
  · rw [if_pos hair, if_neg fun hplaced => hplaced.2 hair]
    rfl
  · rw [if_neg hair, if_pos ⟨hcell, hair⟩]
    rfl

/-- A section in the size has as many blocks as are counted. -/
theorem countedOf_of_isWithin (h : reader.IsWithin part) :
    countedOf codec file reader.palette reader.unknownRuntime air part =
      (cellsOf codec file reader air part).length := by
  rw [countedOf, cellsOf, List.length_map]
  by_cases hempty : part.1.IsEmpty
  · rw [if_pos hempty, sectionPlacements_of_isEmpty hempty]
    rfl
  · rw [if_neg hempty]
    generalize loadedBlocks codec file part = blocks
    by_cases hblocks : blocks.length = 0
    · rw [countBlocks, if_neg (not_not_intro hblocks), sectionPlacements, if_pos hblocks]
      rfl
    · rw [countBlocks_eq reader air part.1 blocks hblocks, length_sectionPlacements h blocks hblocks]
      exact congrArg List.sum (List.map_congr_left fun x _ => sum_rows_eq_sum_columns _ _ _)

variable {registry registry' : StateRegistry} {chunks : ChunkMap}

theorem movable_of_read (h : read codec registry file = .ok (reader, registry')) : reader.Movable := by
  have hoffset := (read_ok h).offset
  rw [read] at h
  obtain ⟨metadata, -, h⟩ := exists_of_bind_ok h
  obtain ⟨raw, -, h⟩ := exists_of_bind_ok h
  obtain ⟨items, -, h⟩ := exists_of_bind_ok h
  obtain ⟨sections, -, h⟩ := exists_of_bind_ok h
  obtain ⟨bounds, -, h⟩ := exists_of_bind_ok h
  obtain ⟨size, hsize, h⟩ := exists_of_bind_ok h
  obtain ⟨palette, -, h⟩ := exists_of_bind_ok h
  obtain ⟨state, -, h⟩ := exists_of_bind_ok h
  cases h
  rw [readSize] at hsize
  obtain ⟨hfits, hsize⟩ := exists_of_guard_ok hsize
  obtain ⟨volume, -, hsize⟩ := exists_of_bind_ok hsize
  cases hsize
  intro pos hcontains
  rw [hoffset]
  simp only [Size.Contains] at hcontains
  simp only [BlockPos.add, BlockPos.FitsInt32, IsInt32]
  rw [int32Max] at *
  rw [int32Min]
  omega

theorem mem_sectionPlacements {blocks : List ℤ} {placed : BlockPos × RuntimeId}
    (h : placed ∈ reader.sectionPlacements air part.1 blocks) :
    reader.originalSize.Contains placed.1 ∧ placed.2 ≠ air := by
  rw [sectionPlacements] at h
  split at h
  · cases h
  · obtain ⟨x, -, h⟩ := List.mem_flatMap.mp h
    obtain ⟨z, -, h⟩ := List.mem_flatMap.mp h
    obtain ⟨y, -, h⟩ := List.mem_flatMap.mp h
    exact (placement_eq_some (Option.mem_toList.mp h)).2

/-- The blocks of all sections are shown, and lie in the size. -/
theorem showsRecords (hread : IsRead codec file air reader) (hmovable : reader.Movable)
    (hchunks : getChunks codec file reader air (gridPositions reader.store.size) = .ok chunks) :
    ShowsRecords air chunks reader.store.size (allPlacements codec file reader air) fun pos placed =>
      if placed.1 = pos then some placed.2 else none := by
  cases hchunks.symm.trans (getChunks_eq hread.readable hmovable hread.positive _)
  constructor
  · intro pos
    have hstored := @ChunkMap.blockAt_foldl_store_emplaceAll air
      ((allPlacements codec file reader air).map (moved reader.store.offset))
      (gridPositions reader.store.size) pos
    rw [List.foldl_map, lastValue_map] at hstored
    refine hstored.trans ?_
    simp only [moved, hread.offset, BlockPos.add, Int.add_zero]
  · intro placed hplaced pos id hvalue
    obtain ⟨hcell, hvalue⟩ := then_of_some hvalue
    obtain ⟨part, -, hplaced⟩ := List.mem_flatMap.mp hplaced
    rw [← hcell, hread.size]
    exact (mem_sectionPlacements hplaced).1

/-- The number is the sum over the sections, and the cells are those of their blocks in the size. -/
theorem recordCount (h : read codec registry file = .ok (reader, registry'))
    (hchunks : getChunks codec file reader registry'.airRuntimeId
      (gridPositions reader.store.size) = .ok chunks) :
    RecordCount reader.sections.zipIdx
      (countedOf codec file reader.palette reader.unknownRuntime registry'.airRuntimeId)
      (cellsOf codec file reader registry'.airRuntimeId) reader.IsWithin reader.nonAirBlocks
      (chunks.nonAirCells registry'.airRuntimeId) := by
  have hread := read_ok h
  have hshows := showsRecords hread (movable_of_read h) hchunks
  generalize registry'.airRuntimeId = air at *
  have hcounts : Counts reader.sections.zipIdx
      (countedOf codec file reader.palette reader.unknownRuntime air) (cellsOf codec file reader air)
      reader.nonAirBlocks (chunks.nonAirCells air) := by
    refine ⟨hread.counted, ?_⟩
    rw [hshows.nonAirCells_eq_of_ne]
    · ext pos
      constructor
      · rintro ⟨placed, hplaced, id, hvalue⟩
        obtain ⟨part, hpart, hplaced⟩ := List.mem_flatMap.mp hplaced
        obtain ⟨hcell, hvalue⟩ := then_of_some hvalue
        exact ⟨part, hpart, List.mem_map.mpr ⟨placed, hplaced, hcell⟩⟩
      · rintro ⟨part, hpart, hcell⟩
        obtain ⟨placed, hplaced, hcell⟩ := List.mem_map.mp hcell
        exact ⟨placed, List.mem_flatMap.mpr ⟨part, hpart, hplaced⟩, placed.2, if_pos hcell⟩
    · intro placed hplaced pos id hvalue
      obtain ⟨part, -, hplaced⟩ := List.mem_flatMap.mp hplaced
      obtain ⟨-, hvalue⟩ := then_of_some hvalue
      cases hvalue
      exact (mem_sectionPlacements hplaced).2
  exact ⟨hcounts, fun hwithin => hcounts.eq_ncard_iff fun part hpart =>
    countedOf_of_isWithin (hwithin part hpart)⟩

end ConstructionReader

/-! ## MessagePack -/

namespace MsgpackStructure

open Msgpack

variable {object : MsgpackStructure} {air : RuntimeId} {file : File} {chunks : ChunkMap}

theorem showsRecords {records : List Record} (hread : IsRead file object records)
    (hchunks : object.getChunks air (gridPositions object.size) = .ok chunks) :
    ShowsRecords air chunks object.size object.blocks fun pos block =>
      if block.pos = pos then some block.runtime else none := by
  constructor
  · intro pos
    rw [getChunks_ok hchunks]
    simp only [hread.offset, BlockPos.add, Int.add_zero]
  · intro block hblock pos id hvalue
    obtain ⟨hcell, hvalue⟩ := then_of_some hvalue
    rw [← hcell]
    exact hread.inside block hblock

/-- The number is that of the records that are blocks, and a cell is air if its last block is air. -/
structure CountsBlocks (file : File) (object : MsgpackStructure) (air : RuntimeId)
    (reported : Set BlockPos) : Prop where
  counted : ∃ records corner, run file 0 (readRecords object.format) = .ok records ∧
    object.nonAirBlocks = (records.countP fun record => record.IsBlock) ∧
    object.blocks.map Block.pos = keptPositions corner records
  reported_eq : reported = {pos | ∃ id, lastValue (fun block : Block =>
    if block.pos = pos then some block.runtime else none) object.blocks = some id ∧ id ≠ air}
  exact : (∀ block ∈ object.blocks, block.runtime ≠ air) →
    (object.nonAirBlocks = reported.ncard ↔ (object.blocks.map Block.pos).Nodup)

theorem countsBlocks {registry registry' : MappingRegistry} {format : MsgpackFormat}
    (h : read registry format file = .ok (object, registry'))
    (hchunks : object.getChunks air (gridPositions object.size) = .ok chunks) :
    CountsBlocks file object air (chunks.nonAirCells air) := by
  obtain ⟨-, records, hread⟩ := read_ok h
  obtain ⟨corner, hkept⟩ := hread.kept
  have hshows := showsRecords hread hchunks
  refine ⟨⟨records, corner, hread.recordsRead, hread.counted, hkept⟩, hshows.nonAirCells_eq, fun hair => ?_⟩
  have hcounts : Counts object.blocks (fun _ => 1) (fun block => [block.pos]) object.nonAirBlocks
      (chunks.nonAirCells air) := by
    constructor
    · rw [List.map_const', List.sum_replicate, nsmul_eq_mul, Nat.cast_id, Nat.mul_one, hread.counted,
        List.countP_eq_length_filter, ← List.length_map Block.pos, hkept, keptPositions, List.length_map]
    · rw [hshows.nonAirCells_eq_of_ne]
      · ext pos
        constructor
        · rintro ⟨block, hblock, id, hvalue⟩
          obtain ⟨hcell, hvalue⟩ := then_of_some hvalue
          exact ⟨block, hblock, List.mem_singleton.mpr hcell.symm⟩
        · rintro ⟨block, hblock, hcell⟩
          exact ⟨block, hblock, block.runtime, if_pos (List.mem_singleton.mp hcell).symm⟩
      · intro block hblock pos id hvalue
        obtain ⟨-, hvalue⟩ := then_of_some hvalue
        cases hvalue
        exact hair block hblock
  rw [hcounts.eq_ncard_iff fun block _ => rfl, List.map_eq_flatMap]

end MsgpackStructure

/-! ## All readers -/

/-- Right after a file has been read, the number of blocks is the sum over its records, and the cells that
are not air are those that the records cover. The number of these cells is reported exactly if no cell is
covered twice, where every record counts the cells it covers. -/
theorem reported_counts :
    (∀ registry registry' format file object chunks,
      MsgpackStructure.read registry format file = .ok (object, registry') →
      object.getChunks registry'.airRuntimeId (gridPositions object.size) = .ok chunks →
      MsgpackStructure.CountsBlocks file object registry'.airRuntimeId
        (chunks.nonAirCells registry'.airRuntimeId)) ∧
    (∀ registry file object chunks, BcfStructure.read registry file = .ok object →
      object.getChunks registry.airRuntimeId (gridPositions object.size) = .ok chunks →
      ∃ tables sections corner, Bcf.readTables registry file = .ok tables ∧
        Bcf.readSections file tables = .ok sections ∧
        RecordCount (Bcf.placements sections) (Bcf.countedOf tables registry.airRuntimeId)
          (Bcf.cellsOf tables registry.airRuntimeId corner) (Bcf.IsOrdered tables registry.airRuntimeId)
          object.nonAirBlocks (chunks.nonAirCells registry.airRuntimeId)) ∧
    (∀ (initial reader : TibiReader) raw air order chunks, initial.read raw = .ok reader →
      order.Perm (ChunkMap.emplaceAll (gridPositions reader.size)).keys →
      (reader.getChunks air (gridPositions reader.size) order).1 = .ok chunks →
      ∃ total, Tibi.countBlocks air reader.commands = min total uint64Max ∧
        RecordCount reader.commands (Tibi.countedOf air) (Tibi.cellsOf reader air) Tibi.IsOrdered total
          (chunks.nonAirCells air)) ∧
    (∀ (Nbt : Type) (codec : Construction.Codec Nbt) registry registry' file reader chunks,
      ConstructionReader.read codec registry file = .ok (reader, registry') →
      ConstructionReader.getChunks codec file reader registry'.airRuntimeId
        (gridPositions reader.store.size) = .ok chunks →
      RecordCount reader.sections.zipIdx
        (ConstructionReader.countedOf codec file reader.palette reader.unknownRuntime
          registry'.airRuntimeId)
        (ConstructionReader.cellsOf codec file reader registry'.airRuntimeId) reader.IsWithin
        reader.nonAirBlocks (chunks.nonAirCells registry'.airRuntimeId)) :=
  ⟨fun _ _ _ _ _ _ h hchunks => MsgpackStructure.countsBlocks h hchunks,
    fun _ _ _ _ h hchunks => BcfStructure.recordCount h hchunks,
    fun _ _ _ _ _ _ h horder hchunks => TibiReader.recordCount h horder hchunks,
    fun _ _ _ _ _ _ _ h hchunks => ConstructionReader.recordCount h hchunks⟩

/-- A file with one section, and the same block in it twice. -/
def coveredTwice : File :=
  [66, 67, 70] ++ List.replicate 16 0 ++
    -- the pointers: the offset table, the palette, the names, and no states
    [97, 0, 0, 0, 0, 0, 0, 0] ++ [77, 0, 0, 0, 0, 0, 0, 0] ++ [59, 0, 0, 0, 0, 0, 0, 0] ++
    List.replicate 16 0 ++
    -- the names
    [2, 0, 0, 0] ++ [0, 0, 3, 0, 97, 58, 97] ++ [1, 0, 3, 0, 97, 58, 98] ++
    -- the palette
    [2, 0, 0, 0] ++ [0, 0, 0, 0, 0, 0, 0, 0] ++ [1, 0, 0, 0, 1, 0, 0, 0] ++
    -- the offset table and the section
    [1, 0, 0, 0, 0, 0, 0, 0] ++ [113, 0, 0, 0, 0, 0, 0, 0] ++
    List.replicate 14 0 ++ [2, 0, 0, 0] ++ [1, 0, 0, 0] ++ List.replicate 12 0 ++
    [1, 0, 0, 0] ++ List.replicate 12 0

theorem BcfStructure.contains_of_nonAir {registry : MappingRegistry} {file : File} {object : BcfStructure}
    (h : read registry file = .ok object) {chunks : ChunkMap}
    (hchunks : object.getChunks registry.airRuntimeId (gridPositions object.size) = .ok chunks)
    {pos : BlockPos} (hpos : pos ∈ chunks.nonAirCells registry.airRuntimeId) :
    object.size.Contains pos := by
  obtain ⟨tables, sections, first, -, -, -, hscanned, hobject⟩ := read_ok h
  exact (showsRecords hscanned (hobject ▸ rfl) (hobject ▸ rfl) (hobject ▸ rfl) hchunks).contains hpos

theorem exists_read_coveredTwice : ∃ object chunks,
    BcfStructure.read BcfStructure.paletteRegistry coveredTwice = .ok object ∧
      object.getChunks BcfStructure.paletteRegistry.airRuntimeId (gridPositions object.size) = .ok chunks ∧
      object.size = ⟨1, 1, 1⟩ ∧ object.nonAirBlocks = 2 := by
  have hread : (BcfStructure.read BcfStructure.paletteRegistry coveredTwice).toOption.map
      (fun object => (object.size, object.nonAirBlocks,
        (object.getChunks BcfStructure.paletteRegistry.airRuntimeId
          (gridPositions object.size)).toOption.isSome)) = some (⟨1, 1, 1⟩, 2, true) := by
    decide +kernel
  cases hobject : BcfStructure.read BcfStructure.paletteRegistry coveredTwice with
  | error error =>
    rw [hobject] at hread
    cases hread
  | ok object =>
    rw [hobject] at hread
    obtain ⟨hsize, hcount, hsome⟩ : object.size = ⟨1, 1, 1⟩ ∧ object.nonAirBlocks = 2 ∧
        (object.getChunks BcfStructure.paletteRegistry.airRuntimeId
          (gridPositions object.size)).toOption.isSome = true := by
      simpa only [Except.toOption, Option.map_some, Option.some.injEq, Prod.mk.injEq] using hread
    cases hchunks : object.getChunks BcfStructure.paletteRegistry.airRuntimeId
        (gridPositions object.size) with
    | error error =>
      rw [hchunks] at hsome
      cases hsome
    | ok chunks => exact ⟨object, chunks, rfl, hchunks, hsize, hcount⟩

/-- The two records are counted, and both cover the cell. -/
theorem reported_counts_coveredTwice : ∃ object, ∃ chunks : ChunkMap, ∃ tables sections corner,
    BcfStructure.read BcfStructure.paletteRegistry coveredTwice = .ok object ∧
      Bcf.readTables BcfStructure.paletteRegistry coveredTwice = .ok tables ∧
      Bcf.readSections coveredTwice tables = .ok sections ∧
      RecordCount (Bcf.placements sections)
        (Bcf.countedOf tables BcfStructure.paletteRegistry.airRuntimeId)
        (Bcf.cellsOf tables BcfStructure.paletteRegistry.airRuntimeId corner)
        (Bcf.IsOrdered tables BcfStructure.paletteRegistry.airRuntimeId) object.nonAirBlocks
        (chunks.nonAirCells BcfStructure.paletteRegistry.airRuntimeId) := by
  obtain ⟨object, chunks, hobject, hchunks, -, -⟩ := exists_read_coveredTwice
  obtain ⟨tables, sections, corner, htables, hsections, hcount⟩ :=
    reported_counts.2.1 _ _ _ _ hobject hchunks
  exact ⟨object, chunks, tables, sections, corner, hobject, htables, hsections, hcount⟩

/-- Two blocks are reported, and there is one. -/
theorem coveredTwice_counts : ∃ object chunks,
    BcfStructure.read BcfStructure.paletteRegistry coveredTwice = .ok object ∧
      object.getChunks BcfStructure.paletteRegistry.airRuntimeId (gridPositions object.size) = .ok chunks ∧
      object.nonAirBlocks ≠ (chunks.nonAirCells BcfStructure.paletteRegistry.airRuntimeId).ncard := by
  obtain ⟨object, chunks, hobject, hchunks, hsize, hcount⟩ := exists_read_coveredTwice
  refine ⟨object, chunks, hobject, hchunks, fun hsame => ?_⟩
  have hsingle : chunks.nonAirCells BcfStructure.paletteRegistry.airRuntimeId ⊆ {⟨0, 0, 0⟩} := by
    intro pos hpos
    have hcontains := BcfStructure.contains_of_nonAir hobject hchunks hpos
    obtain ⟨x, y, z⟩ := pos
    rw [hsize, Size.Contains] at hcontains
    rw [Set.mem_singleton_iff, BlockPos.mk.injEq]
    dsimp only at hcontains
    omega
  have hle := Set.ncard_le_ncard hsingle (Set.finite_singleton _)
  rw [← hsame, hcount, Set.ncard_singleton] at hle
  omega

end WaterStructure
