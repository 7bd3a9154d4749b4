import WaterStructure.Formats.Bcf

/-!
# BCF: the regions of a file

Loading the section offsets in batches amounts to one loop over the offset table. Both scans go over the
same records; the first finds the bounds of the regions that are kept, the second keeps them.
-/

namespace WaterStructure

namespace Bcf

open LastValue NestedLoop SeekReader

/-! ## The offset table -/

/-- An entry of the offset table. -/
def sectionOffset (file : File) (tables : Tables) (index : ℕ) : ℕ :=
  little ((file.drop (tables.offsetsTable + 8 + index * 8)).take 8)

/-- The offset table lies inside the file. -/
def Tables.InFile (tables : Tables) (file : File) : Prop :=
  tables.offsetsTable + 8 + tables.offsetCount * 8 ≤ file.length

/-- The sections of the table, each with its index. -/
def sectionOffsets (file : File) (tables : Tables) : List (ℕ × ℕ) :=
  (List.range tables.offsetCount).map fun index => (index, sectionOffset file tables index)

theorem zipIdx_map_range {α : Type} (f : ℕ → α) (count : ℕ) :
    ((List.range count).map f).zipIdx = (List.range count).map fun index => (f index, index) := by
  refine List.ext_getElem (by simp) fun index _ _ => ?_
  simp

/-- Counting in batches. -/
theorem range'_batch (start size left : ℕ) : List.range' start left =
    (List.range (min size left)).map (start + ·) ++ List.range' (start + size) (left - size) := by
  rw [← List.range'_eq_map_range]
  by_cases hfull : size ≤ left
  · rw [Nat.min_eq_left hfull, List.range'_append_1, Nat.add_sub_cancel' hfull]
  · rw [Nat.min_eq_right (not_le.mp hfull).le, Nat.sub_eq_zero_of_le (not_le.mp hfull).le,
      List.range'_zero, List.append_nil]

variable {file : File} {tables : Tables} {air : RuntimeId} {position : ℕ} {state next : ScanState}
  {placement : BlockPos × Record} {region : Region}

/-- The batches visit the sections that are left, in order. -/
theorem forEachBatch_eq {σ : Type} (hfile : tables.InFile file) (callback : ℕ → ℕ → σ → Except String σ)
    {fuel batchStart : ℕ} (hfuel : tables.offsetCount ≤ batchStart + fuel) (s : σ) :
    forEachBatch file tables callback fuel batchStart s =
      (List.range' batchStart (tables.offsetCount - batchStart)).foldlM
        (fun s index => callback index (sectionOffset file tables index) s) s := by
  rw [Tables.InFile] at hfile
  induction fuel generalizing batchStart s with
  | zero =>
    rw [Nat.add_zero] at hfuel
    rw [Nat.sub_eq_zero_of_le hfuel]
    rfl
  | succ fuel ih =>
    rw [forEachBatch]
    split_ifs with hlt
    · have hbatch : min kOffsetBatchSize (tables.offsetCount - batchStart) ≤
          tables.offsetCount - batchStart := Nat.min_le_right _ _
      have hread := @repeated_number (truncated "section offset") 8 file
        (min kOffsetBatchSize (tables.offsetCount - batchStart))
        (tables.offsetsTable + 8 + batchStart * 8) (by omega)
      dsimp only
      rw [u64, run_of_ok hread, ok_bind, zipIdx_map_range]
      rw [range'_batch batchStart kOffsetBatchSize, List.foldlM_append, List.foldlM_map,
        List.foldlM_map, Nat.sub_sub]
      have hentry (index : ℕ) : sectionOffset file tables (batchStart + index) =
          little ((file.drop (tables.offsetsTable + 8 + batchStart * 8 + index * 8)).take 8) := by
        rw [sectionOffset, Nat.add_mul, ← Nat.add_assoc]
      simp only [hentry]
      refine congrArg (_ >>= ·) (funext fun t => ?_)
      exact ih (by rw [kOffsetBatchSize]; omega) t
    · rw [Nat.sub_eq_zero_of_le (not_lt.mp hlt)]
      rfl

/-- Every section is visited once, in the order of the table. -/
theorem forEachSectionOffset_eq {σ : Type} (hfile : tables.InFile file) (callback : ℕ → ℕ → σ → Except String σ)
    (s : σ) :
    forEachSectionOffset file tables callback s =
      (sectionOffsets file tables).foldlM (fun s entry => callback entry.1 entry.2 s) s := by
  rw [forEachSectionOffset, forEachBatch_eq hfile callback (Nat.zero_add _).ge, sectionOffsets,
    List.foldlM_map, Nat.sub_zero, List.range_eq_range']

/-- The table of a file that is read further lies inside of it. -/
theorem inFile_of_readTables {registry : MappingRegistry} (h : readTables registry file = .ok tables) :
    tables.InFile file := by
  rw [readTables] at h
  obtain ⟨header, -, h⟩ := exists_of_bind_ok h
  obtain ⟨-, h⟩ := exists_of_guard_ok h
  obtain ⟨offsetCount, -, h⟩ := exists_of_bind_ok h
  obtain ⟨-, h⟩ := exists_of_guard_ok h
  obtain ⟨hrange, h⟩ := exists_of_guard_ok h
  obtain ⟨typeMap, -, h⟩ := exists_of_bind_ok h
  obtain ⟨stateNameMap, -, h⟩ := exists_of_bind_ok h
  obtain ⟨stateValueMap, -, h⟩ := exists_of_bind_ok h
  obtain ⟨palette, -, h⟩ := exists_of_bind_ok h
  cases h
  rw [Tables.InFile]
  dsimp only
  omega

/-! ## The records of a file -/

/-- A section: its origin and its regions as they stand in the file. -/
structure Section where
  origin : BlockPos
  records : List Record

def readSection : Reader Section := do
  let head ← readSectionHead
  let records ← repeated readRecord head.2
  return { origin := head.1, records }

/-- The sections whose offsets lie in the file, in the order of the table. -/
def readSections (file : File) (tables : Tables) : Except String (List Section) :=
  ((sectionOffsets file tables).filter fun entry =>
    ¬ (entry.2 = 0 ∨ entry.2 ≥ file.length)).mapM fun entry => run file entry.2 readSection

/-- The records of all sections in file order, with the origins of their sections. -/
def placements (sections : List Section) : List (BlockPos × Record) :=
  sections.flatMap fun part => part.records.map fun record => (part.origin, record)

/-- What a scan does with a record and its origin. -/
def scanPlacement (tables : Tables) (air : RuntimeId) (materialize : Bool) (state : ScanState)
    (placement : BlockPos × Record) : Except String ScanState :=
  scanRecord tables air materialize placement.1 state placement.2

/-- Scanning a section is scanning its records. -/
theorem scanSection_ok {materialize : Bool}
    (h : run file position (scanSection tables air materialize state) = .ok next) :
    ∃ part, run file position readSection = .ok part ∧
      (part.records.map fun record => (part.origin, record)).foldlM
        (scanPlacement tables air materialize) state = .ok next := by
  obtain ⟨final, h⟩ := run_eq_ok h
  obtain ⟨head, behind, hhead, h⟩ := exists_of_bind h
  obtain ⟨records, hrecords, hfold⟩ := processed_ok h
  refine ⟨⟨head.1, records⟩, ?_, ?_⟩
  · refine @run_of_ok _ _ _ final _ _ ?_
    rw [readSection, bind_of_ok hhead, bind_of_ok hrecords]
    rfl
  · rw [List.foldlM_map]
    exact hfold

/-- A scan over the sections is a scan over their records. -/
theorem scanSections_ok (hfile : tables.InFile file) {materialize : Bool}
    (h : scanSections file tables air materialize state = .ok next) :
    ∃ sections, readSections file tables = .ok sections ∧
      (placements sections).foldlM (scanPlacement tables air materialize) state = .ok next := by
  rw [scanSections, forEachSectionOffset_eq hfile] at h
  rw [readSections]
  generalize sectionOffsets file tables = entries at h ⊢
  induction entries generalizing state with
  | nil =>
    cases h
    exact ⟨[], rfl, rfl⟩
  | cons entry rest ih =>
    rw [List.foldlM_cons] at h
    obtain ⟨middle, hmiddle, hrest⟩ := exists_of_bind_ok h
    obtain ⟨sections, hsections, hfold⟩ := ih hrest
    rw [scanAt] at hmiddle
    split_ifs at hmiddle with hkeep
    · cases hmiddle
      refine ⟨sections, ?_, hfold⟩
      rw [List.filter_cons_of_neg (by rw [decide_eq_true_eq]; exact not_not_intro hkeep)]
      exact hsections
    · have hrun : run file entry.2 (scanSection tables air materialize state) = .ok middle := by
        cases hscan : run file entry.2 (scanSection tables air materialize state) with
        | error error =>
          rw [hscan] at hmiddle
          cases hmiddle
        | ok found =>
          rw [hscan] at hmiddle
          exact hmiddle
      obtain ⟨part, hpart, hrecords⟩ := scanSection_ok hrun
      refine ⟨part :: sections, ?_, ?_⟩
      · rw [List.filter_cons_of_pos (by rw [decide_eq_true_eq]; exact hkeep), List.mapM_cons, hpart, ok_bind, hsections]
        rfl
      · rw [placements, List.flatMap_cons, List.foldlM_append, hrecords]
        exact hfold

/-- The coordinate is one of the file. -/
def IsInt16 (value : ℤ) : Prop := -32768 ≤ value ∧ value < 32768

/-- The coordinates of an origin and of the corners of a record are 16-bit numbers. -/
def IsShort (placement : BlockPos × Record) : Prop :=
  (IsInt16 placement.1.x ∧ IsInt16 placement.1.y ∧ IsInt16 placement.1.z) ∧
    (IsInt16 placement.2.first.x ∧ IsInt16 placement.2.first.y ∧ IsInt16 placement.2.first.z) ∧
    IsInt16 placement.2.second.x ∧ IsInt16 placement.2.second.y ∧ IsInt16 placement.2.second.z

theorem readRecord_short {next : ℕ} {record : Record} (h : readRecord file position = .ok (record, next)) :
    (IsInt16 record.first.x ∧ IsInt16 record.first.y ∧ IsInt16 record.first.z) ∧
      IsInt16 record.second.x ∧ IsInt16 record.second.y ∧ IsInt16 record.second.z := by
  obtain ⟨_, _, -, h⟩ := exists_of_bind h
  obtain ⟨x1, _, hx1, h⟩ := exists_of_bind h
  obtain ⟨y1, _, hy1, h⟩ := exists_of_bind h
  obtain ⟨z1, _, hz1, h⟩ := exists_of_bind h
  obtain ⟨x2, _, hx2, h⟩ := exists_of_bind h
  obtain ⟨y2, _, hy2, h⟩ := exists_of_bind h
  obtain ⟨z2, _, hz2, h⟩ := exists_of_bind h
  cases h
  exact ⟨⟨signed16_ok hx1, signed16_ok hy1, signed16_ok hz1⟩, signed16_ok hx2, signed16_ok hy2,
    signed16_ok hz2⟩

theorem readSectionHead_short {next : ℕ} {head : BlockPos × ℕ}
    (h : readSectionHead file position = .ok (head, next)) :
    IsInt16 head.1.x ∧ IsInt16 head.1.y ∧ IsInt16 head.1.z := by
  obtain ⟨_, _, -, h⟩ := exists_of_bind h
  obtain ⟨x, _, hx, h⟩ := exists_of_bind h
  obtain ⟨y, _, hy, h⟩ := exists_of_bind h
  obtain ⟨z, _, hz, h⟩ := exists_of_bind h
  obtain ⟨count, _, -, h⟩ := exists_of_bind h
  have hhead : head.1 = ⟨x, y, z⟩ := by
    split at h
    · obtain ⟨_, _, hfail, -⟩ := exists_of_bind h
      cases hfail
    · cases h
      rfl
  rw [hhead]
  exact ⟨signed16_ok hx, signed16_ok hy, signed16_ok hz⟩

theorem readSections_short {sections : List Section} (h : readSections file tables = .ok sections) :
    ∀ placement ∈ placements sections, IsShort placement := by
  have hall : ∀ part ∈ sections, ∀ record ∈ part.records, IsShort (part.origin, record) := by
    refine forall_of_mapM_ok (fun entry part hpart => ?_) h
    obtain ⟨final, hread⟩ := run_eq_ok hpart
    obtain ⟨head, _, hhead, hread⟩ := exists_of_bind hread
    obtain ⟨records, _, hrecords, hread⟩ := exists_of_bind hread
    cases hread
    intro record hrecord
    exact ⟨readSectionHead_short hhead, forall_of_repeated (fun _ _ _ => readRecord_short) hrecords record
      hrecord⟩
  intro placement hplacement
  obtain ⟨part, hpart, hpair⟩ := List.mem_flatMap.mp hplacement
  obtain ⟨record, hrecord, rfl⟩ := List.mem_map.mp hpair
  exact hall part hpart record hrecord

/-! ## The regions that are kept -/

/-- The region of a record, if its palette entry is kept. -/
def keptRegion (tables : Tables) (air : RuntimeId) (placement : BlockPos × Record) : Option Region :=
  (tables.palette.lookup placement.2.paletteId).bind fun runtime =>
    if runtime = 0 ∨ runtime = air then none
    else some (placement.2.region placement.1 runtime)

/-- The regions that are kept, in file order and at their places in the file. -/
def keptRegions (tables : Tables) (air : RuntimeId) (sections : List Section) : List Region :=
  (placements sections).filterMap (keptRegion tables air)

/-- A record without a region to keep changes nothing; another one is scanned. -/
theorem scanPlacement_eq (tables : Tables) (air : RuntimeId) (materialize : Bool) (state : ScanState)
    (placement : BlockPos × Record) : scanPlacement tables air materialize state placement =
      match keptRegion tables air placement with
      | none => .ok state
      | some region => scanRegion materialize placement.2 region state := by
  rw [scanPlacement, scanRecord, keptRegion]
  cases tables.palette.lookup placement.2.paletteId with
  | none => rfl
  | some runtime =>
    dsimp only [Option.bind_some]
    split <;> rfl

/-- Corners in order, and coordinates that a sum of two 16-bit numbers can have. -/
structure Region.Tame (region : Region) : Prop where
  ordered : region.minimum.x ≤ region.maximum.x ∧ region.minimum.y ≤ region.maximum.y ∧
    region.minimum.z ≤ region.maximum.z
  low : -65536 ≤ region.minimum.x ∧ -65536 ≤ region.minimum.y ∧ -65536 ≤ region.minimum.z
  high : region.maximum.x ≤ 65534 ∧ region.maximum.y ≤ 65534 ∧ region.maximum.z ≤ 65534

theorem tame_of_short (h : IsShort placement) (hregion : keptRegion tables air placement = some region) :
    region.Tame := by
  obtain ⟨runtime, -, hkept⟩ := Option.bind_eq_some_iff.mp hregion
  obtain ⟨_, hkept⟩ := else_of_some hkept
  cases hkept
  simp only [IsShort, IsInt16] at h
  constructor <;> simp only [Record.region] <;> omega

theorem tame_keptRegions {tables : Tables} {air : RuntimeId} {sections : List Section}
    (h : ∀ placement ∈ placements sections, IsShort placement) :
    ∀ region ∈ keptRegions tables air sections, region.Tame := by
  intro region hregion
  obtain ⟨placement, hplacement, hkept⟩ := List.mem_filterMap.mp hregion
  exact tame_of_short (h placement hplacement) hkept

/-- The number of blocks that is counted for a record that is kept. -/
def countedOf (tables : Tables) (air : RuntimeId) (placement : BlockPos × Record) : ℕ :=
  match keptRegion tables air placement with
  | none => 0
  | some _ => spanVolume placement.2.first placement.2.second

/-- What the first scan knows of the records that it has seen. -/
structure Scanned (tables : Tables) (air : RuntimeId) (done : List (BlockPos × Record))
    (state : ScanState) : Prop where
  populated : state.populated = true ↔ done.filterMap (keptRegion tables air) ≠ []
  nonAirRegions : state.nonAirRegions = (done.filterMap (keptRegion tables air)).length
  within : ∀ region ∈ done.filterMap (keptRegion tables air),
    (state.boundsMin.x ≤ region.minimum.x ∧ state.boundsMin.y ≤ region.minimum.y ∧
      state.boundsMin.z ≤ region.minimum.z) ∧
    region.maximum.x ≤ state.boundsMax.x ∧ region.maximum.y ≤ state.boundsMax.y ∧
      region.maximum.z ≤ state.boundsMax.z
  low : -65536 ≤ state.boundsMin.x ∧ -65536 ≤ state.boundsMin.y ∧ -65536 ≤ state.boundsMin.z
  high : state.boundsMax.x ≤ 65534 ∧ state.boundsMax.y ≤ 65534 ∧ state.boundsMax.z ≤ 65534
  expanded : state.nonAirBlocks ≤ state.expanded ∧ state.expanded ≤ kMaxExpandedBlocks
  counted : state.nonAirBlocks = (done.map (countedOf tables air)).sum
  regions : state.regions = []

theorem scanned_nil (tables : Tables) (air : RuntimeId) : Scanned tables air [] {} where
  populated := iff_of_false Bool.false_ne_true fun hne => hne rfl
  nonAirRegions := rfl
  within := fun _ hregion => absurd hregion List.not_mem_nil
  low := by decide
  high := by decide
  expanded := by decide
  counted := rfl
  regions := rfl

/-- A box with its corners in reverse counts less than it holds. -/
theorem spanVolume_le_volume (record : Record) (origin : BlockPos) (runtime : RuntimeId) :
    spanVolume record.first record.second ≤ (record.region origin runtime).volume := by
  have hspan (base first second : ℤ) :
      goSpan first second ≤ (base + max first second - (base + min first second) + 1).toNat := by
    rw [goSpan]
    omega
  exact Nat.mul_le_mul (Nat.mul_le_mul (hspan _ _ _) (hspan _ _ _)) (hspan _ _ _)

theorem widen_regions (state : ScanState) (region : Region) :
    (state.widen region).regions = state.regions ∧
      (state.widen region).nonAirRegions = state.nonAirRegions ∧
      (state.widen region).nonAirBlocks = state.nonAirBlocks ∧
      (state.widen region).expanded = state.expanded ∧ (state.widen region).populated = true := by
  rw [ScanState.widen]
  split_ifs with hpopulated
  · exact ⟨rfl, rfl, rfl, rfl, rfl⟩
  · exact ⟨rfl, rfl, rfl, rfl, Bool.not_eq_false _ ▸ hpopulated⟩

/-- The bounds hold the region and what they held before. -/
theorem widen_bounds (hregion : region.Tame)
    (hlow : -65536 ≤ state.boundsMin.x ∧ -65536 ≤ state.boundsMin.y ∧ -65536 ≤ state.boundsMin.z)
    (hhigh : state.boundsMax.x ≤ 65534 ∧ state.boundsMax.y ≤ 65534 ∧ state.boundsMax.z ≤ 65534) :
    ((state.widen region).boundsMin.x ≤ region.minimum.x ∧
        (state.widen region).boundsMin.y ≤ region.minimum.y ∧
        (state.widen region).boundsMin.z ≤ region.minimum.z) ∧
      (region.maximum.x ≤ (state.widen region).boundsMax.x ∧
        region.maximum.y ≤ (state.widen region).boundsMax.y ∧
        region.maximum.z ≤ (state.widen region).boundsMax.z) ∧
      (state.populated = true → ((state.widen region).boundsMin.x ≤ state.boundsMin.x ∧
        (state.widen region).boundsMin.y ≤ state.boundsMin.y ∧
        (state.widen region).boundsMin.z ≤ state.boundsMin.z) ∧
        state.boundsMax.x ≤ (state.widen region).boundsMax.x ∧
        state.boundsMax.y ≤ (state.widen region).boundsMax.y ∧
        state.boundsMax.z ≤ (state.widen region).boundsMax.z) ∧
      (-65536 ≤ (state.widen region).boundsMin.x ∧ -65536 ≤ (state.widen region).boundsMin.y ∧
        -65536 ≤ (state.widen region).boundsMin.z) ∧
      (state.widen region).boundsMax.x ≤ 65534 ∧ (state.widen region).boundsMax.y ≤ 65534 ∧
        (state.widen region).boundsMax.z ≤ 65534 := by
  obtain ⟨hordered, hlow', hhigh'⟩ := hregion
  rw [ScanState.widen]
  split_ifs with hfalse
  · refine ⟨⟨le_rfl, le_rfl, le_rfl⟩, ⟨le_rfl, le_rfl, le_rfl⟩, fun htrue => ?_, hlow', hhigh'⟩
    rw [hfalse] at htrue
    cases htrue
  · dsimp only
    omega

/-- What the first scan has done with a region. -/
theorem scanRegion_ok {record : Record} (h : scanRegion false record region state = .ok next) :
    ∃ wide : ScanState, region.volume ≤ kMaxExpandedBlocks ∧
      state.expanded + region.volume ≤ kMaxExpandedBlocks ∧ wide.boundsMin = state.boundsMin ∧
      wide.boundsMax = state.boundsMax ∧ wide.populated = state.populated ∧
      wide.nonAirRegions = state.nonAirRegions ∧ wide.regions = state.regions ∧
      wide.expanded = state.expanded + region.volume ∧
      wide.nonAirBlocks =
        saturatingAdd state.nonAirBlocks (countedVolume record.first record.second) ∧
      next = { wide.widen region with nonAirRegions := (wide.widen region).nonAirRegions + 1 } := by
  rw [scanRegion, if_neg Bool.false_ne_true] at h
  obtain ⟨hlimit, h⟩ := else_of_ok h
  dsimp only at h
  obtain ⟨_, h⟩ := else_of_ok h
  cases h
  exact ⟨{ state with
      expanded := state.expanded + region.volume
      nonAirBlocks :=
        saturatingAdd state.nonAirBlocks (countedVolume record.first record.second) },
    by omega, by omega, rfl, rfl, rfl, rfl, rfl, rfl, rfl, rfl⟩

/-- A record is scanned. -/
theorem Scanned.step {done : List (BlockPos × Record)} (h : Scanned tables air done state)
    (hshort : IsShort placement) (hstep : scanPlacement tables air false state placement = .ok next) :
    Scanned tables air (done ++ [placement]) next := by
  rw [scanPlacement_eq] at hstep
  cases hkept : keptRegion tables air placement with
  | none =>
    rw [hkept] at hstep
    cases hstep
    have hsame : (done ++ [placement]).filterMap (keptRegion tables air) =
        done.filterMap (keptRegion tables air) := by
      rw [List.filterMap_append, List.filterMap_cons_none hkept, List.filterMap_nil, List.append_nil]
    obtain ⟨hpopulated, hregions, hwithin, hlow, hhigh, hexpanded, hcounted, hempty⟩ := h
    refine ⟨hsame ▸ hpopulated, hsame ▸ hregions, hsame ▸ hwithin, hlow, hhigh, hexpanded, ?_, hempty⟩
    rw [List.map_append, List.sum_append, hcounted, List.map_singleton, List.sum_singleton, countedOf,
      hkept, Nat.add_zero]
  | some region =>
    rw [hkept] at hstep
    dsimp only at hstep
    have hmore : (done ++ [placement]).filterMap (keptRegion tables air) =
        done.filterMap (keptRegion tables air) ++ [region] := by
      rw [List.filterMap_append, List.filterMap_cons_some hkept, List.filterMap_nil]
    obtain ⟨wide, hvolume, hroom, hmin, hmax, hpopulated, hcount, hregions, hexpanded, hblocks, rfl⟩ :=
      scanRegion_ok hstep
    have hcountedVolume : spanVolume placement.2.first placement.2.second ≤ region.volume := by
      obtain ⟨runtime, -, hregion⟩ := Option.bind_eq_some_iff.mp hkept
      obtain ⟨-, hregion⟩ := else_of_some hregion
      cases hregion
      exact spanVolume_le_volume _ _ _
    obtain ⟨hle, hlimit⟩ := h.expanded
    have hmaximum : kMaxExpandedBlocks ≤ uint64Max := by decide
    rw [countedVolume_eq, Nat.min_eq_left (by omega), saturatingAdd_eq (by omega),
      Nat.min_eq_left (by omega)] at hblocks
    obtain ⟨hnone, hcount', hblocks', hexpanded', hpopulated'⟩ := widen_regions wide region
    obtain ⟨hlower, hupper, hwider, hlow, hhigh⟩ := widen_bounds (tame_of_short hshort hkept)
      (hmin ▸ h.low) (hmax ▸ h.high)
    refine ⟨?_, ?_, ?_, hlow, hhigh, ?_, ?_, ?_⟩
    · rw [hmore]
      exact iff_of_true hpopulated' (List.append_ne_nil_of_right_ne_nil _ (List.cons_ne_nil _ _))
    · rw [hmore, List.length_append, List.length_singleton, ← h.nonAirRegions, ← hcount, ← hcount']
    · intro other hother
      rw [hmore, List.mem_append, List.mem_singleton] at hother
      rcases hother with hother | rfl
      · have hnonempty := h.populated.mpr (List.ne_nil_of_mem hother)
        obtain ⟨hmore', hmore''⟩ := hwider (hpopulated.trans hnonempty)
        have hold := h.within other hother
        rw [hmin] at hmore'
        rw [hmax] at hmore''
        dsimp only
        omega
      · exact ⟨hlower, hupper⟩
    · dsimp only
      rw [hblocks', hexpanded', hblocks, hexpanded]
      omega
    · dsimp only
      rw [hblocks', hblocks, h.counted, List.map_append, List.sum_append, List.map_singleton,
        List.sum_singleton, countedOf, hkept]
    · exact hnone.trans (hregions.trans h.regions)

/-- The second scan keeps the regions, relative to the bounds. -/
theorem secondScan_step (hstep : scanPlacement tables air true state placement = .ok next) :
    next = { state with
      regions := state.regions ++
        ((keptRegion tables air placement).map (·.relativeTo state.boundsMin)).toList } := by
  rw [scanPlacement_eq] at hstep
  cases hkept : keptRegion tables air placement with
  | none =>
    rw [hkept] at hstep
    cases hstep
    rw [Option.map_none, Option.toList_none, List.append_nil]
  | some region =>
    rw [hkept] at hstep
    dsimp only at hstep
    rw [scanRegion, if_pos rfl] at hstep
    obtain ⟨-, hstep⟩ := else_of_ok hstep
    cases hstep
    rfl

theorem secondScan_regions {placements : List (BlockPos × Record)}
    (h : placements.foldlM (scanPlacement tables air true) state = .ok next) :
    next = { state with
      regions := state.regions ++
        (placements.filterMap (keptRegion tables air)).map (·.relativeTo state.boundsMin) } := by
  induction placements generalizing state with
  | nil =>
    cases h
    rw [List.filterMap_nil, List.map_nil, List.append_nil]
  | cons placement rest ih =>
    rw [List.foldlM_cons] at h
    obtain ⟨middle, hmiddle, hrest⟩ := exists_of_bind_ok h
    rw [ih hrest, secondScan_step hmiddle]
    cases hkept : keptRegion tables air placement with
    | none =>
      rw [List.filterMap_cons_none hkept, Option.map_none, Option.toList_none, List.append_nil]
    | some region =>
      rw [List.filterMap_cons_some hkept, Option.map_some, Option.toList_some, List.map_cons,
        List.append_assoc, List.singleton_append]

end Bcf

end WaterStructure
