import WaterStructure.Core.ChunkStores
import WaterStructure.Formats.Construction

/-!
# Construction: the blocks of chunks

The loops over the sections amount to storing the blocks of every section in order: leaving out the
sections that meet no requested chunk leaves out stores that would go nowhere. Of a file that has been
read every section can be read again.
-/

namespace WaterStructure

open LastValue NestedLoop SeekReader

/-- There are cells of the size. -/
def Size.IsPositive (size : Size) : Prop := 0 < size.width ∧ 0 < size.height ∧ 0 < size.length

namespace ConstructionReader

open Construction

variable {Nbt : Type}

/-- The block of a cell of a section, at its place in the structure; there is none outside of the size
and none for air. -/
def placement (reader : ConstructionReader Nbt) (air : RuntimeId) (part : SectionIndex)
    (blocks : List ℤ) (x z y : ℕ) : Option (BlockPos × RuntimeId) :=
  let cell : BlockPos := ⟨part.startX - reader.minimum.x + x, part.startY - reader.minimum.y + y,
    part.startZ - reader.minimum.z + z⟩
  let runtime := runtimeOf reader.palette reader.unknownRuntime (blocks[part.blockIndex x y z]?.getD 0)
  if reader.originalSize.Contains cell ∧ runtime ≠ air then some (cell, runtime) else none

/-- The blocks of a section, in the order in which it is gone through. -/
def sectionPlacements (reader : ConstructionReader Nbt) (air : RuntimeId) (part : SectionIndex)
    (blocks : List ℤ) : List (BlockPos × RuntimeId) :=
  if blocks.length = 0 then []
  else
    (List.range part.shapeX).flatMap fun x => (List.range part.shapeZ).flatMap fun z =>
      (List.range part.shapeY).flatMap fun y => (reader.placement air part blocks x z y).toList

/-- A placement moved by an offset. -/
def moved (offset : BlockPos) (placement : BlockPos × RuntimeId) : BlockPos × RuntimeId :=
  (placement.1.add offset, placement.2)

/-- Every cell can be moved by the offset of the reader. -/
def Movable (reader : ConstructionReader Nbt) : Prop :=
  ∀ pos, reader.originalSize.Contains pos → (pos.add reader.store.offset).FitsInt32

/-- The stores of the blocks. -/
abbrev storeMoved (reader : ConstructionReader Nbt) (air : RuntimeId) (chunks : ChunkMap)
    (placement : BlockPos × RuntimeId) : ChunkMap :=
  chunks.store air (moved reader.store.offset placement)

theorem isInt32_floorDiv64 {value : ℤ} (h : int32Min - 64 ≤ value ∧ value ≤ int32Max) :
    IsInt32 (floorDiv64 value 16) := by
  rw [floorDiv64_sixteen, IsInt32]
  rw [int32Min, int32Max] at *
  omega

variable {reader : ConstructionReader Nbt} {air : RuntimeId} {positions : List ChunkPos}
  {chunks : ChunkMap} {part : SectionIndex × ℕ} {blocks : List ℤ}

/-- Blocks of chunks that nobody asked for go nowhere. -/
theorem foldl_storeMoved_of_not_mem (hchunks : chunks.Requested positions)
    {placements : List (BlockPos × RuntimeId)}
    (h : ∀ placed ∈ placements, blockToChunk (moved reader.store.offset placed).1 ∉ positions) :
    placements.foldl (reader.storeMoved air) chunks = chunks := by
  have hmoved : ∀ placed ∈ placements.map (moved reader.store.offset),
      blockToChunk placed.1 ∉ positions := by
    intro placed hplaced
    obtain ⟨cell, hcell, rfl⟩ := List.mem_map.mp hplaced
    exact h cell hcell
  have hstays := @ChunkMap.Requested.foldl_store_of_not_mem air positions chunks hchunks _ hmoved
  rwa [List.foldl_map] at hstays

variable {x z : ℕ} {placed : BlockPos × RuntimeId} {codec : Codec Nbt} {file : File} {localX : ℤ}
  {content : NbtTag.Compound} {minimum : BlockPos} {size : Size}

/-- A cell of a column is stored. -/
theorem placeBlock_eq (hmovable : reader.Movable) (hchunks : chunks.Requested positions) {localZ : ℤ}
    (hlocalX : localX = part.1.startX - reader.minimum.x + x)
    (hlocalZ : localZ = part.1.startZ - reader.minimum.z + z)
    (hx : 0 ≤ localX ∧ localX < reader.originalSize.width)
    (hz : 0 ≤ localZ ∧ localZ < reader.originalSize.length) (y : ℕ) :
    reader.placeBlock air part blocks
        ⟨floorDiv64 (localX + reader.store.offset.x) 16, floorDiv64 (localZ + reader.store.offset.z) 16⟩
        x z (localX + reader.store.offset.x) (localZ + reader.store.offset.z) chunks y =
      .ok ((reader.placement air part.1 blocks x z y).toList.foldl (reader.storeMoved air) chunks) := by
  rw [placeBlock, placement]
  dsimp only
  rw [← hlocalX, ← hlocalZ]
  have hcontains : reader.originalSize.Contains
      ⟨localX, part.1.startY - reader.minimum.y + y, localZ⟩ ↔
        ¬ (part.1.startY - reader.minimum.y + y < 0 ∨
          part.1.startY - reader.minimum.y + y ≥ reader.originalSize.height) := by
    simp only [Size.Contains]
    omega
  by_cases houtside : part.1.startY - reader.minimum.y + y < 0 ∨
      part.1.startY - reader.minimum.y + y ≥ reader.originalSize.height
  · rw [if_pos houtside, if_neg fun hboth => hcontains.mp hboth.1 houtside]
    rfl
  · rw [if_neg houtside]
    generalize runtimeOf reader.palette reader.unknownRuntime
      (blocks[part.1.blockIndex x y z]?.getD 0) = runtime
    by_cases hair : runtime = air
    · rw [if_pos hair, if_neg fun hboth => hboth.2 hair]
      rfl
    · have hplaced : reader.originalSize.Contains
          ⟨localX, part.1.startY - reader.minimum.y + y, localZ⟩ ∧ runtime ≠ air :=
        ⟨hcontains.mpr houtside, hair⟩
      have hy : IsInt32 (part.1.startY - reader.minimum.y + y + reader.store.offset.y) :=
        (hmovable _ hplaced.1).2.1
      have hsub : IsInt32 (floorDiv64 (part.1.startY - reader.minimum.y + y +
          reader.store.offset.y - 64) 16) := by
        rw [IsInt32] at hy
        exact isInt32_floorDiv64 (by omega)
      rw [if_neg hair, if_pos hplaced, if_neg (not_not_intro hy), if_neg (not_not_intro hsub)]
      refine congrArg Except.ok ?_
      rw [Option.toList_some, List.foldl_cons, List.foldl_nil, storeMoved, ChunkMap.store, moved,
        blockToChunk, BlockPos.add, floorDiv64_sixteen, floorDiv64_sixteen, floorDiv_sixteen,
        floorDiv_sixteen]
      refine AssocMap.update_congr fun chunk hchunk => ?_
      rw [ChunkData.setAt, hchunks.layout _ chunk hchunk]
      simp only [floorDiv64_sixteen, floorDiv_sixteen, floorMod64_sixteen, floorMod_sixteen,
        BlockLayerLayout.index, Int.emod_def]
      congr 2
      omega

theorem placement_eq_some {y : ℕ} (h : reader.placement air part.1 blocks x z y = some placed) :
    placed.1 = ⟨part.1.startX - reader.minimum.x + x, part.1.startY - reader.minimum.y + y,
      part.1.startZ - reader.minimum.z + z⟩ ∧ reader.originalSize.Contains placed.1 ∧ placed.2 ≠ air := by
  rw [placement] at h
  obtain ⟨hplaced, h⟩ := then_of_some h
  cases h
  exact ⟨rfl, hplaced⟩

/-- The blocks of a column. -/
def columnPlacements (reader : ConstructionReader Nbt) (air : RuntimeId) (part : SectionIndex)
    (blocks : List ℤ) (x z : ℕ) : List (BlockPos × RuntimeId) :=
  (List.range part.shapeY).flatMap fun y => (reader.placement air part blocks x z y).toList

theorem mem_columnPlacements (h : placed ∈ reader.columnPlacements air part.1 blocks x z) :
    placed.1.x = part.1.startX - reader.minimum.x + x ∧
      placed.1.z = part.1.startZ - reader.minimum.z + z ∧ reader.originalSize.Contains placed.1 := by
  obtain ⟨y, -, hplaced⟩ := List.mem_flatMap.mp h
  obtain ⟨hcell, hcontains, -⟩ := placement_eq_some (Option.mem_toList.mp hplaced)
  rw [hcell] at hcontains ⊢
  exact ⟨rfl, rfl, hcontains⟩

/-- A column outside of the size has no blocks. -/
theorem columnPlacements_eq_nil (houtside : ∀ y : ℤ, ¬ reader.originalSize.Contains
    ⟨part.1.startX - reader.minimum.x + x, y, part.1.startZ - reader.minimum.z + z⟩) :
    reader.columnPlacements air part.1 blocks x z = [] := by
  refine List.eq_nil_iff_forall_not_mem.mpr fun placed hplaced => ?_
  obtain ⟨hx, hz, hcontains⟩ := mem_columnPlacements hplaced
  refine houtside placed.1.y ?_
  rwa [← hx, ← hz]

theorem placeColumn_eq (hmovable : reader.Movable) (hchunks : chunks.Requested positions)
    (hlocalX : localX = part.1.startX - reader.minimum.x + x)
    (hx : 0 ≤ localX ∧ localX < reader.originalSize.width) (hsize : reader.originalSize.IsPositive) (z : ℕ) :
    reader.placeColumn air part blocks x (localX + reader.store.offset.x) chunks z =
      .ok ((reader.columnPlacements air part.1 blocks x z).foldl (reader.storeMoved air) chunks) := by
  obtain ⟨localZ, hlocalZ⟩ : ∃ localZ, localZ = part.1.startZ - reader.minimum.z + z := ⟨_, rfl⟩
  rw [placeColumn, ← hlocalZ]
  dsimp only
  by_cases houtside : localZ < 0 ∨ localZ ≥ reader.originalSize.length
  · rw [if_pos houtside, columnPlacements_eq_nil]
    · rfl
    · intro y hcontains
      have hz := hcontains.2.2
      dsimp only at hz
      omega
  · have hz : 0 ≤ localZ ∧ localZ < reader.originalSize.length := by omega
    -- The cell at the bottom of the column shows that the coordinates can be moved.
    have hbottom := hmovable ⟨localX, 0, localZ⟩ ⟨hx, ⟨le_rfl, hsize.2.1⟩, hz⟩
    have hworldX : IsInt32 (localX + reader.store.offset.x) := hbottom.1
    have hworldZ : IsInt32 (localZ + reader.store.offset.z) := hbottom.2.2
    have hchunkX : IsInt32 (floorDiv64 (localX + reader.store.offset.x) 16) :=
      isInt32_floorDiv64 ⟨by rw [IsInt32] at hworldX; omega, hworldX.2⟩
    have hchunkZ : IsInt32 (floorDiv64 (localZ + reader.store.offset.z) 16) :=
      isInt32_floorDiv64 ⟨by rw [IsInt32] at hworldZ; omega, hworldZ.2⟩
    rw [if_neg houtside, if_neg (not_not_intro hworldZ),
      if_neg (not_or.mpr ⟨not_not_intro hchunkX, not_not_intro hchunkZ⟩)]
    have hchunk {placed : BlockPos × RuntimeId}
        (hplaced : placed ∈ reader.columnPlacements air part.1 blocks x z) :
        blockToChunk (moved reader.store.offset placed).1 =
          ⟨floorDiv64 (localX + reader.store.offset.x) 16,
            floorDiv64 (localZ + reader.store.offset.z) 16⟩ := by
      obtain ⟨hplacedX, hplacedZ, -⟩ := mem_columnPlacements hplaced
      rw [moved, blockToChunk, BlockPos.add, hplacedX, hplacedZ, ← hlocalX, ← hlocalZ,
        floorDiv_sixteen, floorDiv_sixteen, floorDiv64_sixteen, floorDiv64_sixteen]
    by_cases hnone : (chunks.lookup ⟨floorDiv64 (localX + reader.store.offset.x) 16,
        floorDiv64 (localZ + reader.store.offset.z) 16⟩).isNone = true
    · rw [if_pos hnone]
      refine congrArg Except.ok (foldl_storeMoved_of_not_mem hchunks fun placed hplaced hrequested => ?_).symm
      rw [hchunk hplaced, ← hchunks.isSome, Option.isNone_iff_eq_none.mp hnone] at hrequested
      cases hrequested
    · rw [if_neg hnone, columnPlacements]
      exact foldlM_flatMap_ok (ChunkMap.Requested positions)
        (fun chunks placed hchunks => hchunks.store _)
        (fun chunks hchunks y _ => placeBlock_eq hmovable hchunks hlocalX hlocalZ hx hz y) hchunks

theorem placeSlice_eq (hmovable : reader.Movable) (hchunks : chunks.Requested positions)
    (hsize : reader.originalSize.IsPositive) (x : ℕ) :
    reader.placeSlice air part blocks chunks x =
      .ok (((List.range part.1.shapeZ).flatMap fun z =>
        reader.columnPlacements air part.1 blocks x z).foldl (reader.storeMoved air) chunks) := by
  obtain ⟨localX, hlocalX⟩ : ∃ localX, localX = part.1.startX - reader.minimum.x + x := ⟨_, rfl⟩
  rw [placeSlice, ← hlocalX]
  dsimp only
  by_cases houtside : localX < 0 ∨ localX ≥ reader.originalSize.width
  · have hnil (z : ℕ) : reader.columnPlacements air part.1 blocks x z = [] :=
      columnPlacements_eq_nil fun y hcontains => by
        have hx := hcontains.1
        dsimp only at hx
        omega
    rw [if_pos houtside, List.flatMap_eq_nil_iff.mpr fun z _ => hnil z]
    rfl
  · have hx : 0 ≤ localX ∧ localX < reader.originalSize.width := by omega
    have hworldX : IsInt32 (localX + reader.store.offset.x) :=
      (hmovable ⟨localX, 0, 0⟩ ⟨hx, ⟨le_rfl, hsize.2.1⟩, le_rfl, hsize.2.2⟩).1
    rw [if_neg houtside, if_neg (not_not_intro hworldX)]
    exact foldlM_flatMap_ok (ChunkMap.Requested positions) (fun chunks placed hchunks => hchunks.store _)
      (fun chunks hchunks z _ => placeColumn_eq hmovable hchunks hlocalX hx hsize z) hchunks

/-- Filling a section that can be read stores its blocks. -/
theorem fillSection_eq
    (hopen : openSection codec file " has negative file offset" part.1 part.2 = .ok (content, blocks))
    (hmovable : reader.Movable) (hchunks : chunks.Requested positions) (hsize : reader.originalSize.IsPositive) :
    fillSection codec file reader air chunks part =
      .ok ((reader.sectionPlacements air part.1 blocks).foldl (reader.storeMoved air) chunks) := by
  rw [fillSection, hopen, ok_bind, sectionPlacements]
  dsimp only
  split
  · rfl
  · exact foldlM_flatMap_ok (ChunkMap.Requested positions) (fun chunks placed hchunks => hchunks.store _)
      (fun chunks hchunks x _ => placeSlice_eq hmovable hchunks hsize x) hchunks

/-- The blocks of a section that meets no requested chunk go nowhere. -/
theorem not_mem_of_not_meets {blocks : List ℤ} (h : reader.meets positions part.1 = false)
    (hplaced : placed ∈ reader.sectionPlacements air part.1 blocks) :
    blockToChunk (moved reader.store.offset placed).1 ∉ positions := by
  intro hrequested
  rw [sectionPlacements] at hplaced
  split at hplaced
  · cases hplaced
  · obtain ⟨x, hx, hplaced⟩ := List.mem_flatMap.mp hplaced
    obtain ⟨z, hz, hplaced⟩ := List.mem_flatMap.mp hplaced
    obtain ⟨hplacedX, hplacedZ, ⟨hlowX, hhighX⟩, -, hlowZ, hhighZ⟩ := mem_columnPlacements hplaced
    have hx := List.mem_range.mp hx
    have hz := List.mem_range.mp hz
    rw [meets, chunkRange] at h
    dsimp only at h
    rw [if_neg (by omega), List.any_eq_false] at h
    refine h _ hrequested (decide_eq_true ?_)
    rw [moved, blockToChunk, BlockPos.add]
    simp only [floorDiv_sixteen, floorDiv64_sixteen]
    omega

/-- Whatever is said of a negative position, a section that can be read can be read. -/
theorem openSection_congr {negative other : String} {part : SectionIndex} {sectionIndex : ℕ}
    {opened : NbtTag.Compound × List ℤ} (h : openSection codec file negative part sectionIndex = .ok opened) :
    openSection codec file other part sectionIndex = .ok opened := by
  rw [openSection] at h ⊢
  obtain ⟨hposition, -⟩ := exists_of_guard_ok h
  rw [if_neg hposition] at h ⊢
  exact h

/-- The blocks of a section as they are read from the file. -/
def loadedBlocks (codec : Codec Nbt) (file : File) (part : SectionIndex × ℕ) : List ℤ :=
  if part.1.IsEmpty then []
  else
    ((openSection codec file " has negative file offset" part.1 part.2).toOption.map Prod.snd).getD []

/-- The blocks of all sections in the order of the index, at their places in the structure. -/
def allPlacements (codec : Codec Nbt) (file : File) (reader : ConstructionReader Nbt)
    (air : RuntimeId) : List (BlockPos × RuntimeId) :=
  reader.sections.zipIdx.flatMap fun part =>
    reader.sectionPlacements air part.1 (loadedBlocks codec file part)

/-- Every section with blocks can be read again. -/
def Readable (codec : Codec Nbt) (file : File) (reader : ConstructionReader Nbt) : Prop :=
  ∀ part ∈ reader.sections.zipIdx, ¬ part.1.IsEmpty →
    ∃ opened, openSection codec file " has negative file offset" part.1 part.2 = .ok opened

/-- `materialize_chunks` without leaving out sections that meet no requested chunk. -/
def getChunksOfAll (codec : Codec Nbt) (file : File) (reader : ConstructionReader Nbt) (air : RuntimeId)
    (positions : List ChunkPos) : Except String ChunkMap :=
  reader.sections.zipIdx.foldlM (fun chunks part =>
    if part.1.IsEmpty then .ok chunks else fillSection codec file reader air chunks part)
    (ChunkMap.emplaceAll positions)

theorem fillSection_of_readable (hread : Readable codec file reader) (hmovable : reader.Movable)
    (hsize : reader.originalSize.IsPositive) (hchunks : chunks.Requested positions)
    (hpart : part ∈ reader.sections.zipIdx) (hempty : ¬ part.1.IsEmpty) :
    fillSection codec file reader air chunks part =
      .ok ((reader.sectionPlacements air part.1 (loadedBlocks codec file part)).foldl
        (reader.storeMoved air) chunks) := by
  obtain ⟨opened, hopened⟩ := hread part hpart hempty
  rw [loadedBlocks, if_neg hempty, hopened]
  exact fillSection_eq hopened hmovable hchunks hsize

theorem sectionPlacements_of_isEmpty (hempty : part.1.IsEmpty) :
    reader.sectionPlacements air part.1 (loadedBlocks codec file part) = [] := by
  rw [loadedBlocks, if_pos hempty]
  rfl

/-- The chunks of a request come from storing all blocks in order. -/
theorem getChunks_eq (hread : Readable codec file reader) (hmovable : reader.Movable)
    (hsize : reader.originalSize.IsPositive) (positions : List ChunkPos) :
    getChunks codec file reader air positions =
      .ok ((allPlacements codec file reader air).foldl (reader.storeMoved air)
        (ChunkMap.emplaceAll positions)) := by
  have hloop : reader.sections.zipIdx.foldlM (fun chunks part =>
      if part.1.IsEmpty then .ok chunks
      else if reader.meets positions part.1 then fillSection codec file reader air chunks part
      else .ok chunks) (ChunkMap.emplaceAll positions) =
        .ok ((allPlacements codec file reader air).foldl (reader.storeMoved air)
          (ChunkMap.emplaceAll positions)) := by
    refine foldlM_flatMap_ok (ChunkMap.Requested positions)
      (fun chunks placed hchunks => hchunks.store _) (fun chunks hchunks part hpart => ?_)
      (ChunkMap.requested_emplaceAll positions)
    by_cases hempty : part.1.IsEmpty
    · rw [if_pos hempty, sectionPlacements_of_isEmpty hempty]
      rfl
    · rw [if_neg hempty]
      by_cases hmeets : reader.meets positions part.1 = true
      · rw [if_pos hmeets]
        exact fillSection_of_readable hread hmovable hsize hchunks hpart hempty
      · rw [if_neg hmeets, foldl_storeMoved_of_not_mem hchunks]
        exact fun placed hplaced => not_mem_of_not_meets (Bool.not_eq_true _ ▸ hmeets) hplaced
  rw [getChunks]
  split_ifs with hnone
  · -- Without a requested chunk no section is met.
    subst hnone
    rw [foldl_storeMoved_of_not_mem (ChunkMap.requested_emplaceAll [])]
    exact fun placed _ => List.not_mem_nil
  · exact hloop

/-- Leaving out sections changes nothing. -/
theorem getChunksOfAll_eq (hread : Readable codec file reader) (hmovable : reader.Movable)
    (hsize : reader.originalSize.IsPositive) (positions : List ChunkPos) :
    getChunksOfAll codec file reader air positions =
      .ok ((allPlacements codec file reader air).foldl (reader.storeMoved air)
        (ChunkMap.emplaceAll positions)) := by
  refine foldlM_flatMap_ok (ChunkMap.Requested positions)
    (fun chunks placed hchunks => hchunks.store _) (fun chunks hchunks part hpart => ?_)
    (ChunkMap.requested_emplaceAll positions)
  by_cases hempty : part.1.IsEmpty
  · rw [if_pos hempty, sectionPlacements_of_isEmpty hempty]
    rfl
  · rw [if_neg hempty]
    exact fillSection_of_readable hread hmovable hsize hchunks hpart hempty

/-- The number of blocks that `read` counts for a section. -/
def countedOf (codec : Codec Nbt) (file : File) (palette : List RuntimeId) (unknown air : RuntimeId)
    (part : SectionIndex × ℕ) : ℕ :=
  if part.1.IsEmpty then 0
  else countBlocks palette unknown air part.1 (loadedBlocks codec file part)

theorem putEntity_frame (store : SparseBlockStore Nbt) (cell : BlockPos) (payload : Option Nbt) :
    (store.putEntity cell payload).size = store.size ∧
      (store.putEntity cell payload).offset = store.offset := by
  cases payload <;> exact ⟨rfl, rfl⟩

/-- Block entities do not change the size or the offset. -/
theorem readEntities_frame {store next : SparseBlockStore Nbt}
    (h : readEntities codec minimum content store = .ok next) :
    next.size = store.size ∧ next.offset = store.offset := by
  rw [readEntities] at h
  split at h
  case h_1 =>
    refine @foldlM_ok_rule _ _ _ _
      (fun _ (turn : SparseBlockStore Nbt) => turn.size = store.size ∧ turn.offset = store.offset) _
      (fun done turn item _ after hturn hstep => ?_) [] _ _ ⟨rfl, rfl⟩ h
    obtain ⟨entity, -, hstep⟩ := exists_of_bind_ok hstep
    cases entity with
    | none =>
      cases hstep
      exact hturn
    | some entity =>
      cases hstep
      obtain ⟨hsize, hoffset⟩ := putEntity_frame turn entity.1 (some entity.2)
      exact ⟨hsize.trans hturn.1, hoffset.trans hturn.2⟩
  case h_2 =>
    cases h
    exact ⟨rfl, rfl⟩

/-- What `read` knows after some sections. -/
structure ReadInv (codec : Codec Nbt) (file : File) (palette : List RuntimeId)
    (unknown air : RuntimeId) (size : Size) (done : List (SectionIndex × ℕ))
    (state : SparseBlockStore Nbt × ℕ) : Prop where
  readable : ∀ part ∈ done, ¬ part.1.IsEmpty →
    ∃ opened, openSection codec file " has negative file offset" part.1 part.2 = .ok opened
  counted : state.2 = (done.map (countedOf codec file palette unknown air)).sum
  size : state.1.size = size
  offset : state.1.offset = ⟨0, 0, 0⟩

theorem ReadInv.step {palette : List RuntimeId} {unknown air : RuntimeId} {done : List (SectionIndex × ℕ)}
    {state next : SparseBlockStore Nbt × ℕ} (h : ReadInv codec file palette unknown air size done state)
    (hstep : readSection codec file air minimum palette unknown state part = .ok next) :
    ReadInv codec file palette unknown air size (done ++ [part]) next := by
  rw [readSection] at hstep
  split_ifs at hstep with hempty
  · cases hstep
    refine ⟨fun other hother hother' => ?_, ?_, h.size, h.offset⟩
    · rcases List.mem_append.mp hother with hdone | hlast
      · exact h.readable other hdone hother'
      · exact absurd (List.mem_singleton.mp hlast ▸ hempty) hother'
    · rw [List.map_append, List.sum_append, List.map_singleton, List.sum_singleton, countedOf,
        if_pos hempty, Nat.add_zero, h.counted]
  · obtain ⟨opened, hopened, hstep⟩ := exists_of_bind_ok hstep
    obtain ⟨store, hstore, hstep⟩ := exists_of_bind_ok hstep
    cases hstep
    obtain ⟨hsize, hoffset⟩ := readEntities_frame hstore
    have hreopened : openSection codec file " has negative file offset" part.1 part.2 = .ok opened :=
      openSection_congr hopened
    refine ⟨fun other hother hother' => ?_, ?_, hsize.trans h.size, hoffset.trans h.offset⟩
    · rcases List.mem_append.mp hother with hdone | hlast
      · exact h.readable other hdone hother'
      · rw [List.mem_singleton.mp hlast]
        exact ⟨opened, hreopened⟩
    · rw [List.map_append, List.sum_append, List.map_singleton, List.sum_singleton, countedOf,
        if_neg hempty, loadedBlocks, if_neg hempty, hreopened, h.counted]
      rfl

theorem readSize_ok {bounds : Bounds} (h : readSize bounds = .ok size) : size.IsPositive := by
  rw [readSize] at h
  obtain ⟨hpositive, h⟩ := exists_of_guard_ok h
  obtain ⟨volume, -, h⟩ := exists_of_bind_ok h
  cases h
  rw [Size.IsPositive]
  dsimp only
  omega

/-- What is known of a file that has been read. -/
structure IsRead (codec : Codec Nbt) (file : File) (air : RuntimeId) (reader : ConstructionReader Nbt) :
    Prop where
  positive : reader.originalSize.IsPositive
  readable : Readable codec file reader
  counted : reader.nonAirBlocks = (reader.sections.zipIdx.map
    (countedOf codec file reader.palette reader.unknownRuntime air)).sum
  size : reader.store.size = reader.originalSize
  offset : reader.store.offset = ⟨0, 0, 0⟩

theorem read_ok {registry registry' : StateRegistry} (h : read codec registry file = .ok (reader, registry')) :
    IsRead codec file registry'.airRuntimeId reader := by
  rw [read] at h
  obtain ⟨metadata, -, h⟩ := exists_of_bind_ok h
  obtain ⟨raw, -, h⟩ := exists_of_bind_ok h
  obtain ⟨items, -, h⟩ := exists_of_bind_ok h
  obtain ⟨sections, -, h⟩ := exists_of_bind_ok h
  obtain ⟨bounds, -, h⟩ := exists_of_bind_ok h
  obtain ⟨size, hsize, h⟩ := exists_of_bind_ok h
  obtain ⟨palette, -, h⟩ := exists_of_bind_ok h
  obtain ⟨state, hstate, h⟩ := exists_of_bind_ok h
  cases h
  have hinv := @foldlM_ok_rule _ _ _ _
    (ReadInv codec file palette.1 (Construction.unknownRuntime palette.2).1
      (Construction.unknownRuntime palette.2).2.airRuntimeId size) _
    (fun done turn part _ next hturn hstep => hturn.step hstep) [] _ _
    ⟨fun part hpart => absurd hpart List.not_mem_nil, rfl, rfl, rfl⟩ hstate
  exact ⟨readSize_ok hsize, hinv.readable, hinv.counted, hinv.size, hinv.offset⟩

/-- Every cell of a requested chunk shows the last of the blocks that fall on it, whichever other chunks
are requested, and leaving out the sections that meet no requested chunk changes nothing. -/
theorem read_materialize {codec : Codec Nbt} {registry registry' : StateRegistry} {file : File}
    (h : read codec registry file = .ok (reader, registry')) {offset : BlockPos}
    (hoffset : (reader.setOffset offset).Movable) (air : RuntimeId) (positions : List ChunkPos) :
    ∃ chunks, getChunks codec file (reader.setOffset offset) air positions = .ok chunks ∧
      getChunksOfAll codec file (reader.setOffset offset) air positions = .ok chunks ∧
      ∀ pos, chunks.blockAt air pos =
        if blockToChunk pos ∈ positions then
          some ((lastValue (fun placed : BlockPos × RuntimeId =>
            if placed.1.add offset = pos then some placed.2 else none)
            (allPlacements codec file reader air)).getD air)
        else none := by
  have hread := read_ok h
  have hpositive : (reader.setOffset offset).originalSize.IsPositive := hread.positive
  have hreadable : Readable codec file (reader.setOffset offset) := hread.readable
  refine ⟨_, getChunks_eq hreadable hoffset hpositive positions,
    getChunksOfAll_eq hreadable hoffset hpositive positions, fun pos => ?_⟩
  have hstored := @ChunkMap.blockAt_foldl_store_emplaceAll air
    ((allPlacements codec file reader air).map (moved offset)) positions pos
  rw [List.foldl_map, lastValue_map] at hstored
  exact hstored

/-- A text as it stands in a compound, behind its length. -/
def named (text : String) : List UInt8 :=
  [0, UInt8.ofNat text.length] ++ text.toList.map fun c => UInt8.ofNat c.toNat

/-- A section of one block, as it is written. -/
def oneBlock : List UInt8 :=
  [10, 0, 0] ++ [1] ++ named "blocks_array_type" ++ [7] ++ [7] ++ named "blocks" ++ [0, 0, 0, 1, 0] ++ [0]

/-- The metadata of a file with this section and one palette entry. -/
def oneSection : List UInt8 :=
  [10, 0, 0] ++ [7] ++ named "section_index_table" ++ [0, 0, 0, 23] ++
    ([5, 0, 0, 0] ++ List.replicate 8 0 ++ [1, 1, 1] ++ [9, 0, 0, 0] ++ [39, 0, 0, 0]) ++
    [9] ++ named "block_palette" ++ [10, 0, 0, 0, 1] ++
    ([8] ++ named "namespace" ++ named "minecraft" ++ [8] ++ named "blockname" ++ named "stone" ++ [0]) ++
    [0]

/-- The compounds that these bytes stand for. -/
def oneBlockCodec : Codec Unit where
  decode range _ :=
    if range = oneBlock then
      .ok (SortedMap.ofEntries [("blocks_array_type".toList, .byte 7), ("blocks".toList, .byteArray [0])])
    else if range = oneSection then
      .ok (SortedMap.ofEntries [
        ("section_index_table".toList,
          .byteArray ([5, 0, 0, 0] ++ List.replicate 8 0 ++ [1, 1, 1] ++ [9, 0, 0, 0] ++ [39, 0, 0, 0])),
        ("block_palette".toList, .list .Compound [.compound [
          ("namespace".toList, .string "minecraft".toList),
          ("blockname".toList, .string "stone".toList)]])])
    else .error "Construction NBT parse failed"
  widenFloat _ := 0
  serialize _ := .ok ()

def oneBlockFile : File := kMagic ++ [0] ++ oneBlock ++ oneSection ++ [0, 0, 0, 48] ++ kMagic

theorem oneBlockFile_read : ∃ result, read oneBlockCodec StateRegistry.initial oneBlockFile = .ok result ∧
    result.1.originalSize = ⟨1, 1, 1⟩ := by
  have hsize : ((read oneBlockCodec StateRegistry.initial oneBlockFile).toOption.map
      fun result => result.1.originalSize) = some ⟨1, 1, 1⟩ := by decide +kernel
  cases hread : read oneBlockCodec StateRegistry.initial oneBlockFile with
  | error error =>
    rw [hread] at hsize
    cases hsize
  | ok result =>
    rw [hread] at hsize
    exact ⟨result, rfl, Option.some.inj hsize⟩

theorem oneBlockFile_materialize : ∃ reader registry',
    read oneBlockCodec StateRegistry.initial oneBlockFile = .ok (reader, registry') ∧
      (reader.setOffset ⟨-1, 0, 0⟩).Movable ∧ ∃ chunks,
        getChunks oneBlockCodec oneBlockFile (reader.setOffset ⟨-1, 0, 0⟩) 1 [⟨-1, 0⟩] = .ok chunks ∧
        getChunksOfAll oneBlockCodec oneBlockFile (reader.setOffset ⟨-1, 0, 0⟩) 1 [⟨-1, 0⟩] = .ok chunks ∧
        ∀ pos, chunks.blockAt 1 pos =
          if blockToChunk pos ∈ ([⟨-1, 0⟩] : List ChunkPos) then
            some ((lastValue (fun placed : BlockPos × RuntimeId =>
              if placed.1.add ⟨-1, 0, 0⟩ = pos then some placed.2 else none)
              (allPlacements oneBlockCodec oneBlockFile reader 1)).getD 1)
          else none := by
  obtain ⟨⟨reader, registry'⟩, hread, hsize⟩ := oneBlockFile_read
  have hmovable : (reader.setOffset ⟨-1, 0, 0⟩).Movable := by
    intro pos hpos
    have hbox : (⟨1, 1, 1⟩ : Size).Contains pos := hsize ▸ hpos
    simp only [Size.Contains] at hbox
    simp only [BlockPos.FitsInt32, IsInt32, int32Min, int32Max, setOffset, SparseBlockStore.setOffset,
      BlockPos.add]
    omega
  exact ⟨reader, registry', hread, hmovable, read_materialize hread hmovable 1 [⟨-1, 0⟩]⟩

end ConstructionReader

end WaterStructure
