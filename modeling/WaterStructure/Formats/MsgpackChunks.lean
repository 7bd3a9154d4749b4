import WaterStructure.Core.Grid
import WaterStructure.Formats.Msgpack

/-!
# BDS and NexusNP: the blocks that are kept

Both scans read the same records. The first counts those that are blocks and finds their bounds, and the
second keeps them relative to the bounds. A cell shows the last block that is kept there.
-/

namespace WaterStructure

open LastValue NestedLoop SeekReader

namespace Msgpack

/-- The records of a file. -/
def readRecords (format : MsgpackFormat) : Reader (List Record) := do
  let topSize ← arrayLength "top-level array"
  let blockCount ← arrayLength (if format = .BDS then "BDS blocks" else "NP block_data")
  let records ← repeated (readRecord format) blockCount
  let _ ← repeated (skipValue "top-level extension") (topSize - 1)
  return records

variable {format : MsgpackFormat} {materialize : Bool} {file : File} {position final : ℕ}
  {state next : ScanState}

theorem scanBlocks_ok {count index : ℕ}
    (h : scanBlocks format materialize count index state file position = .ok (next, final)) :
    ∃ records, repeated (readRecord format) count file position = .ok (records, final) ∧
      next = records.foldl (scanRecord format materialize) state := by
  induction count generalizing index position state with
  | zero =>
    cases h
    exact ⟨[], rfl, rfl⟩
  | succ count ih =>
    obtain ⟨record, middle, hrecord, hrest⟩ := exists_of_bind h
    have hread : readRecord format file position = .ok (record, middle) := by
      cases hresult : readRecord format file position with
      | error error =>
        rw [hresult] at hrecord
        cases hrecord
      | ok found =>
        rw [hresult] at hrecord
        exact hrecord
    obtain ⟨records, hrecords, hfold⟩ := ih hrest
    refine ⟨record :: records, ?_, hfold⟩
    rw [repeated, bind_of_ok hread, bind_of_ok hrecords]
    rfl

/-- A reader that only goes on where a check holds. -/
theorem exists_of_check {α : Type} {condition : Prop} [Decidable condition] {error : String}
    {rest : Reader α} {a : α}
    (h : (if condition then lift (.error error) >>= fun _ : PUnit => rest else rest) file position =
      .ok (a, final)) : rest file position = .ok (a, final) := by
  split at h
  · obtain ⟨_, _, hfail, -⟩ := exists_of_bind h
    cases hfail
  · exact h

/-- A scan goes over the records of the file. -/
theorem scan_ok (h : run file 0 (scan format materialize state) = .ok next) :
    ∃ records, run file 0 (readRecords format) = .ok records ∧
      next = records.foldl (scanRecord format materialize) state := by
  obtain ⟨final, h⟩ := run_eq_ok h
  obtain ⟨topSize, _, htop, h⟩ := exists_of_bind h
  have h := exists_of_check h
  obtain ⟨blockCount, _, hcount, h⟩ := exists_of_bind h
  have h := exists_of_check h
  obtain ⟨scanned, _, hscanned, h⟩ := exists_of_bind h
  obtain ⟨skipped, _, hskipped, h⟩ := exists_of_bind h
  cases h
  obtain ⟨records, hrecords, hfold⟩ := scanBlocks_ok hscanned
  refine ⟨records, @run_of_ok _ _ _ final _ _ ?_, hfold⟩
  rw [readRecords, bind_of_ok htop, bind_of_ok hcount, bind_of_ok hrecords, bind_of_ok hskipped]
  rfl

/-- The place of a record that is a block, relative to a corner. -/
def keptPositions (corner : BlockPos) (records : List Record) : List BlockPos :=
  (records.filter fun record => record.IsBlock).map fun record => record.pos.sub corner

/-- What the first scan knows of the records that it has seen. -/
structure Bounded (done : List Record) (state : ScanState) : Prop where
  counted : state.nonAirBlocks = done.countP fun record => record.IsBlock
  blocks : state.blocks = []
  populated : ∀ record ∈ done, record.IsBlock → state.populated = true
  within : ∀ record ∈ done, record.IsBlock →
    (state.minimum.x ≤ record.pos.x ∧ record.pos.x ≤ state.maximum.x) ∧
      (state.minimum.y ≤ record.pos.y ∧ record.pos.y ≤ state.maximum.y) ∧
      state.minimum.z ≤ record.pos.z ∧ record.pos.z ≤ state.maximum.z

/-- The bounds hold the new position, and what they held before. -/
theorem addBounds_within (state : ScanState) (pos : BlockPos) :
    let wide := state.addBounds pos
    wide.populated = true ∧ wide.blocks = state.blocks ∧ wide.nonAirBlocks = state.nonAirBlocks ∧
      ((wide.minimum.x ≤ pos.x ∧ pos.x ≤ wide.maximum.x) ∧
        (wide.minimum.y ≤ pos.y ∧ pos.y ≤ wide.maximum.y) ∧
        wide.minimum.z ≤ pos.z ∧ pos.z ≤ wide.maximum.z) ∧
      (state.populated = true → (wide.minimum.x ≤ state.minimum.x ∧
        wide.minimum.y ≤ state.minimum.y ∧ wide.minimum.z ≤ state.minimum.z) ∧
        state.maximum.x ≤ wide.maximum.x ∧ state.maximum.y ≤ wide.maximum.y ∧
        state.maximum.z ≤ wide.maximum.z) := by
  rw [ScanState.addBounds]
  split
  case isTrue hfalse =>
    refine ⟨rfl, rfl, rfl, ⟨⟨le_rfl, le_rfl⟩, ⟨le_rfl, le_rfl⟩, le_rfl, le_rfl⟩, fun htrue => ?_⟩
    rw [hfalse] at htrue
    cases htrue
  case isFalse htrue =>
    refine ⟨Bool.not_eq_false _ ▸ htrue, rfl, rfl, ?_, fun _ => ?_⟩ <;> dsimp only <;> omega

theorem Bounded.step {done : List Record} (h : Bounded done state) (record : Record) :
    Bounded (done ++ [record]) (scanRecord format false state record) := by
  rw [scanRecord]
  by_cases hblock : record.IsBlock
  · rw [if_neg (not_not_intro hblock), if_pos rfl]
    obtain ⟨hpopulated, hblocks, hcount, hpos, hwider⟩ := addBounds_within state record.pos
    refine ⟨?_, hblocks.trans h.blocks, fun _ _ _ => hpopulated, fun other hother hother' => ?_⟩
    · rw [List.countP_append, List.countP_singleton, if_pos (decide_eq_true hblock), ← h.counted]
      exact congrArg (· + 1) hcount
    · rcases List.mem_append.mp hother with hdone | hlast
      · have hold := h.within other hdone hother'
        have hwide := hwider (h.populated other hdone hother')
        dsimp only at hwide ⊢
        omega
      · rw [List.mem_singleton.mp hlast]
        exact hpos
  · rw [if_pos hblock]
    have hcase {P : Prop} {other : Record} (hother : other ∈ done ++ [record]) (hother' : other.IsBlock)
        (hdone : other ∈ done → P) : P := by
      rcases List.mem_append.mp hother with hmem | hlast
      · exact hdone hmem
      · exact absurd (List.mem_singleton.mp hlast ▸ hother') hblock
    refine ⟨?_, h.blocks, fun other hother hother' => ?_, fun other hother hother' => ?_⟩
    · rw [List.countP_append, List.countP_singleton, if_neg (by rwa [decide_eq_true_eq]), Nat.add_zero,
        h.counted]
    · exact hcase hother hother' fun hdone => h.populated other hdone hother'
    · exact hcase hother hother' fun hdone => h.within other hdone hother'

theorem bounded_foldl (format : MsgpackFormat) (registry : MappingRegistry) (records : List Record) :
    Bounded records (records.foldl (scanRecord format false) { registry }) := by
  suffices hall : ∀ rest done state, Bounded done state →
      Bounded (done ++ rest) (rest.foldl (scanRecord format false) state) from
    hall records [] _ ⟨rfl, rfl, fun _ hrecord => absurd hrecord List.not_mem_nil,
      fun _ hrecord => absurd hrecord List.not_mem_nil⟩
  intro rest
  induction rest with
  | nil =>
    intro done state h
    rwa [List.append_nil]
  | cons record rest ih =>
    intro done state h
    rw [List.append_cons]
    exact ih (done ++ [record]) _ (h.step record)

/-- The second scan keeps the blocks, relative to the bounds. -/
theorem secondScan (format : MsgpackFormat) (records : List Record) (state : ScanState) :
    (records.foldl (scanRecord format true) state).nonAirBlocks = state.nonAirBlocks ∧
      (records.foldl (scanRecord format true) state).blocks.map Block.pos =
        state.blocks.map Block.pos ++ keptPositions state.minimum records := by
  induction records generalizing state with
  | nil => exact ⟨rfl, (List.append_nil _).symm⟩
  | cons record rest ih =>
    rw [List.foldl_cons]
    obtain ⟨hcount, hpositions⟩ := ih (scanRecord format true state record)
    have hkept : keptPositions state.minimum (record :: rest) =
        (if record.IsBlock then [record.pos.sub state.minimum] else []) ++
          keptPositions state.minimum rest := by
      simp only [keptPositions, List.filter_cons, decide_eq_true_eq]
      split <;> rfl
    rw [hcount, hpositions, hkept]
    by_cases hblock : record.IsBlock
    · have hstep : ∃ runtime registry, scanRecord format true state record =
          { state with
            blocks := state.blocks ++ [⟨record.pos.sub state.minimum, runtime⟩]
            registry } := by
        rw [scanRecord, if_neg (not_not_intro hblock), if_neg (by decide)]
        exact ⟨_, _, rfl⟩
      obtain ⟨runtime, registry, hstep⟩ := hstep
      rw [hstep, if_pos hblock, List.map_append, List.append_assoc]
      exact ⟨rfl, rfl⟩
    · rw [scanRecord, if_pos hblock, if_neg hblock]
      exact ⟨rfl, rfl⟩

end Msgpack

namespace MsgpackStructure

open Msgpack

variable {object : MsgpackStructure}

/-- What is known of a file that has been read. -/
structure IsRead (file : File) (object : MsgpackStructure) (records : List Record) : Prop where
  recordsRead : run file 0 (readRecords object.format) = .ok records
  counted : object.nonAirBlocks = records.countP fun record => record.IsBlock
  kept : ∃ corner, object.blocks.map Block.pos = keptPositions corner records
  inside : ∀ block ∈ object.blocks, object.size.Contains block.pos
  offset : object.offset = ⟨0, 0, 0⟩

theorem read_ok {registry registry' : MappingRegistry} {format : MsgpackFormat} {file : File}
    (h : read registry format file = .ok (object, registry')) :
    object.format = format ∧ ∃ records, IsRead file object records := by
  rw [read] at h
  obtain ⟨-, h⟩ := exists_of_guard_ok h
  obtain ⟨first, hfirst, h⟩ := exists_of_bind_ok h
  obtain ⟨-, h⟩ := exists_of_guard_ok h
  obtain ⟨-, h⟩ := exists_of_guard_ok h
  obtain ⟨second, hsecond, h⟩ := exists_of_bind_ok h
  obtain ⟨records, hrecords, rfl⟩ := scan_ok hfirst
  obtain ⟨records', hrecords', rfl⟩ := scan_ok hsecond
  cases hrecords.symm.trans hrecords'
  have hbounded := bounded_foldl format registry records
  obtain ⟨hcount, hpositions⟩ := secondScan format records
    (records.foldl (scanRecord format false) { registry })
  rw [hbounded.blocks, List.map_nil, List.nil_append] at hpositions
  cases h
  refine ⟨rfl, records, hrecords, hcount.trans hbounded.counted, ⟨_, hpositions⟩, fun block hblock => ?_,
    rfl⟩
  have hkept := hpositions ▸ List.mem_map_of_mem hblock
  obtain ⟨record, hrecord, hpos⟩ := List.mem_map.mp hkept
  obtain ⟨hmem, hisBlock⟩ := List.mem_filter.mp hrecord
  have hwithin := hbounded.within record hmem (of_decide_eq_true hisBlock)
  rw [← hpos]
  simp only [Size.Contains, BlockPos.sub]
  omega

variable {air : RuntimeId} {chunkPosition : ChunkPos} {chunk : ChunkData}

/-- A block is stored in its chunk. -/
theorem placeBlock_ok {next : ChunkData} {block : Block} (hlayout : chunk.layout = .Internal)
    (hplace : blockToChunk (block.pos.add object.offset) = chunkPosition)
    (h : object.placeBlock air chunkPosition chunk block = .ok next) :
    next.layout = .Internal ∧ ∀ pos, blockToChunk pos = chunkPosition →
      next.blockAt air pos =
        if block.pos.add object.offset = pos then block.runtime else chunk.blockAt air pos := by
  rw [placeBlock] at h
  dsimp only at h
  obtain ⟨_, h⟩ := else_of_ok h
  obtain ⟨_, h⟩ := else_of_ok h
  have hset : next = chunk.setAt air (block.pos.add object.offset) block.runtime := by
    cases h
    rw [ChunkData.setAt, hlayout, ← hplace, blockToChunk]
    simp only [floorDiv64_sixteen, floorDiv_sixteen, floorMod_sixteen, BlockLayerLayout.index,
      kOverworldMinY, Int.emod_def]
    have hsub : (block.pos.add object.offset).y + -64 = (block.pos.add object.offset).y - 64 := rfl
    rw [hsub]
    congr 2
    omega
  rw [hset]
  refine ⟨hlayout, fun pos hpos => ?_⟩
  rw [ChunkData.blockAt_setAt chunk air block.runtime (hplace.trans hpos.symm)]
  exact if_congr eq_comm rfl rfl

/-- The blocks of a chunk by the index, in file order. -/
theorem lookup_chunkIndex (chunkPosition : ChunkPos) :
    (object.chunkIndex.lookup chunkPosition).getD [] =
      (object.blocks.zipIdx.filter fun entry =>
        blockToChunk (entry.1.pos.add object.offset) = chunkPosition).map Prod.snd := by
  have hpush := AssocMap.lookup_foldl_pushBack (object.blocks.zipIdx.map fun entry =>
    (blockToChunk (entry.1.pos.add object.offset), entry.2)) ∅ chunkPosition
  rw [List.foldl_map, AList.lookup_empty, Option.getD_none, List.nil_append, List.filter_map,
    List.map_map] at hpush
  exact hpush

/-- A chunk shows of every cell the last block that is kept there. -/
theorem fillChunk_ok (h : object.fillChunk air chunkPosition {} = .ok chunk) {pos : BlockPos}
    (hpos : blockToChunk pos = chunkPosition) :
    chunk.blockAt air pos = (lastValue (fun block : Block =>
      if block.pos.add object.offset = pos then some block.runtime else none) object.blocks).getD air := by
  rw [fillChunk, lookup_chunkIndex, List.foldlM_map] at h
  have hloop := @foldlM_observe_ok _ _ _ _ (fun chunk : ChunkData => chunk.blockAt air pos)
    (fun entry : Block × ℕ =>
      if entry.1.pos.add object.offset = pos then some entry.1.runtime else none) _
    (fun chunk => chunk.layout = .Internal) _ (fun chunk' hchunk' entry hentry next hnext => by
      obtain ⟨hmem, hplace⟩ := List.mem_filter.mp hentry
      rw [List.mem_zipIdx_iff_getElem?.mp hmem] at hnext
      obtain ⟨hinner, hblocks⟩ := placeBlock_ok hchunk' (of_decide_eq_true hplace) hnext
      refine ⟨hinner, ?_⟩
      rw [hblocks pos hpos]
      split <;> rfl) _ _ rfl h
  have hfilter := @lastValue_filter _ _ (fun entry : Block × ℕ =>
      if entry.1.pos.add object.offset = pos then some entry.1.runtime else none)
    (fun entry => decide (blockToChunk (entry.1.pos.add object.offset) = chunkPosition))
    object.blocks.zipIdx fun entry _ hentry => if_neg fun hcell =>
      absurd (hcell ▸ hpos) (of_decide_eq_false hentry)
  rw [hloop.2, hfilter, ← lastValue_map (fun block : Block =>
    if block.pos.add object.offset = pos then some block.runtime else none) Prod.fst,
    List.zipIdx_map_fst]
  rfl

/-- A requested chunk shows of every cell the last block that is kept there. -/
theorem getChunks_ok {positions : List ChunkPos} {chunks : ChunkMap}
    (h : object.getChunks air positions = .ok chunks) (pos : BlockPos) : chunks.blockAt air pos =
      if blockToChunk pos ∈ positions then
        some ((lastValue (fun block : Block =>
          if block.pos.add object.offset = pos then some block.runtime else none) object.blocks).getD air)
      else none := by
  rw [getChunks] at h
  obtain ⟨_, h⟩ := else_of_ok h
  obtain ⟨-, h⟩ := else_of_ok h
  obtain ⟨found, hfound, hlookup⟩ := @ChunkMap.forEachM_emplaceAll positions (object.fillChunk air)
    fun position hposition => ChunkMap.exists_of_forEachM_emplaceAll h hposition
  cases hfound.symm.trans h
  rw [ChunkMap.blockAt, hlookup]
  by_cases hpos : blockToChunk pos ∈ positions
  · obtain ⟨chunk, hchunk⟩ := ChunkMap.exists_of_forEachM_emplaceAll h hpos
    rw [if_pos hpos, if_pos hpos, hchunk]
    exact congrArg some (fillChunk_ok hchunk rfl)
  · rw [if_neg hpos, if_neg hpos, Option.map_none]

end MsgpackStructure

end WaterStructure
