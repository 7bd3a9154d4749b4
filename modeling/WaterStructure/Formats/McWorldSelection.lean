import WaterStructure.Formats.McWorld

/-!
# MCWorld: what a request shows

A request gives the selected cells of the world at their place in the selection, moved by the offset.
Whole subchunks and single cells are copied to the same effect. A request that starts with an empty
cache is one that loads every chunk anew.
-/

namespace WaterStructure.McWorldStructure

open LastValue NestedLoop StatefulRun

variable {s : McWorldStructure} {world : StoredWorld} {air : RuntimeId} {includeLayer1 : Bool}

/-- What loading a chunk of the world gives. -/
def loaded (s : McWorldStructure) (world : StoredWorld) (air : RuntimeId) (includeLayer1 : Bool)
    (pos : ChunkPos) : ChunkData :=
  world.loadChunkRange air pos (floorDiv s.min.y 16) (floorDiv s.max.y 16) includeLayer1

/-- One turn without a cache. -/
def plainTurn (s : McWorldStructure) (world : StoredWorld) (air : RuntimeId) (includeLayer1 : Bool)
    (result : ChunkMap) (turn : ChunkPos × Task) : ChunkMap :=
  AssocMap.update result turn.1
    (s.perform air includeLayer1 (s.loaded world air includeLayer1 turn.2.source) turn.2)

/-- The result of a request without a cache. -/
def plainChunks (s : McWorldStructure) (world : StoredWorld) (air : RuntimeId) (includeLayer1 : Bool)
    (positions : List ChunkPos) : ChunkMap :=
  (s.allTasks positions).foldl (s.plainTurn world air includeLayer1) (ChunkMap.emplaceAll positions)

variable {result result' : ChunkMap} {task : Task} {index : ℕ} {output : ChunkData}

/-- Turns agree with turns without a cache if their loads do. -/
theorem agrees_turns {Inv : ChunkCache → Prop} {R : ChunkData → ChunkData → Prop}
    {RM : ChunkMap → ChunkMap → Prop} {turns : List (ChunkPos × Task)}
    (hsource : ∀ turn ∈ turns, Agrees Inv R (s.sourceChunk air includeLayer1 turn.2.source)
      (.ok (s.loaded world air includeLayer1 turn.2.source)))
    (hperform : ∀ source source' task pos result result', R source source' → RM result result' →
      RM (AssocMap.update result pos (s.perform air includeLayer1 source task))
        (AssocMap.update result' pos (s.perform air includeLayer1 source' task)))
    (hresult : RM result result') :
    Agrees Inv RM (loop (s.runTurn air includeLayer1) turns result)
      (.ok (turns.foldl (s.plainTurn world air includeLayer1) result')) := by
  have hplain : (Except.ok (turns.foldl (s.plainTurn world air includeLayer1) result') :
      Except String ChunkMap) = turns.foldlM (fun result turn =>
        Except.ok (s.loaded world air includeLayer1 turn.2.source) >>= fun source =>
          .ok (AssocMap.update result turn.1 (s.perform air includeLayer1 source turn.2))) result' :=
    (foldlM_ok (fun _ _ _ => rfl) _).symm
  rw [hplain]
  refine Agrees.loop (fun result result' hresult turn hturn => ?_) hresult
  refine (hsource turn hturn).andThen fun source source' h cache hcache => ?_
  exact ⟨.ok (hperform _ _ _ _ _ _ h hresult), hcache⟩

variable {source : ChunkData} {secondary : Bool} {position : ChunkPos} {chunk : ChunkData}

theorem update_congr {source' : ChunkData} {pos : ChunkPos} (hsource : source = source')
    (hresult : result = result') :
    AssocMap.update result pos (s.perform air includeLayer1 source task) =
      AssocMap.update result' pos (s.perform air includeLayer1 source' task) := by
  rw [hsource, hresult]

/-- Every chunk in the cache was loaded in the same way. -/
def Keeps (s : McWorldStructure) (world : StoredWorld) (air : RuntimeId) (includeLayer1 : Bool)
    (cache : ChunkCache) : Prop :=
  ∀ pos chunk, cache.chunks.lookup pos = some chunk → chunk = s.loaded world air includeLayer1 pos

theorem agrees_loadSource (hworld : s.world = some world) (pos : ChunkPos) {cache : ChunkCache}
    (hcache : s.Keeps world air includeLayer1 cache) :
    Alike Eq (s.loadSource air includeLayer1 pos cache).1 (.ok (s.loaded world air includeLayer1 pos)) ∧
      s.Keeps world air includeLayer1 (s.loadSource air includeLayer1 pos cache).2 := by
  rw [loadSource, hworld]
  refine ⟨.ok rfl, fun other chunk hchunk => ?_⟩
  dsimp only at hchunk
  rw [AssocMap.lookup_tryEmplace] at hchunk
  split_ifs at hchunk with hsame
  · subst hsame
    cases hold : cache.chunks.lookup other with
    | none =>
      rw [hold] at hchunk
      exact (Option.some.inj hchunk).symm
    | some old =>
      rw [hold] at hchunk
      cases hchunk
      exact hcache other old hold
  · exact hcache other chunk hchunk

theorem agrees_sourceChunk (hworld : s.world = some world) (pos : ChunkPos) :
    Agrees (s.Keeps world air includeLayer1) Eq (s.sourceChunk air includeLayer1 pos)
      (.ok (s.loaded world air includeLayer1 pos)) := by
  intro cache hcache
  rw [sourceChunk]
  cases hfound : cache.chunks.lookup pos with
  | none => exact agrees_loadSource hworld pos hcache
  | some chunk =>
    dsimp only
    split
    · exact ⟨.ok (hcache pos chunk hfound), hcache⟩
    · refine agrees_loadSource hworld pos fun other chunk hchunk => ?_
      by_cases hsame : other = pos
      · subst hsame
        rw [AList.lookup_erase] at hchunk
        cases hchunk
      · rw [AList.lookup_erase_ne hsame] at hchunk
        exact hcache other chunk hchunk

/-- The first request loads everything anew. -/
theorem getChunksImpl_empty (hworld : s.world = some world) (positions : List ChunkPos) :
    (s.getChunksImpl air includeLayer1 positions {}).1 =
      .ok (s.plainChunks world air includeLayer1 positions) := by
  have hagrees : Agrees (s.Keeps world air includeLayer1) Eq
      (s.getChunksImpl air includeLayer1 positions)
      (.ok (s.plainChunks world air includeLayer1 positions)) :=
    agrees_turns (fun turn _ => agrees_sourceChunk hworld _)
      (fun _ _ _ _ _ _ => update_congr) rfl
  exact (hagrees {} fun pos chunk h => nomatch h).1.eq

/-- A structure that was opened with a selection, under an offset. -/
structure Opened (s : McWorldStructure) (world : StoredWorld) : Prop where
  world : s.world = some world
  size : s.size = ⟨s.originalSize.width + |s.offset.x|, s.originalSize.height + |s.offset.y|,
    s.originalSize.length + |s.offset.z|⟩
  originalSize : s.originalSize =
    ⟨s.max.x - s.min.x + 1, s.max.y - s.min.y + 1, s.max.z - s.min.z + 1⟩

theorem opened_read (world : StoredWorld) (first second offset : BlockPos) :
    ((read world first second).setOffset offset).Opened world := ⟨rfl, rfl, rfl⟩

/-- The cell of the world that a cell of the structure shows. -/
def worldPos (s : McWorldStructure) (pos : BlockPos) : BlockPos :=
  ⟨s.min.x + (pos.x - s.offset.x), s.min.y + (pos.y - s.offset.y), s.min.z + (pos.z - s.offset.z)⟩

/-- The id that a request shows. -/
def selected (s : McWorldStructure) (world : StoredWorld) (air : RuntimeId) (secondary : Bool)
    (pos : BlockPos) : RuntimeId :=
  if s.size.Contains pos ∧ s.originalSize.Contains (pos.sub s.offset) then
    world.cell air secondary (s.worldPos pos)
  else air

/-- The chunk shows the selection. -/
def Shows (s : McWorldStructure) (world : StoredWorld) (air : RuntimeId) (includeLayer1 : Bool)
    (position : ChunkPos) (chunk : ChunkData) : Prop :=
  chunk.layout = .Internal ∧ ∀ secondary, (secondary = true → includeLayer1 = true) →
    ∀ pos, blockToChunk pos = position →
      chunk.idAt air secondary pos = s.selected world air secondary pos

/-- The rows of the output. -/
def InRows (s : McWorldStructure) (subY : ℤ) : Prop :=
  floorDiv (-64) 16 ≤ subY ∧ subY ≤ floorDiv (s.size.height - 1 - 64) 16

instance (s : McWorldStructure) (subY : ℤ) : Decidable (s.InRows subY) :=
  inferInstanceAs (Decidable (_ ∧ _))

/-- Whole subchunks are added where there is none yet. -/
theorem lookup_copySubChunks (source output : ChunkData) (subY : ℤ) :
    (s.copySubChunks air includeLayer1 source output).subChunks.lookup subY =
      (output.subChunks.lookup subY).or
        ((source.subChunks.lookup (subY + floorDiv (s.min.y + 64) 16)).filter fun sub =>
          decide (s.InRows subY) && sub.hasNonAir air includeLayer1) := by
  have hrekey : Function.Injective fun sourceSubY : ℤ => sourceSubY - floorDiv (s.min.y + 64) 16 :=
    sub_left_injective
  have hlookup := AssocMap.lookup_foldl_rekey source.subChunks hrekey (fun sourceSubY sub =>
    decide (s.InRows (sourceSubY - floorDiv (s.min.y + 64) 16)) && sub.hasNonAir air includeLayer1)
    output.subChunks (subY + floorDiv (s.min.y + 64) 16)
  rw [add_sub_cancel_right] at hlookup
  rw [← hlookup, copySubChunks]
  dsimp only
  rw [foldl_congr fun result entry _ => ?_]
  have hkeep : (decide (s.InRows (entry.1 - floorDiv (s.min.y + 64) 16)) &&
      entry.2.hasNonAir air includeLayer1) = true ↔
        ¬ (entry.1 - floorDiv (s.min.y + 64) 16 < floorDiv (-64) 16 ∨
          entry.1 - floorDiv (s.min.y + 64) 16 > floorDiv (s.size.height - 1 - 64) 16 ∨
            entry.2.hasNonAir air includeLayer1 = false) := by
    rw [Bool.and_eq_true, decide_eq_true_eq, InRows, not_or, not_or, not_lt, not_lt, and_assoc,
      Bool.not_eq_false]
  split
  case isTrue hskip => exact (if_neg fun h => hkeep.mp h hskip).symm
  case isFalse hskip => exact (if_pos (hkeep.mpr hskip)).symm

/-- A subchunk that is left out is air. -/
theorem layer_of_not_hasNonAir {sub : SubChunkData} (h : sub.hasNonAir air includeLayer1 = false)
    (hlayer : secondary = true → includeLayer1 = true) (hindex : index < 4096) :
    sub.layer secondary index = air := by
  rw [SubChunkData.hasNonAir, Bool.or_eq_false_iff, Bool.and_eq_false_iff] at h
  have hmem : index ∈ List.range 4096 := List.mem_range.mpr hindex
  cases secondary with
  | false =>
    have hnone := List.any_eq_false.mp h.1 index hmem
    simpa [SubChunkData.layer] using hnone
  | true =>
    rcases h.2 with hlayer1 | hair
    · rw [hlayer rfl] at hlayer1
      cases hlayer1
    · have hnone := List.any_eq_false.mp hair index hmem
      simpa [SubChunkData.layer] using hnone

/-- A row that is not there yet is copied from the world. -/
theorem layer_copied {subY : ℤ} (hnone : output.subChunks.lookup subY = none) (hrow : s.InRows subY)
    (hlayer : secondary = true → includeLayer1 = true) (hindex : index < 4096) :
    (s.copySubChunks air includeLayer1 source output).layerAt air secondary subY index =
      source.layerAt air secondary (subY + floorDiv (s.min.y + 64) 16) index := by
  rw [ChunkData.layerAt, ChunkData.layerAt, lookup_copySubChunks, hnone, Option.none_or,
    decide_eq_true hrow]
  simp only [Bool.true_and]
  cases source.subChunks.lookup (subY + floorDiv (s.min.y + 64) 16) with
  | none => rfl
  | some sub =>
    cases hblocks : sub.hasNonAir air includeLayer1 with
    | true => simp [Option.filter, hblocks]
    | false => simp [Option.filter, hblocks, layer_of_not_hasNonAir hblocks hlayer hindex]

/-- The chunk is taken from the world as a whole. -/
def IsAligned (s : McWorldStructure) (position : ChunkPos) : Prop :=
  s.AlignedFastPath ∧ position.x ≥ 0 ∧ position.z ≥ 0 ∧ position.x < s.size.width.tdiv 16 ∧
    position.z < s.size.length.tdiv 16

/-- A cell of such a chunk is selected if its row is one of the output. -/
theorem selected_of_aligned (h : s.Opened world) {pos : BlockPos}
    (haligned : s.IsAligned (blockToChunk pos)) (secondary : Bool) :
    s.selected world air secondary pos =
      if s.InRows (floorDiv (pos.y - 64) 16) then world.cell air secondary (s.worldPos pos) else air := by
  obtain ⟨⟨hoffset, hx, hy, hz, hheight⟩, hx0, hz0, hxw, hzw⟩ := haligned
  have hsize := h.size
  rw [hoffset] at hsize
  simp only [abs_zero, add_zero] at hsize
  rw [selected, hoffset, hsize]
  refine if_congr ?_ rfl rfl
  obtain ⟨px, py, pz⟩ := pos
  simp only [InRows, Size.Contains, BlockPos.sub, blockToChunk, floorDiv_sixteen, hsize] at *
  have hwidth := Int.mul_tdiv_add_tmod s.originalSize.width 16
  have hlength := Int.mul_tdiv_add_tmod s.originalSize.length 16
  have hheight' := Int.mul_tdiv_add_tmod s.originalSize.height 16
  rw [hheight] at hheight'
  constructor
  · rintro ⟨-, hpos⟩
    omega
  · intro hrow
    have hwlow := Int.lt_tmod_of_pos s.originalSize.width (by decide : (0 : ℤ) < 16)
    have hllow := Int.lt_tmod_of_pos s.originalSize.length (by decide : (0 : ℤ) < 16)
    have hwmod := Int.tmod_nonneg 16 (by omega : 0 ≤ s.originalSize.width)
    have hlmod := Int.tmod_nonneg 16 (by omega : 0 ≤ s.originalSize.length)
    omega

/-- Copying whole subchunks gives the selection. -/
theorem shows_copySubChunks (h : s.Opened world) (haligned : s.IsAligned position)
    (hchunk : chunk = {} ∨ s.Shows world air includeLayer1 position chunk) :
    s.Shows world air includeLayer1 position (s.copySubChunks air includeLayer1
      (s.loaded world air includeLayer1 ⟨floorDiv s.min.x 16 + position.x,
        floorDiv s.min.z 16 + position.z⟩) chunk) := by
  have hlayout : chunk.layout = .Internal := by
    rcases hchunk with rfl | hshows
    · rfl
    · exact hshows.1
  refine ⟨hlayout, fun secondary hlayer pos hpos => ?_⟩
  subst hpos
  rw [ChunkData.idAt, show (s.copySubChunks air includeLayer1 (s.loaded world air includeLayer1
    ⟨floorDiv s.min.x 16 + (blockToChunk pos).x, floorDiv s.min.z 16 + (blockToChunk pos).z⟩)
      chunk).layout = .Internal from hlayout]
  cases hrow : chunk.subChunks.lookup (floorDiv (pos.y - 64) 16) with
  | some sub =>
    -- What an earlier turn has copied stays.
    rcases hchunk with rfl | hshows
    · cases hrow
    · have hsame := hshows.2 secondary hlayer pos rfl
      rw [ChunkData.idAt, hlayout, ChunkData.layerAt, hrow] at hsame
      rw [ChunkData.layerAt, lookup_copySubChunks, hrow, Option.some_or]
      exact hsame
  | none =>
    rw [selected_of_aligned h haligned]
    split_ifs with hin
    · obtain ⟨⟨hoffset, hx, hy, hz, -⟩, -⟩ := haligned
      have hlocal : IsLocal (pos.y - (floorDiv (pos.y - 64) 16 * 16 + 64)) := by
        rw [floorDiv_sixteen, IsLocal]
        omega
      rw [layer_copied hrow hin hlayer (BlockLayerLayout.index_lt _
        (by simpa using isLocal_emod pos.x) hlocal (by simpa using isLocal_emod pos.z))]
      have hrows := h.originalSize
      have hsize := h.size
      have hworld : (⟨floorDiv s.min.x 16 + (blockToChunk pos).x,
          floorDiv s.min.z 16 + (blockToChunk pos).z⟩ : ChunkPos) = blockToChunk (s.worldPos pos) := by
        simp only [blockToChunk, worldPos, hoffset, floorDiv_sixteen, floorMod_sixteen,
          ChunkPos.mk.injEq] at *
        omega
      have hsub : floorDiv (pos.y - 64) 16 + floorDiv (s.min.y + 64) 16 =
          floorDiv (s.worldPos pos).y 16 := by
        simp only [worldPos, hoffset, floorDiv_sixteen, floorMod_sixteen] at *
        omega
      have hindexX : floorMod pos.x 16 = floorMod (s.worldPos pos).x 16 := by
        simp only [worldPos, hoffset, floorMod_sixteen] at *
        omega
      have hindexY : pos.y - (floorDiv (pos.y - 64) 16 * 16 + 64) = floorMod (s.worldPos pos).y 16 := by
        simp only [worldPos, hoffset, floorDiv_sixteen, floorMod_sixteen] at *
        omega
      have hindexZ : floorMod pos.z 16 = floorMod (s.worldPos pos).z 16 := by
        simp only [worldPos, hoffset, floorMod_sixteen] at *
        omega
      rw [hworld, hsub, hindexX, hindexY, hindexZ, loaded]
      refine world.layerAt_loadChunkRange air hlayer _ _ _ ?_
      rw [hoffset, abs_zero, add_zero] at hsize
      simp only [InRows, worldPos, hoffset, hsize, hrows, floorDiv_sixteen, floorMod_sixteen] at *
      omega
    · rw [ChunkData.layerAt, lookup_copySubChunks, hrow, Option.none_or, decide_eq_false hin]
      cases (s.loaded world air includeLayer1 _).subChunks.lookup _ <;> rfl

/-- The columns of a chunk that is not taken as a whole. -/
theorem mem_tasks (hnot : ¬ s.IsAligned position) :
    task ∈ s.tasks position ↔ ∃ localX localZ,
      task = .column localX localZ (s.min.x + (localX - s.offset.x)) (s.min.z + (localZ - s.offset.z)) ∧
        ((0 ≤ localX ∧ localX < s.size.width ∧ floorDiv localX 16 = position.x) ∧
          0 ≤ localX - s.offset.x ∧ localX - s.offset.x < s.originalSize.width) ∧
        (0 ≤ localZ ∧ localZ < s.size.length ∧ floorDiv localZ 16 = position.z) ∧
          0 ≤ localZ - s.offset.z ∧ localZ - s.offset.z < s.originalSize.length := by
  unfold IsAligned at hnot
  rw [tasks, if_neg hnot]
  simp only [List.mem_flatMap, Int.mem_range_iff, floorDiv_sixteen]
  constructor
  · rintro ⟨localX, hx, htask⟩
    split_ifs at htask with hinX
    · cases htask
    · obtain ⟨localZ, hz, htask⟩ := List.mem_filterMap.mp htask
      rw [Int.mem_range_iff] at hz
      obtain ⟨hinZ, htask⟩ := else_of_some htask
      cases htask
      exact ⟨localX, localZ, rfl, by omega, by omega⟩
  · rintro ⟨localX, localZ, rfl, hx, hz⟩
    refine ⟨localX, by omega, ?_⟩
    rw [if_neg (by omega), List.mem_filterMap]
    exact ⟨localZ, Int.mem_range_iff.mpr (by omega), if_neg (by omega)⟩

/-- The id that is copied for a cell of a column, if any. -/
def copiedId (s : McWorldStructure) (air : RuntimeId) (source : ChunkData) (sourceX sourceZ : ℤ)
    (cell : ℤ × Bool) : Option RuntimeId :=
  let originalY := cell.1 - s.offset.y
  if originalY < 0 ∨ originalY ≥ s.originalSize.height then none
  else
    let sourceY := s.min.y + originalY
    let id := source.layerAt air cell.2 (floorDiv sourceY 16)
      (BlockLayerLayout.Internal.index (floorMod sourceX 16) (floorMod sourceY 16) (floorMod sourceZ 16))
    if id = air then none else some id

/-- Copying a cell stores its id at the place of the cell. -/
theorem copyCell_eq (houtput : output.layout = .Internal) (localX localZ sourceX sourceZ : ℤ)
    (cell : ℤ × Bool) :
    s.copyCell air includeLayer1 source localX localZ sourceX sourceZ output cell =
      match s.copiedId air source sourceX sourceZ cell with
      | none => output
      | some id =>
        output.setIdAt (freshSubChunk air includeLayer1) cell.2 ⟨localX, cell.1, localZ⟩ id := by
  rw [copyCell, copiedId]
  dsimp only
  split
  · rfl
  · rw [ChunkData.layerAt]
    cases source.subChunks.lookup (floorDiv (s.min.y + (cell.1 - s.offset.y)) 16) with
    | none =>
      dsimp only
      rw [if_pos rfl]
    | some sub =>
      by_cases hid : sub.layer cell.2 (BlockLayerLayout.Internal.index (floorMod sourceX 16)
          (floorMod (s.min.y + (cell.1 - s.offset.y)) 16) (floorMod sourceZ 16)) = air
      · rw [if_pos hid]
        exact if_pos hid
      · rw [if_neg hid]
        refine (if_neg hid).trans ?_
        dsimp only
        rw [ChunkData.setIdAt, houtput]
        rfl

theorem mem_columnCells {cell : ℤ × Bool} : cell ∈ s.columnCells includeLayer1 ↔
    (0 ≤ cell.1 ∧ cell.1 < s.size.height) ∧ (cell.2 = true → includeLayer1 = true) := by
  obtain ⟨y, secondary⟩ := cell
  simp only [columnCells, List.mem_flatMap, List.mem_map, Int.mem_range_iff, Prod.mk.injEq]
  constructor
  · rintro ⟨y, hy, layer, hlayer, rfl, rfl⟩
    refine ⟨hy, fun hsecondary => ?_⟩
    cases includeLayer1 with
    | true => rfl
    | false =>
      rw [if_neg Bool.false_ne_true, List.mem_singleton] at hlayer
      rw [hlayer] at hsecondary
      cases hsecondary
  · rintro ⟨hy, hlayer⟩
    refine ⟨y, hy, secondary, ?_, rfl, rfl⟩
    cases includeLayer1 <;> cases secondary <;> simp at hlayer ⊢

/-- A column that is copied changes its cells. -/
theorem idAt_perform_column {output : ChunkData} (houtput : output.layout = .Internal)
    (source : ChunkData) {localX localZ : ℤ} (sourceX sourceZ : ℤ) {pos : BlockPos}
    (hchunk : blockToChunk ⟨localX, 0, localZ⟩ = blockToChunk pos) {secondary : Bool}
    (hlayer : secondary = true → includeLayer1 = true) :
    let result := s.perform air includeLayer1 source (.column localX localZ sourceX sourceZ) output
    result.layout = .Internal ∧ result.idAt air secondary pos =
      if (localX = pos.x ∧ localZ = pos.z) ∧ 0 ≤ pos.y ∧ pos.y < s.size.height then
        (s.copiedId air source sourceX sourceZ (pos.y, secondary)).getD (output.idAt air secondary pos)
      else output.idAt air secondary pos := by
  intro result
  have hfresh (index : ℕ) : (freshSubChunk air includeLayer1).layer secondary index = air := by
    cases secondary with
    | false => rfl
    | true => simp [SubChunkData.layer, freshSubChunk, hlayer rfl]
  obtain ⟨hlayout, hid⟩ := @ChunkData.idAt_foldl (ℤ × Bool) _ output air
    (freshSubChunk air includeLayer1) (s.columnCells includeLayer1) Prod.snd
    (fun cell => ⟨localX, cell.1, localZ⟩) _ secondary pos hfresh
    (fun chunk hchunk cell _ => copyCell_eq (hchunk.trans houtput) localX localZ sourceX sourceZ cell)
    (fun cell _ => hchunk)
  refine ⟨hlayout.trans houtput, hid.trans ?_⟩
  split_ifs with hin
  · obtain ⟨⟨rfl, rfl⟩, hy⟩ := hin
    rw [lastValue_of_unique (b := (pos.y, secondary)) (mem_columnCells.mpr ⟨hy, hlayer⟩)]
    · rw [if_pos ⟨rfl, rfl⟩]
    · intro cell _ hne
      refine if_neg fun h => hne ?_
      rw [h.1, h.2]
  · rw [lastValue_eq_none.mpr, Option.getD_none]
    intro cell hcell
    refine if_neg fun h => hin ?_
    rw [h.2]
    exact ⟨⟨rfl, rfl⟩, (mem_columnCells.mp hcell).1⟩

/-- The column that shows a cell. -/
def columnOf (s : McWorldStructure) (pos : BlockPos) : Task :=
  .column pos.x pos.z (s.worldPos pos).x (s.worldPos pos).z

/-- What the columns of a chunk store in a cell. -/
theorem idAt_columns {tasks : List Task} {output : ChunkData} (houtput : output.layout = .Internal)
    {source : Task → ChunkData} {pos : BlockPos} (hcolumns : ∀ task ∈ tasks, ∃ localX localZ,
      task = .column localX localZ (s.min.x + (localX - s.offset.x)) (s.min.z + (localZ - s.offset.z)) ∧
        blockToChunk ⟨localX, 0, localZ⟩ = blockToChunk pos) {secondary : Bool}
    (hlayer : secondary = true → includeLayer1 = true) :
    let result := tasks.foldl (fun output task =>
      s.perform air includeLayer1 (source task) task output) output
    result.layout = .Internal ∧ result.idAt air secondary pos =
      (lastValue (fun task =>
        if task = s.columnOf pos ∧ 0 ≤ pos.y ∧ pos.y < s.size.height then
          s.copiedId air (source (s.columnOf pos)) (s.worldPos pos).x (s.worldPos pos).z (pos.y, secondary)
        else none) tasks).getD (output.idAt air secondary pos) := by
  induction tasks generalizing output with
  | nil => exact ⟨houtput, rfl⟩
  | cons task rest ih =>
    obtain ⟨localX, localZ, htask, hchunk⟩ := hcolumns task List.mem_cons_self
    obtain ⟨hlayout, hid⟩ := @idAt_perform_column s air includeLayer1 output houtput (source task)
      localX localZ (s.min.x + (localX - s.offset.x)) (s.min.z + (localZ - s.offset.z)) pos hchunk
      secondary hlayer
    rw [← htask] at hlayout hid
    obtain ⟨hlayout', hid'⟩ := ih hlayout fun other hother =>
      hcolumns other (List.mem_cons_of_mem _ hother)
    refine ⟨hlayout', hid'.trans ?_⟩
    rw [lastValue_cons, Option.getD_or, hid]
    congr 1
    have hsame : (localX = pos.x ∧ localZ = pos.z) ↔ task = s.columnOf pos := by
      rw [htask, columnOf, worldPos]
      constructor
      · rintro ⟨rfl, rfl⟩
        rfl
      · intro h
        exact ⟨(Task.column.inj h).1, (Task.column.inj h).2.1⟩
    by_cases hin : task = s.columnOf pos ∧ 0 ≤ pos.y ∧ pos.y < s.size.height
    · rw [if_pos ⟨hsame.mpr hin.1, hin.2⟩, if_pos hin, ← hin.1]
      obtain ⟨rfl, rfl⟩ := hsame.mpr hin.1
      rfl
    · rw [if_neg fun h => hin ⟨hsame.mp h.1, h.2⟩, if_neg hin, Option.getD_none]

/-- The id that is copied for a cell of the selection is its block, unless that is air. -/
theorem copiedId_eq (h : s.Opened world) (pos : BlockPos) (hlayer : secondary = true → includeLayer1 = true) :
    s.copiedId air (s.loaded world air includeLayer1 (s.columnOf pos).source) (s.worldPos pos).x
        (s.worldPos pos).z (pos.y, secondary) =
      if 0 ≤ pos.y - s.offset.y ∧ pos.y - s.offset.y < s.originalSize.height then
        if world.cell air secondary (s.worldPos pos) = air then none
        else some (world.cell air secondary (s.worldPos pos))
      else none := by
  have horiginal := h.originalSize
  rw [copiedId]
  dsimp only
  by_cases hrow : 0 ≤ pos.y - s.offset.y ∧ pos.y - s.offset.y < s.originalSize.height
  · have hworld : (s.loaded world air includeLayer1 (s.columnOf pos).source).layerAt air secondary
        (floorDiv (s.worldPos pos).y 16) (BlockLayerLayout.Internal.index
          (floorMod (s.worldPos pos).x 16) (floorMod (s.worldPos pos).y 16)
          (floorMod (s.worldPos pos).z 16)) = world.cell air secondary (s.worldPos pos) := by
      refine world.layerAt_loadChunkRange air hlayer _ _ (s.worldPos pos) ?_
      simp only [worldPos, floorDiv_sixteen, horiginal] at *
      omega
    rw [if_pos hrow, if_neg (by omega), ← hworld]
    rfl
  · rw [if_neg hrow, if_pos (by omega)]

/-- Copying columns gives the selection. -/
theorem shows_columns (h : s.Opened world) (hnot : ¬ s.IsAligned position)
    (hchunk : chunk = {} ∨ s.Shows world air includeLayer1 position chunk) :
    s.Shows world air includeLayer1 position ((s.tasks position).foldl (fun output task =>
      s.perform air includeLayer1 (s.loaded world air includeLayer1 task.source) task output) chunk) := by
  have hlayout : chunk.layout = .Internal := by
    rcases hchunk with rfl | hshows
    · rfl
    · exact hshows.1
  have hcolumns (pos : BlockPos) (hpos : blockToChunk pos = position) : ∀ task ∈ s.tasks position,
      ∃ localX localZ, task = .column localX localZ (s.min.x + (localX - s.offset.x))
        (s.min.z + (localZ - s.offset.z)) ∧ blockToChunk ⟨localX, 0, localZ⟩ = blockToChunk pos := by
    intro task htask
    obtain ⟨localX, localZ, htask, ⟨⟨-, -, hx⟩, -⟩, ⟨-, -, hz⟩, -⟩ := (mem_tasks hnot).mp htask
    refine ⟨localX, localZ, htask, ?_⟩
    rw [hpos]
    exact congrArg₂ ChunkPos.mk hx hz
  constructor
  · obtain ⟨x, z⟩ := position
    refine (@idAt_columns s air includeLayer1 _ _ hlayout _ ⟨x * 16, 0, z * 16⟩ (hcolumns _ ?_) false
      (fun h => nomatch h)).1
    simp only [blockToChunk, floorDiv_sixteen, ChunkPos.mk.injEq]
    omega
  · intro secondary hlayer pos hpos
    have hbefore : chunk.idAt air secondary pos = air ∨
        chunk.idAt air secondary pos = s.selected world air secondary pos := by
      rcases hchunk with rfl | hshows
      · exact .inl rfl
      · exact .inr (hshows.2 secondary hlayer pos hpos)
    rw [(@idAt_columns s air includeLayer1 _ _ hlayout (fun task =>
      s.loaded world air includeLayer1 task.source) pos (hcolumns pos hpos) secondary hlayer).2,
      copiedId_eq h pos hlayer]
    have hmem : s.columnOf pos ∈ s.tasks position ↔
        ((0 ≤ pos.x ∧ pos.x < s.size.width) ∧
          0 ≤ pos.x - s.offset.x ∧ pos.x - s.offset.x < s.originalSize.width) ∧
        (0 ≤ pos.z ∧ pos.z < s.size.length) ∧
          0 ≤ pos.z - s.offset.z ∧ pos.z - s.offset.z < s.originalSize.length := by
      rw [mem_tasks hnot]
      subst hpos
      constructor
      · rintro ⟨localX, localZ, htask, hx, hz⟩
        obtain ⟨rfl, rfl, -⟩ := Task.column.inj htask
        omega
      · intro hin
        exact ⟨pos.x, pos.z, rfl, ⟨⟨hin.1.1.1, hin.1.1.2, rfl⟩, hin.1.2⟩,
          ⟨hin.2.1.1, hin.2.1.2, rfl⟩, hin.2.2⟩
    by_cases hshown : (s.columnOf pos ∈ s.tasks position ∧ 0 ≤ pos.y ∧ pos.y < s.size.height) ∧
        0 ≤ pos.y - s.offset.y ∧ pos.y - s.offset.y < s.originalSize.height
    · obtain ⟨⟨hcolumn, hy⟩, hrow⟩ := hshown
      rw [lastValue_of_unique hcolumn fun task _ hne => if_neg fun h => hne h.1, if_pos ⟨rfl, hy⟩,
        if_pos hrow]
      have hselected : s.selected world air secondary pos =
          world.cell air secondary (s.worldPos pos) := by
        have hin := hmem.mp hcolumn
        exact if_pos ⟨⟨hin.1.1, hy, hin.2.1⟩, hin.1.2, hrow, hin.2.2⟩
      rw [hselected] at hbefore ⊢
      split_ifs with hair
      · rw [hair] at hbefore ⊢
        exact hbefore.elim id id
      · rfl
    · have hselected : s.selected world air secondary pos = air := by
        refine if_neg fun hin => hshown ?_
        obtain ⟨⟨hx, hy, hz⟩, hx', hy', hz'⟩ := hin
        exact ⟨⟨hmem.mpr ⟨⟨hx, hx'⟩, hz, hz'⟩, hy⟩, hy'⟩
      rw [hselected] at hbefore ⊢
      rw [lastValue_eq_none.mpr, Option.getD_none]
      · exact hbefore.elim id id
      · intro task htask
        split
        case isFalse => rfl
        case isTrue hin => exact if_neg fun hrow => hshown ⟨⟨hin.1 ▸ htask, hin.2⟩, hrow⟩

/-- Whatever the way, the turns of a requested chunk give the selection. -/
theorem shows_tasks (h : s.Opened world) (position : ChunkPos)
    (hchunk : chunk = {} ∨ s.Shows world air includeLayer1 position chunk) :
    s.Shows world air includeLayer1 position ((s.tasks position).foldl (fun output task =>
      s.perform air includeLayer1 (s.loaded world air includeLayer1 task.source) task output) chunk) := by
  by_cases haligned : s.IsAligned position
  · have htasks : s.tasks position = [.subChunks ⟨floorDiv s.min.x 16 + position.x,
        floorDiv s.min.z 16 + position.z⟩] := by
      unfold IsAligned at haligned
      rw [tasks, if_pos haligned]
    rw [htasks]
    exact shows_copySubChunks h haligned hchunk
  · exact shows_columns h haligned hchunk

/-- Repeated requests of a chunk change nothing. -/
theorem shows_repeated (h : s.Opened world) {repeated : List ChunkPos}
    (hsame : ∀ pos ∈ repeated, pos = position) (hchunk : s.Shows world air includeLayer1 position chunk) :
    s.Shows world air includeLayer1 position (repeated.foldl (fun output pos =>
      (s.tasks pos).foldl (fun output task =>
        s.perform air includeLayer1 (s.loaded world air includeLayer1 task.source) task output) output)
      chunk) := by
  induction repeated generalizing chunk with
  | nil => exact hchunk
  | cons first rest ih =>
    rw [List.foldl_cons, hsame first List.mem_cons_self]
    exact ih (fun pos hpos => hsame pos (List.mem_cons_of_mem _ hpos)) (shows_tasks h position (.inr hchunk))

/-- A requested chunk is what its tasks make of an empty one. -/
theorem lookup_plainChunks (positions : List ChunkPos) (position : ChunkPos) :
    (s.plainChunks world air includeLayer1 positions).lookup position =
      if position ∈ positions then
        some (((positions.filter fun pos => pos = position).flatMap s.tasks).foldl (fun output task =>
          s.perform air includeLayer1 (s.loaded world air includeLayer1 task.source) task output) {})
      else none := by
  refine (AssocMap.lookup_foldl_update_turns (s.allTasks positions) (fun task =>
    s.perform air includeLayer1 (s.loaded world air includeLayer1 task.source) task)
    (ChunkMap.emplaceAll positions) position).trans ?_
  rw [ChunkMap.lookup_emplaceAll, allTasks, map_snd_filter_turns]
  split <;> rfl

/-- Every requested chunk shows the selection. -/
theorem shows_plainChunks (h : s.Opened world) {positions : List ChunkPos} {position : ChunkPos}
    (hposition : position ∈ positions) :
    ∃ chunk, (s.plainChunks world air includeLayer1 positions).lookup position = some chunk ∧
      s.Shows world air includeLayer1 position chunk := by
  refine ⟨_, (lookup_plainChunks positions position).trans (if_pos hposition), ?_⟩
  rw [List.foldl_flatMap]
  have hsame : ∀ pos ∈ positions.filter fun pos => pos = position, pos = position := fun pos hpos =>
    of_decide_eq_true (List.mem_filter.mp hpos).2
  have hmem : position ∈ positions.filter fun pos => pos = position :=
    List.mem_filter.mpr ⟨hposition, decide_eq_true rfl⟩
  generalize positions.filter (fun pos => pos = position) = repeated at hsame hmem
  cases repeated with
  | nil => cases hmem
  | cons first rest =>
    rw [List.foldl_cons, hsame first List.mem_cons_self]
    exact shows_repeated h (fun pos hpos => hsame pos (List.mem_cons_of_mem _ hpos))
      (shows_tasks h position (.inl rfl))

theorem lookup_plainChunks_of_not_mem {positions : List ChunkPos} (hposition : position ∉ positions) :
    (s.plainChunks world air includeLayer1 positions).lookup position = none :=
  (lookup_plainChunks positions position).trans (if_neg hposition)

/-- A selection of a world with the given corners holds a cell. -/
def InSelection (first second pos : BlockPos) : Prop :=
  (Min.min first.x second.x ≤ pos.x ∧ pos.x ≤ Max.max first.x second.x) ∧
    (Min.min first.y second.y ≤ pos.y ∧ pos.y ≤ Max.max first.y second.y) ∧
      Min.min first.z second.z ≤ pos.z ∧ pos.z ≤ Max.max first.z second.z

instance (first second pos : BlockPos) : Decidable (InSelection first second pos) :=
  inferInstanceAs (Decidable ((_ ∧ _) ∧ (_ ∧ _) ∧ _ ∧ _))

/-- A request of a structure that has just been read gives both layers of the selected cells of the
world, at their place in the reported size, and air elsewhere. -/
theorem getChunks_selection (world : StoredWorld) (air : RuntimeId) (first second offset : BlockPos)
    (positions : List ChunkPos) :
    let s := (read world first second).setOffset offset
    ∃ chunks, (s.getChunks air positions {}).1 = .ok chunks ∧
      ∀ secondary pos, chunks.idAt air secondary pos =
        if blockToChunk pos ∈ positions then
          some (if s.size.Contains pos ∧ InSelection first second ((s.min.add pos).sub offset) then
            world.cell air secondary ((s.min.add pos).sub offset) else air)
        else none := by
  intro s
  have h : s.Opened world := opened_read world first second offset
  have hoffset : s.offset = offset := rfl
  have hmin : s.min = ⟨Min.min first.x second.x, Min.min first.y second.y,
    Min.min first.z second.z⟩ := rfl
  have hmax : s.max = ⟨Max.max first.x second.x, Max.max first.y second.y,
    Max.max first.z second.z⟩ := rfl
  clear_value s
  refine ⟨_, getChunksImpl_empty h.world positions, fun secondary pos => ?_⟩
  rw [ChunkMap.idAt]
  split
  case isTrue hposition =>
    obtain ⟨chunk, hchunk, hshows⟩ := @shows_plainChunks s world air true h _ _ hposition
    have hworld : s.worldPos pos = (s.min.add pos).sub offset := by
      simp only [worldPos, BlockPos.add, BlockPos.sub, BlockPos.mk.injEq, hoffset]
      omega
    rw [hchunk, Option.map_some, hshows.2 secondary (fun _ => rfl) pos rfl, selected, ← hworld]
    refine congrArg some (if_congr (and_congr_right fun _ => ?_) rfl rfl)
    simp only [Size.Contains, BlockPos.sub, InSelection, worldPos, h.originalSize, hoffset, hmin, hmax]
    constructor <;> intro hin <;> omega
  case isFalse hposition => rw [lookup_plainChunks_of_not_mem hposition]; rfl

end WaterStructure.McWorldStructure
