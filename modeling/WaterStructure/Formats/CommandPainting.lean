import Mathlib.Data.List.TakeWhile
import WaterStructure.Formats.CommandReaders

/-!
# The command readers paint

Both indexes file every command either under exactly the chunks it reaches or in the broad list,
and no array access leaves the arrays. A replay step draws its command on the chunk. So a chunk
that is materialised in any reachable state holds the last command of every block.
-/

namespace WaterStructure

open LastValue NestedLoop

variable {command : CuboidCommand} {pos : ChunkPos} {offset : BlockPos}

/-- The chunks of a command lie in the chunks of the shifted structure. -/
theorem CuboidCommand.Inside.reach {size : Size} (h : command.Inside size) (offset : BlockPos)
    (hpos : (ChunkRange.of command offset).Contains pos) :
    (offset.x / 16 ≤ pos.x ∧ pos.x ≤ (offset.x + max (size.width - 1) 0) / 16) ∧
      offset.z / 16 ≤ pos.z ∧ pos.z ≤ (offset.z + max (size.length - 1) 0) / 16 := by
  obtain ⟨⟨hx, hx', hx''⟩, -, hz, hz', hz''⟩ := h
  simp only [ChunkRange.Contains, ChunkRange.of, floorDiv64_sixteen] at hpos
  omega

/-- Chunk coordinates that a command reaches fit `std::int32_t`. -/
theorem CommandList.reach_int32 (list : CommandList) (hoffset : offset.FitsInt32)
    (hcommand : command ∈ list.commands) (hpos : (ChunkRange.of command offset).Contains pos) :
    IsInt32 pos.x ∧ IsInt32 pos.z := by
  have hwidth := list.width_le
  have hlength := list.length_le
  obtain ⟨hx, -, hz⟩ := hoffset
  have hreach := (list.inside command hcommand).reach offset hpos
  simp only [IsInt32, int32Min, int32Max] at *
  omega

/-- The rows of a command lie in subchunks with `std::int32_t` coordinates. -/
theorem CommandList.subChunks_int32 {list : CommandList} (hoffset : offset.FitsInt32)
    (hcommand : command ∈ list.commands) {subY : ℤ} (hlow : (command.y1 + offset.y - 64) / 16 ≤ subY)
    (hhigh : subY ≤ (command.y2 + offset.y - 64) / 16) : IsInt32 subY := by
  obtain ⟨-, ⟨hy, hy', hy''⟩, -⟩ := list.inside command hcommand
  have hheight := list.height_le
  obtain ⟨-, hoffsetY, -⟩ := hoffset
  simp only [IsInt32, int32Min, int32Max] at *
  omega

/-- A command whose clip to a chunk is empty paints nothing there. -/
theorem CuboidCommand.paints_of_clip {pos : BlockPos} {chunkPos : ChunkPos}
    (hclip : (command.clip offset chunkPos).x1 >
      (command.clip offset chunkPos).x2 ∨ (command.clip offset chunkPos).z1 >
        (command.clip offset chunkPos).z2) (hpos : blockToChunk pos = chunkPos) :
    command.paints offset pos = none := by
  apply if_neg
  intro hcovers
  subst hpos
  simp only [CuboidCommand.clip, CuboidCommand.Covers, blockToChunk, floorDiv_sixteen] at *
  omega

/-- The commands at an index reach what the command reaches. -/
theorem mem_positionsOf {commands : List CuboidCommand} {index : ℕ}
    (h : pos ∈ positionsOf commands offset index) :
    ∃ command ∈ commands, (ChunkRange.of command offset).Contains pos := by
  rw [positionsOf] at h
  split at h
  case h_1 => cases h
  case h_2 command hcommand =>
    exact ⟨command, List.mem_of_getElem? hcommand, ChunkRange.mem_positions.mp h⟩

namespace McFunction

/-- The rectangle of a dense index. -/
structure IndexRange.IsDense (range : IndexRange) (size : Size) (offset : BlockPos) : Prop where
  dense : range.dense = true
  minX : range.minX = offset.x / 16
  minZ : range.minZ = offset.z / 16
  maxX : range.minX + range.width = (offset.x + max (size.width - 1) 0) / 16 + 1
  maxZ : range.minZ + range.length = (offset.z + max (size.length - 1) 0) / 16 + 1
  width_pos : 0 < range.width
  cellCount : range.cellCount = range.width.toNat * range.length.toNat
  cellCount_le : range.cellCount ≤ 1048576

variable {size : Size} {offset : BlockPos} {range : IndexRange} {pos : ChunkPos} {list : CommandList}

theorem IndexRange.isDense_of (h : (IndexRange.of size offset).dense = true) :
    (IndexRange.of size offset).IsDense size offset := by
  simp only [IndexRange.of, floorDiv_sixteen, floorDiv64_sixteen, Bool.and_eq_true,
    decide_eq_true_eq] at h
  obtain ⟨hvalid, hcount⟩ := h
  rw [if_pos hvalid] at hcount
  simp only [IndexRange.of, floorDiv_sixteen, floorDiv64_sixteen, hvalid, decide_true, hcount,
    and_self, Bool.and_self, if_true]
  exact {
    dense := rfl
    minX := rfl
    minZ := rfl
    maxX := by dsimp only; omega
    maxZ := by dsimp only; omega
    width_pos := hvalid.1
    cellCount := rfl
    cellCount_le := hcount }

/-- The rectangle holds the chunk. -/
def IndexRange.Contains (range : IndexRange) (pos : ChunkPos) : Prop :=
  (range.minX ≤ pos.x ∧ pos.x < range.minX + range.width) ∧
    range.minZ ≤ pos.z ∧ pos.z < range.minZ + range.length

/-- The cell of a chunk in the rectangle, without machine arithmetic. -/
theorem IndexRange.IsDense.cellFor_eq (h : range.IsDense size offset) (hpos : range.Contains pos) :
    range.cellFor pos.x pos.z =
        (pos.z - range.minZ).toNat * range.width.toNat + (pos.x - range.minX).toNat ∧
      range.cellFor pos.x pos.z < range.cellCount := by
  obtain ⟨⟨hx, hx'⟩, hz, hz'⟩ := hpos
  have hcount := h.cellCount
  have hsmall := h.cellCount_le
  obtain ⟨column, hcolumn⟩ := Int.eq_ofNat_of_zero_le (show 0 ≤ pos.x - range.minX by omega)
  obtain ⟨row, hrow⟩ := Int.eq_ofNat_of_zero_le (show 0 ≤ pos.z - range.minZ by omega)
  have hcolumnLt : column < range.width.toNat := by omega
  have hrowLt : row + 1 ≤ range.length.toNat := by omega
  have hwithin : (row + 1) * range.width.toNat ≤ range.cellCount := by
    rw [hcount, Nat.mul_comm range.width.toNat]
    exact Nat.mul_le_mul_right _ hrowLt
  have hwidthLe : range.width.toNat ≤ (row + 1) * range.width.toNat :=
    Nat.le_mul_of_pos_left _ (Nat.succ_pos row)
  have hrowLe : row ≤ row * range.width.toNat := Nat.le_mul_of_pos_right _ (by omega)
  rw [Nat.succ_mul] at hwithin hwidthLe
  have hcell : range.cellFor pos.x pos.z = row * range.width.toNat + column := by
    rw [IndexRange.cellFor, hrow, hcolumn, toSizeT_eq (by omega) (by omega),
      toSizeT_eq h.width_pos.le (by omega), toSizeT_eq (by omega) (by omega), Int.toNat_natCast,
      Int.toNat_natCast, Nat.mod_eq_of_lt (by omega)]
  rw [hcell, hrow, hcolumn, Int.toNat_natCast, Int.toNat_natCast]
  exact ⟨rfl, by omega⟩

/-- Different chunks have different cells. -/
theorem IndexRange.IsDense.cellFor_inj (h : range.IsDense size offset) {other : ChunkPos}
    (hpos : range.Contains pos) (hother : range.Contains other)
    (heq : range.cellFor pos.x pos.z = range.cellFor other.x other.z) : pos = other := by
  rw [(h.cellFor_eq hpos).1, (h.cellFor_eq hother).1] at heq
  obtain ⟨⟨hx, hx'⟩, hz, hz'⟩ := hpos
  obtain ⟨⟨hox, hox'⟩, hoz, hoz'⟩ := hother
  have hcolumn : (pos.x - range.minX).toNat < range.width.toNat := by omega
  have hcolumn' : (other.x - range.minX).toNat < range.width.toNat := by omega
  have hrows := congrArg (· / range.width.toNat) heq
  have hcolumns := congrArg (· % range.width.toNat) heq
  simp only [Nat.mod_eq_of_lt hcolumn, Nat.mod_eq_of_lt hcolumn',
    Nat.add_comm (_ * range.width.toNat), Nat.add_mul_div_right _ _ (by omega : 0 < range.width.toNat),
    Nat.div_eq_of_lt hcolumn, Nat.div_eq_of_lt hcolumn', Nat.add_mul_mod_self_right] at hrows hcolumns
  obtain ⟨x, z⟩ := pos
  obtain ⟨x', z'⟩ := other
  simp only [ChunkPos.mk.injEq] at *
  omega

/-- The chunks under which the command at an index is filed. -/
def filedUnder (range : IndexRange) (offset : BlockPos) (commands : List CuboidCommand)
    (index : ℕ) : List ChunkPos :=
  if isIndexed range.dense offset commands index then positionsOf commands offset index else []

variable {index : ℕ} {air : RuntimeId}

/-- Without cells no command is indexed. -/
theorem isIndexed_dense {dense : Bool} {commands : List CuboidCommand}
    (h : isIndexed dense offset commands index = true) : dense = true := by
  suffices ∀ entries, (indexedFlags dense offset entries commands)[index]?.getD false = true →
      dense = true from this 0 h
  clear h
  induction commands generalizing index with
  | nil => intro entries h; simp [indexedFlags] at h
  | cons command rest ih =>
    intro entries h
    rw [indexedFlags] at h
    split_ifs at h with hindexed
    · cases index with
      | zero => simp at h
      | succ index => exact ih entries (by simpa using h)
    · simp only [not_or, Bool.not_eq_false] at hindexed
      exact hindexed.1

/-- An indexed command is filed under chunks of a dense rectangle. -/
theorem mem_filedUnder (hoffset : offset.FitsInt32) (hrange : range = IndexRange.of list.size offset)
    (h : pos ∈ filedUnder range offset list.commands index) :
    range.IsDense list.size offset ∧ range.Contains pos ∧ toInt32 pos.x = pos.x ∧
      toInt32 pos.z = pos.z := by
  rw [filedUnder] at h
  split_ifs at h with hindexed
  · obtain ⟨command, hcommand, hcontains⟩ := mem_positionsOf h
    have hdense : range.IsDense list.size offset := by
      rw [hrange]
      apply IndexRange.isDense_of
      rw [← hrange]
      exact isIndexed_dense hindexed
    have hreach := (list.inside command hcommand).reach offset hcontains
    have hint := list.reach_int32 hoffset hcommand hcontains
    have hminX := hdense.minX
    have hminZ := hdense.minZ
    have hmaxX := hdense.maxX
    have hmaxZ := hdense.maxZ
    refine ⟨hdense, ?_, toInt32_eq hint.1, toInt32_eq hint.2⟩
    unfold IndexRange.Contains
    omega
  · cases h

/-- The cells of the index entries, without machine arithmetic. -/
theorem cellEntries_eq (hoffset : offset.FitsInt32) (hrange : range = IndexRange.of list.size offset) :
    cellEntries range offset list.commands =
      (List.range list.commands.length).flatMap fun index =>
        ((filedUnder range offset list.commands index).map fun pos =>
          range.cellFor pos.x pos.z).map fun cell => (cell, index) := by
  rw [cellEntries]
  congr 1
  funext index
  rw [List.map_map]
  apply List.map_congr_left
  intro pos hpos
  obtain ⟨-, -, hx, hz⟩ := mem_filedUnder hoffset hrange hpos
  rw [hx, hz]
  rfl

/-- Every cell of the index is inside the arrays. -/
theorem cellEntries_lt (hoffset : offset.FitsInt32) (hrange : range = IndexRange.of list.size offset) :
    ∀ entry ∈ cellEntries range offset list.commands, entry.1 < range.cellCount := by
  intro entry hentry
  rw [cellEntries_eq hoffset hrange] at hentry
  obtain ⟨index, -, hcell⟩ := List.mem_flatMap.mp hentry
  obtain ⟨cell, hmem, rfl⟩ := List.mem_map.mp hcell
  obtain ⟨pos, hpos, rfl⟩ := List.mem_map.mp hmem
  obtain ⟨hdense, hcontains, -, -⟩ := mem_filedUnder hoffset hrange hpos
  exact (hdense.cellFor_eq hcontains).2

/-- The entries of a chunk's cell are the indexed commands that reach the chunk, in source
order. -/
theorem valuesOf_cellEntries (hoffset : offset.FitsInt32)
    (hrange : range = IndexRange.of list.size offset) (hdense : range.IsDense list.size offset)
    (hpos : range.Contains pos) :
    Csr.valuesOf (cellEntries range offset list.commands) (range.cellFor pos.x pos.z) =
      localIndices list.commands offset (isIndexed range.dense offset list.commands) pos := by
  rw [Csr.valuesOf, cellEntries_eq hoffset hrange, map_snd_filter_flatMap, localIndices]
  · apply List.filter_congr
    intro index _
    apply decide_eq_decide.mpr
    rw [← filedUnder]
    constructor
    · intro h
      obtain ⟨other, hother, hcell⟩ := List.mem_map.mp h
      obtain ⟨-, hcontains, -, -⟩ := mem_filedUnder hoffset hrange hother
      rwa [← hdense.cellFor_inj hcontains hpos hcell]
    · exact fun h => List.mem_map.mpr ⟨pos, h, rfl⟩
  · intro index _
    apply List.Nodup.map_on
    · intro first hfirst second hsecond heq
      obtain ⟨-, hcontains, -, -⟩ := mem_filedUnder hoffset hrange hfirst
      obtain ⟨-, hcontains', -, -⟩ := mem_filedUnder hoffset hrange hsecond
      exact hdense.cellFor_inj hcontains hcontains' heq
    · rw [filedUnder]
      split
      · exact nodup_positionsOf _ _ _
      · exact List.nodup_nil

/-- Outside the rectangle no command is filed. -/
theorem localIndices_eq_nil (hoffset : offset.FitsInt32)
    (hrange : range = IndexRange.of list.size offset)
    (hpos : ¬ (range.IsDense list.size offset ∧ range.Contains pos)) :
    localIndices list.commands offset (isIndexed range.dense offset list.commands) pos = [] := by
  apply List.filter_eq_nil_iff.mpr
  intro index _ h
  have hfiled := mem_filedUnder hoffset hrange (of_decide_eq_true h)
  exact hpos ⟨hfiled.1, hfiled.2.1⟩

/-- The index that the source builds: every slice lists the indexed commands that reach the
chunk, and no access leaves the arrays. -/
structure CommandIndex.IsFor (index : CommandIndex) (list : CommandList) (offset : BlockPos) :
    Prop where
  slice : ∀ pos, index.slice pos = some (localIndices list.commands offset
    (isIndexed index.range.dense offset list.commands) pos)
  broad : index.broadCommands =
    broadIndices list.commands (isIndexed index.range.dense offset list.commands)
  cells : ∀ entry ∈ cellEntries index.range offset list.commands,
    entry.1 < index.range.cellCount

/-- Building the index succeeds. -/
theorem CommandIndex.build_ok (list : CommandList) (hoffset : offset.FitsInt32) :
    ∃ index, CommandIndex.build list.size offset list.commands = .ok index ∧
      index.IsFor list offset := by
  obtain ⟨range, hrange⟩ : ∃ range, range = IndexRange.of list.size offset := ⟨_, rfl⟩
  obtain ⟨commandOffsets, commandIndices, hbuild, hslice⟩ :=
    Csr.build_spec 0 (cellEntries_lt hoffset hrange)
  simp only [CommandIndex.build, ← hrange]
  by_cases hdense : range.dense = true
  · have hisDense : range.IsDense list.size offset := by
      rw [hrange]
      apply IndexRange.isDense_of
      rwa [← hrange]
    rw [if_pos hdense, hbuild]
    refine ⟨_, rfl, fun pos => ?_, rfl, cellEntries_lt hoffset hrange⟩
    rw [CommandIndex.slice]
    by_cases hpos : range.Contains pos
    · have hcell := hslice _ (hisDense.cellFor_eq hpos).2
      have hoffsets : commandOffsets ≠ [] := by
        rintro rfl
        cases hcell
      obtain ⟨⟨hx, hx'⟩, hz, hz'⟩ := hpos
      rw [if_pos ⟨hoffsets, hx, hz, hx', hz'⟩, hcell,
        valuesOf_cellEntries hoffset hrange hisDense ⟨⟨hx, hx'⟩, hz, hz'⟩]
    · rw [if_neg fun h => hpos ⟨⟨h.2.1, h.2.2.2.1⟩, h.2.2.1, h.2.2.2.2⟩,
        localIndices_eq_nil hoffset hrange fun h => hpos h.2]
  · rw [if_neg hdense]
    refine ⟨_, rfl, fun pos => ?_, rfl, cellEntries_lt hoffset hrange⟩
    rw [CommandIndex.slice, if_neg fun h => h.1 rfl,
      localIndices_eq_nil hoffset hrange fun h => hdense h.1.dense]

/-- The rows of a subchunk are the local cells of a box. -/
theorem mem_rowIndices {localX1 localX2 localY1 localY2 z1 z2 chunkZ x y z : ℤ}
    (hx1 : 0 ≤ localX1) (hx2 : localX2 < 16) (hy1 : 0 ≤ localY1) (hz1 : chunkZ ≤ z1)
    (hz2 : z2 < chunkZ + 16) (hx : IsLocal x) (hy : IsLocal y) (hz : IsLocal z) :
    BlockLayerLayout.Internal.index x y z ∈
        rowIndices localX1 (localX2 - localX1 + 1) localY1 localY2 z1 z2 chunkZ ↔
      (localX1 ≤ x ∧ x ≤ localX2) ∧ (localY1 ≤ y ∧ y ≤ localY2) ∧
        (z1 ≤ z + chunkZ ∧ z + chunkZ ≤ z2) := by
  unfold IsLocal at hx hy hz
  simp only [rowIndices, BlockLayerLayout.index, List.mem_flatMap, List.mem_map, List.mem_range,
    Int.mem_range_iff]
  constructor
  · rintro ⟨localY, hlocalY, row, hrow, turn, hturn, hindex⟩
    omega
  · rintro ⟨hcolumns, hrows, hdepth⟩
    refine ⟨y, by omega, z + chunkZ, by omega, (x - localX1).toNat, by omega, by omega⟩

@[simp] theorem processSubChunk_layout (air : RuntimeId) (offset : BlockPos) (chunkPos : ChunkPos)
    (command : CuboidCommand) (chunk : ChunkData) (subY : ℤ) :
    (processSubChunk air offset chunkPos command chunk subY).layout = chunk.layout := by
  rw [processSubChunk]
  dsimp only
  split
  · rfl
  · rw [ChunkData.foldl_setBlock_layout, ChunkData.ensureSubChunk_layout]

/-- One subchunk of the replay draws the part of the command in its rows. -/
theorem blockAt_processSubChunk {chunkPos : ChunkPos} {command : CuboidCommand} {chunk : ChunkData}
    (hlayout : chunk.layout = .Internal) (subY : ℤ) {pos : BlockPos}
    (hpos : blockToChunk pos = chunkPos) :
    (processSubChunk air offset chunkPos command chunk subY).blockAt air pos =
      if (pos.y - 64) / 16 = subY ∧ command.Covers offset pos then command.runtimeId
      else chunk.blockAt air pos := by
  by_cases hair : (chunk.subChunks.lookup subY).isNone = true ∧ command.runtimeId = air
  · rw [processSubChunk, if_pos hair, ChunkData.blockAt_ensureSubChunk]
    split_ifs with h
    · have hmissing : chunk.subChunks.lookup (floorDiv (pos.y - 64) 16) = none := by
        rw [floorDiv_sixteen, h.1]
        exact Option.isNone_iff_eq_none.mp hair.1
      simp only [ChunkData.blockAt, ChunkData.layer0At, hmissing, hair.2]
    · rfl
  · rw [processSubChunk, if_neg hair]
    simp only [ChunkData.blockAt, ChunkData.foldl_setBlock_layout, ChunkData.ensureSubChunk_layout,
      ChunkData.layer0At_foldl_setBlock, ChunkData.layer0At_ensureSubChunk, hlayout,
      floorDiv_sixteen, floorMod_sixteen]
    apply if_congr _ rfl rfl
    apply and_congr_right
    rintro rfl
    have hy : IsLocal (pos.y - ((pos.y - 64) / 16 * 16 + 64)) := by
      unfold IsLocal
      omega
    subst hpos
    rw [mem_rowIndices (by simp only [CuboidCommand.clip]; omega)
      (by simp only [CuboidCommand.clip]; omega) (by omega)
      (by simp only [CuboidCommand.clip]; omega) (by simp only [CuboidCommand.clip]; omega)
      (isLocal_emod _) hy (isLocal_emod _)]
    simp only [CuboidCommand.clip, CuboidCommand.Covers, blockToChunk, floorDiv_sixteen]
    omega

/-- Replaying a command draws it. -/
theorem process_draws (hoffset : offset.FitsInt32) (chunkPos : ChunkPos) :
    ∀ command ∈ list.commands, Draws (process air offset chunkPos) air offset chunkPos command := by
  intro command hcommand chunk hlayout
  rw [process]
  dsimp only
  split_ifs with hclip
  · refine ⟨chunk, rfl, hlayout, fun pos hpos => ?_⟩
    rw [CuboidCommand.paints_of_clip hclip hpos, Option.getD_none]
  · have hwhole : ((Int.range (floorDiv64 (command.y1 + offset.y - 64) 16)
        (floorDiv64 (command.y2 + offset.y - 64) 16 + 1)).takeWhile fun subY => IsInt32 subY) =
          Int.range ((command.y1 + offset.y - 64) / 16) ((command.y2 + offset.y - 64) / 16 + 1) := by
      rw [floorDiv64_sixteen, floorDiv64_sixteen]
      apply List.takeWhile_eq_self_iff.mpr
      intro subY hsubY
      rw [Int.mem_range_iff] at hsubY
      exact decide_eq_true (CommandList.subChunks_int32 hoffset hcommand hsubY.1 (by omega))
    rw [hwhole]
    refine ⟨_, rfl, ?_, fun pos hpos => ?_⟩
    · exact (foldl_observe_inv (fun _ => ()) (fun _ => none) _
        (fun chunk : ChunkData => chunk.layout = .Internal) _ hlayout
        fun chunk hlayout subY _ => ⟨by simpa using hlayout, rfl⟩).1
    · have hfold := (foldl_observe_inv (fun chunk : ChunkData => chunk.blockAt air pos)
        (fun subY => if (pos.y - 64) / 16 = subY ∧ command.Covers offset pos then
          some command.runtimeId else none)
        (processSubChunk air offset chunkPos command) (fun chunk => chunk.layout = .Internal)
        (Int.range ((command.y1 + offset.y - 64) / 16) ((command.y2 + offset.y - 64) / 16 + 1))
        hlayout fun chunk hlayout subY _ => ⟨by simpa using hlayout, by
          rw [blockAt_processSubChunk hlayout subY hpos]
          split <;> rfl⟩).2
      rw [hfold]
      congr 1
      rw [CuboidCommand.paints]
      split_ifs with hmiss
      · have hrow : (pos.y - 64) / 16 ∈ Int.range ((command.y1 + offset.y - 64) / 16)
            ((command.y2 + offset.y - 64) / 16 + 1) := by
          rw [Int.mem_range_iff]
          obtain ⟨-, hy, -⟩ := hmiss
          omega
        rw [lastValue_of_unique hrow fun subY _ hne => if_neg fun h => hne h.1.symm,
          if_pos ⟨rfl, hmiss⟩]
      · exact lastValue_eq_none.mpr fun subY _ => if_neg fun h => hmiss h.2

end McFunction

namespace IbImport

variable {air : RuntimeId} {offset : BlockPos} {chunkPos : ChunkPos} {y : ℤ} {list : CommandList}

/-- Storing the checked columns of a row stores the blocks of the row. -/
theorem processRow_ok {command : CuboidCommand} (hint : IsInt32 ((y - 64) / 16)) (chunk : ChunkData) :
    processRow air offset chunkPos command chunk y =
      .ok (((columnsOf (command.clip offset chunkPos)).map fun column =>
        BlockLayerLayout.Internal.index (column.1 - chunkPos.x * 16)
          (y - ((y - 64) / 16 * 16 + 64)) (column.2 - chunkPos.z * 16)).foldl
            (fun chunk index => chunk.setBlock air ((y - 64) / 16) index command.runtimeId)
            (chunk.ensureSubChunk air ((y - 64) / 16))) := by
  rw [processRow]
  simp only [floorDiv64_sixteen, if_neg (not_not_intro hint), List.foldl_map]
  apply foldlM_ok
  intro chunk column hcolumn
  obtain ⟨z, hz, x, hx, rfl⟩ : ∃ z, z ∈ Int.range _ _ ∧ ∃ x, x ∈ Int.range _ _ ∧ (x, z) = column := by
    simpa only [columnsOf, List.mem_flatMap, List.mem_map] using hcolumn
  rw [Int.mem_range_iff] at hx hz
  simp only [CuboidCommand.clip] at hx hz
  rw [storeBlock]
  dsimp only
  rw [if_neg (by omega)]
  rfl

/-- The columns of a clip. -/
theorem mem_columnsOf {clip : ColumnClip} {column : ℤ × ℤ} :
    column ∈ columnsOf clip ↔
      (clip.x1 ≤ column.1 ∧ column.1 ≤ clip.x2) ∧ clip.z1 ≤ column.2 ∧ column.2 ≤ clip.z2 := by
  simp only [columnsOf, List.mem_flatMap, List.mem_map, Int.mem_range_iff]
  constructor
  · rintro ⟨z, hz, x, hx, rfl⟩
    dsimp only
    omega
  · intro h
    exact ⟨column.2, by omega, column.1, by omega, rfl⟩

/-- One row of the replay draws the part of the command in that row, and does not fail. -/
theorem processRow_draws {command : CuboidCommand} (hint : IsInt32 ((y - 64) / 16))
    (hrow : command.y1 + offset.y ≤ y ∧ y ≤ command.y2 + offset.y) {chunk : ChunkData}
    (hlayout : chunk.layout = .Internal) :
    ∃ next, processRow air offset chunkPos command chunk y = .ok next ∧
      next.layout = .Internal ∧ ∀ pos : {pos // blockToChunk pos = chunkPos},
        next.blockAt air pos.1 =
          (if pos.1.y = y then command.paints offset pos.1 else none).getD
            (chunk.blockAt air pos.1) := by
  refine ⟨_, processRow_ok hint chunk, ?_, ?_⟩
  · rw [ChunkData.foldl_setBlock_layout, ChunkData.ensureSubChunk_layout, hlayout]
  · rintro ⟨pos, rfl⟩
    simp only [ChunkData.blockAt, ChunkData.foldl_setBlock_layout, ChunkData.ensureSubChunk_layout,
      ChunkData.layer0At_foldl_setBlock, ChunkData.layer0At_ensureSubChunk, hlayout,
      floorDiv_sixteen, floorMod_sixteen, CuboidCommand.paints, ← ite_and]
    rw [apply_ite (fun value : Option RuntimeId => value.getD _)]
    apply if_congr _ rfl rfl
    rw [List.mem_map]
    constructor
    · rintro ⟨hsub, column, hcolumn, hindex⟩
      rw [mem_columnsOf] at hcolumn
      simp only [CuboidCommand.clip, blockToChunk, floorDiv_sixteen] at hcolumn hindex
      rw [BlockLayerLayout.index_inj] at hindex
      · simp only [CuboidCommand.Covers]
        omega
      all_goals
        unfold IsLocal
        omega
    · rintro ⟨rfl, hcovers⟩
      refine ⟨rfl, (pos.x, pos.z), ?_, ?_⟩
      · rw [mem_columnsOf]
        simp only [CuboidCommand.clip, CuboidCommand.Covers, blockToChunk, floorDiv_sixteen] at *
        omega
      · congr 1 <;> simp only [blockToChunk, floorDiv_sixteen] <;> omega

/-- Replaying a command draws it. -/
theorem process_draws (hoffset : offset.FitsInt32) (chunkPos : ChunkPos) :
    ∀ command ∈ list.commands, Draws (process air offset chunkPos) air offset chunkPos command := by
  intro command hcommand chunk hlayout
  rw [process]
  split_ifs with hclip
  · refine ⟨chunk, rfl, hlayout, fun pos hpos => ?_⟩
    rw [CuboidCommand.paints_of_clip hclip hpos, Option.getD_none]
  · obtain ⟨final, hfinal, hfinalLayout, hblock⟩ := foldlM_observe_inv
      (fun (pos : {pos // blockToChunk pos = chunkPos}) (chunk : ChunkData) => chunk.blockAt air pos)
      (fun pos y => if pos.1.y = y then command.paints offset pos.1 else none)
      (processRow air offset chunkPos command) (fun chunk => chunk.layout = .Internal)
      (Int.range (command.y1 + offset.y) (command.y2 + offset.y + 1)) hlayout
      fun chunk hlayout y hy => by
        rw [Int.mem_range_iff] at hy
        exact processRow_draws (CommandList.subChunks_int32 hoffset hcommand (by omega) (by omega))
          (by omega) hlayout
    refine ⟨final, hfinal, hfinalLayout, fun pos hpos => ?_⟩
    rw [hblock ⟨pos, hpos⟩]
    congr 1
    by_cases hrow : pos.y ∈ Int.range (command.y1 + offset.y) (command.y2 + offset.y + 1)
    · rw [lastValue_of_unique hrow fun y _ hne => if_neg hne.symm, if_pos rfl]
    · rw [lastValue_eq_none.mpr fun y hy => if_neg fun h => hrow (by rwa [h]),
        CuboidCommand.paints, if_neg]
      intro hcovers
      rw [Int.mem_range_iff] at hrow
      obtain ⟨-, hy, -⟩ := hcovers
      omega

/-- The bucket of a chunk lists the indexed commands that reach it. -/
theorem lookup_commandIndex (hoffset : offset.FitsInt32) (pos : ChunkPos) :
    ((CommandIndex.build offset list.commands).commandIndex.lookup pos).getD [] =
      localIndices list.commands offset (isIndexed offset list.commands) pos := by
  have hentries : chunkEntries offset list.commands =
      (List.range list.commands.length).flatMap fun index =>
        (if isIndexed offset list.commands index then positionsOf list.commands offset index
          else []).map fun pos => (pos, index) := by
    rw [chunkEntries]
    congr 1
    funext index
    apply List.map_congr_left
    intro pos hpos
    split at hpos
    · obtain ⟨command, hcommand, hcontains⟩ := mem_positionsOf hpos
      obtain ⟨hx, hz⟩ := list.reach_int32 hoffset hcommand hcontains
      rw [toInt32_eq hx, toInt32_eq hz]
    · cases hpos
  rw [CommandIndex.build, AssocMap.lookup_foldl_pushBack, hentries, map_snd_filter_flatMap,
    AList.lookup_empty]
  · rfl
  · intro index _
    split
    · exact nodup_positionsOf _ _ _
    · exact List.nodup_nil

end IbImport

theorem zero_fitsInt32 : (BlockPos.mk 0 0 0).FitsInt32 := by decide

/-- The chunks are those requested, and every block has the id that was painted last. -/
def ChunkMap.Paints (chunks : ChunkMap) (air : RuntimeId) (positions : List ChunkPos)
    (commands : List CuboidCommand) (offset : BlockPos) : Prop :=
  ∀ pos, chunks.blockAt air pos =
    if blockToChunk pos ∈ positions then some ((painted commands offset pos).getD air) else none

/-- Painting every requested chunk paints the map. -/
theorem ChunkMap.forEachM_paints {air : RuntimeId} {positions : List ChunkPos}
    {commands : List CuboidCommand} {offset : BlockPos}
    {f : ChunkPos → ChunkData → Except String ChunkData}
    (h : ∀ chunkPos, ∃ chunk, f chunkPos {} = .ok chunk ∧ ∀ pos, blockToChunk pos = chunkPos →
      chunk.blockAt air pos = (painted commands offset pos).getD air) :
    ∃ chunks, (ChunkMap.emplaceAll positions).forEachM f = .ok chunks ∧
      chunks.Paints air positions commands offset := by
  obtain ⟨chunks, hchunks, hlookup⟩ := @ChunkMap.forEachM_emplaceAll positions _
    fun chunkPos _ => (h chunkPos).imp fun _ hchunk => hchunk.1
  refine ⟨chunks, hchunks, fun pos => ?_⟩
  obtain ⟨chunk, hchunk, hblock⟩ := h (blockToChunk pos)
  rw [ChunkMap.blockAt, hlookup, hchunk, apply_ite (Option.map _)]
  apply if_congr Iff.rfl _ rfl
  exact congrArg some (hblock pos rfl)

namespace McFunctionStructure

open McFunction

/-- The structure holds the commands, and a cached index belongs to its offset. -/
structure Valid (list : CommandList) (s : McFunctionStructure) : Prop where
  commands : s.commands = list.commands
  originalSize : s.originalSize = list.size
  offset : s.offset.FitsInt32
  index : ∀ index, s.index = some index → index.IsFor list s.offset

variable {list : CommandList} {s : McFunctionStructure}

theorem Valid.setOffset (h : s.Valid list) {offset : BlockPos} (hoffset : offset.FitsInt32) :
    (s.setOffset offset).Valid list :=
  ⟨h.commands, h.originalSize, hoffset, fun _ hindex => nomatch hindex⟩

/-- The cached index, or the new one, belongs to the offset. -/
theorem Valid.ensureIndex (h : s.Valid list) :
    ∃ index, s.ensureIndex = .ok index ∧ index.IsFor list s.offset := by
  rw [McFunctionStructure.ensureIndex]
  cases hindex : s.index with
  | some index => exact ⟨index, rfl, h.index index hindex⟩
  | none =>
    dsimp only
    rw [h.commands, h.originalSize, if_neg (Nat.not_lt.mpr list.count_le)]
    exact CommandIndex.build_ok list h.offset

/-- The loop over the requested chunks paints them. -/
theorem Valid.replaySlices (h : s.Valid list) {index : CommandIndex} (hfor : index.IsFor list s.offset)
    (air : RuntimeId) (positions : List ChunkPos) :
    ∃ chunks, ((ChunkMap.emplaceAll positions).forEachM fun chunkPos chunk =>
        match index.slice chunkPos with
        | none => .error "index out of range"
        | some indices => replay s.commands (process air s.offset chunkPos)
            (OrderedMerge.merge indices index.broadCommands) chunk) = .ok chunks ∧
      chunks.Paints air positions list.commands s.offset := by
  apply ChunkMap.forEachM_paints
  intro chunkPos
  rw [hfor.slice, hfor.broad, h.commands]
  exact blockAt_replay_merge _ (process_draws h.offset chunkPos)

/-- A request succeeds, paints the chunks and leaves a valid structure. -/
theorem Valid.getChunks {list : CommandList} {s : McFunctionStructure} (h : s.Valid list)
    (air : RuntimeId) (positions : List ChunkPos) :
    ∃ chunks index, s.getChunks air positions = .ok (chunks, { s with index := some index }) ∧
      chunks.Paints air positions list.commands s.offset ∧ index.IsFor list s.offset := by
  obtain ⟨index, hindex, hfor⟩ := h.ensureIndex
  obtain ⟨chunks, hchunks, hpaints⟩ := h.replaySlices hfor air positions
  refine ⟨chunks, index, ?_, hpaints, hfor⟩
  rw [McFunctionStructure.getChunks, hindex]
  exact congrArg (Except.map fun chunks => (chunks, { s with index := some index })) hchunks

/-- Every reachable structure is valid. -/
theorem Valid.of_reachable {air : RuntimeId}
    (hs : TransitionSystem.Reachable (step air) (ofRead list.commands list.size) s) :
    s.Valid list := by
  apply hs.invariant
  · exact ⟨rfl, rfl, zero_fitsInt32, fun _ hindex => nomatch hindex⟩
  · intro s request t hvalid hstep
    cases request with
    | setOffset offset =>
      rw [step] at hstep
      obtain ⟨hoffset, hstep⟩ := then_of_some hstep
      exact Option.some.inj hstep ▸ hvalid.setOffset hoffset
    | getChunks positions =>
      obtain ⟨chunks, index, hchunks, -, hfor⟩ := hvalid.getChunks air positions
      rw [step, hchunks] at hstep
      cases hstep
      exact ⟨hvalid.commands, hvalid.originalSize, hvalid.offset, fun _ h => by
        cases h
        exact hfor⟩

end McFunctionStructure

namespace IbImportStructure

open IbImport

/-- The structure holds the commands, and a cached index belongs to its offset. -/
structure Valid (list : CommandList) (s : IbImportStructure) : Prop where
  commands : s.commands = list.commands
  offset : s.offset.FitsInt32
  index : ∀ index, s.index = some index → index = CommandIndex.build s.offset list.commands

variable {list : CommandList} {s : IbImportStructure}

theorem Valid.setOffset (h : s.Valid list) {offset : BlockPos} (hoffset : offset.FitsInt32) :
    (s.setOffset offset).Valid list :=
  ⟨h.commands, hoffset, fun _ hindex => nomatch hindex⟩

/-- The cached index, or the new one, belongs to the offset. -/
theorem Valid.ensureIndex (h : s.Valid list) :
    s.ensureIndex = .ok (CommandIndex.build s.offset list.commands) := by
  rw [IbImportStructure.ensureIndex]
  cases hindex : s.index with
  | some index => rw [h.index index hindex]
  | none =>
    dsimp only
    rw [h.commands, if_neg (Nat.not_lt.mpr list.count_le)]

/-- A request succeeds, paints the chunks and leaves a valid structure. -/
theorem Valid.getChunks {list : CommandList} {s : IbImportStructure} (h : s.Valid list)
    (air : RuntimeId) (positions : List ChunkPos) :
    ∃ chunks, s.getChunks air positions =
        .ok (chunks, { s with index := some (CommandIndex.build s.offset list.commands) }) ∧
      chunks.Paints air positions list.commands s.offset := by
  obtain ⟨chunks, hchunks, hpaints⟩ := @ChunkMap.forEachM_paints air positions list.commands
    s.offset (fun chunkPos chunk => replay s.commands (process air s.offset chunkPos)
      (OrderedMerge.merge (((CommandIndex.build s.offset list.commands).commandIndex.lookup
        chunkPos).getD []) (CommandIndex.build s.offset list.commands).broadCommands) chunk)
    fun chunkPos => by
      rw [lookup_commandIndex h.offset, h.commands]
      exact blockAt_replay_merge _ (process_draws h.offset chunkPos)
  refine ⟨chunks, ?_, hpaints⟩
  rw [IbImportStructure.getChunks, h.ensureIndex]
  exact congrArg (Except.map fun chunks => (chunks, { s with
    index := some (CommandIndex.build s.offset list.commands) })) hchunks

/-- Every reachable structure is valid. -/
theorem Valid.of_reachable {air : RuntimeId}
    (hs : TransitionSystem.Reachable (step air) (ofRead list.commands list.size) s) :
    s.Valid list := by
  apply hs.invariant
  · exact ⟨rfl, zero_fitsInt32, fun _ hindex => nomatch hindex⟩
  · intro s request t hvalid hstep
    cases request with
    | setOffset offset =>
      rw [step] at hstep
      obtain ⟨hoffset, hstep⟩ := then_of_some hstep
      exact Option.some.inj hstep ▸ hvalid.setOffset hoffset
    | getChunks positions =>
      obtain ⟨chunks, hchunks, -⟩ := hvalid.getChunks air positions
      rw [step, hchunks] at hstep
      cases hstep
      exact ⟨hvalid.commands, hvalid.offset, fun _ h => by cases h; rfl⟩

end IbImportStructure

/-- Whatever was requested before, both readers give every block of the requested chunks the id
of the last command whose shifted cuboid contains it. Each command is either indexed, under
exactly the chunks it reaches, or broad, and all cells of the compressed rows are inside the
arrays. -/
theorem getChunks_paints (list : CommandList) (air : RuntimeId) (positions : List ChunkPos) :
    (∀ s, TransitionSystem.Reachable (McFunctionStructure.step air)
        (.ofRead list.commands list.size) s →
      ∃ chunks index, s.getChunks air positions = .ok (chunks, { s with index := some index }) ∧
        chunks.Paints air positions list.commands s.offset ∧
        (∃ localOf, (∀ pos, index.slice pos = some (localOf pos)) ∧
          Splits list.commands s.offset localOf index.broadCommands) ∧
        ∀ entry ∈ McFunction.cellEntries index.range s.offset list.commands,
          entry.1 < index.range.cellCount) ∧
    (∀ s, TransitionSystem.Reachable (IbImportStructure.step air)
        (.ofRead list.commands list.size) s →
      ∃ chunks index, s.getChunks air positions = .ok (chunks, { s with index := some index }) ∧
        chunks.Paints air positions list.commands s.offset ∧
        Splits list.commands s.offset (fun pos => (index.commandIndex.lookup pos).getD [])
          index.broadCommands) := by
  constructor
  · intro s hs
    obtain ⟨chunks, index, hchunks, hpaints, hfor⟩ :=
      (McFunctionStructure.Valid.of_reachable hs).getChunks air positions
    refine ⟨chunks, index, hchunks, hpaints, ⟨_, hfor.slice, ?_⟩, hfor.cells⟩
    rw [hfor.broad]
    exact splits_indices _ _ _
  · intro s hs
    have hvalid := IbImportStructure.Valid.of_reachable hs
    obtain ⟨chunks, hchunks, hpaints⟩ := hvalid.getChunks air positions
    refine ⟨chunks, _, hchunks, hpaints, ?_⟩
    simp only [IbImport.lookup_commandIndex hvalid.offset]
    exact splits_indices _ _ _

/-- A row and a later fill over its end. -/
def rowAndFill : CommandList where
  size := ⟨20, 1, 1⟩
  commands := [⟨0, 19, 0, 0, 0, 0, 7⟩, ⟨16, 19, 0, 0, 0, 0, 9⟩]
  width_le := by decide
  height_le := by decide
  length_le := by decide
  inside := by decide
  count_le := by decide

/-- After a shift by one block, both readers draw the later fill over the row. -/
theorem getChunks_paints_rowAndFill :
    (∃ chunks t, ((McFunctionStructure.ofRead rowAndFill.commands rowAndFill.size).setOffset
        ⟨-1, 0, 0⟩).getChunks 0 [⟨0, 0⟩] = .ok (chunks, t) ∧
      chunks.blockAt 0 ⟨15, 0, 0⟩ = some 9 ∧ chunks.blockAt 0 ⟨14, 0, 0⟩ = some 7) ∧
    ∃ chunks t, ((IbImportStructure.ofRead rowAndFill.commands rowAndFill.size).setOffset
        ⟨-1, 0, 0⟩).getChunks 0 [⟨0, 0⟩] = .ok (chunks, t) ∧
      chunks.blockAt 0 ⟨15, 0, 0⟩ = some 9 ∧ chunks.blockAt 0 ⟨14, 0, 0⟩ = some 7 := by
  have hpaints := getChunks_paints rowAndFill 0 [⟨0, 0⟩]
  obtain ⟨chunks, _, hchunks, hblocks, -⟩ := hpaints.1 _
    (@TransitionSystem.Reachable.next _ _ _ _ _ _ (.setOffset ⟨-1, 0, 0⟩) .start rfl)
  obtain ⟨chunks', _, hchunks', hblocks', -⟩ := hpaints.2 _
    (@TransitionSystem.Reachable.next _ _ _ _ _ _ (.setOffset ⟨-1, 0, 0⟩) .start rfl)
  exact ⟨⟨chunks, _, hchunks, hblocks ⟨15, 0, 0⟩, hblocks ⟨14, 0, 0⟩⟩,
    chunks', _, hchunks', hblocks' ⟨15, 0, 0⟩, hblocks' ⟨14, 0, 0⟩⟩

end WaterStructure
