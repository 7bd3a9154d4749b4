import WaterStructure.Formats.SchemChunks

/-!
# When the shared decode follows the offset

The shared decode computes the target column of a chunk by dividing the negated offset and looks
targets up by dividing the offset itself. The two roundings agree for offsets from -15 to 0.
Otherwise a chunk is shown the source moved by a multiple of sixteen columns, as far as the
decoded window reaches.
-/

namespace WaterStructure

open LastValue NestedLoop Schem

namespace SchemStructure

/-- The column under which the shared decode files a chunk. -/
def targetColumn (s : SchemStructure) (pos : ChunkPos) : ℤ :=
  floorDiv (toInt32 (pos.x * 16 - s.offset.x)) 16

/-- The chunk has columns in the source. -/
def HasColumns (s : SchemStructure) (pos : ChunkPos) : Prop :=
  (s.sourceRange pos).minX ≤ (s.sourceRange pos).maxX

instance (s : SchemStructure) (pos : ChunkPos) : Decidable (s.HasColumns pos) :=
  inferInstanceAs (Decidable (_ ≤ _))

/-- One turn of the loop that collects the targets. -/
def addTarget (s : SchemStructure) (shared : SharedRows) (pos : ChunkPos) : SharedRows :=
  if s.HasColumns pos then
    { targetEntries := shared.targetEntries ++ [(s.targetColumn pos, pos)]
      minTargetX := min shared.minTargetX (s.targetColumn pos)
      maxTargetX := max shared.maxTargetX (s.targetColumn pos)
      minX := min shared.minX (s.sourceRange pos).minX
      maxX := max shared.maxX (s.sourceRange pos).maxX }
  else shared

/-- The chunks show the same rows of the source. -/
def SameRows (s : SchemStructure) (first : SourceRange) (pos : ChunkPos) : Prop :=
  (s.sourceRange pos).minZ = first.minZ ∧ (s.sourceRange pos).maxZ = first.maxZ

instance (s : SchemStructure) (first : SourceRange) (pos : ChunkPos) :
    Decidable (s.SameRows first pos) := inferInstanceAs (Decidable (_ ∧ _))

/-- The targets are collected when all chunks show the same rows. -/
theorem collectShared_eq (s : SchemStructure) (first : SourceRange) (shared : SharedRows)
    (keys : List ChunkPos) :
    s.collectShared first shared keys =
      if ∀ pos ∈ keys, s.SameRows first pos then some (keys.foldl s.addTarget shared) else none := by
  induction keys generalizing shared with
  | nil => simp [collectShared]
  | cons pos rest ih =>
    rw [collectShared, List.foldl_cons]
    dsimp only
    by_cases hsame : s.SameRows first pos
    · rw [if_neg (by unfold SameRows at hsame; omega)]
      simp only [List.mem_cons, forall_eq_or_imp, hsame, true_and]
      split
      case isTrue hcolumns =>
        rw [ih, addTarget, if_pos (show s.HasColumns pos from hcolumns)]
        rfl
      case isFalse hcolumns =>
        rw [ih, addTarget, if_neg (show ¬ s.HasColumns pos from hcolumns)]
    · rw [if_pos (by unfold SameRows at hsame; omega), if_neg]
      exact fun hall => hsame (hall pos List.mem_cons_self)

/-- The targets of some chunks: the entries, and the least ranges that hold them. -/
structure Collected (s : SchemStructure) (shared : SharedRows) (keys : List ChunkPos) : Prop where
  entries : shared.targetEntries =
    (keys.filter fun pos => s.HasColumns pos).map fun pos => (s.targetColumn pos, pos)
  bounds : ∀ pos ∈ keys, s.HasColumns pos →
    (shared.minTargetX ≤ s.targetColumn pos ∧ s.targetColumn pos ≤ shared.maxTargetX) ∧
      shared.minX ≤ (s.sourceRange pos).minX ∧ (s.sourceRange pos).maxX ≤ shared.maxX
  least : shared.minX < s.originalSize.width →
    ∃ pos ∈ keys, s.HasColumns pos ∧ shared.minX = (s.sourceRange pos).minX
  greatest : -1 < shared.maxX →
    ∃ pos ∈ keys, s.HasColumns pos ∧ shared.maxX = (s.sourceRange pos).maxX

variable {s : SchemStructure} {shared : SharedRows} {keys : List ChunkPos} {first pos : ChunkPos}
  {positions : List ChunkPos} {air : RuntimeId} {codes : List (ℕ × ℕ)} {bytes : List UInt8} {index : RowIndex}

/-- Collecting one more chunk. -/
theorem Collected.addTarget (h : s.Collected shared keys) (pos : ChunkPos) :
    s.Collected (s.addTarget shared pos) (keys ++ [pos]) := by
  by_cases hcolumns : s.HasColumns pos
  · rw [SchemStructure.addTarget, if_pos hcolumns]
    constructor
    · rw [h.entries, List.filter_append, List.map_append]
      simp [hcolumns]
    · intro other hother hhas
      rcases List.mem_append.mp hother with hold | hnew
      · have hbounds := h.bounds other hold hhas
        dsimp only
        omega
      · rw [List.mem_singleton.mp hnew]
        dsimp only
        omega
    · dsimp only
      intro hlt
      rcases min_choice shared.minX (s.sourceRange pos).minX with heq | heq
      · obtain ⟨other, hother, hhas, hmin⟩ := h.least (by omega)
        exact ⟨other, List.mem_append_left _ hother, hhas, by omega⟩
      · exact ⟨pos, by simp, hcolumns, heq⟩
    · dsimp only
      intro hlt
      rcases max_choice shared.maxX (s.sourceRange pos).maxX with heq | heq
      · obtain ⟨other, hother, hhas, hmax⟩ := h.greatest (by omega)
        exact ⟨other, List.mem_append_left _ hother, hhas, by omega⟩
      · exact ⟨pos, by simp, hcolumns, heq⟩
  · rw [SchemStructure.addTarget, if_neg hcolumns]
    constructor
    · rw [h.entries, List.filter_append, List.map_append]
      simp [hcolumns]
    · intro other hother hhas
      rcases List.mem_append.mp hother with hold | hnew
      · exact h.bounds other hold hhas
      · rw [List.mem_singleton.mp hnew] at hhas
        exact absurd hhas hcolumns
    · intro hlt
      obtain ⟨other, hother, hrest⟩ := h.least hlt
      exact ⟨other, List.mem_append_left _ hother, hrest⟩
    · intro hlt
      obtain ⟨other, hother, hrest⟩ := h.greatest hlt
      exact ⟨other, List.mem_append_left _ hother, hrest⟩

/-- Collecting all chunks. -/
theorem Collected.run {done : List ChunkPos} (h : s.Collected shared done) (rest : List ChunkPos) :
    s.Collected (rest.foldl s.addTarget shared) (done ++ rest) := by
  induction rest generalizing shared done with
  | nil => rwa [List.append_nil]
  | cons pos rest ih =>
    rw [List.foldl_cons, show done ++ pos :: rest = done ++ [pos] ++ rest by simp]
    exact ih (h.addTarget pos)

theorem collected_start (s : SchemStructure) :
    s.Collected ⟨[], int32Max, int32Min, s.originalSize.width, -1⟩ [] where
  entries := rfl
  bounds := fun _ h => nomatch h
  least := fun h => absurd h (lt_irrefl _)
  greatest := fun h => absurd h (lt_irrefl _)

/-- The requested chunks share their rows: all lie on one chunk row, and one shows the source. -/
def Shares (s : SchemStructure) (keys : List ChunkPos) : Prop :=
  (∀ pos ∈ keys, ∀ other ∈ keys, pos.z = other.z) ∧ ∃ pos ∈ keys, s.Meets pos

/-- Chunks on one chunk row show the same rows. -/
theorem sameRows_of_z (h : pos.z = first.z) : s.SameRows (s.sourceRange first) pos := by
  simp only [SameRows, sourceRange, h, and_self]

/-- Chunks that show the same rows lie on one chunk row. -/
theorem SameRows.z (h : s.SameRows (s.sourceRange first) pos)
    (hrows : (s.sourceRange first).minZ ≤ (s.sourceRange first).maxZ) : pos.z = first.z := by
  simp only [SameRows, sourceRange] at h hrows
  omega

/-- The shared decode is taken when the chunks share their rows, and then all are targets. -/
theorem sharedRows_some (hwidth : 0 < s.originalSize.width) (h : s.sharedRows keys = some (first, shared)) :
    first ∈ keys ∧ s.Shares keys ∧ s.Collected shared keys ∧ shared.minX ≤ shared.maxX := by
  cases keys with
  | nil => cases h
  | cons head rest =>
    rw [sharedRows, collectShared_eq] at h
    obtain ⟨hrows, h⟩ := else_of_some h
    split at h
    case h_1 => cases h
    case h_2 found hfound =>
      obtain ⟨hwindow, h⟩ := else_of_some h
      cases h
      obtain ⟨hsame, hfound⟩ := then_of_some hfound
      have hcollected := s.collected_start.run (first :: rest)
      rw [Option.some.inj hfound, List.nil_append] at hcollected
      have hz (pos : ChunkPos) (hpos : pos ∈ first :: rest) : pos.z = first.z :=
        (hsame pos hpos).z (by omega)
      obtain ⟨pos, hpos, hhas⟩ : ∃ pos ∈ first :: rest, s.HasColumns pos := by
        by_cases hleast : shared.minX < s.originalSize.width
        · obtain ⟨pos, hpos, hhas, -⟩ := hcollected.least hleast
          exact ⟨pos, hpos, hhas⟩
        · obtain ⟨pos, hpos, hhas, -⟩ := hcollected.greatest (by omega)
          exact ⟨pos, hpos, hhas⟩
      have hmeets : s.Meets pos := by
        refine ⟨hhas, ?_⟩
        rw [(hsame pos hpos).1, (hsame pos hpos).2]
        omega
      exact ⟨List.mem_cons_self, ⟨fun pos hpos other hother =>
        (hz pos hpos).trans (hz other hother).symm, pos, hpos, hmeets⟩, hcollected,
        by omega⟩

/-- Otherwise each chunk is decoded on its own. -/
theorem sharedRows_none (h : s.sharedRows keys = none) : ¬ s.Shares keys := by
  rintro ⟨hz, pos, hpos, hmeets⟩
  cases keys with
  | nil => cases hpos
  | cons head rest =>
    have hsame : ∀ other ∈ head :: rest, s.SameRows (s.sourceRange head) other :=
      fun other hother => sameRows_of_z (hz other hother head List.mem_cons_self)
    have hcollected := s.collected_start.run (head :: rest)
    have hbounds := hcollected.bounds pos (by simpa using hpos) hmeets.1
    have hrows := hmeets.2
    rw [(hsame pos hpos).1, (hsame pos hpos).2] at hrows
    rw [sharedRows, collectShared_eq, if_pos hsame, if_neg (Int.not_lt.mpr hrows)] at h
    dsimp only at h
    rw [if_neg] at h
    · cases h
    · have hcolumns := hmeets.1
      omega

/-- The target column of a chunk with columns, without machine arithmetic. -/
theorem targetColumn_eq (hwidth : s.originalSize.width ≤ int32Max) (hcolumns : s.HasColumns pos) :
    s.targetColumn pos = (pos.x * 16 - s.offset.x) / 16 := by
  simp only [HasColumns, sourceRange] at hcolumns
  rw [targetColumn, floorDiv_sixteen, toInt32_eq]
  simp only [IsInt32, int32Min, int32Max] at *
  omega

/-- Chunks of one row have different target columns. -/
theorem targetColumn_inj (hwidth : s.originalSize.width ≤ int32Max) {other : ChunkPos}
    (hcolumns : s.HasColumns pos) (hcolumns' : s.HasColumns other) (hz : pos.z = other.z)
    (h : s.targetColumn pos = s.targetColumn other) : pos = other := by
  rw [targetColumn_eq hwidth hcolumns, targetColumn_eq hwidth hcolumns'] at h
  obtain ⟨x, z⟩ := pos
  obtain ⟨x', z'⟩ := other
  simp only [ChunkPos.mk.injEq] at *
  omega

/-- The table leads from a chunk's target column to the chunk. -/
theorem Collected.targetAt_some (hwidth : s.originalSize.width ≤ int32Max) (h : s.Collected shared keys)
    (hz : ∀ pos ∈ keys, ∀ other ∈ keys, pos.z = other.z) (hpos : pos ∈ keys) (hcolumns : s.HasColumns pos) :
    shared.targetAt shared.targets (s.targetColumn pos) = some pos := by
  have hbounds := h.bounds pos hpos hcolumns
  rw [SharedRows.targetAt, if_neg (by omega), SharedRows.targets, getElem?_foldl_set,
    List.getElem?_replicate, if_pos (by omega), Option.map_some, Option.join_some, h.entries,
    lastValue_map, lastValue_of_agree (v := some pos), Option.getD_some]
  · intro other hother value hvalue
    rw [List.mem_filter] at hother
    have hother' := h.bounds other hother.1 (of_decide_eq_true hother.2)
    obtain ⟨hplace, hvalue⟩ := then_of_some hvalue
    cases hvalue
    dsimp only at hplace
    rw [targetColumn_inj hwidth (of_decide_eq_true hother.2) hcolumns
      (hz other hother.1 pos hpos) (by omega)]
  · exact ⟨pos, List.mem_filter.mpr ⟨hpos, decide_eq_true hcolumns⟩, by simp⟩

/-- Other columns lead nowhere. -/
theorem Collected.targetAt_none (h : s.Collected shared keys) {column : ℤ}
    (hnone : ∀ pos ∈ keys, s.HasColumns pos → s.targetColumn pos ≠ column) :
    shared.targetAt shared.targets column = none := by
  rw [SharedRows.targetAt]
  split_ifs with hlow
  · rfl
  · rw [SharedRows.targets, getElem?_foldl_set, List.getElem?_replicate]
    split
    · rw [Option.map_some, Option.join_some, h.entries, lastValue_map,
        lastValue_eq_none.mpr, Option.getD_none]
      intro pos hpos
      rw [List.mem_filter] at hpos
      have hbounds := h.bounds pos hpos.1 (of_decide_eq_true hpos.2)
      apply if_neg
      have hne := hnone pos hpos.1 (of_decide_eq_true hpos.2)
      dsimp only
      omega
    · rfl

/-- The chunk and the local column that the shared decode gives a source column. -/
theorem Collected.targetAt_iff (hwidth : s.originalSize.width ≤ int32Max) (h : s.Collected shared keys)
    (hz : ∀ pos ∈ keys, ∀ other ∈ keys, pos.z = other.z) {column : ℤ} :
    shared.targetAt shared.targets column = some pos ↔
      pos ∈ keys ∧ s.HasColumns pos ∧ s.targetColumn pos = column := by
  constructor
  · intro htarget
    by_contra hnot
    by_cases hexists : ∃ other ∈ keys, s.HasColumns other ∧ s.targetColumn other = column
    · obtain ⟨other, hother, hcolumns, rfl⟩ := hexists
      rw [h.targetAt_some hwidth hz hother hcolumns] at htarget
      cases htarget
      exact hnot ⟨hother, hcolumns, rfl⟩
    · rw [h.targetAt_none fun other hother hcolumns heq =>
        hexists ⟨other, hother, hcolumns, heq⟩] at htarget
      cases htarget
  · rintro ⟨hpos, hcolumns, rfl⟩
    exact h.targetAt_some hwidth hz hpos hcolumns

/-- The decoded window lies inside the source. -/
theorem Collected.window_inside (hwidth : 0 < s.originalSize.width) (h : s.Collected shared keys) :
    0 ≤ shared.minX ∧ shared.maxX < s.originalSize.width := by
  constructor
  · by_cases hleast : shared.minX < s.originalSize.width
    · obtain ⟨pos, -, -, hmin⟩ := h.least hleast
      simp only [sourceRange] at hmin
      omega
    · omega
  · by_cases hgreatest : -1 < shared.maxX
    · obtain ⟨pos, -, -, hmax⟩ := h.greatest hgreatest
      simp only [sourceRange] at hmax
      omega
    · omega

/-- The source column that the shared decode shows at a block column of a chunk. -/
def sharedColumn (s : SchemStructure) (pos : BlockPos) : ℤ :=
  (((blockToChunk pos).x * 16 - s.offset.x) / 16 * 16 + pos.x % 16 - s.offset.x) % 4294967296

/-- The loop body on one source cell. -/
def storeSharedCell (s : SchemStructure) (air : RuntimeId) (firstChunkMinZ : ℤ)
    (shared : SharedRows) (codes : List (ℕ × ℕ)) (result : ChunkMap) (cell : BlockPos) :
    ChunkMap :=
  match shared.targetAt shared.targets (floorDiv (toInt32 (cell.x + s.offset.x)) 16) with
  | none => result
  | some target =>
    let id := s.palette.runtimeIdFor (s.valueOf codes cell)
    if id = air then result
    else
      AssocMap.update result target (s.storeLocal air cell.y
        (toInt32 (cell.x + s.offset.x - floorDiv (toInt32 (cell.x + s.offset.x)) 16 * 16))
        (toInt32 (cell.z + s.offset.z - firstChunkMinZ)) id)

/-- The chunks of the map are those requested, in the reader's layout. -/
def KeepsRequest (positions : List ChunkPos) (result : ChunkMap) : Prop :=
  ∀ pos, (result.lookup pos).map ChunkData.layout =
    if pos ∈ positions then some .Internal else none

theorem keepsRequest_emplaceAll (positions : List ChunkPos) :
    KeepsRequest positions (ChunkMap.emplaceAll positions) := by
  intro pos
  rw [ChunkMap.lookup_emplaceAll, apply_ite (Option.map _)]
  rfl

/-- The id that a source cell leaves at a block, if it is shown there. -/
def sharedWrite (s : SchemStructure) (air : RuntimeId) (codes : List (ℕ × ℕ)) (pos cell : BlockPos) :
    Option RuntimeId :=
  if (s.HasColumns (blockToChunk pos) ∧
      toInt32 (cell.x + s.offset.x) = s.targetColumn (blockToChunk pos) * 16 + pos.x % 16) ∧
    (cell.y + s.offset.y = pos.y ∧ cell.z + s.offset.z = pos.z) ∧
      s.palette.runtimeIdFor (s.valueOf codes cell) ≠ air then
    some (s.palette.runtimeIdFor (s.valueOf codes cell))
  else none

/-- One cell of the shared decode changes at most the block where it is shown. -/
theorem Collected.storeSharedCell (hwidth : s.originalSize.width ≤ int32Max) (h : s.Collected shared keys)
    (hkeys : ∀ pos, pos ∈ keys ↔ pos ∈ positions) (hz : ∀ pos ∈ keys, ∀ other ∈ keys, pos.z = other.z)
    (hfirst : first ∈ keys) {result : ChunkMap} (hresult : KeepsRequest positions result) {cell pos : BlockPos}
    (hrow : (cell.z + s.offset.z) / 16 = first.z) (hpos : blockToChunk pos ∈ positions) :
    KeepsRequest positions (s.storeSharedCell air (first.z * 16) shared codes result cell) ∧
      ((s.storeSharedCell air (first.z * 16) shared codes result cell).blockAt air pos).getD air =
        (s.sharedWrite air codes pos cell).getD ((result.blockAt air pos).getD air) := by
  rw [SchemStructure.storeSharedCell, sharedWrite, floorDiv_sixteen]
  cases htarget : shared.targetAt shared.targets (toInt32 (cell.x + s.offset.x) / 16) with
  | none =>
    refine ⟨hresult, ?_⟩
    rw [if_neg, Option.getD_none]
    rintro ⟨⟨hcolumns, hcolumn⟩, -⟩
    have hsome := h.targetAt_some hwidth hz ((hkeys _).mpr hpos) hcolumns
    rw [show s.targetColumn (blockToChunk pos) = toInt32 (cell.x + s.offset.x) / 16 by omega,
      htarget] at hsome
    cases hsome
  | some target =>
    obtain ⟨hmem, hhas, hcolumn⟩ := (h.targetAt_iff hwidth hz).mp htarget
    dsimp only
    by_cases hair : s.palette.runtimeIdFor (s.valueOf codes cell) = air
    · rw [if_pos hair, if_neg fun h => h.2.2 hair]
      exact ⟨hresult, rfl⟩
    · rw [if_neg hair]
      have hlayout := hresult target
      rw [if_pos ((hkeys target).mp hmem)] at hlayout
      obtain ⟨chunk, hchunk, hinternal⟩ := Option.map_eq_some_iff.mp hlayout
      -- The block of the target chunk at which the cell is stored.
      obtain ⟨place, hplace⟩ : ∃ place : BlockPos, place = ⟨target.x * 16 +
        toInt32 (cell.x + s.offset.x) % 16, cell.y + s.offset.y, cell.z + s.offset.z⟩ := ⟨_, rfl⟩
      have hplaceChunk : blockToChunk place = target := by
        have htargetZ := hz target hmem first hfirst
        obtain ⟨x, z⟩ := target
        simp only [hplace, blockToChunk, floorDiv_sixteen, ChunkPos.mk.injEq] at *
        omega
      have hstored := @storeLocal_eq s air chunk hinternal cell.y
        (toInt32 (cell.x + s.offset.x - toInt32 (cell.x + s.offset.x) / 16 * 16))
        (toInt32 (cell.z + s.offset.z - first.z * 16))
        (s.palette.runtimeIdFor (s.valueOf codes cell)) place
        (by unfold toInt32; rw [hplace]; dsimp only; unfold toInt32; omega) (by rw [hplace])
        (by unfold toInt32; rw [hplace]; dsimp only; omega)
      constructor
      · intro other
        rw [AssocMap.lookup_update]
        split
        case isTrue hsame =>
          rw [hsame, hchunk, Option.map_some, hstored, Option.map_some, ChunkData.setAt_layout,
            hinternal, if_pos ((hkeys target).mp hmem)]
        case isFalse => exact hresult other
      · rw [ChunkMap.blockAt, ChunkMap.blockAt, AssocMap.lookup_update]
        by_cases hsame : blockToChunk pos = target
        · rw [if_pos hsame, hsame, hchunk, Option.map_some, hstored, Option.map_some, Option.map_some,
            Option.getD_some, Option.getD_some,
            ChunkData.blockAt_setAt _ _ _ (by rw [hplaceChunk, hsame])]
          rw [apply_ite (fun value : Option RuntimeId => value.getD _)]
          apply if_congr _ rfl rfl
          rw [hcolumn]
          constructor
          · rintro rfl
            rw [hplace]
            exact ⟨⟨hhas, by dsimp only; omega⟩, ⟨rfl, rfl⟩, hair⟩
          · rintro ⟨⟨-, hx⟩, ⟨hy, hz⟩, -⟩
            obtain ⟨x, y, z⟩ := pos
            subst hsame
            simp only [hplace, blockToChunk, floorDiv_sixteen, BlockPos.mk.injEq] at *
            omega
        · rw [if_neg hsame, if_neg, Option.getD_none]
          rintro ⟨⟨hcolumns, hx⟩, -⟩
          refine hsame (targetColumn_inj hwidth hcolumns hhas
            (hz _ ((hkeys _).mpr hpos) target hmem) ?_)
          rw [hcolumn]
          omega

/-- Inside the source, a column is shown at a block column exactly when it is the shared one. -/
theorem sharedColumn_iff (hwidth : s.originalSize.width ≤ int32Max) {pos : BlockPos}
    (hcolumns : s.HasColumns (blockToChunk pos)) {x : ℤ} (hlow : 0 ≤ x) (hhigh : x < s.originalSize.width) :
    toInt32 (x + s.offset.x) = s.targetColumn (blockToChunk pos) * 16 + pos.x % 16 ↔
      x = s.sharedColumn pos := by
  rw [targetColumn_eq hwidth hcolumns]
  simp only [HasColumns, sourceRange] at hcolumns
  unfold toInt32 sharedColumn
  simp only [int32Max] at hwidth
  omega

/-- The block that the shared decode shows, inside the decoded window. -/
def sharedBlock (s : SchemStructure) (air : RuntimeId) (minX maxX : ℤ) (pos : BlockPos) :
    RuntimeId :=
  if s.HasColumns (blockToChunk pos) ∧ minX ≤ s.sharedColumn pos ∧ s.sharedColumn pos ≤ maxX then
    s.sourceBlock air ⟨s.sharedColumn pos, pos.y - s.offset.y, pos.z - s.offset.z⟩
  else air

/-- The last id that the decoded cells leave at a block is that of the shared column. -/
theorem lastValue_sharedWrite (hwidth : s.originalSize.width ≤ int32Max) (h : s.Indexed bytes index codes)
    (air : RuntimeId) {minX maxX : ℤ} (hmin : 0 ≤ minX) (hmax : maxX < s.originalSize.width) {pos : BlockPos}
    (hz : (blockToChunk pos).z = first.z) :
    (lastValue (s.sharedWrite air codes pos) (s.cellsBetween minX maxX (s.sourceRange first).minZ
      (s.sourceRange first).maxZ)).getD air = s.sharedBlock air minX maxX pos := by
  obtain ⟨shown, hshown⟩ : ∃ shown : BlockPos,
    shown = ⟨s.sharedColumn pos, pos.y - s.offset.y, pos.z - s.offset.z⟩ := ⟨_, rfl⟩
  have honly : ∀ cell ∈ s.cellsBetween minX maxX (s.sourceRange first).minZ
      (s.sourceRange first).maxZ, s.sharedWrite air codes pos cell ≠ none →
        s.HasColumns (blockToChunk pos) ∧ cell = shown := by
    intro cell hcell hwrite
    rw [mem_cellsBetween] at hcell
    rw [sharedWrite] at hwrite
    split_ifs at hwrite with hcond
    · obtain ⟨⟨hcolumns, hcolumn⟩, ⟨hy, hz'⟩, -⟩ := hcond
      rw [sharedColumn_iff hwidth hcolumns (by omega) (by omega)] at hcolumn
      refine ⟨hcolumns, ?_⟩
      obtain ⟨x, y, z⟩ := cell
      simp only [hshown, BlockPos.mk.injEq] at *
      omega
    · exact absurd rfl hwrite
  have hrows : (s.sourceRange first).minZ ≤ shown.z ∧ shown.z ≤ (s.sourceRange first).maxZ ↔
      0 ≤ shown.z ∧ shown.z < s.originalSize.length := by
    simp only [blockToChunk, floorDiv_sixteen] at hz
    simp only [sourceRange, hshown]
    omega
  rw [sharedBlock, ← hshown, h.sourceBlock_eq]
  by_cases hcond : s.HasColumns (blockToChunk pos) ∧ shown ∈ s.cellsBetween minX maxX
      (s.sourceRange first).minZ (s.sourceRange first).maxZ
  · obtain ⟨hcolumns, hmem⟩ := hcond
    rw [lastValue_of_unique hmem fun cell hcell hne => by
      by_contra hwrite
      exact hne (honly cell hcell hwrite).2]
    rw [mem_cellsBetween, hrows] at hmem
    have hx : shown.x = s.sharedColumn pos := by rw [hshown]
    rw [if_pos ⟨hcolumns, by omega, by omega⟩, if_pos (by unfold Size.Contains; omega), sharedWrite]
    by_cases hair : s.palette.runtimeIdFor (s.valueOf codes shown) = air
    · rw [if_neg fun h => h.2.2 hair, hair, Option.getD_none]
    · rw [if_pos, Option.getD_some]
      refine ⟨⟨hcolumns, (sharedColumn_iff hwidth hcolumns (by omega) (by omega)).mpr hx⟩, ?_, hair⟩
      rw [hshown]
      dsimp only
      omega
  · rw [lastValue_eq_none.mpr fun cell hcell => by
      by_contra hwrite
      obtain ⟨hcolumns, rfl⟩ := honly cell hcell hwrite
      exact hcond ⟨hcolumns, hcell⟩, Option.getD_none]
    split
    case isFalse => rfl
    case isTrue hwindow =>
      rw [if_neg]
      intro hcontains
      refine hcond ⟨hwindow.1, ?_⟩
      have hx : shown.x = s.sharedColumn pos := by rw [hshown]
      obtain ⟨-, hy, hz⟩ := hcontains
      rw [mem_cellsBetween, hrows]
      omega

/-- What the shared decode leaves. -/
theorem Indexed.shared_ok (h : s.Indexed bytes index codes)
    (hlayers : ∀ y, 0 ≤ y → y < s.originalSize.height → s.layerFits y = true) (air : RuntimeId)
    (hshared : s.sharedRows (ChunkMap.emplaceAll positions).keys = some (first, shared)) :
    ∃ chunks, s.forRows shared.minX shared.maxX (s.sourceRange first).minZ
        (s.sourceRange first).maxZ (s.storeShared air (first.z * 16) shared shared.targets)
        (ChunkMap.emplaceAll positions) = .ok chunks ∧
      ∀ pos, chunks.blockAt air pos = if blockToChunk pos ∈ positions then
        some (s.sharedBlock air shared.minX shared.maxX pos) else none := by
  have hwidth := h.width.2
  obtain ⟨hfirst, ⟨hz, -⟩, hcollected, hwindow⟩ := sharedRows_some h.width.1 hshared
  have hkeys (pos : ChunkPos) : pos ∈ (ChunkMap.emplaceAll positions).keys ↔ pos ∈ positions :=
    ChunkMap.mem_keys_emplaceAll
  obtain ⟨hmin, hmax⟩ := hcollected.window_inside h.width.1
  have hrow : ∀ cell ∈ s.cellsBetween shared.minX shared.maxX (s.sourceRange first).minZ
      (s.sourceRange first).maxZ, (cell.z + s.offset.z) / 16 = first.z := by
    intro cell hcell
    rw [mem_cellsBetween] at hcell
    simp only [sourceRange] at hcell
    omega
  have hrun (pos : BlockPos) (hpos : blockToChunk pos ∈ positions) := foldl_observe_inv
    (fun result : ChunkMap => (result.blockAt air pos).getD air) (s.sharedWrite air codes pos)
    (s.storeSharedCell air (first.z * 16) shared codes) (KeepsRequest positions)
    (s.cellsBetween shared.minX shared.maxX (s.sourceRange first).minZ (s.sourceRange first).maxZ)
    (keepsRequest_emplaceAll positions) fun result hresult cell hmem =>
      hcollected.storeSharedCell hwidth hkeys hz hfirst hresult (hrow cell hmem) hpos
  refine ⟨_, @Indexed.forRows_eq _ _ _ _ _ h hlayers _ _ _ _ ⟨hmin, hwindow, hmax⟩ ?_ _
    (s.storeSharedCell air (first.z * 16) shared codes) ?_ ?_ _, ?_⟩
  · simp only [sourceRange]
    omega
  · intro y z rowData result x hlt
    rw [storeShared, if_pos hlt]
  · intro cell _ hle rowData result hvalue
    rw [storeShared, if_neg (Int.not_lt.mpr hle), hvalue]
    rfl
  · intro pos
    have hkeeps := (hrun ⟨first.x * 16, 0, first.z * 16⟩ (by
      simpa [blockToChunk] using (hkeys first).mp hfirst)).1 (blockToChunk pos)
    by_cases hpos : blockToChunk pos ∈ positions
    · rw [if_pos hpos] at hkeeps ⊢
      obtain ⟨chunk, hchunk, -⟩ := Option.map_eq_some_iff.mp hkeeps
      have hblock := (hrun pos hpos).2
      rw [ChunkMap.blockAt, hchunk, Option.map_some, Option.getD_some] at hblock
      rw [ChunkMap.blockAt, hchunk, Option.map_some, hblock, ChunkMap.blockAt,
        ChunkMap.lookup_emplaceAll, if_pos hpos, Option.map_some, Option.getD_some,
        ChunkData.blockAt_empty, lastValue_sharedWrite hwidth h air hmin hmax
          (hz _ ((hkeys _).mpr hpos) first hfirst)]
    · rw [if_neg hpos] at hkeeps ⊢
      rw [ChunkMap.blockAt, Option.map_eq_none_iff.mp hkeeps, Option.map_none]

/-- The request succeeds, and every block of a requested chunk is the block of the source that the
offset moves there; blocks that no source block reaches are air. -/
def FollowsOffset (s : SchemStructure) (air : RuntimeId) (positions : List ChunkPos) : Prop :=
  ∃ chunks, s.getChunks air positions = .ok chunks ∧ ∀ pos, chunks.blockAt air pos =
    if blockToChunk pos ∈ positions then some (s.sourceBlock air (pos.sub s.offset)) else none

/-- Every block row of the moved structure, and the row 64 below it, is an `int`. -/
def RowsFit (s : SchemStructure) : Prop :=
  int32Min + 64 ≤ s.offset.y ∧ s.offset.y + s.originalSize.height - 1 ≤ int32Max

/-- The column lies between the first and the last column that requested chunks show. -/
def InWindow (s : SchemStructure) (positions : List ChunkPos) (x : ℤ) : Prop :=
  (∃ pos ∈ positions, s.Meets pos ∧ (s.sourceRange pos).minX ≤ x) ∧
    ∃ pos ∈ positions, s.Meets pos ∧ x ≤ (s.sourceRange pos).maxX

instance (s : SchemStructure) (positions : List ChunkPos) (x : ℤ) :
    Decidable (s.InWindow positions x) := inferInstanceAs (Decidable (_ ∧ _))

/-- Moving the source by the rounding difference of the two divisions, and cutting it off at the
window, leaves every block of the requested chunks what it should be. -/
def SharedAgrees (s : SchemStructure) (air : RuntimeId) (positions : List ChunkPos) : Prop :=
  ∀ pos, blockToChunk pos ∈ positions → s.Meets (blockToChunk pos) →
    s.sourceBlock air (pos.sub s.offset) =
      if s.InWindow positions (s.sharedColumn pos) then
        s.sourceBlock air ⟨s.sharedColumn pos, pos.y - s.offset.y, pos.z - s.offset.z⟩
      else air

/-- Rows fit exactly when every layer does. -/
theorem rowsFit_iff (hheight : 0 < s.originalSize.height) :
    s.RowsFit ↔ ∀ y, 0 ≤ y → y < s.originalSize.height → s.layerFits y = true := by
  simp only [layerFits, decide_eq_true_eq]
  unfold RowsFit IsInt32 int32Min int32Max
  constructor
  · intro h y hlow hhigh
    omega
  · intro h
    have hfirst := h 0 le_rfl hheight
    have hlast := h (s.originalSize.height - 1) (by omega) (by omega)
    omega

/-- If the rows do not fit, a request that shows the source fails. -/
theorem getChunks_error (hheight : 0 < s.originalSize.height) (hrows : ¬ s.RowsFit)
    (hmeets : ∃ pos ∈ positions, s.Meets pos) : ¬ ∃ chunks, s.getChunks air positions = .ok chunks := by
  rintro ⟨chunks, hchunks⟩
  obtain ⟨y, hlow, hhigh, hlayer⟩ : ∃ y, 0 ≤ y ∧ y < s.originalSize.height ∧
      s.layerFits y = false := by
    by_contra hall
    refine hrows ((rowsFit_iff hheight).mpr fun y hlow hhigh => ?_)
    by_contra hlayer
    exact hall ⟨y, hlow, hhigh, by simpa using hlayer⟩
  rw [getChunks] at hchunks
  dsimp only at hchunks
  obtain ⟨_, hchunks⟩ := else_of_ok hchunks
  split at hchunks
  case h_1 first shared hshared => exact forRows_error ⟨y, hlow, hhigh, hlayer⟩ _ ⟨_, hchunks⟩
  case h_2 =>
    obtain ⟨pos, hpos, hmeet⟩ := hmeets
    obtain ⟨chunk, hchunk⟩ := ChunkMap.exists_of_forEachM_emplaceAll hchunks hpos
    rw [ownChunk, if_neg (not_or.mpr ⟨Int.not_lt.mpr hmeet.1, Int.not_lt.mpr hmeet.2⟩)] at hchunk
    exact forRows_error ⟨y, hlow, hhigh, hlayer⟩ _ ⟨_, hchunk⟩

/-- Decoding each chunk on its own follows the offset. -/
theorem Indexed.followsOffset_own (h : s.Indexed bytes index codes)
    (hshared : s.sharedRows (ChunkMap.emplaceAll positions).keys = none)
    (hown : ∀ chunkPos ∈ positions, ∃ chunk, s.ownChunk air chunkPos {} = .ok chunk ∧
      ∀ pos, blockToChunk pos = chunkPos →
        chunk.blockAt air pos = s.sourceBlock air (pos.sub s.offset)) : s.FollowsOffset air positions := by
  obtain ⟨chunks, hchunks, hlookup⟩ := ChunkMap.forEachM_emplaceAll (f := s.ownChunk air)
    fun chunkPos hmem => (hown chunkPos hmem).imp fun _ hchunk => hchunk.1
  refine ⟨chunks, ?_, fun pos => ?_⟩
  · simp only [getChunks, h.stored, hshared, hchunks]
    rfl
  · rw [ChunkMap.blockAt, hlookup]
    split_ifs with hmem
    · obtain ⟨chunk, hchunk, hblock⟩ := hown _ hmem
      rw [hchunk]
      exact congrArg some (hblock pos rfl)
    · rfl

/-- A chunk that shows nothing of the source stays empty. -/
theorem Indexed.ownChunk_empty (h : s.Indexed bytes index codes) (air : RuntimeId) {chunkPos : ChunkPos}
    (hmeets : ¬ s.Meets chunkPos) :
    ∃ chunk, s.ownChunk air chunkPos {} = .ok chunk ∧ ∀ pos, blockToChunk pos = chunkPos →
      chunk.blockAt air pos = s.sourceBlock air (pos.sub s.offset) := by
  refine ⟨{}, ?_, fun pos hpos => ?_⟩
  · rw [ownChunk]
    exact if_pos (by unfold Meets at hmeets; omega)
  · rw [ChunkData.blockAt_empty, h.sourceBlock_eq, if_neg]
    intro hcontains
    exact hmeets (hpos ▸ meets_of_contains hcontains)

/-- In the shared decode, the window is the one of the requested chunks. -/
theorem Collected.inWindow_iff (hwidth : 0 < s.originalSize.width) (h : s.Collected shared keys)
    (hkeys : ∀ pos, pos ∈ keys ↔ pos ∈ positions) (hmeets : ∀ pos ∈ keys, s.HasColumns pos → s.Meets pos)
    (hwindow : shared.minX ≤ shared.maxX) (x : ℤ) :
    s.InWindow positions x ↔ shared.minX ≤ x ∧ x ≤ shared.maxX := by
  obtain ⟨hmin, hmax⟩ := h.window_inside hwidth
  obtain ⟨first, hfirst, hfirstHas, hleast⟩ := h.least (by omega)
  obtain ⟨last, hlast, hlastHas, hgreatest⟩ := h.greatest (by omega)
  constructor
  · rintro ⟨⟨pos, hpos, hmeet, hle⟩, other, hother, hmeet', hle'⟩
    have hbounds := h.bounds pos ((hkeys pos).mpr hpos) hmeet.1
    have hbounds' := h.bounds other ((hkeys other).mpr hother) hmeet'.1
    omega
  · rintro ⟨hlow, hhigh⟩
    exact ⟨⟨first, (hkeys first).mp hfirst, hmeets first hfirst hfirstHas, by omega⟩,
      last, (hkeys last).mp hlast, hmeets last hlast hlastHas, by omega⟩

/-- The shared decode follows the offset exactly when the moved source agrees. -/
theorem Indexed.followsOffset_shared (h : s.Indexed bytes index codes)
    (hlayers : ∀ y, 0 ≤ y → y < s.originalSize.height → s.layerFits y = true)
    (hshared : s.sharedRows (ChunkMap.emplaceAll positions).keys = some (first, shared)) :
    s.FollowsOffset air positions ↔ s.SharedAgrees air positions := by
  obtain ⟨hfirst, ⟨hz, meeting, hmeeting, hmeet⟩, hcollected, hwindow⟩ :=
    sharedRows_some h.width.1 hshared
  have hkeys (pos : ChunkPos) : pos ∈ (ChunkMap.emplaceAll positions).keys ↔ pos ∈ positions :=
    ChunkMap.mem_keys_emplaceAll
  have hmeets : ∀ pos ∈ (ChunkMap.emplaceAll positions).keys, s.HasColumns pos → s.Meets pos := by
    intro pos hpos hcolumns
    refine ⟨hcolumns, ?_⟩
    have hsame := sameRows_of_z (s := s) (hz pos hpos meeting hmeeting)
    rw [hsame.1, hsame.2]
    exact hmeet.2
  obtain ⟨chunks, hchunks, hblocks⟩ := h.shared_ok hlayers air hshared
  have hresult : s.getChunks air positions = .ok chunks := by
    simp only [getChunks, h.stored, hshared, hchunks]
    rfl
  have hblock (pos : BlockPos) (hmeet : s.Meets (blockToChunk pos)) :
      s.sharedBlock air shared.minX shared.maxX pos =
        if s.InWindow positions (s.sharedColumn pos) then
          s.sourceBlock air ⟨s.sharedColumn pos, pos.y - s.offset.y, pos.z - s.offset.z⟩
        else air := by
    rw [sharedBlock]
    apply if_congr _ rfl rfl
    rw [hcollected.inWindow_iff h.width.1 hkeys hmeets hwindow]
    exact and_iff_right hmeet.1
  constructor
  · rintro ⟨chunks', hchunks', hspec⟩ pos hpos hmeet
    rw [hresult] at hchunks'
    cases hchunks'
    have heq := (hblocks pos).symm.trans (hspec pos)
    rw [if_pos hpos, if_pos hpos, Option.some.injEq, hblock pos hmeet] at heq
    exact heq.symm
  · intro hagrees
    refine ⟨chunks, hresult, fun pos => ?_⟩
    rw [hblocks pos]
    apply ite_congr rfl _ fun _ => rfl
    intro hpos
    rw [Option.some.injEq]
    by_cases hmeet : s.Meets (blockToChunk pos)
    · rw [hblock pos hmeet, hagrees pos hpos hmeet]
    · rw [sharedBlock, if_neg fun h => hmeet (hmeets _ ((hkeys _).mpr hpos) h.1), h.sourceBlock_eq,
        if_neg fun hcontains => hmeet (meets_of_contains hcontains)]

/-- When the chunks of an indexed structure follow the offset. -/
theorem Indexed.followsOffset_iff (h : s.Indexed bytes index codes) (air : RuntimeId)
    (positions : List ChunkPos) :
    s.FollowsOffset air positions ↔
      (∀ pos ∈ positions, ¬ s.Meets pos) ∨
        s.RowsFit ∧ ((∃ pos ∈ positions, ∃ other ∈ positions, pos.z ≠ other.z) ∨
          s.SharedAgrees air positions) := by
  have hkeys (pos : ChunkPos) : pos ∈ (ChunkMap.emplaceAll positions).keys ↔ pos ∈ positions :=
    ChunkMap.mem_keys_emplaceAll
  by_cases hmeets : ∃ pos ∈ positions, s.Meets pos
  · by_cases hrows : s.RowsFit
    · have hlayers := (rowsFit_iff h.height.1).mp hrows
      cases hshared : s.sharedRows (ChunkMap.emplaceAll positions).keys with
      | none =>
        refine iff_of_true (h.followsOffset_own hshared fun chunkPos _ =>
          h.ownChunk_ok hlayers air chunkPos) (.inr ⟨hrows, .inl ?_⟩)
        by_contra hall
        refine sharedRows_none hshared ⟨fun pos hpos other hother => ?_, ?_⟩
        · by_contra hne
          exact hall ⟨pos, (hkeys pos).mp hpos, other, (hkeys other).mp hother, hne⟩
        · obtain ⟨pos, hpos, hmeet⟩ := hmeets
          exact ⟨pos, (hkeys pos).mpr hpos, hmeet⟩
      | some found =>
        obtain ⟨first, shared⟩ := found
        rw [h.followsOffset_shared hlayers hshared]
        have hz := (sharedRows_some h.width.1 hshared).2.1.1
        constructor
        · exact fun hagrees => .inr ⟨hrows, .inr hagrees⟩
        · rintro (hnone | ⟨-, ⟨pos, hpos, other, hother, hne⟩ | hagrees⟩)
          · obtain ⟨pos, hpos, hmeet⟩ := hmeets
            exact absurd hmeet (hnone pos hpos)
          · exact absurd (hz pos ((hkeys pos).mpr hpos) other ((hkeys other).mpr hother)) hne
          · exact hagrees
    · refine iff_of_false ?_ ?_
      · rintro ⟨chunks, hchunks, -⟩
        exact getChunks_error h.height.1 hrows hmeets ⟨chunks, hchunks⟩
      · rintro (hnone | ⟨hfit, -⟩)
        · obtain ⟨pos, hpos, hmeet⟩ := hmeets
          exact hnone pos hpos hmeet
        · exact hrows hfit
  · have hnone : ∀ pos ∈ positions, ¬ s.Meets pos := fun pos hpos hmeet =>
      hmeets ⟨pos, hpos, hmeet⟩
    refine iff_of_true (h.followsOffset_own ?_ fun chunkPos hpos =>
      h.ownChunk_empty air (hnone chunkPos hpos)) (.inl hnone)
    cases hshared : s.sharedRows (ChunkMap.emplaceAll positions).keys with
    | none => rfl
    | some found =>
      obtain ⟨first, shared⟩ := found
      obtain ⟨-, ⟨-, pos, hpos, hmeet⟩, -⟩ :=
        sharedRows_some h.width.1 hshared
      exact absurd hmeet (hnone pos ((hkeys pos).mp hpos))

/-- A structure that was read with an index follows the offset exactly when the request shows
nothing of it, or when its rows fit `int` and either the requested chunks lie on several chunk
rows or the moved source agrees. -/
theorem getChunks_followsOffset_iff {resolve : List Char → Option RuntimeId} {unknown : RuntimeId}
    {flags : ReadFlags} {document : Document} {s : SchemStructure}
    (hread : read resolve unknown flags document = .ok s) (hindex : s.index.isSome = true)
    (offset : BlockPos) (air : RuntimeId) (positions : List ChunkPos) :
    (s.setOffset offset).FollowsOffset air positions ↔
      (∀ pos ∈ positions, ¬ (s.setOffset offset).Meets pos) ∨
        (s.setOffset offset).RowsFit ∧
          ((∃ pos ∈ positions, ∃ other ∈ positions, pos.z ≠ other.z) ∨
            (s.setOffset offset).SharedAgrees air positions) := by
  obtain ⟨bytes, index, codes, h⟩ := (fromFile_of_read hread).indexed hindex
  exact (h.setOffset offset).followsOffset_iff air positions

/-- For offsets from -15 to 0 the two divisions round alike, and the shared decode agrees. -/
theorem sharedAgrees_of_offset (hwidth : s.originalSize.width ≤ int32Max) (air : RuntimeId)
    (positions : List ChunkPos) (hoffset : -16 < s.offset.x ∧ s.offset.x ≤ 0) :
    s.SharedAgrees air positions := by
  intro pos hpos hmeets
  have hcolumns := hmeets.1
  simp only [sourceRange, int32Max, blockToChunk, floorDiv_sixteen] at hcolumns hwidth
  by_cases hinside : 0 ≤ pos.x - s.offset.x ∧ pos.x - s.offset.x < s.originalSize.width
  · have hcolumn : s.sharedColumn pos = pos.x - s.offset.x := by
      simp only [sharedColumn, blockToChunk, floorDiv_sixteen]
      omega
    rw [hcolumn, if_pos]
    · rfl
    · refine ⟨⟨_, hpos, hmeets, ?_⟩, _, hpos, hmeets, ?_⟩
      · simp only [sourceRange, blockToChunk, floorDiv_sixteen]
        omega
      · simp only [sourceRange, blockToChunk, floorDiv_sixteen]
        omega
  · have hair (cell : BlockPos) (hx : ¬ (0 ≤ cell.x ∧ cell.x < s.originalSize.width)) :
        s.sourceBlock air cell = air := if_neg fun h => hx h.1
    rw [hair _ hinside]
    split_ifs with hwindow
    · refine (hair _ ?_).symm
      simp only [sharedColumn, blockToChunk, floorDiv_sixteen]
      omega
    · rfl

/-- One stone block. -/
def stoneDocument : Document where
  tags := [.width 1, .height 1, .length 1,
    .palette [("minecraft:air".toList, 0), ("minecraft:stone".toList, 1)], .blockData [1]]
  unique := by decide

/-- A registry that knows the names of the document. -/
def stoneRegistry (name : List Char) : Option RuntimeId :=
  if name = "minecraft:stone".toList then some 1
  else if name = "minecraft:air".toList then some 0 else none

/-- What the reader makes of the stone block. -/
def stoneStructure : SchemStructure where
  originalSize := ⟨1, 1, 1⟩
  size := ⟨1, 1, 1⟩
  offset := ⟨0, 0, 0⟩
  palette := ⟨(AList.insert 1 1 (AList.insert 0 0 ∅)), [0, 1], 1, 9⟩
  blockData := some [1]
  blockDataBytes := 1
  index := some ⟨[0], [0], 1⟩
  source := stoneDocument

theorem read_stoneDocument : read stoneRegistry 9 {} stoneDocument = .ok stoneStructure := rfl

/-- Without an offset the stone block is in its chunk. -/
theorem getChunks_followsOffset_stone :
    (stoneStructure.setOffset ⟨0, 0, 0⟩).FollowsOffset 0 [⟨0, 0⟩] := by
  refine (getChunks_followsOffset_iff read_stoneDocument rfl ⟨0, 0, 0⟩ 0 [⟨0, 0⟩]).mpr
    (.inr ⟨⟨by decide, by decide⟩, .inr ?_⟩)
  exact sharedAgrees_of_offset (by decide) 0 _ (by decide)

/-- An offset of one block along x loses the stone block, which should be at x = 1. -/
theorem getChunks_loses_stone :
    ∃ s, read stoneRegistry 9 {} stoneDocument = .ok s ∧ s.index.isSome = true ∧
      ¬ (s.setOffset ⟨1, 0, 0⟩).FollowsOffset 0 [⟨0, 0⟩] := by
  refine ⟨stoneStructure, read_stoneDocument, rfl, ?_⟩
  rintro ⟨chunks, hchunks, hblocks⟩
  have hlost : (((stoneStructure.setOffset ⟨1, 0, 0⟩).getChunks 0 [⟨0, 0⟩]).toOption.bind
      fun chunks => chunks.blockAt 0 ⟨1, 0, 0⟩) = some 0 := by decide
  rw [hchunks] at hlost
  have hblock := (hblocks ⟨1, 0, 0⟩).symm.trans hlost
  revert hblock
  decide

end SchemStructure

end WaterStructure
