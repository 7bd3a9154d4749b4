import WaterStructure.Formats.SchemIndex

/-!
# Schem chunks under an offset

Decoding from a checkpoint gives the numbers of the row. The decode of a single chunk shifts the
source by the offset. The shared decode files a chunk under a target column that is computed
from the negated offset, and looks the target up by the offset itself, so it shows the chunk a
source moved by a multiple of sixteen columns.
-/

namespace WaterStructure

open LastValue NestedLoop Schem Varint

namespace SchemStructure

/-- The block data decode to one palette index for each block, and the index belongs to them. -/
structure Indexed (s : SchemStructure) (bytes : List UInt8) (index : RowIndex)
    (codes : List (ℕ × ℕ)) : Prop where
  width : 0 < s.originalSize.width ∧ s.originalSize.width ≤ int32Max
  height : 0 < s.originalSize.height ∧ s.originalSize.height ≤ int32Max
  length : 0 < s.originalSize.length ∧ s.originalSize.length ≤ int32Max
  palette : ∀ index, s.palette.runtimeIdFor index = s.palette.blockId index
  stored : s.blockData = some bytes
  storedBytes : s.blockDataBytes = bytes.length
  built : s.index = some index
  decodes : Codes bytes codes
  count : codes.length =
    s.originalSize.height.toNat * s.originalSize.length.toNat * s.originalSize.width.toNat
  valid : index.Valid s.originalSize.width.toNat
    (s.originalSize.height.toNat * s.originalSize.length.toNat) codes
  limit : ∀ code ∈ codes, code.1 ≤ s.palette.maxIndex

variable {s : SchemStructure} {bytes : List UInt8} {index : RowIndex} {codes : List (ℕ × ℕ)}
  {cell : BlockPos} {minX maxX : ℤ}

/-- A structure that was read with an index. -/
theorem FromFile.indexed {document : Document} (h : s.FromFile document) (hindex : s.index.isSome = true) :
    ∃ bytes index codes, s.Indexed bytes index codes := by
  obtain ⟨index, hsome⟩ := Option.isSome_iff_exists.mp hindex
  obtain ⟨bytes, hbytes, codes, hcodes, hcount, hvalid, hlimit⟩ := h.index index hsome
  obtain ⟨_, -, hlength, hstored⟩ := h.data
  exact ⟨bytes, index, codes, h.width, h.height, h.length, h.palette, hbytes, by
    rw [hstored bytes hbytes]
    exact hlength, hsome, hcodes, hcount, hvalid, hlimit⟩

/-- The offset changes nothing that was read. -/
theorem Indexed.setOffset (h : s.Indexed bytes index codes) (offset : BlockPos) :
    (s.setOffset offset).Indexed bytes index codes :=
  ⟨h.width, h.height, h.length, h.palette, h.stored, h.storedBytes, h.built, h.decodes, h.count,
    h.valid, h.limit⟩

/-- Columns of a row, decoded from the checkpoint before them. -/
theorem Indexed.readRowRange (h : s.Indexed bytes index codes) {row : ℕ}
    (hrow : row < s.originalSize.height.toNat * s.originalSize.length.toNat) {beginX endX : ℤ}
    (hbegin : 0 ≤ beginX) (hle : beginX ≤ endX) (hend : endX < s.originalSize.width) :
    s.readRowRange bytes index row beginX endX =
      some (((codes.drop (row * s.originalSize.width.toNat + beginX.toNat)).take
        (endX.toNat + 1 - beginX.toNat)).map Prod.fst) := by
  obtain ⟨width, hwidth⟩ : ∃ width, width = s.originalSize.width.toNat := ⟨_, rfl⟩
  rw [← hwidth]
  have hvalid := h.valid
  rw [← hwidth] at hvalid
  have hcheckpoint : beginX.toNat / kIndexStride < index.chunkOffsetCount := by
    rw [hvalid.count, kIndexStride]
    omega
  obtain ⟨relative, hrelative, hcases⟩ := hvalid.chunk row hrow _ hcheckpoint
  -- The start of decoding: the checkpoint, or the start of the row when it is missing.
  obtain ⟨sourceX, hsourceX, hsourceLe⟩ : ∃ sourceX,
      sourceX = (if relative = kMissingChunkOffset then 0
        else beginX.toNat / kIndexStride * kIndexStride) ∧ sourceX ≤ beginX.toNat := by
    refine ⟨_, rfl, ?_⟩
    split
    · exact Nat.zero_le _
    · exact Nat.div_mul_le_self _ _
  have hsource : (if relative = kMissingChunkOffset then Varint.offset codes (row * width)
      else Varint.offset codes (row * width) + relative) = Varint.offset codes (row * width + sourceX) := by
    rw [hsourceX]
    split_ifs with hpresent
    · rw [Nat.add_zero]
    · rw [hcases.resolve_left hpresent, kIndexStride]
      exact Nat.add_sub_cancel' (Varint.offset_mono codes (Nat.le_add_right _ _))
  have hrowEnd : (index.rowOffsets[row + 1]?).getD s.blockDataBytes =
      Varint.offset codes (row * width + sourceX + (width - sourceX)) := by
    have hsum : row * width + sourceX + (width - sourceX) = (row + 1) * width := by
      rw [Nat.succ_mul]
      omega
    rw [hsum]
    by_cases hnext : row + 1 < s.originalSize.height.toNat * s.originalSize.length.toNat
    · rw [hvalid.row _ hnext, Option.getD_some]
    · rw [List.getElem?_eq_none (by rw [hvalid.rowLength]; omega), Option.getD_none,
        h.storedBytes, h.decodes.length, h.count, ← hwidth]
      congr 2
      omega
  have hcount : endX.toNat + 1 - sourceX ≤
      ((codes.drop (row * width + sourceX)).take (width - sourceX)).length := by
    have hrows := Nat.mul_le_mul_right width (Nat.succ_le_of_lt hrow)
    rw [Nat.succ_mul, hwidth, ← h.count, ← hwidth] at hrows
    rw [List.length_take, List.length_drop]
    omega
  have hread := (h.decodes.slice (row * width + sourceX) (width - sourceX)).readValues
    (fun code hcode => h.limit code (List.mem_of_mem_drop (List.mem_of_mem_take hcode))) hcount
  rw [SchemStructure.readRowRange, if_neg (by rw [hvalid.rowLength]; omega),
    if_neg (Nat.not_le.mpr hcheckpoint), hrelative, hvalid.row row hrow]
  simp only [Option.bind_eq_bind, Option.bind_some, hsource, hrowEnd, ← hsourceX]
  rw [if_neg (Nat.not_lt.mpr (Varint.offset_mono codes (Nat.le_add_right _ _))), hread]
  simp only [Option.bind_some, Option.pure_def, Option.some.injEq]
  rw [← List.map_drop, List.take_take, List.drop_take, List.drop_drop,
    show min (endX.toNat + 1 - sourceX) (width - sourceX) - (beginX.toNat - sourceX) =
      endX.toNat + 1 - beginX.toNat by omega,
    show row * width + sourceX + (beginX.toNat - sourceX) = row * width + beginX.toNat by omega]

/-- The palette index of a source cell. -/
def valueOf (s : SchemStructure) (codes : List (ℕ × ℕ)) (cell : BlockPos) : ℕ :=
  ((codes.map Prod.fst)[s.originalSize.cellIndex cell]?).getD 0

/-- The place of a cell in the row-major order of the data, without subtraction. -/
theorem cellIndex_eq {size : Size} (hcell : size.Contains cell) :
    size.cellIndex cell =
      (cell.y.toNat * size.length.toNat + cell.z.toNat) * size.width.toNat + cell.x.toNat := by
  obtain ⟨x, y, z, rfl, hx, hy, hz⟩ := hcell.exists_nat
  rw [Size.cellIndex_nat (by omega) (by omega)]
  simp only [Int.toNat_natCast]
  ring

/-- The row of a cell. -/
theorem row_lt {size : Size} (hcell : size.Contains cell) :
    cell.y.toNat * size.length.toNat + cell.z.toNat < size.height.toNat * size.length.toNat := by
  obtain ⟨-, hy, hz⟩ := hcell
  have hrows := Nat.mul_le_mul_right size.length.toNat
    (show cell.y.toNat + 1 ≤ size.height.toNat by omega)
  rw [Nat.succ_mul] at hrows
  omega

/-- A decoded row, read by column. -/
theorem columnIndex_row (hcell : s.originalSize.Contains cell) (hmin : 0 ≤ minX)
    (hx : minX ≤ cell.x ∧ cell.x ≤ maxX) :
    columnIndex minX (((codes.drop ((cell.y.toNat * s.originalSize.length.toNat + cell.z.toNat) *
        s.originalSize.width.toNat + (minX.tdiv kIndexStride * kIndexStride).toNat)).take
      (maxX.toNat + 1 - (minX.tdiv kIndexStride * kIndexStride).toNat)).map Prod.fst) cell.x =
        s.valueOf codes cell := by
  have hbegin : minX.tdiv kIndexStride * kIndexStride ≤ minX ∧
      0 ≤ minX.tdiv kIndexStride * kIndexStride := by
    rw [Int.tdiv_eq_ediv_of_nonneg hmin]
    simp only [kIndexStride]
    omega
  rw [columnIndex, valueOf, cellIndex_eq hcell, List.getElem?_map, List.getElem?_take,
    if_pos (by omega), List.getElem?_drop, List.getElem?_map]
  congr 3
  omega

/-- The cells between columns and rows, in the order of the loops. -/
def cellsBetween (s : SchemStructure) (minX maxX minZ maxZ : ℤ) : List BlockPos :=
  (Int.range 0 s.originalSize.height).flatMap fun y =>
    (Int.range minZ (maxZ + 1)).flatMap fun z =>
      (Int.range minX (maxX + 1)).map fun x => ⟨x, y, z⟩

theorem mem_cellsBetween {minZ maxZ : ℤ} :
    cell ∈ s.cellsBetween minX maxX minZ maxZ ↔
      (minX ≤ cell.x ∧ cell.x ≤ maxX) ∧ (0 ≤ cell.y ∧ cell.y < s.originalSize.height) ∧
        minZ ≤ cell.z ∧ cell.z ≤ maxZ := by
  simp only [cellsBetween, List.mem_flatMap, List.mem_map, Int.mem_range_iff]
  constructor
  · rintro ⟨y, hy, z, hz, x, hx, rfl⟩
    dsimp only
    omega
  · intro h
    exact ⟨cell.y, by omega, cell.z, by omega, cell.x, by omega, rfl⟩

/-- Columns before the first wanted one are skipped. -/
theorem foldl_columns {α : Type} {column : α → ℤ → α} {step : α → BlockPos → α} {beginX y z : ℤ}
    (hbegin : beginX ≤ minX) (hle : minX ≤ maxX) (hskip : ∀ result x, x < minX → column result x = result)
    (hstep : ∀ result x, minX ≤ x → x ≤ maxX → column result x = step result ⟨x, y, z⟩) (result : α) :
    (Int.range beginX (maxX + 1)).foldl column result =
      ((Int.range minX (maxX + 1)).map fun x => (⟨x, y, z⟩ : BlockPos)).foldl step result := by
  rw [← range_append hbegin (by omega : minX ≤ maxX + 1), List.foldl_append, List.foldl_map,
    foldl_eq_self fun result x hx => hskip result x (Int.mem_range_iff.mp hx).2]
  apply foldl_congr
  intro result x hx
  rw [Int.mem_range_iff] at hx
  exact hstep result x hx.1 (by omega)

/-- If the layers fit, the loops over rows visit the wanted cells. -/
theorem Indexed.forRows_eq {α : Type} {s : SchemStructure} {bytes : List UInt8} {index : RowIndex}
    {codes : List (ℕ × ℕ)} (h : s.Indexed bytes index codes)
    (hlayers : ∀ y, 0 ≤ y → y < s.originalSize.height → s.layerFits y = true)
    {minX maxX minZ maxZ : ℤ} (hx : 0 ≤ minX ∧ minX ≤ maxX ∧ maxX < s.originalSize.width)
    (hz : 0 ≤ minZ ∧ maxZ < s.originalSize.length)
    {column : ℤ → ℤ → List ℕ → α → ℤ → α} {step : α → BlockPos → α}
    (hskip : ∀ y z rowData result x, x < minX → column y z rowData result x = result)
    (hstep : ∀ cell, s.originalSize.Contains cell → minX ≤ cell.x → ∀ rowData result,
      columnIndex minX rowData cell.x = s.valueOf codes cell →
        column cell.y cell.z rowData result cell.x = step result cell) (result : α) :
    s.forRows minX maxX minZ maxZ column result =
      .ok ((s.cellsBetween minX maxX minZ maxZ).foldl step result) := by
  have hbegin : minX.tdiv kIndexStride * kIndexStride ≤ minX ∧
      0 ≤ minX.tdiv kIndexStride * kIndexStride := by
    rw [Int.tdiv_eq_ediv_of_nonneg hx.1]
    simp only [kIndexStride]
    omega
  rw [forRows, cellsBetween, List.foldl_flatMap]
  apply foldlM_ok
  intro result y hy
  rw [Int.mem_range_iff] at hy
  rw [if_neg (by rw [hlayers y hy.1 hy.2]; exact Bool.noConfusion), List.foldl_flatMap]
  apply foldlM_ok
  intro result z hrange
  rw [Int.mem_range_iff] at hrange
  have hcontains (x : ℤ) (hx' : minX ≤ x ∧ x ≤ maxX) : s.originalSize.Contains ⟨x, y, z⟩ := by
    simp only [Size.Contains]
    omega
  have hrow := h.readRowRange (row_lt (hcontains minX ⟨le_rfl, hx.2.1⟩)) hbegin.2
    (by omega : minX.tdiv kIndexStride * kIndexStride ≤ maxX) hx.2.2
  rw [withRow, h.stored, h.built]
  simp only [hrow, Except.ok.injEq]
  apply foldl_columns hbegin.1 hx.2.1
  · exact fun result x hlt => hskip _ _ _ _ _ hlt
  · intro result x hlow hhigh
    exact hstep ⟨x, y, z⟩ (hcontains x ⟨hlow, hhigh⟩) hlow _ _
      (columnIndex_row (hcontains x ⟨hlow, hhigh⟩) hx.1 ⟨hlow, hhigh⟩)

/-- If a layer does not fit, the loops fail. -/
theorem forRows_error {α : Type} (hlayers : ∃ y, 0 ≤ y ∧ y < s.originalSize.height ∧ s.layerFits y = false)
    {minZ maxZ : ℤ} {column : ℤ → ℤ → List ℕ → α → ℤ → α} (result : α) :
    ¬ ∃ final, s.forRows minX maxX minZ maxZ column result = .ok final := by
  obtain ⟨y, hlow, hhigh, hlayer⟩ := hlayers
  rintro ⟨final, hfinal⟩
  rw [forRows, ← range_append hlow hhigh.le, List.foldlM_append] at hfinal
  obtain ⟨middle, -, hrest⟩ := exists_of_bind_ok hfinal
  rw [range_cons hhigh, List.foldlM_cons, if_pos hlayer] at hrest
  cases hrest

/-- The block of the source at a cell: what the palette gives the number stored for it. -/
def sourceBlock (s : SchemStructure) (air : RuntimeId) (cell : BlockPos) : RuntimeId :=
  let bytes := s.blockData.getD []
  if s.originalSize.Contains cell then
    s.palette.blockId (((valuesOf bytes.length bytes)[s.originalSize.cellIndex cell]?).getD 0)
  else air

/-- The block that the decoded data give. -/
theorem Indexed.sourceBlock_eq (h : s.Indexed bytes index codes) (air : RuntimeId) (cell : BlockPos) :
    s.sourceBlock air cell =
      if s.originalSize.Contains cell then s.palette.runtimeIdFor (s.valueOf codes cell)
      else air := by
  rw [sourceBlock, h.stored, h.palette, valueOf, Option.getD_some, h.decodes.valuesOf le_rfl]

/-- Storing by local coordinates stores the block that has them. -/
theorem storeLocal_eq {s : SchemStructure} {air : RuntimeId} {chunk : ChunkData}
    (hlayout : chunk.layout = .Internal) {y localX localZ : ℤ} (id : RuntimeId) {pos : BlockPos}
    (hx : localX = pos.x % 16) (hy : y + s.offset.y = pos.y) (hz : localZ = pos.z % 16) :
    s.storeLocal air y localX localZ id chunk = chunk.setAt air pos id := by
  simp only [storeLocal, ChunkData.setAt, hlayout, BlockLayerLayout.index, floorDiv_sixteen,
    floorMod_sixteen, hx, hy, hz]

/-- The chunk shows a part of the source. -/
def Meets (s : SchemStructure) (pos : ChunkPos) : Prop :=
  (s.sourceRange pos).minX ≤ (s.sourceRange pos).maxX ∧
    (s.sourceRange pos).minZ ≤ (s.sourceRange pos).maxZ

instance (s : SchemStructure) (pos : ChunkPos) : Decidable (s.Meets pos) :=
  inferInstanceAs (Decidable (_ ∧ _))

/-- Cells outside every chunk's part are not in the source. -/
theorem meets_of_contains {pos : BlockPos} (h : s.originalSize.Contains (pos.sub s.offset)) :
    s.Meets (blockToChunk pos) := by
  simp only [Size.Contains, BlockPos.sub] at h
  simp only [Meets, sourceRange, blockToChunk, floorDiv_sixteen]
  omega

/-- What a chunk decoded on its own holds. -/
theorem Indexed.ownChunk_ok (h : s.Indexed bytes index codes)
    (hlayers : ∀ y, 0 ≤ y → y < s.originalSize.height → s.layerFits y = true) (air : RuntimeId)
    (chunkPos : ChunkPos) :
    ∃ chunk, s.ownChunk air chunkPos {} = .ok chunk ∧ ∀ pos, blockToChunk pos = chunkPos →
      chunk.blockAt air pos = s.sourceBlock air (pos.sub s.offset) := by
  rw [ownChunk]
  by_cases hmeets : s.Meets chunkPos
  · have hrange := hmeets
    simp only [Meets, sourceRange] at hrange
    rw [if_neg (not_or.mpr ⟨Int.not_lt.mpr hmeets.1, Int.not_lt.mpr hmeets.2⟩),
      @Indexed.forRows_eq _ _ _ _ _ h hlayers (s.sourceRange chunkPos).minX _ _ _ ?_ ?_ _
        (fun chunk cell =>
          if s.palette.runtimeIdFor (s.valueOf codes cell) = air then chunk
          else s.storeLocal air cell.y (toInt32 (cell.x + s.offset.x - chunkPos.x * 16))
            (toInt32 (cell.z + s.offset.z - chunkPos.z * 16))
            (s.palette.runtimeIdFor (s.valueOf codes cell)) chunk) ?_ ?_]
    · refine ⟨_, rfl, fun pos hpos => ?_⟩
      rw [@ChunkData.foldl_eq_sweep _ _ air _ (·.add s.offset)
        (fun cell => if s.palette.runtimeIdFor (s.valueOf codes cell) = air then none
          else some (s.palette.runtimeIdFor (s.valueOf codes cell))) _ ?_,
        @ChunkData.blockAt_sweep_add _ _ _ _ s.originalSize.Contains _ _ ?_, h.sourceBlock_eq]
      · apply if_congr Iff.rfl _ rfl
        split_ifs with hair
        · rw [hair, Option.getD_none]
        · rfl
      · intro cell
        subst hpos
        rw [mem_cellsBetween]
        simp only [sourceRange, Size.Contains, BlockPos.add, blockToChunk, floorDiv_sixteen,
          ChunkPos.mk.injEq]
        omega
      · intro chunk hlayout cell hcell
        rw [mem_cellsBetween] at hcell
        simp only [sourceRange] at hcell
        by_cases hair : s.palette.runtimeIdFor (s.valueOf codes cell) = air
        · rw [if_pos hair, if_pos hair]
        · rw [if_neg hair, if_neg hair]
          apply storeLocal_eq hlayout _ _ rfl
          · unfold toInt32
            dsimp only [BlockPos.add]
            omega
          · unfold toInt32
            dsimp only [BlockPos.add]
            omega
    · simp only [sourceRange]
      omega
    · simp only [sourceRange]
      omega
    · intro y z rowData chunk x hlt
      rw [storeOwn, if_pos hlt]
    · intro cell _ hle rowData chunk hvalue
      rw [storeOwn, if_neg (Int.not_lt.mpr hle), hvalue]
  · rw [if_pos (by unfold Meets at hmeets; omega)]
    refine ⟨_, rfl, fun pos hpos => ?_⟩
    rw [ChunkData.blockAt_empty, h.sourceBlock_eq, if_neg]
    intro hcontains
    exact hmeets (hpos ▸ meets_of_contains hcontains)

end SchemStructure

end WaterStructure
