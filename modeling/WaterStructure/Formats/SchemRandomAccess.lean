import WaterStructure.Formats.SchemChunks

/-!
# Random access to the block data

An index is built in one of three places: while the data are copied, by a second pass over the
copy, or when a world is written from data that stayed in the source file although the palette
turned out to be too large for the direct stream. The last one writes every number again in its
shortest form, so its offsets are those of the new file. With any of the three, the columns of a
row are the numbers that a plain decode of the block data finds at their place.
-/

namespace WaterStructure

open NestedLoop Schem Varint

namespace Schem

/-- The variables of the loop that moves deferred block data into a temporary file. -/
structure SpoolState where
  index : RowIndex
  encodedOffset : ℕ := 0
  raw : List UInt8 := []

/-- The loop over the blocks of the source: `remaining` blocks from number `position` on. -/
def spoolBlocks (width maxPaletteIndex temporaryFileLimitBytes : ℕ) :
    SpoolState → ℕ → ℕ → List UInt8 → Except String SpoolState
  | state, _, 0, encoded =>
    if encoded.isEmpty then .ok state else .error "Schem BlockData 方块数超过 size"
  | state, position, remaining + 1, encoded =>
    match Varint.decode encoded with
    | none => .error "Schem BlockData varint 读取失败或 palette 索引越界"
    | some (value, size) =>
      if value > 4294967295 ∨ value > maxPaletteIndex then
        .error "Schem BlockData varint 读取失败或 palette 索引越界"
      else
        let encodedOffset := state.encodedOffset + (encode value).length
        if temporaryFileLimitBytes ≠ 0 ∧ encodedOffset > temporaryFileLimitBytes then
          .error "Schem 临时 BlockData spool 超过 temporary_file_limit_bytes"
        else
          spoolBlocks width maxPaletteIndex temporaryFileLimitBytes
            { index := state.index.mark (position / width) (position % width) state.encodedOffset
              encodedOffset
              raw := state.raw ++ encode value }
            (position + 1) remaining (encoded.drop size)

/-- The numbers of a stream in their shortest form. -/
def shortest (codes : List (ℕ × ℕ)) : List (ℕ × ℕ) :=
  codes.map fun code => (code.1, (encode code.1).length)

/-- A finished loop has read a whole stream, and has written and marked its numbers. -/
theorem codes_of_spoolBlocks {width maxPaletteIndex limitBytes : ℕ} {state final : SpoolState}
    {position remaining : ℕ} {encoded : List UInt8}
    (h : spoolBlocks width maxPaletteIndex limitBytes state position remaining encoded = .ok final) :
    ∃ codes, Codes encoded codes ∧ codes.length = remaining ∧
      final.index = markCodes width state.index position state.encodedOffset (shortest codes) ∧
      final.encodedOffset = state.encodedOffset + ((codes.map Prod.fst).flatMap encode).length ∧
      final.raw = state.raw ++ (codes.map Prod.fst).flatMap encode ∧
      ∀ code ∈ codes, code.1 ≤ 4294967295 ∧ code.1 ≤ maxPaletteIndex := by
  induction remaining generalizing state position encoded with
  | zero =>
    rw [spoolBlocks] at h
    obtain ⟨hempty, h⟩ := then_of_ok h
    cases h
    exact ⟨[], List.isEmpty_iff.mp hempty ▸ .nil, rfl, rfl, rfl, by simp, by simp⟩
  | succ remaining ih =>
    rw [spoolBlocks] at h
    split at h
    case h_1 => cases h
    case h_2 value size hdecode =>
      obtain ⟨hvalue, h⟩ := else_of_ok h
      dsimp only at h
      obtain ⟨_, h⟩ := else_of_ok h
      obtain ⟨codes, hcodes, hlength, hindex, hoffset, hraw, hlimit⟩ := ih h
      refine ⟨(value, size) :: codes, .cons hdecode hcodes, ?_, hindex, ?_, ?_, ?_⟩
      · rw [List.length_cons, hlength]
      · simp only [hoffset, List.map_cons, List.flatMap_cons, List.length_append]
        exact Nat.add_assoc _ _ _
      · simp only [hraw, List.map_cons, List.flatMap_cons, List.append_assoc]
      · intro code hcode
        rcases List.mem_cons.mp hcode with rfl | hcode
        · omega
        · exact hlimit code hcode

end Schem

namespace SchemStructure

/-- The first part of `write_to_world`: data that stayed in the source file go to a temporary file
when the palette is too large for the direct stream. -/
def spoolFallback (s : SchemStructure) (allowTemporarySpool : Bool)
    (temporaryFileLimitBytes : ℕ) : Except String SchemStructure :=
  if s.blockData = none ∧ s.palette.maxIndex > 65535 then
    if allowTemporarySpool = false then
      .error ("capability error: Schem palette 索引超过 uint16，世界流式写入需要临时 BlockData spool，" ++
        "但 allow_temporary_spool=false")
    else
      -- `mBlockCount` is the volume that `read` computed from the same size.
      match checkedGeometry s.originalSize with
      | none => .error "Schem spool 尺寸乘积溢出"
      | some (width, rows, blockCount) =>
        match checkedIndexShape width rows with
        | none => .error "Schem spool 行索引大小溢出"
        | some (chunkOffsetCount, entries) =>
          match s.source.blockData with
          | none => .error "Schem 流式写入时未找到 BlockData"
          | some encoded =>
            if encoded.length ≠ s.blockDataBytes then
              .error "Schem BlockData 长度在流式写入前后不一致"
            else do
              let state ← spoolBlocks width s.palette.maxIndex temporaryFileLimitBytes
                { index := RowIndex.create rows chunkOffsetCount entries } 0 blockCount encoded
              return { s with
                blockDataBytes := state.encodedOffset
                blockData := some state.raw
                index := some state.index }
  else .ok s

variable {resolve : List Char → Option RuntimeId} {unknown : RuntimeId} {flags : ReadFlags}
  {document : Document} {s : SchemStructure}

/-- Data stay in the source file only when the caller asked for the direct stream. -/
theorem directWorldStream_of_deferred {tags : List Tag} {state final : ReadState}
    (h : tags.foldlM (readTag resolve unknown flags) state = .ok final)
    (hstate : state.deferred = true → flags.directWorldStream = true) (hfinal : final.deferred = true) :
    flags.directWorldStream = true := by
  induction tags generalizing state with
  | nil =>
    cases h
    exact hstate hfinal
  | cons tag rest ih =>
    rw [List.foldlM_cons] at h
    obtain ⟨next, hnext, hrest⟩ := exists_of_bind_ok h
    apply ih hrest
    cases tag with
    | blockData bytes =>
      rw [readTag, readData] at hnext
      split_ifs at hnext with hdirect
      · intro
        exact hdirect.1
      · split at hnext
        case h_1 => cases hnext
        case h_2 =>
          split at hnext
          case h_1 => cases hnext
          case h_2 =>
            obtain ⟨pass, -, hnext⟩ := exists_of_bind_ok hnext
            obtain ⟨index, -, hnext⟩ := exists_of_bind_ok hnext
            cases hnext
            exact hstate
      · cases hnext
        exact hstate
    | palette entries =>
      obtain ⟨palette, -, hnext⟩ := exists_of_bind_ok hnext
      cases hnext
      exact hstate
    | width | height | length =>
      rw [readTag] at hnext
      obtain ⟨-, hnext⟩ := else_of_ok hnext
      cases hnext
      exact hstate

/-- A structure has an index, or its data stayed in the source file for the direct stream, or they
were copied for a stream of 16-bit numbers. -/
theorem index_of_read (h : read resolve unknown flags document = .ok s) :
    s.index.isSome = true ∨
      s.index = none ∧ s.blockData = none ∧ flags.directWorldStream = true ∨
      s.index = none ∧ s.blockData.isSome = true ∧ flags.streamingWorldImport = true ∧
        s.palette.maxIndex ≤ 65535 := by
  obtain ⟨state, hrun, hfinish⟩ := exists_of_bind_ok h
  have hdeferred := directWorldStream_of_deferred hrun (fun h => nomatch h)
  rw [ofReadState] at hfinish
  obtain ⟨_, hfinish⟩ := else_of_ok hfinish
  split at hfinish
  case h_1 => cases hfinish
  case h_2 =>
    obtain ⟨_, hfinish⟩ := else_of_ok hfinish
    split at hfinish
    case h_1 => cases hfinish
    case h_2 =>
      obtain ⟨_, hfinish⟩ := else_of_ok hfinish
      dsimp only at hfinish
      split at hfinish
      case h_1 =>
        obtain ⟨-, hfinish⟩ := else_of_ok hfinish
        cases hfinish
        exact .inl rfl
      case h_2 =>
        split_ifs at hfinish with hdirect hstream
        · cases hfinish
          exact .inr (.inl ⟨rfl, rfl, hdeferred hdirect⟩)
        · split at hfinish
          case h_1 => cases hfinish
          case h_2 =>
            obtain ⟨index, -, hfinish⟩ := exists_of_bind_ok hfinish
            cases hfinish
            exact .inl rfl
        · cases hfinish
          exact .inr (.inr ⟨rfl, rfl, by simpa using fun h => hstream (.inl h),
            Nat.le_of_not_lt fun h => hstream (.inr h)⟩)

/-- What the block data of a structure with an index decode to, however the index was built. -/
structure Sequential (s : SchemStructure) (document : Document) (values : List ℕ) : Prop where
  plain : ∃ data, document.blockData = some data ∧
    readValues s.palette.maxIndex (s.originalSize.height.toNat * s.originalSize.length.toNat *
      s.originalSize.width.toNat) data = some (values, [])
  indexed : ∃ bytes index codes, s.Indexed bytes index codes ∧ codes.map Prod.fst = values

/-- The plain decode of a stream that is one number for each block. -/
theorem readValues_codes {limit count : ℕ} {data : List UInt8} {codes : List (ℕ × ℕ)}
    (h : Codes data codes) (hcount : codes.length = count) (hlimit : ∀ code ∈ codes, code.1 ≤ limit) :
    readValues limit count data = some (codes.map Prod.fst, []) := by
  rw [h.readValues hlimit (Nat.le_of_eq hcount.symm), ← hcount, List.take_length, ← h.length,
    List.drop_length]

/-- An index that was built while reading. -/
theorem FromFile.sequential (h : s.FromFile document) (hindex : s.index.isSome = true)
    (offset : BlockPos) : ∃ values, (s.setOffset offset).Sequential document values := by
  obtain ⟨bytes, index, codes, hindexed⟩ := h.indexed hindex
  obtain ⟨data, hmem, -, hstored⟩ := h.data
  obtain rfl := hstored bytes hindexed.stored
  exact ⟨codes.map Prod.fst, ⟨bytes, Document.blockData_eq hmem,
    readValues_codes hindexed.decodes hindexed.count hindexed.limit⟩,
    bytes, index, codes, hindexed.setOffset offset, rfl⟩

/-- The shortest form of a stream depends on the values only. -/
theorem shortest_eq (codes : List (ℕ × ℕ)) :
    shortest codes = (codes.map Prod.fst).map fun value => (value, (encode value).length) := by
  rw [shortest, List.map_map]
  rfl

/-- The shortest form of a stream keeps the values. -/
theorem shortest_values (codes : List (ℕ × ℕ)) :
    (shortest codes).map Prod.fst = codes.map Prod.fst := by
  rw [shortest, List.map_map]
  rfl

/-- An index that was built by the temporary file of `write_to_world`. -/
theorem FromFile.sequential_of_spoolFallback {t : SchemStructure} (h : s.FromFile document)
    (hdata : s.blockData = none) (hlarge : s.palette.maxIndex > 65535) {offset : BlockPos}
    {allowTemporarySpool : Bool} {temporaryFileLimitBytes : ℕ}
    (ht : (s.setOffset offset).spoolFallback allowTemporarySpool temporaryFileLimitBytes = .ok t) :
    t.originalSize = s.originalSize ∧ t.palette = s.palette ∧
      ∃ values, t.Sequential document values := by
  rw [spoolFallback, if_pos ⟨hdata, hlarge⟩] at ht
  obtain ⟨_, ht⟩ := else_of_ok ht
  split at ht
  case h_1 => cases ht
  case h_2 width rows blockCount hgeometry =>
    split at ht
    case h_1 => cases ht
    case h_2 chunkOffsetCount entries hshape =>
      split at ht
      case h_1 => cases ht
      case h_2 encoded hencoded =>
        obtain ⟨_, ht⟩ := else_of_ok ht
        obtain ⟨state, hrun, ht⟩ := exists_of_bind_ok ht
        cases ht
        obtain ⟨hpositive, rfl, rfl, rfl⟩ := checkedGeometry_eq hgeometry
        obtain ⟨hcount, rfl⟩ := checkedIndexShape_eq hshape
        obtain ⟨codes, hcodes, hlength, hindex, hoffset, hraw, hlimit⟩ :=
          codes_of_spoolBlocks hrun
        have hwritten : Codes state.raw (shortest codes) := by
          rw [hraw, shortest_eq]
          exact codes_encode fun value hvalue => by
            obtain ⟨code, hcode, rfl⟩ := List.mem_map.mp hvalue
            exact lt_of_le_of_lt (hlimit code hcode).1 (by decide)
        have hshortest : (shortest codes).length =
            s.originalSize.height.toNat * s.originalSize.length.toNat *
              s.originalSize.width.toNat := by
          rw [shortest, List.length_map]
          exact hlength
        refine ⟨rfl, rfl, codes.map Prod.fst, ⟨encoded, h.source ▸ hencoded,
          readValues_codes hcodes hlength fun code hcode => (hlimit code hcode).2⟩,
          state.raw, state.index, shortest codes, ?_, shortest_values codes⟩
        refine ⟨h.width, h.height, h.length, h.palette, rfl, ?_, rfl, hwritten, hshortest, ?_, ?_⟩
        · dsimp only
          rw [hoffset, hraw, Nat.zero_add, List.nil_append]
        · rw [hindex]
          exact RowIndex.valid_markCodes hcount (by omega) hshortest
        · intro code hcode
          obtain ⟨source, hsource, rfl⟩ := List.mem_map.mp hcode
          exact (hlimit source hsource).2

/-- The rows of a structure with an index are those of the plain decode. -/
theorem Sequential.readRowRange {values : List ℕ} (h : s.Sequential document values)
    {index : RowIndex} (hindex : s.index = some index) :
    ∃ bytes, s.blockData = some bytes ∧
      index.rowOffsets.length = s.originalSize.height.toNat * s.originalSize.length.toNat ∧
      ∀ row < s.originalSize.height.toNat * s.originalSize.length.toNat, ∀ beginX endX : ℤ,
        0 ≤ beginX → beginX ≤ endX → endX < s.originalSize.width →
          s.readRowRange bytes index row beginX endX =
            some ((values.drop (row * s.originalSize.width.toNat + beginX.toNat)).take
              (endX.toNat + 1 - beginX.toNat)) := by
  obtain ⟨bytes, built, codes, hindexed, rfl⟩ := h.indexed
  obtain rfl : built = index := Option.some.inj (hindexed.built.symm.trans hindex)
  refine ⟨bytes, hindexed.stored, hindexed.valid.rowLength, ?_⟩
  intro row hrow beginX endX hbegin hle hend
  rw [hindexed.readRowRange hrow hbegin hle hend, List.map_take, List.map_drop]

/-- Random access is sequential decode. A structure has an index unless its data are streamed in
16-bit numbers; then the plain decode of the block data finds one number for each block, the index
has one entry for each row, and the columns of a row are the numbers at their place. -/
theorem readRowRange_eq_sequential {resolve : List Char → Option RuntimeId} {unknown : RuntimeId}
    {flags : ReadFlags} {document : Document} {s : SchemStructure}
    (hread : read resolve unknown flags document = .ok s) {offset : BlockPos}
    {allowTemporarySpool : Bool} {temporaryFileLimitBytes : ℕ} {t : SchemStructure}
    (hspool : (s.setOffset offset).spoolFallback allowTemporarySpool temporaryFileLimitBytes =
      .ok t) :
    (flags.streamingWorldImport = false ∧ flags.directWorldStream = false ∨
        s.palette.maxIndex > 65535 → t.index.isSome = true) ∧
      ∀ index, t.index = some index → ∃ data values bytes,
        document.blockData = some data ∧
        readValues s.palette.maxIndex (s.originalSize.height.toNat *
          s.originalSize.length.toNat * s.originalSize.width.toNat) data = some (values, []) ∧
        t.blockData = some bytes ∧
        index.rowOffsets.length =
          s.originalSize.height.toNat * s.originalSize.length.toNat ∧
        ∀ row < s.originalSize.height.toNat * s.originalSize.length.toNat, ∀ beginX endX : ℤ,
          0 ≤ beginX → beginX ≤ endX → endX < s.originalSize.width →
            t.readRowRange bytes index row beginX endX =
              some ((values.drop (row * s.originalSize.width.toNat + beginX.toNat)).take
                (endX.toNat + 1 - beginX.toNat)) := by
  have hfile := fromFile_of_read hread
  by_cases hneeded : s.blockData = none ∧ s.palette.maxIndex > 65535
  · obtain ⟨hsize, hpalette, values, hvalues⟩ :=
      hfile.sequential_of_spoolFallback hneeded.1 hneeded.2 hspool
    constructor
    · intro
      obtain ⟨bytes, index, codes, hindexed, -⟩ := hvalues.indexed
      rw [hindexed.built]
      rfl
    · intro index hindex
      obtain ⟨data, hdata, hplain⟩ := hvalues.plain
      obtain ⟨bytes, hbytes, hrows, hrange⟩ := hvalues.readRowRange hindex
      rw [hsize] at hplain hrows hrange
      rw [hpalette] at hplain
      exact ⟨data, values, bytes, hdata, hplain, hbytes, hrows, hrange⟩
  · have hkeep : t = s.setOffset offset := by
      rw [spoolFallback, if_neg (show ¬ ((s.setOffset offset).blockData = none ∧
        (s.setOffset offset).palette.maxIndex > 65535) from hneeded)] at hspool
      exact (Except.ok.inj hspool).symm
    subst hkeep
    constructor
    · intro hflags
      rcases index_of_read hread with hindex | ⟨-, hdata, hdirect⟩ | ⟨-, -, hstream, hsmall⟩
      · exact hindex
      · rcases hflags with ⟨-, hflags⟩ | hlarge
        · rw [hflags] at hdirect
          cases hdirect
        · exact absurd ⟨hdata, hlarge⟩ hneeded
      · rcases hflags with ⟨hflags, -⟩ | hlarge
        · rw [hflags] at hstream
          cases hstream
        · omega
    · intro index hindex
      obtain ⟨values, hvalues⟩ := hfile.sequential (Option.isSome_of_eq_some hindex) offset
      obtain ⟨data, hdata, hplain⟩ := hvalues.plain
      obtain ⟨bytes, hbytes, hrows, hrange⟩ := hvalues.readRowRange hindex
      exact ⟨data, values, bytes, hdata, hplain, hbytes, hrows, hrange⟩

/-- A document with a palette number above uint16 behind its data. -/
def largePaletteDocument : Document where
  tags := [.width 2, .height 1, .length 1, .blockData [0x80, 0x00, 0xf0, 0xa2, 0x04],
    .palette [("minecraft:stone".toList, 70000)]]
  unique := by decide

/-- The structure read from it for a direct world stream. -/
def largePaletteStructure : Except String SchemStructure :=
  read (fun _ => some 1) 0 { directWorldStream := true } largePaletteDocument

theorem readRowRange_eq_sequential_spooled :
    ∃ s t index bytes, largePaletteStructure = .ok s ∧
      (s.setOffset ⟨0, 0, 0⟩).spoolFallback true 0 = .ok t ∧ t.index = some index ∧
      t.readRowRange bytes index 0 0 1 = some [0, 70000] := by
  have hheader : largePaletteStructure.toOption.map (fun s => (s.originalSize, s.palette.maxIndex)) =
      some (⟨2, 1, 1⟩, 70000) := by decide +kernel
  have hspooled : ((largePaletteStructure.bind fun s =>
      (s.setOffset ⟨0, 0, 0⟩).spoolFallback true 0).toOption).isSome = true := by decide +kernel
  cases hread : largePaletteStructure with
  | error error =>
    rw [hread] at hheader
    cases hheader
  | ok s =>
    rw [hread] at hheader hspooled
    simp only [Except.toOption, Option.map_some, Option.some.injEq, Prod.mk.injEq] at hheader
    obtain ⟨hsize, hmax⟩ := hheader
    cases hspool : (s.setOffset ⟨0, 0, 0⟩).spoolFallback true 0 with
    | error error =>
      rw [Except.bind, hspool] at hspooled
      cases hspooled
    | ok t =>
      obtain ⟨hbuilt, hrows⟩ := readRowRange_eq_sequential hread hspool
      obtain ⟨index, hindex⟩ := Option.isSome_iff_exists.mp (hbuilt (.inr (by rw [hmax]; decide)))
      obtain ⟨data, values, bytes, hdata, hplain, -, -, hrange⟩ := hrows index hindex
      rw [hsize] at hplain hrange
      rw [hmax] at hplain
      have hdocument : largePaletteDocument.blockData = some [0x80, 0x00, 0xf0, 0xa2, 0x04] := rfl
      obtain rfl := Option.some.inj (hdocument.symm.trans hdata)
      obtain rfl : [0, 70000] = values := by
        have hdecode : readValues 70000 2 [0x80, 0x00, 0xf0, 0xa2, 0x04] =
            some ([0, 70000], []) := by decide +kernel
        exact congrArg Prod.fst (Option.some.inj (hdecode.symm.trans hplain))
      exact ⟨s, t, index, bytes, rfl, hspool, hindex,
        hrange 0 (by decide) 0 1 (by decide) (by decide) (by decide)⟩

end SchemStructure

end WaterStructure
