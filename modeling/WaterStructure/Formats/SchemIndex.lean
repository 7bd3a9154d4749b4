import WaterStructure.Formats.Schem

/-!
# The row index points at rows

Both passes over the block data note the offset of each row, and for every 256th column either
its distance from the start of the row or that it is missing. So a structure that was read with
an index can decode any columns of any row.
-/

namespace WaterStructure

namespace Schem

open Varint

/-- The index of a stream of rows. -/
structure RowIndex.Valid (index : RowIndex) (width rows : ℕ) (codes : List (ℕ × ℕ)) : Prop where
  count : index.chunkOffsetCount = (width + 255) / 256
  rowLength : index.rowOffsets.length = rows
  row : ∀ row < rows, index.rowOffsets[row]? = some (offset codes (row * width))
  chunk : ∀ row < rows, ∀ chunk < index.chunkOffsetCount, ∃ relative,
    index.chunkOffsets[row * index.chunkOffsetCount + chunk]? = some relative ∧
      (relative = kMissingChunkOffset ∨
        relative = offset codes (row * width + chunk * 256) - offset codes (row * width))

/-- The index after the first blocks of the stream. -/
structure RowIndex.Marked (index : RowIndex) (width rows count : ℕ) (codes : List (ℕ × ℕ))
    (position : ℕ) : Prop where
  chunkCount : index.chunkOffsetCount = count
  rowLength : index.rowOffsets.length = rows
  chunkLength : index.chunkOffsets.length = rows * count
  row : ∀ row < rows, row * width < position →
    index.rowOffsets[row]? = some (offset codes (row * width))
  chunk : ∀ row < rows, ∀ chunk < count, ∃ relative,
    index.chunkOffsets[row * count + chunk]? = some relative ∧
      (relative = kMissingChunkOffset ∨
        relative = offset codes (row * width + chunk * 256) - offset codes (row * width))

/-- Before the pass every checkpoint is missing. -/
theorem RowIndex.marked_create (width rows count : ℕ) (codes : List (ℕ × ℕ)) :
    (RowIndex.create rows count (rows * count)).Marked width rows count codes 0 where
  chunkCount := rfl
  rowLength := List.length_replicate
  chunkLength := List.length_replicate
  row := fun _ _ h => absurd h (Nat.not_lt_zero _)
  chunk := by
    intro row hrow chunk hchunk
    have hindex : row * count + chunk < rows * count := by
      have := Nat.mul_le_mul_right count (Nat.succ_le_of_lt hrow)
      rw [Nat.succ_mul] at this
      omega
    exact ⟨_, by rw [RowIndex.create, List.getElem?_replicate, if_pos hindex], .inl rfl⟩

variable {count : ℕ} {index : RowIndex} {width rows : ℕ} {codes : List (ℕ × ℕ)} {position : ℕ}
  {pass : IndexPass} {bytes : List UInt8} {size : Size} {volume entries : ℕ}
  {resolve : List Char → Option RuntimeId} {unknown : RuntimeId} {tags : List Tag} {rest : List TagName}
  {state next : ReadState} {flags : ReadFlags}

/-- Entries of different rows, or different checkpoints of a row, are different. -/
theorem checkpoint_inj {row row' chunk chunk' : ℕ} (hchunk : chunk < count) (hchunk' : chunk' < count)
    (h : row * count + chunk = row' * count + chunk') : row = row' ∧ chunk = chunk' := by
  have hrows := congrArg (· / count) h
  have hchunks := congrArg (· % count) h
  simp only [Nat.mul_comm _ count, Nat.mul_add_div (Nat.zero_lt_of_lt hchunk),
    Nat.mul_add_mod, Nat.div_eq_of_lt hchunk, Nat.div_eq_of_lt hchunk', Nat.mod_eq_of_lt hchunk,
    Nat.mod_eq_of_lt hchunk', Nat.add_zero] at hrows hchunks
  exact ⟨hrows, hchunks⟩

/-- Marking the next block of the stream. -/
theorem RowIndex.Marked.mark (h : index.Marked width rows count codes position)
    (hcount : count = (width + 255) / 256) (hposition : position < rows * width) :
    (index.mark (position / width) (position % width) (offset codes position)).Marked width rows
      count codes (position + 1) := by
  have hwidth : 0 < width := Nat.pos_of_mul_pos_left (Nat.zero_lt_of_lt hposition)
  have hrow : position / width < rows := Nat.div_lt_of_lt_mul (Nat.mul_comm rows width ▸ hposition)
  have hx : position % width < width := Nat.mod_lt _ hwidth
  have hdecompose : position / width * width + position % width = position :=
    Nat.div_add_mod' position width
  have hrows : ∀ row < rows, row * width < position + 1 →
      (if position % width = 0 then index.rowOffsets.set (position / width) (offset codes position)
        else index.rowOffsets)[row]? = some (offset codes (row * width)) := by
    intro row hlt hstarted
    by_cases hsame : row = position / width
    · subst hsame
      split_ifs with hlater
      · rw [List.getElem?_set_self (by rw [h.rowLength]; exact hrow)]
        congr 2
        omega
      · exact h.row _ hlt (by omega)
    · have hearlier : row * width < position := by
        rcases Nat.lt_or_ge row (position / width) with hless | hmore
        · have := Nat.mul_le_mul_right width (Nat.succ_le_of_lt hless)
          rw [Nat.succ_mul] at this
          omega
        · have := Nat.mul_le_mul_right width (Nat.succ_le_of_lt (lt_of_le_of_ne hmore (Ne.symm hsame)))
          rw [Nat.succ_mul] at this
          omega
      split
      · rw [List.getElem?_set_ne (Ne.symm hsame), h.row row hlt hearlier]
      · exact h.row row hlt hearlier
  have hcurrent := hrows (position / width) hrow (by omega)
  refine ⟨h.chunkCount, ?_, ?_, hrows, ?_⟩
  · rw [RowIndex.mark]
    dsimp only
    split
    · rw [List.length_set, h.rowLength]
    · rw [h.rowLength]
  · rw [RowIndex.mark]
    dsimp only
    rw [hcurrent]
    split
    · rw [List.length_set, h.chunkLength]
    · rw [h.chunkLength]
  · intro row hlt chunk hchunk
    dsimp only [RowIndex.mark]
    rw [hcurrent, Option.getD_some, h.chunkCount]
    split_ifs with hcheckpoint
    · have hthis : position % width / kIndexStride < count := by
        rw [hcount, kIndexStride]
        omega
      by_cases hsame : row = position / width ∧ chunk = position % width / kIndexStride
      · obtain ⟨rfl, rfl⟩ := hsame
        have hinside : position / width * count + position % width / kIndexStride <
            index.chunkOffsets.length := by
          rw [h.chunkLength]
          have := Nat.mul_le_mul_right count (Nat.succ_le_of_lt hrow)
          rw [Nat.succ_mul] at this
          omega
        refine ⟨_, List.getElem?_set_self hinside, .inr ?_⟩
        rw [show position / width * width + position % width / kIndexStride * 256 = position by
          have := hcheckpoint.1
          rw [kIndexStride] at this ⊢
          omega]
      · rw [List.getElem?_set_ne fun heq => hsame (by
          obtain ⟨hr, hc⟩ := checkpoint_inj hthis hchunk heq
          exact ⟨hr.symm, hc.symm⟩)]
        exact h.chunk row hlt chunk hchunk
    · exact h.chunk row hlt chunk hchunk

/-- Mark the blocks of a stream one after the other. -/
def markCodes (width : ℕ) : RowIndex → ℕ → ℕ → List (ℕ × ℕ) → RowIndex
  | index, _, _, [] => index
  | index, position, encodedOffset, code :: rest =>
    markCodes width (index.mark (position / width) (position % width) encodedOffset) (position + 1)
      (encodedOffset + code.2) rest

/-- Marking the rest of the stream. -/
theorem RowIndex.Marked.markCodes (hcount : count = (width + 255) / 256)
    (hlength : codes.length = rows * width) {rest : List (ℕ × ℕ)} (hrest : rest = codes.drop position)
    (hle : position ≤ codes.length) (h : index.Marked width rows count codes position) :
    (markCodes width index position (offset codes position) rest).Marked width rows count codes
      codes.length := by
  induction rest generalizing index position with
  | nil =>
    have hend : codes.length ≤ position := List.drop_eq_nil_iff.mp hrest.symm
    rw [← Nat.le_antisymm hle hend]
    exact h
  | cons code rest ih =>
    have hlt : position < codes.length := by
      by_contra hge
      rw [List.drop_eq_nil_of_le (Nat.le_of_not_lt hge)] at hrest
      cases hrest
    rw [List.drop_eq_getElem_cons hlt, List.cons.injEq] at hrest
    have hnext : offset codes (position + 1) = offset codes position + code.2 := by
      rw [offset_add, List.drop_eq_getElem_cons hlt, hrest.1, offset_cons_succ, offset_zero,
        Nat.add_zero]
    rw [Schem.markCodes, ← hnext]
    exact ih hrest.2 hlt (h.mark hcount (hlength ▸ hlt))

/-- An index that was marked for the whole stream is valid. -/
theorem RowIndex.valid_markCodes (hcount : count = (width + 255) / 256) (hwidth : 0 < width)
    (hlength : codes.length = rows * width) :
    (markCodes width (RowIndex.create rows count (rows * count)) 0 0 codes).Valid width rows
      codes := by
  have h : (markCodes width (RowIndex.create rows count (rows * count)) 0 0 codes).Marked width
      rows count codes codes.length :=
    RowIndex.Marked.markCodes hcount hlength rfl (Nat.zero_le _)
      (RowIndex.marked_create width rows count codes)
  refine ⟨by rw [h.chunkCount, hcount], h.rowLength, fun row hrow => h.row row hrow ?_, ?_⟩
  · rw [hlength]
    exact Nat.mul_lt_mul_of_pos_right hrow hwidth
  · rw [h.chunkCount]
    exact h.chunk

/-- The pass variables behind a number of the given value and length. -/
def IndexPass.behind (width : ℕ) (pass : IndexPass) (code : ℕ × ℕ) : IndexPass where
  index := if pass.shift = 0 then pass.index.mark pass.row pass.x pass.encodedOffset else pass.index
  position := pass.position + 1
  row := if pass.x + 1 = width then pass.row + 1 else pass.row
  x := if pass.x + 1 = width then 0 else pass.x + 1
  encodedOffset := pass.encodedOffset + code.2
  value := 0
  shift := 0
  maxPaletteIndex := max pass.maxPaletteIndex code.1

variable {expectedCount : ℕ} {final : IndexPass} {limit : ℕ} {tag : Tag}

/-- A pass that ends behind a number has read one, and goes on behind it. -/
theorem IndexPass.run_number (h : bytes.foldlM (IndexPass.step width rows expectedCount) pass = .ok final)
    (hfinal : final.shift = 0) (hmore : pass.shift ≠ 0 ∨ bytes ≠ []) :
    ∃ code, decodeFrom pass.value pass.shift bytes = some code ∧
      (bytes.drop code.2).foldlM (IndexPass.step width rows expectedCount)
        (pass.behind width code) = .ok final := by
  induction bytes generalizing pass with
  | nil =>
    cases h
    exact absurd hfinal (hmore.resolve_right fun hne => hne rfl)
  | cons byte rest ih =>
    rw [List.foldlM_cons] at h
    rw [decodeFrom]
    cases hstep : IndexPass.step width rows expectedCount pass byte with
    | error error =>
      rw [hstep] at h
      cases h
    | ok next =>
      rw [hstep] at h
      replace h : rest.foldlM (IndexPass.step width rows expectedCount) next = .ok final := h
      rw [IndexPass.step] at hstep
      obtain ⟨-, hstep⟩ := NestedLoop.else_of_ok hstep
      by_cases hlast : byte &&& 0x80 = 0
      · by_cases hlarge : addByte pass.value pass.shift byte > 4294967295
        · simp only [if_pos hlast, if_pos hlarge] at hstep
          cases hstep
        · simp only [if_pos hlast, if_neg hlarge, Except.ok.injEq] at hstep
          subst hstep
          exact ⟨_, if_pos hlast, h⟩
      · by_cases hlong : pass.shift + 7 ≥ 35
        · simp only [if_neg hlast, if_pos hlong] at hstep
          cases hstep
        · simp only [if_neg hlast, if_neg hlong, Except.ok.injEq] at hstep
          subst hstep
          obtain ⟨code, hcode, hrun⟩ := ih h (.inl (Nat.succ_ne_zero _))
          refine ⟨(code.1, code.2 + 1), ?_, ?_⟩
          · rw [if_neg hlast, if_neg hlong]
            exact congrArg (Option.map fun code : ℕ × ℕ => (code.1, code.2 + 1)) hcode
          · rw [List.drop_succ_cons, ← hrun]
            simp only [IndexPass.behind, Nat.add_eq_zero_iff, OfNat.ofNat_ne_zero, and_false,
              if_false, Nat.add_assoc, Nat.add_comm 1]

/-- A finished pass has read a whole stream and marked its blocks. -/
theorem IndexPass.run_codes (hwidth : 0 < width)
    (h : bytes.foldlM (IndexPass.step width rows expectedCount) pass = .ok final) (hfinal : final.shift = 0)
    (hvalue : pass.value = 0) (hshift : pass.shift = 0) (hrow : pass.row = pass.position / width)
    (hx : pass.x = pass.position % width) :
    ∃ codes, Codes bytes codes ∧ final.position = pass.position + codes.length ∧
      final.index = markCodes width pass.index pass.position pass.encodedOffset codes ∧
      pass.maxPaletteIndex ≤ final.maxPaletteIndex ∧
      ∀ code ∈ codes, code.1 ≤ final.maxPaletteIndex := by
  obtain ⟨length, hlength⟩ : ∃ length, bytes.length = length := ⟨_, rfl⟩
  induction length using Nat.strong_induction_on generalizing pass bytes with
  | _ length ih =>
    by_cases hnil : bytes = []
    · subst hnil
      cases h
      exact ⟨[], .nil, rfl, rfl, le_rfl, by simp⟩
    · obtain ⟨code, hcode, hrun⟩ := IndexPass.run_number h hfinal (.inr hnil)
      rw [hvalue, hshift] at hcode
      have hsize := decodeFrom_size hcode
      have hwrap : (pass.behind width code).row = (pass.behind width code).position / width ∧
          (pass.behind width code).x = (pass.behind width code).position % width := by
        simp only [IndexPass.behind, hrow, hx]
        have hdecompose := Nat.div_add_mod' pass.position width
        have hlt := Nat.mod_lt pass.position hwidth
        split_ifs with hend
        · have hnext : pass.position + 1 = (pass.position / width + 1) * width := by
            rw [Nat.succ_mul]
            omega
          rw [hnext, Nat.mul_div_cancel _ hwidth, Nat.mul_mod_left]
          exact ⟨rfl, rfl⟩
        · have hnext : pass.position + 1 =
              width * (pass.position / width) + (pass.position % width + 1) := by
            rw [Nat.mul_comm]
            omega
          rw [hnext, Nat.mul_add_div hwidth, Nat.mul_add_mod,
            Nat.div_eq_of_lt (by omega : pass.position % width + 1 < width),
            Nat.mod_eq_of_lt (by omega : pass.position % width + 1 < width)]
          exact ⟨rfl, rfl⟩
      obtain ⟨codes, hcodes, hposition, hindex, hmax, hall⟩ :=
        ih (bytes.drop code.2).length (by rw [List.length_drop]; omega) hrun rfl rfl hwrap.1
          hwrap.2 rfl
      refine ⟨code :: codes, .cons hcode hcodes, ?_, ?_, ?_, ?_⟩
      · rw [hposition, List.length_cons, IndexPass.behind]
        dsimp only
        omega
      · rw [hindex, markCodes, ← hrow, ← hx]
        simp only [IndexPass.behind, hshift, if_true]
      · exact le_trans (le_max_left _ _) hmax
      · intro other hother
        rcases List.mem_cons.mp hother with rfl | hother
        · exact le_trans (le_max_right _ _) hmax
        · exact hall other hother

/-- A finished second pass has read a whole stream and marked its blocks. -/
theorem codes_of_indexBlocks {maxPaletteIndex : ℕ} {final : RowIndex} {encodedOffset remaining : ℕ}
    (h : indexBlocks width maxPaletteIndex index position encodedOffset remaining bytes = .ok final) :
    ∃ codes, Codes bytes codes ∧ codes.length = remaining ∧
      final = markCodes width index position encodedOffset codes ∧
      ∀ code ∈ codes, code.1 ≤ maxPaletteIndex := by
  induction remaining generalizing index position encodedOffset bytes with
  | zero =>
    rw [indexBlocks] at h
    obtain ⟨hempty, h⟩ := NestedLoop.then_of_ok h
    cases h
    exact ⟨[], List.isEmpty_iff.mp hempty ▸ .nil, rfl, rfl, by simp⟩
  | succ remaining ih =>
    rw [indexBlocks] at h
    split at h
    case h_1 => cases h
    case h_2 value size hdecode =>
      obtain ⟨hvalue, h⟩ := NestedLoop.else_of_ok h
      obtain ⟨codes, hcodes, hlength, hfinal, hlimit⟩ := ih h
      refine ⟨(value, size) :: codes, .cons hdecode hcodes, by rw [List.length_cons, hlength],
        hfinal, ?_⟩
      intro code hcode
      rcases List.mem_cons.mp hcode with rfl | hcode
      · exact Nat.le_of_not_lt fun hgt => hvalue (.inr hgt)
      · exact hlimit code hcode

/-- The geometry check passes on the product of the dimensions. -/
theorem checkedGeometry_eq (h : checkedGeometry size = some (width, rows, volume)) :
    (0 < size.width ∧ 0 < size.height ∧ 0 < size.length) ∧ width = size.width.toNat ∧
      rows = size.height.toNat * size.length.toNat ∧ volume = rows * width := by
  rw [checkedGeometry] at h
  obtain ⟨hpos, h⟩ := NestedLoop.else_of_some h
  dsimp only at h
  obtain ⟨_, h⟩ := NestedLoop.else_of_some h
  obtain ⟨_, h⟩ := NestedLoop.else_of_some h
  cases h
  exact ⟨by omega, rfl, rfl, rfl⟩

/-- The shape of an index that is small enough. -/
theorem checkedIndexShape_eq (h : checkedIndexShape width rows = some (count, entries)) :
    count = (width + 255) / 256 ∧ entries = rows * count := by
  rw [checkedIndexShape] at h
  obtain ⟨_, h⟩ := NestedLoop.else_of_some h
  dsimp only at h
  obtain ⟨_, h⟩ := NestedLoop.else_of_some h
  obtain ⟨_, h⟩ := NestedLoop.else_of_some h
  obtain ⟨-, h⟩ := NestedLoop.else_of_some h
  cases h
  exact ⟨rfl, rfl⟩

/-- The bytes hold one number for each block, and the index belongs to their rows. -/
def IndexFor (size : Size) (bytes : List UInt8) (index : RowIndex) (limit : ℕ) : Prop :=
  ∃ codes, Codes bytes codes ∧
    codes.length = size.height.toNat * size.length.toNat * size.width.toNat ∧
    index.Valid size.width.toNat (size.height.toNat * size.length.toNat) codes ∧
    ∀ code ∈ codes, code.1 ≤ limit

/-- The id that the palette compound gives a number. -/
def Palette.blockId (palette : Palette) (index : ℕ) : RuntimeId :=
  (palette.entries.lookup index).getD palette.unknown

/-- A table into which a map has been copied. -/
theorem getElem?_fill (found : AList fun _ : ℕ => RuntimeId) (dense : List RuntimeId) (index : ℕ) :
    (found.entries.foldl (fun dense entry => dense.set entry.1 entry.2) dense)[index]? =
      dense[index]?.map fun old => (found.lookup index).getD old := by
  rw [LastValue.getElem?_foldl_set]
  cases dense[index]? with
  | none => rfl
  | some old =>
    rw [Option.map_some, Option.map_some]
    congr 2
    cases hlookup : found.lookup index with
    | none =>
      apply LastValue.lastValue_eq_none.mpr
      intro entry hentry
      apply if_neg
      rintro rfl
      exact AList.lookup_eq_none.mp hlookup
        (AList.mem_keys.mpr (List.mem_keys_of_mem hentry))
    | some value =>
      have hmem := AList.mem_lookup_iff.mp hlookup
      apply LastValue.lastValue_of_agree
      · rintro ⟨key, other⟩ hentry written hwritten
        split at hwritten
        case isFalse => cases hwritten
        case isTrue hkey =>
          dsimp only at hkey
          subst hkey
          cases hwritten
          exact found.nodupKeys.eq_of_mk_mem hentry hmem
      · exact ⟨_, hmem, by simp⟩

theorem length_fill (found : AList fun _ : ℕ => RuntimeId) (dense : List RuntimeId) :
    (found.entries.foldl (fun dense entry => dense.set entry.1 entry.2) dense).length = dense.length := by
  generalize found.entries = entries
  induction entries generalizing dense with
  | nil => rfl
  | cons entry rest ih => rw [List.foldl_cons, ih, List.length_set]

/-- The dense copy of a palette agrees with the compound. -/
theorem runtimeIdFor_of_parsePalette {entries : List (List Char × ℤ)} {palette : Palette}
    (h : parsePalette resolve unknown entries = .ok palette) (index : ℕ) :
    palette.runtimeIdFor index = palette.blockId index := by
  obtain ⟨⟨found, maxIndex⟩, -, h⟩ := NestedLoop.exists_of_bind_ok h
  dsimp only at h
  obtain ⟨_, h⟩ := NestedLoop.else_of_ok h
  cases h
  dsimp only [Palette.runtimeIdFor, Palette.blockId]
  split
  case h_1 id hid =>
    split at hid
    · rw [getElem?_fill, List.getElem?_replicate] at hid
      split at hid
      · rw [Option.map_some, Option.some.injEq] at hid
        exact hid.symm
      · cases hid
    · simp at hid
  case h_2 => rfl

/-- What holds of the variables of `read` when the tags named in `rest` are still to come. -/
structure ReadInv (tags : List Tag) (rest : List TagName) (state : ReadState) : Prop where
  width_int32 : IsInt32 state.originalSize.width
  height_int32 : IsInt32 state.originalSize.height
  length_int32 : IsInt32 state.originalSize.length
  width : state.originalSize.width ≠ 0 → .Width ∉ rest
  height : state.originalSize.height ≠ 0 → .Height ∉ rest
  length : state.originalSize.length ≠ 0 → .Length ∉ rest
  palette : ∀ palette, state.palette = some palette → ∀ index,
    palette.runtimeIdFor index = palette.blockId index
  fresh : state.hasData = false →
    state.blockData = [] ∧ state.blockDataBytes = 0 ∧ state.index = none ∧ state.deferred = false
  data : state.hasData = true → .BlockData ∉ rest ∧ ∃ bytes, Tag.blockData bytes ∈ tags ∧
    state.blockDataBytes = bytes.length ∧ (state.deferred = false → state.blockData = bytes)
  index : ∀ index limit, state.index = some (index, limit) → state.sizeKnown = true ∧
    state.deferred = false ∧ IndexFor state.originalSize state.blockData index limit

theorem ReadInv.start (tags : List Tag) (rest : List TagName) : ReadInv tags rest {} where
  width_int32 := by decide
  height_int32 := by decide
  length_int32 := by decide
  width := fun h => absurd rfl h
  height := fun h => absurd rfl h
  length := fun h => absurd rfl h
  palette := fun _ h => nomatch h
  fresh := fun _ => ⟨rfl, rfl, rfl, rfl⟩
  data := fun h => nomatch h
  index := fun _ _ h => nomatch h

/-- Taking over the data, wherever they go. -/
theorem ReadInv.receive {data : List UInt8} {deferred : Bool} {index : Option (RowIndex × ℕ)}
    (h : ReadInv tags (.BlockData :: rest) state) (hfresh : TagName.BlockData ∉ rest)
    (hmem : Tag.blockData bytes ∈ tags) (hdata : deferred = false → data = bytes)
    (hindex : ∀ found limit, index = some (found, limit) → state.sizeKnown = true ∧
      deferred = false ∧ IndexFor state.originalSize data found limit) :
    ReadInv tags rest { state with
      blockData := data, blockDataBytes := bytes.length, deferred := deferred, hasData := true,
      index := index } where
  width_int32 := h.width_int32
  height_int32 := h.height_int32
  length_int32 := h.length_int32
  width := fun hne hin => h.width hne (List.mem_cons_of_mem _ hin)
  height := fun hne hin => h.height hne (List.mem_cons_of_mem _ hin)
  length := fun hne hin => h.length hne (List.mem_cons_of_mem _ hin)
  palette := h.palette
  fresh := fun hfalse => nomatch hfalse
  data := fun _ => ⟨hfresh, bytes, hmem, rfl, hdata⟩
  index := hindex

/-- The pass over the copied bytes builds an index for them. -/
theorem indexFor_of_pass (hgeometry : checkedGeometry size = some (width, rows, volume))
    (hshape : checkedIndexShape width rows = some (count, entries))
    (hrun : bytes.foldlM (IndexPass.step width rows volume)
      { index := RowIndex.create rows count entries } = .ok pass)
    (hfinish : pass.finish rows volume = .ok (index, limit)) : IndexFor size bytes index limit := by
  obtain ⟨⟨hwidth, -, -⟩, rfl, rfl, rfl⟩ := checkedGeometry_eq hgeometry
  obtain ⟨hcount, rfl⟩ := checkedIndexShape_eq hshape
  rw [IndexPass.finish] at hfinish
  obtain ⟨hshift, hfinish⟩ := NestedLoop.else_of_ok hfinish
  obtain ⟨hend, hfinish⟩ := NestedLoop.else_of_ok hfinish
  cases hfinish
  obtain ⟨codes, hcodes, hposition, hindex, -, hlimit⟩ := IndexPass.run_codes (by omega) hrun
    (by omega) rfl rfl (Nat.zero_div _).symm (Nat.zero_mod _).symm
  have hlength : codes.length = size.height.toNat * size.length.toNat * size.width.toNat := by
    dsimp only at hposition
    omega
  refine ⟨codes, hcodes, hlength, ?_, hlimit⟩
  rw [hindex]
  exact RowIndex.valid_markCodes hcount (by omega) hlength

/-- The second pass builds an index for the temporary file. -/
theorem indexFor_of_indexBlocks (hgeometry : checkedGeometry size = some (width, rows, volume))
    (hshape : checkedIndexShape width rows = some (count, entries))
    (hbuild : indexBlocks width limit (RowIndex.create rows count entries) 0 0 volume bytes = .ok index) :
    IndexFor size bytes index limit := by
  obtain ⟨⟨hwidth, -, -⟩, rfl, rfl, rfl⟩ := checkedGeometry_eq hgeometry
  obtain ⟨hcount, rfl⟩ := checkedIndexShape_eq hshape
  obtain ⟨codes, hcodes, hlength, rfl, hlimit⟩ := codes_of_indexBlocks hbuild
  exact ⟨codes, hcodes, hlength, RowIndex.valid_markCodes hcount (by omega) hlength, hlimit⟩

/-- The data are copied, and indexed when the size is known. -/
theorem ReadInv.readData (h : ReadInv tags (.BlockData :: rest) state) (hfresh : TagName.BlockData ∉ rest)
    (hmem : Tag.blockData bytes ∈ tags) (hnext : readData flags state bytes = .ok next) :
    ReadInv tags rest next := by
  have hnoData : state.hasData = false := by
    cases hdata : state.hasData with
    | false => rfl
    | true => exact absurd List.mem_cons_self (h.data hdata).1
  obtain ⟨hblockData, hblockDataBytes, hindex, hdeferred⟩ := h.fresh hnoData
  rw [Schem.readData, hblockData, hblockDataBytes, List.nil_append, Nat.zero_add] at hnext
  split at hnext
  case isTrue =>
    obtain ⟨-, hnext⟩ := NestedLoop.else_of_ok hnext
    cases hnext
    apply h.receive hfresh hmem
    · exact fun hfalse => nomatch hfalse
    · intro found limit hfound
      rw [hindex] at hfound
      cases hfound
  case isFalse =>
    split_ifs at hnext with hbuild
    · split at hnext
      case h_1 => cases hnext
      case h_2 width rows volume hgeometry =>
        split at hnext
        case h_1 => cases hnext
        case h_2 count entries hshape =>
          obtain ⟨pass, hrun, hnext⟩ := NestedLoop.exists_of_bind_ok hnext
          obtain ⟨⟨index, limit⟩, hfinish, hnext⟩ := NestedLoop.exists_of_bind_ok hnext
          cases hnext
          rw [hdeferred]
          apply h.receive hfresh hmem
          · exact fun _ => rfl
          · intro found limit hfound
            cases hfound
            exact ⟨hbuild.2.2, rfl, indexFor_of_pass hgeometry hshape hrun hfinish⟩
    · cases hnext
      rw [hdeferred]
      apply h.receive hfresh hmem
      · exact fun _ => rfl
      · intro found limit hfound
        rw [hindex] at hfound
        cases hfound

/-- A dimension that is not there yet leaves the data without an index. -/
theorem ReadInv.index_none (h : ReadInv tags rest state) (hunknown : state.sizeKnown = false) :
    state.index = none := by
  cases hindex : state.index with
  | none => rfl
  | some found =>
    have hknown := (h.index found.1 found.2 hindex).1
    rw [hunknown] at hknown
    cases hknown

/-- Setting a dimension that was not there yet. -/
theorem ReadInv.setSize {name : TagName} (h : ReadInv tags (name :: rest) state)
    (hunknown : state.sizeKnown = false)
    (hint : IsInt32 size.width ∧ IsInt32 size.height ∧ IsInt32 size.length)
    (hwidth : size.width ≠ 0 → .Width ∉ rest) (hheight : size.height ≠ 0 → .Height ∉ rest)
    (hlength : size.length ≠ 0 → .Length ∉ rest) :
    ReadInv tags rest { state with originalSize := size, hasSize := true } where
  width_int32 := hint.1
  height_int32 := hint.2.1
  length_int32 := hint.2.2
  width := hwidth
  height := hheight
  length := hlength
  palette := h.palette
  fresh := h.fresh
  data := fun hdata =>
    let hread := h.data hdata
    ⟨fun hin => hread.1 (List.mem_cons_of_mem _ hin), hread.2⟩
  index := fun _ _ hindex => by
    rw [h.index_none hunknown] at hindex
    cases hindex

/-- The size is not known while one of its tags is still to come. -/
theorem ReadInv.sizeKnown_eq_false (h : ReadInv tags rest state)
    (hcome : .Width ∈ rest ∨ .Height ∈ rest ∨ .Length ∈ rest) : state.sizeKnown = false := by
  apply decide_eq_false
  rintro ⟨hwidth, hheight, hlength⟩
  rcases hcome with hin | hin | hin
  · exact h.width (by omega) hin
  · exact h.height (by omega) hin
  · exact h.length (by omega) hin

/-- One tag keeps the invariant. -/
theorem ReadInv.readTag (h : ReadInv tags (tag.name :: rest) state) (hfresh : tag.name ∉ rest)
    (hmem : tag ∈ tags) (hnext : readTag resolve unknown flags state tag = .ok next) :
    ReadInv tags rest next := by
  have hwidth := fun hne hin => h.width hne (List.mem_cons_of_mem _ hin)
  have hheight := fun hne hin => h.height hne (List.mem_cons_of_mem _ hin)
  have hlength := fun hne hin => h.length hne (List.mem_cons_of_mem _ hin)
  cases tag with
  | width value =>
    rw [Schem.readTag] at hnext
    obtain ⟨hint, hnext⟩ := NestedLoop.else_of_ok hnext
    cases hnext
    exact h.setSize (h.sizeKnown_eq_false (.inl List.mem_cons_self))
      ⟨not_not.mp hint, h.height_int32, h.length_int32⟩ (fun _ => hfresh) hheight hlength
  | height value =>
    rw [Schem.readTag] at hnext
    obtain ⟨hint, hnext⟩ := NestedLoop.else_of_ok hnext
    cases hnext
    exact h.setSize (h.sizeKnown_eq_false (.inr (.inl List.mem_cons_self)))
      ⟨h.width_int32, not_not.mp hint, h.length_int32⟩ hwidth (fun _ => hfresh) hlength
  | length value =>
    rw [Schem.readTag] at hnext
    obtain ⟨hint, hnext⟩ := NestedLoop.else_of_ok hnext
    cases hnext
    exact h.setSize (h.sizeKnown_eq_false (.inr (.inr List.mem_cons_self)))
      ⟨h.width_int32, h.height_int32, not_not.mp hint⟩ hwidth hheight (fun _ => hfresh)
  | palette entries =>
    obtain ⟨palette, hpalette, hnext⟩ := NestedLoop.exists_of_bind_ok hnext
    cases hnext
    exact ⟨h.width_int32, h.height_int32, h.length_int32, hwidth, hheight, hlength,
      fun found hfound => Option.some.inj hfound ▸ runtimeIdFor_of_parsePalette hpalette, h.fresh,
      fun hdata => ⟨fun hin => (h.data hdata).1 (List.mem_cons_of_mem _ hin), (h.data hdata).2⟩,
      h.index⟩
  | blockData bytes => exact h.readData hfresh hmem hnext

/-- The invariant after all tags. -/
theorem ReadInv.run {rest : List Tag} {final : ReadState} (h : ReadInv tags (rest.map Tag.name) state)
    (hunique : (rest.map Tag.name).Nodup) (hmem : ∀ tag ∈ rest, tag ∈ tags)
    (hrun : rest.foldlM (Schem.readTag resolve unknown flags) state = .ok final) : ReadInv tags [] final := by
  induction rest generalizing state with
  | nil =>
    cases hrun
    exact h
  | cons tag rest ih =>
    rw [List.foldlM_cons] at hrun
    obtain ⟨next, hnext, hrun⟩ := NestedLoop.exists_of_bind_ok hrun
    rw [List.map_cons, List.nodup_cons] at hunique
    exact ih (h.readTag hunique.1 (hmem tag List.mem_cons_self) hnext) hunique.2
      (fun tag htag => hmem tag (List.mem_cons_of_mem _ htag)) hrun

/-- What a read state keeps of the tags that every way of reading treats alike. -/
def ReadState.header (state : ReadState) : Size × Option Palette :=
  (state.originalSize, state.palette)

/-- The block data do not touch the header. -/
theorem header_readData (h : readData flags state bytes = .ok next) : next.header = state.header := by
  rw [readData] at h
  split at h
  case isTrue =>
    obtain ⟨-, h⟩ := NestedLoop.else_of_ok h
    cases h
    rfl
  case isFalse =>
    split at h
    · split at h
      case h_1 => cases h
      case h_2 =>
        split at h
        case h_1 => cases h
        case h_2 =>
          obtain ⟨_, -, h⟩ := NestedLoop.exists_of_bind_ok h
          obtain ⟨_, -, h⟩ := NestedLoop.exists_of_bind_ok h
          cases h
          rfl
    · cases h
      rfl

/-- However a tag is read, it changes the header in the same way. -/
theorem header_readTag {flags' : ReadFlags} {state' next' : ReadState}
    (h : readTag resolve unknown flags state tag = .ok next)
    (h' : readTag resolve unknown flags' state' tag = .ok next') (hheader : state.header = state'.header) :
    next.header = next'.header := by
  simp only [ReadState.header, Prod.mk.injEq] at hheader ⊢
  cases tag with
  | width value | height value | length value =>
    rw [readTag] at h h'
    obtain ⟨hvalue, h⟩ := NestedLoop.else_of_ok h
    rw [if_neg hvalue] at h'
    cases h
    cases h'
    dsimp only
    rw [hheader.1, hheader.2]
    exact ⟨rfl, rfl⟩
  | palette entries =>
    obtain ⟨palette, hpalette, h⟩ := NestedLoop.exists_of_bind_ok h
    obtain ⟨palette', hpalette', h'⟩ := NestedLoop.exists_of_bind_ok h'
    cases h
    cases h'
    cases hpalette.symm.trans hpalette'
    exact ⟨hheader.1, rfl⟩
  | blockData bytes =>
    have hnext := header_readData h
    have hnext' := header_readData h'
    simp only [ReadState.header, Prod.mk.injEq] at hnext hnext'
    rw [hnext.1, hnext.2, hnext'.1, hnext'.2]
    exact hheader

/-- Names do not repeat, so a document has the block data of any of its tags. -/
theorem Document.blockData_eq {document : Document} (h : Tag.blockData bytes ∈ document.tags) :
    document.blockData = some bytes := by
  have hunique := document.unique
  rw [Document.blockData]
  generalize document.tags = tags at h hunique
  induction tags with
  | nil => cases h
  | cons tag rest ih =>
    rw [List.map_cons, List.nodup_cons] at hunique
    rw [List.findSome?_cons]
    rcases List.mem_cons.mp h with rfl | hrest
    · rfl
    · cases tag with
      | blockData other => exact absurd (List.mem_map_of_mem hrest) hunique.1
      | _ => exact ih hrest hunique.2

end Schem

namespace SchemStructure

open Schem

/-- Without an offset an extent stays what it is. -/
theorem extentWithOffset_zero {extent : ℤ} (h : 0 < extent ∧ extent ≤ int32Max) :
    extentWithOffset extent 0 = extent := by
  rw [extentWithOffset, if_neg (lt_irrefl 0), add_zero, if_neg (by omega), if_neg (by unfold int32Min; omega)]

/-- What a successful read establishes. -/
structure FromFile (s : SchemStructure) (document : Document) : Prop where
  source : s.source = document
  offset : s.offset = ⟨0, 0, 0⟩
  size : s.size = s.originalSize
  width : 0 < s.originalSize.width ∧ s.originalSize.width ≤ int32Max
  height : 0 < s.originalSize.height ∧ s.originalSize.height ≤ int32Max
  length : 0 < s.originalSize.length ∧ s.originalSize.length ≤ int32Max
  palette : ∀ index, s.palette.runtimeIdFor index = s.palette.blockId index
  data : ∃ bytes, Tag.blockData bytes ∈ document.tags ∧ s.blockDataBytes = bytes.length ∧
    ∀ stored, s.blockData = some stored → stored = bytes
  index : ∀ index, s.index = some index → ∃ bytes, s.blockData = some bytes ∧
    IndexFor s.originalSize bytes index s.palette.maxIndex

variable {flags : ReadFlags} {document : Document} {s : SchemStructure}
  {resolve : List Char → Option RuntimeId} {unknown : RuntimeId}

/-- A successful read. -/
theorem fromFile_of_read (h : read resolve unknown flags document = .ok s) : s.FromFile document := by
  obtain ⟨state, hrun, hfinish⟩ := NestedLoop.exists_of_bind_ok h
  have hinv := (ReadInv.start document.tags _).run document.unique (fun _ htag => htag) hrun
  rw [ofReadState] at hfinish
  obtain ⟨hsize, hfinish⟩ := NestedLoop.else_of_ok hfinish
  split at hfinish
  case h_1 => cases hfinish
  case h_2 palette hpalette =>
    obtain ⟨hdata, hfinish⟩ := NestedLoop.else_of_ok hfinish
    split at hfinish
    case h_1 => cases hfinish
    case h_2 width rows volume hgeometry =>
      obtain ⟨hvolume, hfinish⟩ := NestedLoop.else_of_ok hfinish
      obtain ⟨-, bytes, hmem, hbytes, hstored⟩ := hinv.data (by simpa using hdata)
      have hw : 0 < state.originalSize.width ∧ state.originalSize.width ≤ int32Max :=
        ⟨by omega, hinv.width_int32.2⟩
      have hh : 0 < state.originalSize.height ∧ state.originalSize.height ≤ int32Max :=
        ⟨by omega, hinv.height_int32.2⟩
      have hl : 0 < state.originalSize.length ∧ state.originalSize.length ≤ int32Max :=
        ⟨by omega, hinv.length_int32.2⟩
      have hp := hinv.palette palette hpalette
      have hextents : (⟨extentWithOffset state.originalSize.width 0,
          extentWithOffset state.originalSize.height 0,
          extentWithOffset state.originalSize.length 0⟩ : Size) = state.originalSize := by
        rw [extentWithOffset_zero hw, extentWithOffset_zero hh, extentWithOffset_zero hl]
      dsimp only at hfinish
      split at hfinish
      case h_1 index limit hindex =>
        obtain ⟨-, hdeferred, codes, hcodes, hlength, hvalid, hlimit⟩ :=
          hinv.index index limit hindex
        obtain ⟨hwithin, hfinish⟩ := NestedLoop.else_of_ok hfinish
        cases hfinish
        refine ⟨rfl, rfl, hextents, hw, hh, hl, hp, ⟨bytes, hmem, hbytes, ?_⟩, ?_⟩
        · intro stored hsome
          cases hsome
          exact hstored hdeferred
        · intro found hfound
          cases hfound
          exact ⟨_, rfl, codes, hcodes, hlength, hvalid, fun code hcode =>
            le_trans (hlimit code hcode) (Nat.le_of_not_lt hwithin)⟩
      case h_2 hindex =>
        split at hfinish
        case isTrue =>
          cases hfinish
          exact ⟨rfl, rfl, hextents, hw, hh, hl, hp, ⟨bytes, hmem, hbytes, fun _ h => nomatch h⟩,
            fun _ h => nomatch h⟩
        case isFalse hdeferred =>
          have hkept : ∀ stored, some state.blockData = some stored → stored = bytes := by
            intro stored hsome
            cases hsome
            exact hstored (by simpa using hdeferred)
          split at hfinish
          · split at hfinish
            case h_1 => cases hfinish
            case h_2 count entries hshape =>
              obtain ⟨index, hbuild, hfinish⟩ := NestedLoop.exists_of_bind_ok hfinish
              cases hfinish
              refine ⟨rfl, rfl, hextents, hw, hh, hl, hp, ⟨bytes, hmem, hbytes, hkept⟩, ?_⟩
              intro found hfound
              cases hfound
              exact ⟨_, rfl, indexFor_of_indexBlocks hgeometry hshape hbuild⟩
          · cases hfinish
            exact ⟨rfl, rfl, hextents, hw, hh, hl, hp, ⟨bytes, hmem, hbytes, hkept⟩,
              fun _ h => nomatch h⟩

/-- The header of a finished structure. -/
theorem header_ofReadState {state : ReadState} (h : ofReadState flags document state = .ok s) :
    state.header = (s.originalSize, some s.palette) := by
  rw [ofReadState] at h
  obtain ⟨_, h⟩ := NestedLoop.else_of_ok h
  split at h
  case h_1 => cases h
  case h_2 palette hpalette =>
    rw [ReadState.header, hpalette]
    obtain ⟨_, h⟩ := NestedLoop.else_of_ok h
    split at h
    case h_1 => cases h
    case h_2 =>
      obtain ⟨_, h⟩ := NestedLoop.else_of_ok h
      dsimp only at h
      split at h
      case h_1 =>
        obtain ⟨-, h⟩ := NestedLoop.else_of_ok h
        cases h
        rfl
      case h_2 =>
        split_ifs at h
        · cases h
          rfl
        · split at h
          case h_1 => cases h
          case h_2 =>
            obtain ⟨_, -, h⟩ := NestedLoop.exists_of_bind_ok h
            cases h
            rfl
        · cases h
          rfl

/-- However a document is read, the size and the palette are the same. -/
theorem header_of_reads {flags' : ReadFlags} {t : SchemStructure}
    (hs : read resolve unknown flags document = .ok s) (ht : read resolve unknown flags' document = .ok t) :
    s.originalSize = t.originalSize ∧ s.palette = t.palette := by
  obtain ⟨state, hrun, hs⟩ := NestedLoop.exists_of_bind_ok hs
  obtain ⟨state', hrun', ht⟩ := NestedLoop.exists_of_bind_ok ht
  have hstates (tags : List Tag) (first first' last last' : ReadState)
      (h : tags.foldlM (readTag resolve unknown flags) first = .ok last)
      (h' : tags.foldlM (readTag resolve unknown flags') first' = .ok last')
      (hheader : first.header = first'.header) : last.header = last'.header := by
    induction tags generalizing first first' with
    | nil =>
      cases h
      cases h'
      exact hheader
    | cons tag rest ih =>
      rw [List.foldlM_cons] at h h'
      obtain ⟨next, hnext, hrest⟩ := NestedLoop.exists_of_bind_ok h
      obtain ⟨next', hnext', hrest'⟩ := NestedLoop.exists_of_bind_ok h'
      exact ih next next' hrest hrest' (header_readTag hnext hnext' hheader)
  have hheader := hstates _ _ _ _ _ hrun hrun' rfl
  rw [header_ofReadState hs, header_ofReadState ht] at hheader
  simpa using hheader

end SchemStructure

end WaterStructure
