import WaterStructure.Formats.SchemIndex
import WaterStructure.Library.Extremes
import WaterStructure.Library.NbtTag

/-!
# Schem: documents with several palettes

The tags of a document may stand in any order and repeat. Every palette compound is read into one map,
while the largest index and the dense table are taken from the compound that has just been read. The
tables fit together at the end exactly when the last palette holds the largest index, and either no
palette has a dense table or every palette has one and their largest indices do not fall.
-/

namespace WaterStructure

namespace Schem

/-- The version that is attempted. -/
inductive Version where
  | SchemV1
  | SchemV2
  deriving DecidableEq

def Version.name : Version → String
  | .SchemV1 => "SchemV1"
  | .SchemV2 => "SchemV2"

def kMaxSchemNbtDepth : ℕ := 128

mutual

/-- `skip_payload` -/
def skipPayload (depth : ℕ) : NbtTag.Tag → Except String Unit
  | .list element items =>
    if depth > kMaxSchemNbtDepth then .error "Schem NBT 嵌套深度超过限制"
    else if element = .End then .error "Invalid tag type: 0"
    else skipItems (depth + 1) items
  | .compound entries =>
    if depth > kMaxSchemNbtDepth then .error "Schem NBT 嵌套深度超过限制"
    else skipEntries (depth + 1) entries
  | _ => if depth > kMaxSchemNbtDepth then .error "Schem NBT 嵌套深度超过限制" else .ok ()
termination_by structural tag => tag

def skipItems (depth : ℕ) : List NbtTag.Tag → Except String Unit
  | [] => .ok ()
  | item :: rest => do
    skipPayload depth item
    skipItems depth rest
termination_by structural items => items

def skipEntries (depth : ℕ) : List (List Char × NbtTag.Tag) → Except String Unit
  | [] => .ok ()
  | entry :: rest => do
    skipEntry depth entry
    skipEntries depth rest
termination_by structural entries => entries

def skipEntry (depth : ℕ) : List Char × NbtTag.Tag → Except String Unit
  | (_, tag) => skipPayload depth tag
termination_by structural entry => entry

end

/-- `is_integer_type` -/
def isIntegerType : NbtTag.TagType → Bool
  | .Byte | .Short | .Int | .Long => true
  | _ => false

/-- The payload of a tag of an integer type. -/
def integerValue : NbtTag.Tag → Option ℤ
  | .byte value | .short value | .int value | .long value => some value
  | _ => none

/-- `read_offset`: the values are checked and dropped. -/
def readOffset : NbtTag.Tag → Except String Unit
  | .intArray values =>
    if values.length ≠ 3 then .error "Schem Offset Int_Array 长度必须为 3" else .ok ()
  | .list element items =>
    if items.length ≠ 3 ∨ isIntegerType element = false then .error "Schem Offset List 必须是 3 个整数"
    else
      items.forM fun item =>
        if ((integerValue item).filter fun value => IsInt32 value).isSome then .ok ()
        else .error "Schem Offset 整数超出范围"
  | _ => .error "Schem Offset 必须为 Int_Array 或 List"

/-- What the palettes so far have left. A write outside of the dense table, undefined in the source, is
noted and does nothing. -/
structure Tables where
  palette : Option Palette := none
  inRange : Bool := true

/-- The variables of `read`, with the notes about the dense table. -/
structure DocumentState where
  read : ReadState := {}
  inRange : Bool := true
  hasRootBlockData : Bool := false
  hasNestedBlockData : Bool := false

def DocumentState.tables (state : DocumentState) : Tables := ⟨state.read.palette, state.inRange⟩

/-- The loop that copies the map into the dense table. -/
def fillDense (palette : AList fun _ : ℕ => RuntimeId) (dense : List RuntimeId) : List RuntimeId × Bool :=
  palette.entries.foldl
    (fun table entry => (table.1.set entry.1 entry.2, table.2 && decide (entry.1 < table.1.length)))
    (dense, true)

section Reader

variable (version : Version) (resolve : List Char → Option RuntimeId) (unknown : RuntimeId) (flags : ReadFlags)

/-- The loop over a palette compound. -/
def parsePaletteEntries : (AList fun _ : ℕ => RuntimeId) → ℕ → ℕ → NbtTag.Entries →
    Except String ((AList fun _ : ℕ => RuntimeId) × ℕ)
  | palette, maxIndex, _, [] => .ok (palette, maxIndex)
  | palette, maxIndex, entryCount, (javaState, tag) :: rest =>
    if entryCount ≥ 1048576 then .error "Schem palette 项数超过限制"
    else
      match integerValue tag with
      | none => .error "Schem palette 索引不是整数"
      | some index =>
        if ¬ IsInt32 index ∨ index < 0 then .error "Schem palette 索引不是非负整数"
        else if (palette.lookup index.toNat).isSome then .error "Schem palette 包含重复索引"
        else
          parsePaletteEntries (palette.insert index.toNat ((resolve javaState).getD unknown))
            (max maxIndex index.toNat) (entryCount + 1) rest

/-- `parse_palette`, on the map that the palettes before have left. -/
def addPalette (tables : Tables) (entries : NbtTag.Entries) : Except String Tables := do
  let (palette, maxIndex) ←
    parsePaletteEntries resolve unknown (tables.palette.elim ∅ Palette.entries) 0 0 entries
  if entries.isEmpty then .error "Schem palette 为空"
  else if maxIndex ≤ 1048575 then
    let table := fillDense palette (List.replicate (maxIndex + 1) unknown)
    return { palette := some ⟨palette, table.1, maxIndex, unknown⟩, inRange := tables.inRange && table.2 }
  else
    return { tables with palette := some ⟨palette, tables.palette.elim [] Palette.dense, maxIndex, unknown⟩ }

/-- One of the three dimensions. -/
def readDimension (state : DocumentState) (make : ℤ → Tag) (tag : NbtTag.Tag) :
    Except String DocumentState :=
  match integerValue tag with
  | none => .error "Schem 尺寸标签不是整数"
  | some value => do
    let read ← readTag resolve unknown flags state.read (make value)
    return { state with read }

/-- A byte array under the name of the block data. Those of the other version are skipped. -/
def readBlockData (state : DocumentState) (key : List Char) (values : List ℤ) :
    Except String DocumentState :=
  if version = .SchemV1 ∧ key = "BlockData".toList then
    if state.hasRootBlockData = true then .error "Schem 包含重复 BlockData/Data"
    else do
      let read ← readData flags state.read (values.map UInt8.ofInt)
      return { state with read, hasRootBlockData := true }
  else if version = .SchemV2 ∧ key = "Data".toList then
    if state.hasNestedBlockData = true then .error "Schem 包含重复 BlockData/Data"
    else do
      let read ← readData flags state.read (values.map UInt8.ofInt)
      return { state with read, hasNestedBlockData := true }
  else .ok state

/-- A tag that nobody asks for. -/
def skipTag (state : DocumentState) (tag : NbtTag.Tag) : Except String DocumentState :=
  match skipPayload 0 tag with
  | .ok () => .ok state
  | .error message => .error ("解析 " ++ version.name ++ " 失败: " ++ message)

/-- One turn of `parse_document`, but for the `Blocks` of the document itself. -/
def readEntry (blocksPayload : Bool) (state : DocumentState) (entry : List Char × NbtTag.Tag) :
    Except String DocumentState :=
  if entry.1 = "Width".toList then readDimension resolve unknown flags state .width entry.2
  else if entry.1 = "Height".toList then readDimension resolve unknown flags state .height entry.2
  else if entry.1 = "Length".toList then readDimension resolve unknown flags state .length entry.2
  else if entry.1 = "Offset".toList then (readOffset entry.2).map fun _ => state
  else
    match entry.2 with
    | .compound entries =>
      if entry.1 = "Palette".toList then do
        let tables ← addPalette resolve unknown state.tables entries
        return { state with
          read := { state.read with palette := tables.palette }
          inRange := tables.inRange }
      else skipTag version state entry.2
    | .byteArray values =>
      if (entry.1 = "BlockData".toList ∧ blocksPayload = false) ∨
          (entry.1 = "Data".toList ∧ blocksPayload = true) then
        readBlockData version flags state entry.1 values
      else skipTag version state entry.2
    | tag => skipTag version state tag

/-- `parse_document(true)`: compounds named `Blocks` are skipped here. -/
def parseBlocks (state : DocumentState) (entries : NbtTag.Entries) : Except String DocumentState :=
  entries.foldlM (readEntry version resolve unknown flags true) state

/-- A turn of `parse_document(false)`. -/
def readDocumentEntry (state : DocumentState) (entry : List Char × NbtTag.Tag) :
    Except String DocumentState :=
  match entry with
  | (key, .compound entries) =>
    if key = "Blocks".toList then
      if version = .SchemV1 then .error "SchemV1 使用了 Blocks/Data 结构"
      else parseBlocks version resolve unknown flags state entries
    else readEntry version resolve unknown flags false state (key, .compound entries)
  | entry => readEntry version resolve unknown flags false state entry

/-- `parse_document(false)` -/
def parseDocument (state : DocumentState) (entries : NbtTag.Entries) : Except String DocumentState :=
  entries.foldlM (readDocumentEntry version resolve unknown flags) state

/-- A tag of a root without a name; nothing has been read before the first document. -/
def readRootEntry (state : Option DocumentState) (entry : List Char × NbtTag.Tag) :
    Except String (Option DocumentState) :=
  match entry with
  | (key, .compound entries) =>
    if key = "Schematic".toList then
      (parseDocument version resolve unknown flags (state.getD {}) entries).map some
    else (skipTag version (state.getD {}) (.compound entries)).map fun _ => state
  | (_, tag) => (skipTag version (state.getD {}) tag).map fun _ => state

/-- The root compound; there may be no document in it. -/
def readRoot (rootName : List Char) (root : NbtTag.Entries) : Except String (Option DocumentState) :=
  if rootName = "Schematic".toList then (parseDocument version resolve unknown flags {} root).map some
  else if rootName = [] then root.foldlM (readRootEntry version resolve unknown flags) none
  else .ok none

/-- `SchemStructure::read` up to the tables: the state that an accepted input leaves. -/
def readTables (rootName : List Char) (root : NbtTag.Entries) : Except String DocumentState := do
  match ← readRoot version resolve unknown flags rootName root with
  | none => .error "Schem 根标签缺少 Schematic 文档"
  | some state => do
    -- The checks do not look at the tags that are kept for the second pass.
    let _ ← SchemStructure.ofReadState flags ⟨[], List.nodup_nil⟩ state.read
    if version = .SchemV1 ∧ state.hasRootBlockData = false then .error "SchemV1 缺少根层 BlockData"
    else if version = .SchemV2 ∧ state.hasNestedBlockData = false then .error "SchemV2 缺少 Blocks/Data"
    else return state

end Reader

/-- The number that a palette gives a state. -/
def indexOf (entry : List Char × NbtTag.Tag) : ℕ := ((integerValue entry.2).getD 0).toNat

def largestIndex (entries : NbtTag.Entries) : ℕ := (entries.map indexOf).foldl max 0

/-- The palettes of a `Blocks` compound. -/
def blocksPalettes : List Char × NbtTag.Tag → List NbtTag.Entries
  | (key, .compound entries) => if key = "Palette".toList then [entries] else []
  | _ => []

/-- The palettes of a document, in the order in which they are read. -/
def documentPalettes : List Char × NbtTag.Tag → List NbtTag.Entries
  | (key, .compound entries) =>
    if key = "Blocks".toList then entries.flatMap blocksPalettes
    else if key = "Palette".toList then [entries]
    else []
  | _ => []

def rootPalettes : List Char × NbtTag.Tag → List NbtTag.Entries
  | (key, .compound entries) => if key = "Schematic".toList then entries.flatMap documentPalettes else []
  | _ => []

/-- The palettes that are read, in their order. -/
def palettes (rootName : List Char) (root : NbtTag.Entries) : List NbtTag.Entries :=
  if rootName = "Schematic".toList then root.flatMap documentPalettes
  else if rootName = [] then root.flatMap rootPalettes
  else []

/-- The tables after the last palette. -/
structure Consistent (palette : Palette) (inRange : Bool) : Prop where
  largest : IsGreatest {index | index ∈ palette.entries} palette.maxIndex
  writes : inRange = true
  size : palette.dense ≠ [] → palette.dense.length = palette.maxIndex + 1
  agrees : palette.dense ≠ [] → ∀ index ≤ palette.maxIndex,
    palette.dense[index]? = some ((palette.entries.lookup index).getD palette.unknown)

/-- The last palette holds the largest index, and either every palette has a dense table and the largest
indices do not fall, or none has. -/
structure Ascending (maxima : List ℕ) : Prop where
  last : ∀ last ∈ maxima.getLast?, ∀ index ∈ maxima, index ≤ last
  small : (∀ index ∈ maxima, index ≤ 1048575) ∧ maxima.Pairwise (· ≤ ·) ∨
    ∀ index ∈ maxima, 1048575 < index

section Fill

variable {resolve : List Char → Option RuntimeId} {unknown : RuntimeId}

/-- Copying a map into a table. -/
theorem fillDense_fst (palette : AList fun _ : ℕ => RuntimeId) (dense : List RuntimeId) :
    (fillDense palette dense).1 = palette.entries.foldl (fun dense entry => dense.set entry.1 entry.2) dense := by
  suffices hall : ∀ (entries : List (Σ _ : ℕ, RuntimeId)) (table : List RuntimeId × Bool),
      (entries.foldl (fun table entry =>
        (table.1.set entry.1 entry.2, table.2 && decide (entry.1 < table.1.length))) table).1 =
        entries.foldl (fun dense entry => dense.set entry.1 entry.2) table.1 from
    hall palette.entries (dense, true)
  intro entries
  induction entries with
  | nil => exact fun _ => rfl
  | cons entry rest ih => exact fun table => ih _

/-- All writes are in range when all keys are. -/
theorem fillDense_snd (palette : AList fun _ : ℕ => RuntimeId) (dense : List RuntimeId) :
    (fillDense palette dense).2 = true ↔ ∀ index ∈ palette, index < dense.length := by
  suffices hall : ∀ (entries : List (Σ _ : ℕ, RuntimeId)) (table : List RuntimeId × Bool),
      (entries.foldl (fun table entry =>
        (table.1.set entry.1 entry.2, table.2 && decide (entry.1 < table.1.length))) table).2 = true ↔
        table.2 = true ∧ ∀ entry ∈ entries, entry.1 < table.1.length by
    rw [fillDense, hall, and_iff_right rfl]
    constructor
    · intro h index hindex
      obtain ⟨entry, hentry, rfl⟩ := List.mem_map.mp (show index ∈ palette.entries.keys from hindex)
      exact h entry hentry
    · exact fun h entry hentry => h entry.1 (List.mem_keys_of_mem hentry)
  intro entries
  induction entries with
  | nil => exact fun table => by simp
  | cons entry rest ih =>
    intro table
    rw [List.foldl_cons, ih, List.forall_mem_cons, List.length_set, Bool.and_eq_true, decide_eq_true_eq,
      and_assoc]

variable {entries : NbtTag.Entries} {maxima : List ℕ} {tables : Tables} {found : AList fun _ : ℕ => RuntimeId}

/-- What the loop over a palette compound leaves. -/
theorem parsePaletteEntries_ok {known : AList fun _ : ℕ => RuntimeId} {start count maxIndex : ℕ}
    (h : parsePaletteEntries resolve unknown known start count entries = .ok (found, maxIndex)) :
    (∀ index, index ∈ found ↔ index ∈ known ∨ index ∈ entries.map indexOf) ∧
      maxIndex = (entries.map indexOf).foldl max start := by
  induction entries generalizing known start count with
  | nil =>
    cases h
    exact ⟨fun index => by simp, rfl⟩
  | cons entry rest ih =>
    obtain ⟨javaState, tag⟩ := entry
    rw [parsePaletteEntries] at h
    obtain ⟨_, h⟩ := NestedLoop.else_of_ok h
    split at h
    case h_1 => cases h
    case h_2 value hvalue =>
      obtain ⟨_, h⟩ := NestedLoop.else_of_ok h
      obtain ⟨-, h⟩ := NestedLoop.else_of_ok h
      have hindex : indexOf (javaState, tag) = value.toNat := by
        rw [indexOf, hvalue, Option.getD_some]
      obtain ⟨hkeys, hmax⟩ := ih h
      rw [List.map_cons, hindex]
      refine ⟨fun index => ?_, hmax⟩
      rw [hkeys, AList.mem_insert, List.mem_cons, or_assoc, or_left_comm]

/-- `mPalette` -/
def Tables.known (tables : Tables) : AList fun _ : ℕ => RuntimeId := tables.palette.elim ∅ Palette.entries

/-- `mDensePalette` -/
def Tables.dense (tables : Tables) : List RuntimeId := tables.palette.elim [] Palette.dense

/-- What the palettes with the given largest indices leave. -/
structure Filled (maxima : List ℕ) (tables : Tables) : Prop where
  keys : ∀ index ∈ tables.known, ∃ largest ∈ maxima, index ≤ largest
  held : ∀ largest ∈ maxima, largest ∈ tables.known
  writes : tables.inRange = true ↔ maxima.Pairwise fun earlier later => later ≤ 1048575 → earlier ≤ later
  unbuilt : tables.dense = [] ↔ ∀ largest ∈ maxima, 1048575 < largest
  short : tables.dense.length ≤ 1048576
  last : tables.palette.map Palette.maxIndex = maxima.getLast?
  rebuilt : ∀ palette, tables.palette = some palette → palette.maxIndex ≤ 1048575 →
    palette.dense.length = palette.maxIndex + 1 ∧ ∀ index ≤ palette.maxIndex,
      palette.dense[index]? = some ((palette.entries.lookup index).getD palette.unknown)

theorem filled_nil : Filled [] {} where
  keys index hindex := absurd hindex (AList.notMem_empty index)
  held := nofun
  writes := iff_of_true rfl .nil
  unbuilt := iff_of_true rfl nofun
  short := Nat.zero_le _
  last := rfl
  rebuilt := nofun

/-- The keys after one more palette. -/
theorem Filled.addKeys (h : Filled maxima tables) (hne : entries ≠ [])
    (hfound : ∀ index, index ∈ found ↔ index ∈ tables.known ∨ index ∈ entries.map indexOf) :
    (∀ index ∈ found, ∃ largest ∈ maxima ++ [largestIndex entries], index ≤ largest) ∧
      ∀ largest ∈ maxima ++ [largestIndex entries], largest ∈ found := by
  have hgreatest : IsGreatest {index | index ∈ entries.map indexOf} (largestIndex entries) :=
    Extremes.isGreatest_foldl_max (fun hnil => hne (List.map_eq_nil_iff.mp hnil)) fun _ _ => Nat.zero_le _
  constructor
  · intro index hindex
    rcases (hfound index).mp hindex with hknown | hnew
    · obtain ⟨largest, hlargest, hle⟩ := h.keys index hknown
      exact ⟨largest, List.mem_append_left _ hlargest, hle⟩
    · exact ⟨_, List.mem_append_right _ (List.mem_singleton_self _), hgreatest.2 hnew⟩
  · refine List.forall_mem_append.mpr ⟨fun largest hlargest => ?_, List.forall_mem_singleton.mpr ?_⟩
    · exact (hfound largest).mpr (.inl (h.held largest hlargest))
    · exact (hfound _).mpr (.inr hgreatest.1)

/-- One more palette. -/
theorem Filled.add {next : Tables} (h : Filled maxima tables)
    (hrun : addPalette resolve unknown tables entries = .ok next) :
    Filled (maxima ++ [largestIndex entries]) next := by
  rw [addPalette] at hrun
  obtain ⟨⟨found, maxIndex⟩, hentries, hrun⟩ := NestedLoop.exists_of_bind_ok hrun
  obtain ⟨hfound, hmax⟩ := parsePaletteEntries_ok hentries
  change maxIndex = largestIndex entries at hmax
  dsimp only at hrun
  obtain ⟨hempty, hrun⟩ := NestedLoop.else_of_ok hrun
  obtain ⟨hkeys, hheld⟩ := h.addKeys (fun hnil => hempty (List.isEmpty_iff.mpr hnil)) hfound
  rw [← hmax] at hkeys hheld ⊢
  have hlast : (maxima ++ [maxIndex]).getLast? = some maxIndex := List.getLast?_concat
  split_ifs at hrun with hlarge
  · cases hrun
    have hcells (index : ℕ) (hle : index ≤ maxIndex) :
        (fillDense found (List.replicate (maxIndex + 1) unknown)).1[index]? =
          some ((found.lookup index).getD unknown) := by
      rw [fillDense_fst, getElem?_fill, List.getElem?_replicate, if_pos (Nat.lt_succ_of_le hle)]
      rfl
    have hlength : (fillDense found (List.replicate (maxIndex + 1) unknown)).1.length = maxIndex + 1 := by
      rw [fillDense_fst, length_fill, List.length_replicate]
    have hbelow : (∀ index ∈ found, index < maxIndex + 1) ↔ ∀ largest ∈ maxima, largest ≤ maxIndex := by
      constructor
      · intro hall largest hlargest
        exact Nat.le_of_lt_succ (hall largest (hheld largest (List.mem_append_left _ hlargest)))
      · intro hall index hindex
        obtain ⟨largest, hlargest, hle⟩ := hkeys index hindex
        rcases List.mem_append.mp hlargest with hold | hnew
        · exact Nat.lt_succ_of_le (hle.trans (hall largest hold))
        · exact Nat.lt_succ_of_le (hle.trans (List.mem_singleton.mp hnew).le)
    refine ⟨hkeys, hheld, ?_, ?_, hlength.le.trans (Nat.succ_le_succ hlarge), hlast.symm, ?_⟩
    · rw [Bool.and_eq_true, fillDense_snd, List.length_replicate, hbelow, h.writes, List.pairwise_append,
        and_iff_right (List.pairwise_singleton _ _)]
      simp [hlarge]
    · refine iff_of_false (fun hnil => ?_) fun hall => ?_
      · exact absurd (hlength.symm.trans (congrArg List.length hnil)) (Nat.succ_ne_zero maxIndex)
      · exact absurd hlarge (Nat.not_le_of_gt (hall maxIndex (List.mem_append_right _ (List.mem_singleton_self _))))
    · rintro palette hpalette -
      cases hpalette
      exact ⟨hlength, hcells⟩
  · cases hrun
    refine ⟨hkeys, hheld, ?_, ?_, h.short, hlast.symm, ?_⟩
    · rw [h.writes, List.pairwise_append, and_iff_right (List.pairwise_singleton _ _)]
      simp [hlarge]
    · rw [List.forall_mem_append, List.forall_mem_singleton, and_iff_left (Nat.lt_of_not_le hlarge)]
      exact h.unbuilt
    · rintro palette hpalette hsmall
      cases hpalette
      exact absurd hsmall hlarge

/-- The tables fit together exactly when the largest indices ascend. -/
theorem Filled.consistent_iff (h : Filled maxima tables) {palette : Palette}
    (hpalette : tables.palette = some palette) : Consistent palette tables.inRange ↔ Ascending maxima := by
  have hknown : tables.known = palette.entries := by rw [Tables.known, hpalette, Option.elim_some]
  have hdense : tables.dense = palette.dense := by rw [Tables.dense, hpalette, Option.elim_some]
  have hlast : maxima.getLast? = some palette.maxIndex := by rw [← h.last, hpalette, Option.map_some]
  have hmem : palette.maxIndex ∈ maxima := List.mem_of_getLast? hlast
  have hshort := h.short
  rw [hdense] at hshort
  constructor
  · intro hconsistent
    have hle (index : ℕ) (hindex : index ∈ maxima) : index ≤ palette.maxIndex :=
      hconsistent.largest.2 (hknown ▸ h.held index hindex)
    refine ⟨fun last heq index hindex => ?_, ?_⟩
    · obtain rfl := Option.some.inj (hlast.symm.trans heq)
      exact hle index hindex
    · by_cases hsmall : palette.maxIndex ≤ 1048575
      · refine .inl ⟨fun index hindex => (hle index hindex).trans hsmall, ?_⟩
        refine (h.writes.mp hconsistent.writes).imp_of_mem fun _ hlater hwrite => ?_
        exact hwrite ((hle _ hlater).trans hsmall)
      · -- A table that an earlier palette has left is too short for this one.
        refine .inr (h.unbuilt.mp (hdense.trans ?_))
        by_contra hbuilt
        have hlength := hconsistent.size hbuilt
        omega
  · intro hascending
    have hle := hascending.last _ hlast
    have hgreatest : IsGreatest {index | index ∈ palette.entries} palette.maxIndex := by
      refine ⟨hknown ▸ h.held _ hmem, fun index hindex => ?_⟩
      obtain ⟨largest, hlargest, hbound⟩ := h.keys index (hknown ▸ hindex)
      exact hbound.trans (hle largest hlargest)
    rcases hascending.small with ⟨hsmall, hpairwise⟩ | hlarge
    · obtain ⟨hlength, hcells⟩ := h.rebuilt palette hpalette (hsmall _ hmem)
      have hwrites : maxima.Pairwise fun earlier later => later ≤ 1048575 → earlier ≤ later :=
        hpairwise.imp (by exact fun hbound _ => hbound)
      exact ⟨hgreatest, h.writes.mpr hwrites, fun _ => hlength, fun _ => hcells⟩
    · have hnone : palette.dense = [] := hdense ▸ h.unbuilt.mpr hlarge
      refine ⟨hgreatest, h.writes.mpr ?_, (absurd hnone ·), (absurd hnone ·)⟩
      exact List.pairwise_of_forall_mem_list fun _ _ later hlater hsmall =>
        absurd hsmall (Nat.not_le_of_gt (hlarge later hlater))

/-- The palettes one after the other. -/
theorem filled_of_foldlM {entries : List NbtTag.Entries}
    (h : entries.foldlM (addPalette resolve unknown) {} = .ok tables) :
    Filled (entries.map largestIndex) tables := by
  refine NestedLoop.foldlM_split_rule (fun done tables => Filled (done.map largestIndex) tables) ?_
    filled_nil h
  intro done palette rest _ tables next hfilled hstep
  rw [List.map_append]
  exact hfilled.add hstep

end Fill

section Run

variable {version : Version} {resolve : List Char → Option RuntimeId} {unknown : RuntimeId} {flags : ReadFlags}

/-- A loop whose turns read palettes reads them one after the other. -/
theorem tables_foldlM {σ α : Type} {step : σ → α → Except String σ} {tables : σ → Tables}
    {visited : α → List NbtTag.Entries}
    (h : ∀ state item next, step state item = .ok next →
      (visited item).foldlM (addPalette resolve unknown) (tables state) = .ok (tables next))
    {items : List α} {state final : σ} (hrun : items.foldlM step state = .ok final) :
    (items.flatMap visited).foldlM (addPalette resolve unknown) (tables state) = .ok (tables final) := by
  induction items generalizing state with
  | nil =>
    cases hrun
    rfl
  | cons item rest ih =>
    rw [List.foldlM_cons] at hrun
    obtain ⟨next, hnext, hrest⟩ := NestedLoop.exists_of_bind_ok hrun
    rw [List.flatMap_cons, List.foldlM_append, h state item next hnext, NestedLoop.ok_bind]
    exact ih hrest

/-- The block data leave the palette as it is. -/
theorem readData_palette {state next : ReadState} {bytes : List UInt8}
    (h : readData flags state bytes = .ok next) : next.palette = state.palette :=
  (Prod.mk.inj (header_readData h)).2

/-- Only a palette changes the palette. -/
theorem readTag_palette {read next : ReadState} {tag : Tag} (htag : tag.name ≠ .Palette)
    (h : readTag resolve unknown flags read tag = .ok next) : next.palette = read.palette := by
  cases tag with
  | width value | height value | length value =>
    rw [readTag] at h
    obtain ⟨-, h⟩ := NestedLoop.else_of_ok h
    cases h
    rfl
  | palette entries => exact absurd rfl htag
  | blockData bytes => exact readData_palette h

variable {state next : DocumentState} {tag : NbtTag.Tag} {entry : List Char × NbtTag.Tag} {rootName : List Char}
  {root : NbtTag.Entries}

theorem readDimension_tables {make : ℤ → Tag} (hmake : ∀ value, (make value).name ≠ .Palette)
    (h : readDimension resolve unknown flags state make tag = .ok next) : next.tables = state.tables := by
  rw [readDimension] at h
  split at h
  case h_1 => cases h
  case h_2 value _ =>
    obtain ⟨read, hread, h⟩ := NestedLoop.exists_of_bind_ok h
    cases h
    rw [DocumentState.tables, DocumentState.tables, readTag_palette (hmake value) hread]

theorem skipTag_tables (h : skipTag version state tag = .ok next) : next = state := by
  rw [skipTag] at h
  split at h
  case h_1 => exact (Except.ok.inj h).symm
  case h_2 => cases h

theorem readBlockData_tables {key : List Char} {values : List ℤ}
    (h : readBlockData version flags state key values = .ok next) : next.tables = state.tables := by
  rw [readBlockData] at h
  split at h
  case isTrue =>
    obtain ⟨-, h⟩ := NestedLoop.else_of_ok h
    obtain ⟨read, hread, h⟩ := NestedLoop.exists_of_bind_ok h
    cases h
    rw [DocumentState.tables, DocumentState.tables, readData_palette hread]
  case isFalse =>
    split at h
    · obtain ⟨-, h⟩ := NestedLoop.else_of_ok h
      obtain ⟨read, hread, h⟩ := NestedLoop.exists_of_bind_ok h
      cases h
      rw [DocumentState.tables, DocumentState.tables, readData_palette hread]
    · cases h
      rfl

/-- A tag other than `Blocks` reads the palette that it is. -/
theorem readEntry_tables {blocksPayload : Bool} {state next : DocumentState}
    {entry : List Char × NbtTag.Tag}
    (h : readEntry version resolve unknown flags blocksPayload state entry = .ok next) :
    (blocksPalettes entry).foldlM (addPalette resolve unknown) state.tables = .ok next.tables := by
  have hkept (hname : entry.1 ≠ "Palette".toList) (heq : next.tables = state.tables) :
      (blocksPalettes entry).foldlM (addPalette resolve unknown) state.tables = .ok next.tables := by
    obtain ⟨key, tag⟩ := entry
    rw [heq]
    cases tag with
    | compound entries =>
      rw [blocksPalettes, if_neg hname]
      rfl
    | _ => rfl
  rw [readEntry] at h
  split at h
  case isTrue hname => exact hkept (hname ▸ by decide) (readDimension_tables (fun _ => by exact nofun) h)
  case isFalse =>
  split at h
  case isTrue hname => exact hkept (hname ▸ by decide) (readDimension_tables (fun _ => by exact nofun) h)
  case isFalse =>
  split at h
  case isTrue hname => exact hkept (hname ▸ by decide) (readDimension_tables (fun _ => by exact nofun) h)
  case isFalse =>
  split at h
  case isTrue hname =>
    obtain ⟨-, -, rfl⟩ := NestedLoop.exists_of_map_ok h
    exact hkept (hname ▸ by decide) rfl
  case isFalse =>
  obtain ⟨key, tag⟩ := entry
  cases tag with
  | compound entries =>
    dsimp only at h
    split_ifs at h with hname
    · obtain ⟨tables, htables, h⟩ := NestedLoop.exists_of_bind_ok h
      cases h
      rw [blocksPalettes, if_pos hname, List.foldlM_cons, htables]
      rfl
    · exact hkept hname (congrArg _ (skipTag_tables h))
  | byteArray values =>
    dsimp only at h
    split_ifs at h with hname
    · rw [readBlockData_tables h]
      rfl
    · rw [skipTag_tables h]
      rfl
  | _ =>
    rw [skipTag_tables h]
    rfl

/-- A turn over the document. -/
theorem readDocumentEntry_tables (h : readDocumentEntry version resolve unknown flags state entry = .ok next) :
    (documentPalettes entry).foldlM (addPalette resolve unknown) state.tables = .ok next.tables := by
  obtain ⟨key, tag⟩ := entry
  cases tag with
  | compound entries =>
    rw [readDocumentEntry] at h
    rw [documentPalettes]
    split at h
    case isTrue hblocks =>
      obtain ⟨-, h⟩ := NestedLoop.else_of_ok h
      rw [if_pos hblocks]
      exact tables_foldlM (fun _ _ _ => readEntry_tables) h
    case isFalse hblocks =>
      rw [if_neg hblocks]
      exact readEntry_tables h
  | _ => exact @readEntry_tables _ _ _ _ false _ _ _ h

theorem parseDocument_tables {entries : NbtTag.Entries}
    (h : parseDocument version resolve unknown flags state entries = .ok next) :
    (entries.flatMap documentPalettes).foldlM (addPalette resolve unknown) state.tables = .ok next.tables :=
  tables_foldlM (fun _ _ _ => readDocumentEntry_tables) h

/-- A turn over a root without a name. -/
theorem readRootEntry_tables {state next : Option DocumentState}
    (h : readRootEntry version resolve unknown flags state entry = .ok next) :
    (rootPalettes entry).foldlM (addPalette resolve unknown) (state.getD {}).tables =
      .ok (next.getD {}).tables := by
  obtain ⟨key, tag⟩ := entry
  cases tag with
  | compound entries =>
    rw [readRootEntry] at h
    rw [rootPalettes]
    split_ifs at h with hdocument
    · obtain ⟨final, hfinal, rfl⟩ := NestedLoop.exists_of_map_ok h
      rw [if_pos hdocument]
      exact parseDocument_tables hfinal
    · obtain ⟨-, -, rfl⟩ := NestedLoop.exists_of_map_ok h
      rw [if_neg hdocument]
      rfl
  | _ =>
    rw [readRootEntry] at h
    · obtain ⟨-, -, rfl⟩ := NestedLoop.exists_of_map_ok h
      rfl
    · nofun

/-- The tables of a read are those of its palettes. -/
theorem readRoot_tables (h : readRoot version resolve unknown flags rootName root = .ok (some state)) :
    (palettes rootName root).foldlM (addPalette resolve unknown) {} = .ok state.tables := by
  rw [readRoot] at h
  rw [palettes]
  split at h
  case isTrue hnamed =>
    obtain ⟨final, hfinal, heq⟩ := NestedLoop.exists_of_map_ok h
    cases heq
    rw [if_pos hnamed]
    exact parseDocument_tables hfinal
  case isFalse hnamed =>
    rw [if_neg hnamed]
    split_ifs at h with hempty
    · rw [if_pos hempty]
      exact @tables_foldlM _ _ _ _ (readRootEntry version resolve unknown flags)
        (fun state => (state.getD {}).tables) _ (fun _ _ _ => readRootEntry_tables) _ _ _ h
    · cases h

/-- An accepted input has a palette. -/
theorem palette_of_ofReadState {document : Document} {state : ReadState} {result : SchemStructure}
    (h : SchemStructure.ofReadState flags document state = .ok result) :
    ∃ palette, state.palette = some palette := by
  rw [SchemStructure.ofReadState] at h
  obtain ⟨_, h⟩ := NestedLoop.else_of_ok h
  split at h
  case h_1 => cases h
  case h_2 palette hpalette => exact ⟨palette, hpalette⟩

/-- What an accepted input leaves. -/
theorem filled_of_readTables (h : readTables version resolve unknown flags rootName root = .ok state) :
    Filled ((palettes rootName root).map largestIndex) state.tables ∧
      ∃ palette, state.tables.palette = some palette := by
  rw [readTables] at h
  obtain ⟨found, hfound, h⟩ := NestedLoop.exists_of_bind_ok h
  cases found with
  | none => cases h
  | some final =>
    obtain ⟨result, hresult, h⟩ := NestedLoop.exists_of_bind_ok h
    obtain ⟨_, h⟩ := NestedLoop.else_of_ok h
    obtain ⟨-, h⟩ := NestedLoop.else_of_ok h
    cases h
    exact ⟨filled_of_foldlM (readRoot_tables hfound), palette_of_ofReadState hresult⟩

end Run

/-- The tables of an accepted input fit together exactly when the largest indices of its palettes ascend. -/
theorem readTables_consistent_iff (version : Version) (resolve : List Char → Option RuntimeId)
    (unknown : RuntimeId) (flags : ReadFlags) (rootName : List Char) (root : NbtTag.Entries)
    (state : DocumentState) (h : readTables version resolve unknown flags rootName root = .ok state) :
    (∃ palette, state.read.palette = some palette ∧ Consistent palette state.inRange) ↔
      Ascending ((palettes rootName root).map largestIndex) := by
  obtain ⟨hfilled, palette, hpalette⟩ := filled_of_readTables h
  have hiff := hfilled.consistent_iff hpalette
  constructor
  · rintro ⟨other, hother, hconsistent⟩
    obtain rfl := Option.some.inj (hpalette.symm.trans hother)
    exact hiff.mp hconsistent
  · exact fun hascending => ⟨palette, hpalette, hiff.mpr hascending⟩

/-- A document of one block with two palettes. -/
def twoPalettes (first second : ℤ) : NbtTag.Entries :=
  [("Width".toList, .short 1), ("Height".toList, .short 1), ("Length".toList, .short 1),
    ("Palette".toList, .compound [("a".toList, .int first)]),
    ("Palette".toList, .compound [("b".toList, .int second)]),
    ("BlockData".toList, .byteArray [2])]

theorem readTables_consistent_iff_twoPalettes :
    ∃ state, readTables .SchemV1 (fun _ => none) 0 {} "Schematic".toList (twoPalettes 2 5) = .ok state ∧
      ((∃ palette, state.read.palette = some palette ∧ Consistent palette state.inRange) ↔
        Ascending ((palettes "Schematic".toList (twoPalettes 2 5)).map largestIndex)) :=
  ⟨_, rfl, readTables_consistent_iff .SchemV1 (fun _ => none) 0 {} "Schematic".toList (twoPalettes 2 5) _ rfl⟩

/-- With the smaller index in the second palette the table is too short for the first one. -/
theorem readTables_not_consistent :
    ¬ ∀ (version : Version) (resolve : List Char → Option RuntimeId) (unknown : RuntimeId)
      (flags : ReadFlags) (rootName : List Char) (root : NbtTag.Entries) (state : DocumentState),
      readTables version resolve unknown flags rootName root = .ok state →
        ∃ palette, state.read.palette = some palette ∧ Consistent palette state.inRange := by
  intro hall
  obtain ⟨state, hstate⟩ : ∃ state,
    readTables .SchemV1 (fun _ => none) 0 {} "Schematic".toList (twoPalettes 5 2) = .ok state := ⟨_, rfl⟩
  obtain ⟨palette, hpalette, hconsistent⟩ := hall _ _ _ _ _ _ state hstate
  have hascending := ((filled_of_readTables hstate).1.consistent_iff hpalette).mp hconsistent
  exact absurd (hascending.last 2 rfl 5 (by decide)) (by decide)

end Schem

end WaterStructure
