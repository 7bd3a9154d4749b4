import Mathlib.Algebra.Order.Ring.Int
import WaterStructure.Formats.McStructureWriter
import WaterStructure.Library.LastValue

/-!
# MCStructure round trip

The writer numbers the blocks of both layers over one palette; every number it gives stays the number
of that block. Reading back finds the lists of numbers, one palette entry for each number, and the
entities under the indices of their cells.
-/

namespace WaterStructure.McStructure

open InternTable LastValue NbtTag NestedLoop

namespace BlockIndexArray

/-- The indices themselves. -/
def toList : BlockIndexArray → List ℤ
  | .compact values => values.map decodeCompact
  | .full values => values

theorem at?_eq (array : BlockIndexArray) (index : ℕ) : array.at? index = array.toList[index]? := by
  cases array with
  | compact values => exact (List.getElem?_map ..).symm
  | full values => rfl

theorem size_eq (array : BlockIndexArray) : array.size = array.toList.length := by
  cases array with
  | compact values => exact (List.length_map _).symm
  | full values => rfl

/-- Adding an index keeps the others, whether or not it fits 16 bits. -/
theorem toList_pushBack (array : BlockIndexArray) (value : ℤ) :
    (array.pushBack value).toList = array.toList ++ [value] := by
  cases array with
  | full values => rfl
  | compact values =>
    rw [pushBack]
    split
    case isTrue hrange =>
      have hdecode : decodeCompact (if value < 0 then 65535 else UInt16.ofNat value.toNat) = value := by
        split_ifs with hneg
        · have hvalue : value = -1 := by omega
          rw [hvalue]
          rfl
        · have hnat : (UInt16.ofNat value.toNat).toNat = value.toNat := by
            rw [UInt16.toNat_ofNat']
            omega
          rw [decodeCompact, if_neg, hnat]
          · omega
          · intro heq
            have hlarge := congrArg UInt16.toNat heq
            rw [hnat] at hlarge
            have hmax : (65535 : UInt16).toNat = 65535 := rfl
            omega
      rw [toList, List.map_append, List.map_singleton, hdecode]
      rfl
    case isFalse => rfl

theorem toList_foldl_pushBack (values : List ℤ) (array : BlockIndexArray) :
    (values.foldl pushBack array).toList = array.toList ++ values := by
  induction values generalizing array with
  | nil => exact (List.append_nil _).symm
  | cons value rest ih => rw [List.foldl_cons, ih, toList_pushBack, List.append_assoc]; rfl

end BlockIndexArray

namespace Writer

/-- The cells in the order of x, y and z are those in the order of y, z and x of a turned box. -/
theorem cellsXYZ_eq (size : Size) : cellsXYZ size =
    (Size.mk size.length size.width size.height).cellsYZX.map fun cell => ⟨cell.y, cell.z, cell.x⟩ := by
  simp only [cellsXYZ, Size.cellsYZX, List.map_flatMap, List.map_map, Function.comp_def]

/-- The cell stands at its index. -/
theorem getElem?_cellsXYZ {size : Size} {cell : BlockPos} (h : size.Contains cell) :
    (cellsXYZ size)[(flatIndex size cell).toNat]? = some cell := by
  have hturned : (Size.mk size.length size.width size.height).Contains ⟨cell.z, cell.x, cell.y⟩ :=
    ⟨h.2.2, h.1, h.2.1⟩
  have hindex : (flatIndex size cell).toNat =
      (Size.mk size.length size.width size.height).cellIndex ⟨cell.z, cell.x, cell.y⟩ := by
    rw [flatIndex, Size.cellIndex]
    congr 1
    ring
  rw [cellsXYZ_eq, List.getElem?_map, hindex, Size.getElem?_cellsYZX hturned]
  rfl

theorem length_cellsXYZ {size : Size} (hwidth : 0 < size.width) (hheight : 0 < size.height)
    (hlength : 0 < size.length) (hvolume : size.volume ≤ int32Max) :
    (cellsXYZ size).length = size.volume.toNat := by
  have hsmall : size.volume < int64Max := lt_of_le_of_lt hvolume (by decide)
  rw [cellsXYZ_eq, List.length_map, Size.length_cellsYZX,
    Size.volume_eq hwidth hheight hlength hsmall, ← Int.toNat_mul hheight.le hlength.le,
    ← Int.toNat_mul hwidth.le (mul_nonneg hheight.le hlength.le), mul_assoc]

/-- The number is that of the block in the palette; air of the second layer has none. -/
def Numbered (air : RuntimeId) (secondary : Bool) (table : PaletteTable) (id : RuntimeId)
    (index : ℤ) : Prop :=
  if secondary ∧ id = air then index = -1
  else ∃ number : ℕ, table.indices.lookup id = some number ∧ index = number

/-- What a palette keeps while it grows. -/
structure Extends (table final : PaletteTable) : Prop where
  sound : final.Sound fun id => id
  keeps : ∀ id number, table.indices.lookup id = some number → final.indices.lookup id = some number

variable {table : PaletteTable}

theorem Numbered.mono {air : RuntimeId} {secondary : Bool} {final : PaletteTable} {id : RuntimeId} {index : ℤ}
    (h : Numbered air secondary table id index) (hextends : Extends table final) :
    Numbered air secondary final id index := by
  rw [Numbered] at h ⊢
  by_cases hair : secondary = true ∧ id = air
  · rwa [if_pos hair] at h ⊢
  · rw [if_neg hair] at h ⊢
    obtain ⟨number, hnumber, hindex⟩ := h
    exact ⟨number, hextends.keeps id number hnumber, hindex⟩

/-- Every block of a layer is numbered, in order, and no number changes. -/
theorem encodeLayer_spec (air : RuntimeId) (secondary : Bool) (ids : List RuntimeId)
    (hsound : table.Sound fun id => id) :
    Extends table (encodeLayer air secondary table ids).2 ∧
      List.Forall₂ (Numbered air secondary (encodeLayer air secondary table ids).2) ids
        (encodeLayer air secondary table ids).1 := by
  induction ids generalizing table with
  | nil => exact ⟨⟨hsound, fun _ _ h => h⟩, .nil⟩
  | cons id rest ih =>
    rw [encodeLayer]
    split_ifs with hair
    · obtain ⟨hextends, hnumbered⟩ := ih hsound
      refine ⟨hextends, .cons ?_ hnumbered⟩
      rw [Numbered, if_pos hair]
    · obtain ⟨hextends, hnumbered⟩ := ih (hsound.add id)
      obtain ⟨number, hnumber⟩ := Option.isSome_iff_exists.mp
        (Table.knows_add_self (fun id => id) table id)
      refine ⟨⟨hextends.sound, fun other index hother =>
        hextends.keeps other index (Table.lookup_add_of_some hother id)⟩, .cons ?_ hnumbered⟩
      rw [Numbered, if_neg hair]
      refine ⟨number, hextends.keeps id number hnumber, ?_⟩
      rw [paletteIndex, hnumber]
      rfl

end Writer

variable {next : Compound} {state : BlockState} {entry : Compound} {items : List Tag} {positions : Entries}

/-- A palette entry is not nested. -/
theorem levels_putProperty {states : Compound} {property : BlockStateProperty}
    (h : levelsEntries states.entries ≤ 1) (hput : putProperty states property = .ok next) :
    levelsEntries next.entries ≤ 1 := by
  have hset {tag : ℤ → Tag} {result : Except String ℤ} (htag : ∀ value, (tag value).levels ≤ 1)
      (hmap : (result.map fun value => states.set property.name (tag value)) = .ok next) :
      levelsEntries next.entries ≤ 1 := by
    cases result with
    | error error => cases hmap
    | ok value =>
      cases hmap
      exact levelsEntries_set h (htag value)
  rw [putProperty] at hput
  split at hput
  case h_1 => exact hset (fun _ => le_rfl) hput
  case h_2 => exact hset (fun _ => le_rfl) hput
  case h_3 => exact hset (fun _ => le_rfl) hput
  case h_4 => exact hset (fun _ => le_rfl) hput
  case h_5 =>
    cases hput
    exact levelsEntries_set h le_rfl

theorem levels_encodeState (h : encodeState state = .ok entry) : levelsEntries entry.entries ≤ 2 := by
  rw [encodeState] at h
  obtain ⟨states, hstates, h⟩ := exists_of_bind_ok h
  cases h
  have hlevels : levelsEntries states.entries ≤ 1 := by
    have hfold (properties : List BlockStateProperty) {start final : Compound}
        (hstart : levelsEntries start.entries ≤ 1)
        (hfinal : properties.foldlM putProperty start = .ok final) :
        levelsEntries final.entries ≤ 1 := by
      induction properties generalizing start with
      | nil =>
        cases hfinal
        exact hstart
      | cons property rest ih =>
        rw [List.foldlM_cons] at hfinal
        obtain ⟨next, hnext, hfinal⟩ := exists_of_bind_ok hfinal
        exact ih (levels_putProperty hstart hnext) hfinal
    exact @hfold state.states {} states (Nat.zero_le 1) hstates
  have hstatesTag : (Tag.compound states.entries).levels ≤ 2 := by
    rw [Tag.levels]
    omega
  have hleaf : (Tag.string state.name).levels ≤ 2 ∧ (Tag.int state.version).levels ≤ 2 :=
    ⟨Nat.le_succ 1, Nat.le_succ 1⟩
  exact levelsEntries_set (levelsEntries_set (@levelsEntries_set {} 2 (Nat.zero_le 2) _ _ hleaf.1)
    hstatesTag) hleaf.2

variable {entries : List Compound} {size : Size} {lookup : PaletteRegistry} {palette : List RuntimeId}
  {positionData : Compound} {cell : BlockPos} {data : Compound}

/-- Reading the palette resolves the written states. -/
theorem readPalette_encoded (lookup : PaletteRegistry) {states : List BlockState}
    (h : states.mapM encodeState = .ok entries) :
    (entries.map fun entry => Tag.compound entry.entries).mapM (readPaletteEntry lookup) =
      .ok (entries.map fun entry => resolveState lookup (paletteState entry)) := by
  have hentries : ∀ entry ∈ entries, levelsEntries entry.entries ≤ 2 :=
    forall_of_mapM_ok (fun _ _ => levels_encodeState) h
  clear h
  induction entries with
  | nil => rfl
  | cons entry rest ih =>
    have hentry : readCompoundPayload entry.entries = .ok entry := readCompoundPayload_entries
      (lt_of_le_of_lt (hentries entry List.mem_cons_self) (by decide))
    rw [List.map_cons, List.mapM_cons, readPaletteEntry, hentry,
      ih fun other hother => hentries other (List.mem_cons_of_mem entry hother)]
    rfl

theorem readIntegers_int (values : List ℤ) : readIntegers (values.map Tag.int) = .ok values := by
  rw [readIntegers, List.mapM_map]
  induction values with
  | nil => rfl
  | cons value rest ih =>
    rw [List.mapM_cons, ih]
    rfl

theorem readLayer_int (values : List ℤ) : readLayer (.list .Int (values.map Tag.int)) =
    .ok (values.foldl .pushBack .empty) := by
  rw [readLayer, if_neg (by decide), readIntegers_int]
  rfl

variable {Payload : Type} {format : PayloadFormat Payload} {found : PositionState Payload}
  {entity : ChunkPos × BlockEntity Payload} {s : McStructure Payload}

theorem readSize_document (hsize : 0 < size.width ∧ 0 < size.height ∧ 0 < size.length)
    (state : ReadState Payload) :
    readSize state .Int [.int size.width, .int size.height, .int size.length] =
      .ok { state with result := { state.result with originalSize := size, size }, hasSize := true } := by
  have hcount : ¬ (3 < 3 ∨ 3 > 1024 ∨ ¬ isIntegerType .Int = true) := by decide
  exact (if_neg hcount).trans (if_neg fun h => h.elim (fun h => absurd hsize.1 (not_lt_of_ge h))
    fun h => h.elim (fun h => absurd hsize.2.1 (not_lt_of_ge h))
      fun h => absurd hsize.2.2 (not_lt_of_ge h))

theorem readIndices_document (state : ReadState Payload) (primary secondary : List ℤ) :
    readIndices state .List [.list .Int (primary.map .int), .list .Int (secondary.map .int)] =
      .ok { state with
        result := { state.result with
          primaryIndices := primary.foldl .pushBack .empty
          secondaryIndices := secondary.foldl .pushBack .empty }
        hasIndices := true } := by
  rw [readIndices, if_neg (not_not_intro rfl)]
  simp only [readLayer_int]
  rfl

/-- The default palette of a document has its two entries in the order of their keys. -/
theorem readDefaultPalette_document {state : ReadState Payload}
    (hpalette : items.mapM (readPaletteEntry lookup) = .ok palette)
    (hpositions : positions.foldlM (readPosition format)
      { blockEntities := state.result.blockEntities } = .ok found) :
    readDefaultPalette lookup format state
        ((({} : Compound).set "block_palette".toList (.list .Compound items)).set
          "block_position_data".toList (.compound positions)).entries =
      .ok { state with
        result := { state.result with palette, blockEntities := found.blockEntities }
        hasDefaultPalette := true
        hasBlockPalette := true } := by
  have hentries (first second : Tag) : ((({} : Compound).set "block_palette".toList first).set
      "block_position_data".toList second).entries =
        [("block_palette".toList, first), ("block_position_data".toList, second)] := rfl
  have hkey : ("block_position_data".toList = "block_palette".toList) = False := by decide
  have hfirst (start : ReadState Payload) : readDefaultEntry lookup format { state := start }
      ("block_palette".toList, .list .Compound items) = .ok
        { state := { start with
            result := { start.result with palette }
            hasBlockPalette := true }
          sawBlockPalette := true } := by
    rw [readDefaultEntry, if_pos ⟨rfl, Bool.false_ne_true⟩]
    dsimp only
    rw [readBlockPalette, hpalette]
    rfl
  have hsecond (start : ReadState Payload)
      (hstart : start.result.blockEntities = state.result.blockEntities) :
      readDefaultEntry lookup format { state := start, sawBlockPalette := true }
        ("block_position_data".toList, .compound positions) = .ok
          { state := { start with
              result := { start.result with blockEntities := found.blockEntities } }
            sawBlockPalette := true
            sawPositionData := true } := by
    simp only [readDefaultEntry, hkey, false_and, if_false, Bool.false_eq_true, not_false_eq_true, and_self,
      if_true]
    rw [readPositionData, hstart, hpositions]
    rfl
  rw [hentries, readDefaultPalette, List.foldlM_cons, hfirst, ok_bind, List.foldlM_cons,
    hsecond, ok_bind]
  · rfl
  · rfl

theorem readPalette_document {state : ReadState Payload}
    (hpalette : items.mapM (readPaletteEntry lookup) = .ok palette)
    (hpositions : positions.foldlM (readPosition format) { blockEntities := ∅ } = .ok found) :
    readPalette lookup format state (({} : Compound).set "default".toList
        (.compound ((({} : Compound).set "block_palette".toList (.list .Compound items)).set
          "block_position_data".toList (.compound positions)).entries)).entries =
      .ok { state with
        result := { state.result with palette, blockEntities := found.blockEntities }
        hasPalette := true
        hasDefaultPalette := true
        hasBlockPalette := true } := by
  have hentries (tag : Tag) : (({} : Compound).set "default".toList tag).entries =
      [("default".toList, tag)] := rfl
  have hstep (start : ReadState Payload) (hstart : start.result.blockEntities = ∅) :
      readPaletteKey lookup format (start, false) ("default".toList,
        .compound ((({} : Compound).set "block_palette".toList (.list .Compound items)).set
          "block_position_data".toList (.compound positions)).entries) = .ok
            ({ start with
              result := { start.result with palette, blockEntities := found.blockEntities }
              hasDefaultPalette := true
              hasBlockPalette := true }, true) := by
    rw [readPaletteKey, if_pos ⟨rfl, Bool.false_ne_true⟩]
    dsimp only
    rw [readDefaultPalette_document hpalette (by rw [hstart]; exact hpositions)]
    rfl
  rw [readPalette, hentries, List.foldlM_cons, hstep, ok_bind]
  · rfl
  · rfl

/-- What the reader finds in a written document. -/
theorem readRoot_document (hsize : 0 < size.width ∧ 0 < size.height ∧ 0 < size.length)
    (primary secondary : List ℤ)
    (hpalette : (entries.map fun entry => Tag.compound entry.entries).mapM (readPaletteEntry lookup) =
      .ok palette)
    (hpositions : positionData.entries.foldlM (readPosition format) { blockEntities := ∅ } = .ok found) :
    readRoot lookup format (Writer.document size primary secondary entries positionData) = .ok
      { result :=
          { originalSize := size
            size
            primaryIndices := primary.foldl .pushBack .empty
            secondaryIndices := secondary.foldl .pushBack .empty
            palette
            blockEntities := found.blockEntities }
        hasSize := true
        hasStructure := true
        hasIndices := true
        hasPalette := true
        hasDefaultPalette := true
        hasBlockPalette := true } := by
  have hsizeKey : "structure_world_origin".toList ≠ "size".toList := by decide
  have hentities : "entities".toList ≠ "block_indices".toList := by decide
  simp only [Writer.document, readRoot, List.foldlM_cons, List.foldlM_nil, if_neg hsizeKey,
    readSize_document hsize, readStructure, readIndices_document, if_neg hentities,
    readPalette_document hpalette hpositions, pure, Except.pure, bind, Except.bind, if_true]

/-- A written document is read back. -/
theorem read_document (lookup : PaletteRegistry) (format : PayloadFormat Payload)
    (hsize : 0 < size.width ∧ 0 < size.height ∧ 0 < size.length) {primary secondary : List ℤ}
    (hprimary : primary.length = size.volume.toNat) (hsecondary : secondary.length = size.volume.toNat)
    (hpalette : (entries.map fun entry => Tag.compound entry.entries).mapM (readPaletteEntry lookup) =
      .ok palette)
    (hpositions : positionData.entries.foldlM (readPosition format) { blockEntities := ∅ } = .ok found) :
    ∃ s, read lookup format (Writer.document size primary secondary entries positionData) = .ok s ∧
      s.originalSize = size ∧ s.size = size ∧ s.offset = ⟨0, 0, 0⟩ ∧
      s.primaryIndices.toList = primary ∧ s.secondaryIndices.toList = secondary ∧
      s.palette = palette ∧ s.blockEntities = found.blockEntities := by
  have hlist (values : List ℤ) : (values.foldl BlockIndexArray.pushBack .empty).toList = values :=
    BlockIndexArray.toList_foldl_pushBack values .empty
  have hlayer {values : List ℤ} (hvalues : values.length = size.volume.toNat) :
      (values.foldl BlockIndexArray.pushBack .empty).size = size.volume.toNat := by
    rw [BlockIndexArray.size_eq, hlist, hvalues]
  have hlayers : ¬ ((primary.foldl BlockIndexArray.pushBack .empty).size ≠ size.volume.toNat ∨
      (secondary.foldl BlockIndexArray.pushBack .empty).size ≠ size.volume.toNat) := fun h =>
    h.elim (fun h => h (hlayer hprimary)) fun h => h (hlayer hsecondary)
  rw [read, readRoot_document hsize primary secondary hpalette hpositions]
  simp only [bind, Except.bind, pure, Except.pure, and_self, not_true_eq_false, if_false,
    if_neg hlayers]
  refine ⟨_, rfl, rfl, ?_, rfl, hlist primary, hlist secondary, rfl, rfl⟩
  simp [setOffset]

/-- The index of a cell lies between those of the first and the last one. -/
theorem flatIndex_bounds (h : size.Contains cell) :
    0 ≤ cell.x * size.height ∧ cell.x * size.height ≤ cell.x * (size.height * size.length) ∧
      0 ≤ cell.y * size.length ∧
      flatIndex size cell < size.width * size.height * size.length := by
  obtain ⟨⟨hx, hx'⟩, ⟨hy, hy'⟩, hz, hz'⟩ := h
  have hheight : 0 ≤ size.height := by omega
  have hlength : 0 ≤ size.length := by omega
  refine ⟨mul_nonneg hx hheight, ?_, mul_nonneg hy hlength, ?_⟩
  · exact mul_le_mul_of_nonneg_left (le_mul_of_one_le_right hheight (by omega)) hx
  · have hrow : cell.y * size.length + cell.z < size.height * size.length := by
      calc cell.y * size.length + cell.z
          < cell.y * size.length + size.length := by omega
        _ = (cell.y + 1) * size.length := by ring
        _ ≤ size.height * size.length := mul_le_mul_of_nonneg_right (by omega) hlength
    calc flatIndex size cell
        = cell.x * (size.height * size.length) + (cell.y * size.length + cell.z) := by
          rw [flatIndex, add_assoc]
      _ < cell.x * (size.height * size.length) + size.height * size.length := by omega
      _ = (cell.x + 1) * (size.height * size.length) := by ring
      _ ≤ size.width * (size.height * size.length) :=
          mul_le_mul_of_nonneg_right (by omega) (mul_nonneg hheight hlength)
      _ = size.width * size.height * size.length := by ring

/-- No intermediate value of the index leaves the machine integers. -/
theorem flatIndexFits (h : size.Contains cell) (hvolume : size.width * size.height * size.length ≤ int32Max) :
    Writer.FlatIndexFits size cell ∧ IsInt32 (flatIndex size cell) := by
  obtain ⟨hrow, hplane, hcolumn, hlast⟩ := flatIndex_bounds h
  have hz := h.2.2.1
  have hassoc := mul_assoc cell.x size.height size.length
  rw [flatIndex] at hlast
  simp only [Writer.FlatIndexFits, flatIndex, IsInt32, hassoc]
  have hmin : int32Min ≤ 0 := by decide
  omega

theorem cellAt_flatIndex (h : size.Contains cell) : cellAt size (flatIndex size cell) = cell := by
  obtain ⟨⟨hx, hx'⟩, ⟨hy, hy'⟩, hz, hz'⟩ := h
  have hlength : 0 < size.length := by omega
  have hheight : 0 < size.height := by omega
  have hrow : flatIndex size cell / size.length = cell.x * size.height + cell.y ∧
      flatIndex size cell % size.length = cell.z := by
    refine (Int.ediv_emod_unique hlength).mpr ⟨?_, hz, hz'⟩
    rw [flatIndex]
    ring
  have hplane : (cell.x * size.height + cell.y) / size.height = cell.x ∧
      (cell.x * size.height + cell.y) % size.height = cell.y := by
    refine (Int.ediv_emod_unique hheight).mpr ⟨?_, hy, hy'⟩
    ring
  rw [cellAt, mul_comm size.height, ← Int.ediv_ediv_of_nonneg hlength.le, hrow.1, hrow.2, hplane.1,
    hplane.2]

theorem flatIndex_injective {other : BlockPos} (h : size.Contains cell) (hother : size.Contains other)
    (hindex : flatIndex size cell = flatIndex size other) : cell = other := by
  rw [← cellAt_flatIndex h, ← cellAt_flatIndex hother, hindex]

theorem decimal_injective_of_int32 {first second : ℤ} (hfirst : IsInt32 first)
    (hsecond : IsInt32 second) (h : decimal first = decimal second) : first = second := by
  have hread := fromChars_decimal hfirst
  rw [h, fromChars_decimal hsecond] at hread
  exact (Option.some.inj hread).symm

/-- What is written for an entity. -/
def entityTag (data : Compound) : Tag :=
  .compound (SortedMap.empty.set "block_entity_data".toList (.compound data.entries)).entries

theorem entityTag_injective {first second : Compound} (h : entityTag first = entityTag second) :
    first = second := by
  have hentries (tag : Tag) : (({} : Compound).set "block_entity_data".toList tag).entries =
      [("block_entity_data".toList, tag)] := rfl
  rw [entityTag, entityTag, hentries, hentries] at h
  injection h with h
  injection h with h
  injection h with _ h
  injection h with h
  exact SortedMap.ext h

/-- The data of an entity that is not left out. -/
def writtenData (format : PayloadFormat Payload) (size : Size)
    (entity : ChunkPos × BlockEntity Payload) : Option Compound :=
  let cell := Writer.entityCell entity.1 entity.2
  if ¬ size.Contains cell ∨ format.empty entity.2.payload then none
  else (format.document entity.2.payload).bind fun entries =>
    (readCompound entries).toOption.map fun compound => Writer.entityData compound cell

theorem contains_of_writtenData (h : writtenData format size entity = some data) :
    size.Contains (Writer.entityCell entity.1 entity.2) := by
  rw [writtenData] at h
  obtain ⟨hcell, h⟩ := else_of_some h
  exact not_not.mp fun hout => hcell (.inl hout)

/-- An entity is set under the index of its cell, or left out. -/
theorem putEntity_ok (h : Writer.putEntity format size positionData entity = .ok next) :
    next = match writtenData format size entity with
      | none => positionData
      | some data => positionData.set
          (decimal (flatIndex size (Writer.entityCell entity.1 entity.2))) (entityTag data) := by
  rw [Writer.putEntity] at h
  rw [writtenData]
  split at h
  case isTrue hskip =>
    rw [if_pos hskip]
    exact (Except.ok.inj h).symm
  case isFalse hkeep =>
    rw [if_neg hkeep]
    split at h
    case h_1 => cases h
    case h_2 entries hdocument =>
      obtain ⟨compound, hcompound, h⟩ := exists_of_bind_ok h
      obtain ⟨-, h⟩ := else_of_ok h
      cases h
      rw [hdocument, Option.bind_some, hcompound]
      have hindex : (Writer.entityCell entity.1 entity.2).x * size.height * size.length +
          (Writer.entityCell entity.1 entity.2).y * size.length +
            (Writer.entityCell entity.1 entity.2).z =
          flatIndex size (Writer.entityCell entity.1 entity.2) := by
        rw [flatIndex, mul_assoc]
      rw [hindex]
      rfl

/-- The last data that is written under the index of a cell. -/
def lastData (format : PayloadFormat Payload) (size : Size)
    (entities : List (ChunkPos × BlockEntity Payload)) (cell : BlockPos) : Option Compound :=
  lastValue (fun entity => if Writer.entityCell entity.1 entity.2 = cell then
    writtenData format size entity else none) entities

/-- Each entry stands for a cell inside the structure, with data that was written for it. -/
def EntityEntries (format : PayloadFormat Payload) (size : Size)
    (entities : List (ChunkPos × BlockEntity Payload)) (positionData : Compound) : Prop :=
  ∀ entry ∈ positionData.entries, ∃ entity ∈ entities, ∃ data,
    writtenData format size entity = some data ∧
      entry = (decimal (flatIndex size (Writer.entityCell entity.1 entity.2)), entityTag data)

/-- The entities are set one after the other, so the last one at a cell stays. -/
theorem foldlM_putEntity_ok {format : PayloadFormat Payload} {size : Size}
    (hvolume : size.width * size.height * size.length ≤ int32Max)
    {entities : List (ChunkPos × BlockEntity Payload)} {positionData final : Compound}
    (h : entities.foldlM (Writer.putEntity format size) positionData = .ok final)
    {known : List (ChunkPos × BlockEntity Payload)}
    (hknown : EntityEntries format size known positionData) :
    EntityEntries format size (known ++ entities) final ∧
      ∀ cell, size.Contains cell → final.lookup (decimal (flatIndex size cell)) =
        ((lastData format size entities cell).map entityTag).or
          (positionData.lookup (decimal (flatIndex size cell))) := by
  induction entities generalizing positionData known with
  | nil =>
    cases h
    rw [List.append_nil]
    exact ⟨hknown, fun cell _ => rfl⟩
  | cons entity rest ih =>
    rw [List.foldlM_cons] at h
    obtain ⟨next, hnext, h⟩ := exists_of_bind_ok h
    have hput := putEntity_ok hnext
    have hentries : EntityEntries format size (known ++ [entity]) next := by
      intro entry hentry
      have hold (hmem : entry ∈ positionData.entries) : ∃ entity' ∈ known ++ [entity], ∃ data,
          writtenData format size entity' = some data ∧ entry =
            (decimal (flatIndex size (Writer.entityCell entity'.1 entity'.2)), entityTag data) := by
        obtain ⟨found, hfound, data, hdata⟩ := hknown entry hmem
        exact ⟨found, List.mem_append_left _ hfound, data, hdata⟩
      cases hdata : writtenData format size entity with
      | none =>
        rw [hput, hdata] at hentry
        exact hold hentry
      | some data =>
        rw [hput, hdata] at hentry
        rcases SortedMap.mem_setEntry hentry with hnew | hmem
        · exact ⟨entity, List.mem_append_right _ List.mem_cons_self, data, hdata, hnew⟩
        · exact hold hmem
    obtain ⟨hfinal, hlookup⟩ := ih h hentries
    rw [List.append_assoc, List.singleton_append] at hfinal
    refine ⟨hfinal, fun cell hcell => ?_⟩
    rw [hlookup cell hcell, lastData, lastData, lastValue_cons, Option.map_or, Option.or_assoc]
    congr 1
    cases hdata : writtenData format size entity with
    | none =>
      rw [hdata] at hput
      rw [hput, ite_self, Option.map_none, Option.none_or]
    | some data =>
      rw [hdata] at hput
      rw [hput, SortedMap.lookup_set]
      by_cases hsame : Writer.entityCell entity.1 entity.2 = cell
      · rw [if_pos (by rw [hsame]), if_pos hsame]
        rfl
      · have hinside := contains_of_writtenData hdata
        rw [if_neg, if_neg hsame, Option.map_none, Option.none_or]
        intro htext
        exact hsame (flatIndex_injective hinside hcell (decimal_injective_of_int32
          (flatIndexFits hinside hvolume).2 (flatIndexFits hcell hvolume).2 htext.symm))

/-- The reader finds the data of an entry. -/
theorem readEntityData_entityTag (hdata : levelsEntries data.entries < maxDepth) :
    readEntityData format true (({} : Compound).set "block_entity_data".toList
      (.compound data.entries)).entries = .ok (some (format.serialize data)) := by
  have hentries (tag : Tag) : (({} : Compound).set "block_entity_data".toList tag).entries =
      [("block_entity_data".toList, tag)] := rfl
  rw [hentries, readEntityData, List.foldlM_cons]
  dsimp only
  rw [if_pos ⟨rfl, rfl⟩, readCompoundPayload_entries hdata]
  rfl

/-- The reader collects entries with different indices. -/
theorem foldlM_readPosition_ok {format : PayloadFormat Payload} {entries : Entries}
    (hentries : ∀ entry ∈ entries, ∃ index data, IsInt32 index ∧
      levelsEntries data.entries < maxDepth ∧ entry = (decimal index, entityTag data))
    (hnodup : (entries.map Prod.fst).Nodup) {state : PositionState Payload}
    (hfresh : ∀ index, IsInt32 index → decimal index ∈ entries.map Prod.fst →
      state.sourceKeys.lookup index = none ∧ state.blockEntities.lookup index = none) :
    ∃ found, entries.foldlM (readPosition format) state = .ok found ∧ ∀ index payload,
      found.blockEntities.lookup index = some payload ↔
        state.blockEntities.lookup index = some payload ∨ IsInt32 index ∧
          ∃ data, (decimal index, entityTag data) ∈ entries ∧ format.serialize data = payload := by
  induction entries generalizing state with
  | nil =>
    refine ⟨state, rfl, fun index payload => ⟨.inl, fun h => h.elim id fun h => ?_⟩⟩
    obtain ⟨-, data, hmem, -⟩ := h
    cases hmem
  | cons entry rest ih =>
    obtain ⟨index, data, hindex, hdata, rfl⟩ := hentries entry List.mem_cons_self
    obtain ⟨hnew, hrest⟩ := List.nodup_cons.mp hnodup
    obtain ⟨hkey, hmissing⟩ := hfresh index hindex List.mem_cons_self
    have hstep : readPosition format state (decimal index, entityTag data) = .ok
        { blockEntities := AssocMap.tryEmplace state.blockEntities index (format.serialize data)
          sourceKeys := state.sourceKeys.insert index (decimal index) } := by
      rw [entityTag, readPosition, fromChars_decimal hindex, Option.isSome_some,
        readEntityData_entityTag hdata]
      simp only [ok_bind, hkey]
      rfl
    have hother {other : ℤ} (hother : IsInt32 other) (hmem : decimal other ∈ rest.map Prod.fst) :
        other ≠ index := by
      rintro rfl
      exact hnew hmem
    obtain ⟨found, hfound, hlookup⟩ := @ih
      (fun other hmem => hentries other (List.mem_cons_of_mem _ hmem)) hrest
      { blockEntities := AssocMap.tryEmplace state.blockEntities index (format.serialize data)
        sourceKeys := state.sourceKeys.insert index (decimal index) }
      (fun other hint hmem => by
        obtain ⟨hkeys, hentities⟩ := hfresh other hint (List.mem_cons_of_mem _ hmem)
        dsimp only
        rw [AssocMap.lookup_insert_eq, if_neg (hother hint hmem), AssocMap.lookup_tryEmplace,
          if_neg (hother hint hmem)]
        exact ⟨hkeys, hentities⟩)
    refine ⟨found, ?_, fun other payload => ?_⟩
    · rw [List.foldlM_cons, hstep]
      exact hfound
    · rw [hlookup, AssocMap.lookup_tryEmplace, hmissing, Option.getD_none]
      by_cases hsame : other = index
      · subst hsame
        rw [if_pos rfl, hmissing]
        constructor
        · rintro (hpayload | ⟨hint, data', hmem, hpayload⟩)
          · exact .inr ⟨hindex, data, List.mem_cons_self, Option.some.inj hpayload⟩
          · exact .inr ⟨hint, data', List.mem_cons_of_mem _ hmem, hpayload⟩
        · rintro (hpayload | ⟨hint, data', hmem, hpayload⟩)
          · cases hpayload
          · rcases List.mem_cons.mp hmem with hfirst | hmem
            · rw [entityTag_injective (Prod.mk.inj hfirst).2] at hpayload
              exact .inl (congrArg some hpayload)
            · exact .inr ⟨hint, data', hmem, hpayload⟩
      · rw [if_neg hsame]
        constructor
        · rintro (hpayload | ⟨hint, data', hmem, hpayload⟩)
          · exact .inl hpayload
          · exact .inr ⟨hint, data', List.mem_cons_of_mem _ hmem, hpayload⟩
        · rintro (hpayload | ⟨hint, data', hmem, hpayload⟩)
          · exact .inl hpayload
          · rcases List.mem_cons.mp hmem with hfirst | hmem
            · exact absurd (decimal_injective_of_int32 hint hindex (Prod.mk.inj hfirst).1) hsame
            · exact .inr ⟨hint, data', hmem, hpayload⟩

/-- No data of an entity that is written is nested too deeply to be read back. -/
def ReadableDepth (format : PayloadFormat Payload) (entities : NbtChunkMap Payload) : Prop :=
  ∀ entity ∈ Writer.allEntities entities, ∀ entries,
    format.document entity.2.payload = some entries → levelsEntries entries < maxDepth

theorem levels_entityData {compound : Compound} {bound : ℕ} (h : levelsEntries compound.entries ≤ bound)
    (hbound : 1 ≤ bound) (cell : BlockPos) :
    levelsEntries (Writer.entityData compound cell).entries ≤ bound := by
  have hint (value : ℤ) : (Tag.int value).levels ≤ bound := hbound
  exact levelsEntries_set (levelsEntries_set (levelsEntries_set h (hint _)) (hint _)) (hint _)

/-- The levels that a reader sees are those of the payload, but for the coordinates. -/
theorem levels_writtenData (hdepth : ∀ entries, format.document entity.2.payload = some entries →
      levelsEntries entries < maxDepth) (h : writtenData format size entity = some data) :
    levelsEntries data.entries < maxDepth := by
  rw [writtenData] at h
  obtain ⟨_, h⟩ := else_of_some h
  obtain ⟨entries, hentries, h⟩ := Option.bind_eq_some_iff.mp h
  obtain ⟨compound, hcompound, rfl⟩ := Option.map_eq_some_iff.mp h
  have hlevels : levelsEntries compound.entries ≤ levelsEntries entries := by
    rw [readCompound] at hcompound
    split at hcompound
    · cases hcompound
    · cases hcompound
      exact levelsEntries_ofEntries entries
  have hbound : levelsEntries compound.entries ≤ maxDepth - 1 :=
    Nat.le_sub_one_of_lt (lt_of_le_of_lt hlevels (hdepth entries hentries))
  exact Nat.lt_of_le_of_lt (levels_entityData hbound (by decide) _) (by decide)

/-- Reading the entries that were written finds the last data of each cell, and nothing else. -/
theorem readPositions_written (hvolume : size.width * size.height * size.length ≤ int32Max)
    {entities : NbtChunkMap Payload} (hdepth : ReadableDepth format entities)
    (h : (Writer.allEntities entities).foldlM (Writer.putEntity format size) {} = .ok positionData) :
    ∃ found, positionData.entries.foldlM (readPosition format) { blockEntities := ∅ } = .ok found ∧
      ∀ index payload, found.blockEntities.lookup index = some payload ↔
        ∃ cell, size.Contains cell ∧ index = flatIndex size cell ∧ ∃ data,
          lastData format size (Writer.allEntities entities) cell = some data ∧
            format.serialize data = payload := by
  obtain ⟨hentries, hlookup⟩ := @foldlM_putEntity_ok _ format size hvolume _ {} positionData h []
    fun entry hentry => absurd hentry List.not_mem_nil
  rw [List.nil_append] at hentries
  have hgood : ∀ entry ∈ positionData.entries, ∃ index data, IsInt32 index ∧
      levelsEntries data.entries < maxDepth ∧ entry = (decimal index, entityTag data) := by
    intro entry hentry
    obtain ⟨entity, hentity, data, hdata, rfl⟩ := hentries entry hentry
    exact ⟨_, data, (flatIndexFits (contains_of_writtenData hdata) hvolume).2,
      levels_writtenData (hdepth entity hentity) hdata, rfl⟩
  have hnodup : (positionData.entries.map Prod.fst).Nodup := by
    rw [List.nodup_iff_pairwise_ne, List.pairwise_map]
    exact positionData.sorted.imp ne_of_lt
  obtain ⟨found, hfound, hread⟩ := @foldlM_readPosition_ok _ format _ hgood hnodup
    { blockEntities := ∅ } fun index _ _ => ⟨rfl, rfl⟩
  refine ⟨found, hfound, fun index payload => ?_⟩
  rw [hread]
  constructor
  · rintro (hnone | ⟨hindex, data, hmem, hpayload⟩)
    · cases hnone
    · obtain ⟨entity, -, data', hdata', heq⟩ := hentries _ hmem
      have hinside := contains_of_writtenData hdata'
      have hcell := decimal_injective_of_int32 hindex (flatIndexFits hinside hvolume).2
        (Prod.mk.inj heq).1
      refine ⟨_, hinside, hcell, data, ?_, hpayload⟩
      have hvalue := hlookup _ hinside
      rw [← hcell, SortedMap.lookup_of_mem hmem, SortedMap.lookup_empty, Option.or_none] at hvalue
      obtain ⟨last, hlast, htag⟩ := Option.map_eq_some_iff.mp hvalue.symm
      rw [hlast, entityTag_injective htag]
  · rintro ⟨cell, hcell, rfl, data, hdata, hpayload⟩
    refine .inr ⟨(flatIndexFits hcell hvolume).2, data, SortedMap.lookup_eq_some ?_, hpayload⟩
    rw [hlookup cell hcell, hdata]
    rfl

/-- The state is read back from its palette entry as it is: its properties are in order, and none
has a value in another form than the one that is written. -/
structure Kept (state : BlockState) : Prop where
  ordered : state.states.Pairwise fun a b => a.name < b.name
  properties : ∀ property ∈ state.states, ∃ tag,
    (∀ states, putProperty states property = .ok (states.set property.name tag)) ∧
      stateProperty property.name tag = some property

theorem foldlM_putProperty_kept {properties : List BlockStateProperty}
    (hproperties : ∀ property ∈ properties, ∃ tag,
      (∀ states, putProperty states property = .ok (states.set property.name tag)) ∧
        stateProperty property.name tag = some property)
    (hordered : properties.Pairwise fun a b => a.name < b.name) {states final : Compound}
    (hbefore : ∀ entry ∈ states.entries, ∀ property ∈ properties, entry.1 < property.name)
    (h : properties.foldlM putProperty states = .ok final) :
    final.entries.filterMap (fun entry => stateProperty entry.1 entry.2) =
      states.entries.filterMap (fun entry => stateProperty entry.1 entry.2) ++ properties := by
  induction properties generalizing states with
  | nil =>
    cases h
    exact (List.append_nil _).symm
  | cons property rest ih =>
    obtain ⟨tag, hput, htag⟩ := hproperties property List.mem_cons_self
    obtain ⟨hfirst, hrest⟩ := List.pairwise_cons.mp hordered
    rw [List.foldlM_cons, hput, ok_bind] at h
    have hset : (states.set property.name tag).entries = states.entries ++ [(property.name, tag)] :=
      SortedMap.setEntry_of_lt fun entry hentry => hbefore entry hentry property List.mem_cons_self
    rw [ih (fun other hother => hproperties other (List.mem_cons_of_mem _ hother)) hrest
      (fun entry hentry other hother => by
        rw [hset] at hentry
        rcases List.mem_append.mp hentry with hold | hnew
        · exact hbefore entry hold other (List.mem_cons_of_mem _ hother)
        · rw [List.mem_singleton.mp hnew]
          exact hfirst other hother) h, hset, List.filterMap_append, List.append_assoc]
    have hone : [(property.name, tag)].filterMap (fun entry => stateProperty entry.1 entry.2) =
        [property] := by simp [htag]
    rw [hone]
    rfl

theorem paletteState_encodeState (hstate : Kept state) (h : encodeState state = .ok entry) :
    paletteState entry = state := by
  rw [encodeState] at h
  obtain ⟨states, hstates, h⟩ := exists_of_bind_ok h
  cases h
  have hproperties := @foldlM_putProperty_kept _ hstate.properties hstate.ordered {} states
    (fun entry hentry => absurd hentry List.not_mem_nil) hstates
  have hname : "name".toList ≠ "version".toList ∧ "name".toList ≠ "states".toList ∧
      "states".toList ≠ "version".toList := by decide
  simp only [paletteState, SortedMap.lookup_set, if_neg hname.1, if_neg hname.2.1, if_neg hname.2.2,
    if_true, SortedMap.ofEntries_entries]
  rw [hproperties]
  rfl

/-- The index that is read for a block: none for air of the second layer, otherwise that of the
palette entry with the state of the block. -/
structure ReadsBlock (registry : StateLookup) (lookup : PaletteRegistry) (s : McStructure Payload)
    (secondary : Bool) (id : RuntimeId) (index : ℤ) : Prop where
  air : secondary = true → id = registry.air → index = -1
  block : ¬ (secondary = true ∧ id = registry.air) → ∃ entry,
    encodeState (registry.written id) = .ok entry ∧
      s.paletteAt index = some (resolveState lookup (paletteState entry)) ∧
      (Kept (registry.written id) → paletteState entry = registry.written id)

/-- What is read back: the size, the blocks of both layers, and at each cell the last entity, which
its chunk hands out. -/
structure ReadsBack (registry : StateLookup) (lookup : PaletteRegistry) (format : PayloadFormat Payload)
    (size : Size) (chunks : ChunkMap) (entities : NbtChunkMap Payload) (s : McStructure Payload) :
    Prop where
  originalSize : s.originalSize = size
  size_eq : s.size = size
  offset : s.offset = ⟨0, 0, 0⟩
  blocks : ∀ cell, size.Contains cell → ∀ secondary, ∃ index,
    (if secondary then s.secondaryIndices else s.primaryIndices).at? (flatIndex size cell).toNat =
      some index ∧
      ReadsBlock registry lookup s secondary (Writer.blockAt chunks registry.air cell secondary) index
  cells : ∀ cell payload, (cell, payload) ∈ s.entityCells ↔ size.Contains cell ∧ ∃ data,
    lastData format size (Writer.allEntities entities) cell = some data ∧
      format.serialize data = payload
  nbt : ∀ positions, ∀ chunk ∈ positions, ∃ found,
    (s.getChunkNbt positions).lookup chunk = some found ∧ ∀ entity, entity ∈ found ↔
      ∃ cell data, size.Contains cell ∧ blockToChunk cell = chunk ∧
        lastData format size (Writer.allEntities entities) cell = some data ∧
          entity = chunkLocalEntity cell (format.serialize data)
  indices : ∀ cell, size.Contains cell → Writer.FlatIndexFits size cell

/-- The numbers of a layer, read from the final palette. -/
theorem readsBlock_of_numbered {registry : StateLookup} {table : Writer.PaletteTable}
    (hsound : table.Sound fun id => id)
    (hentries : (table.values.map registry.written).mapM encodeState = .ok entries)
    (hpalette : s.palette = entries.map fun entry => resolveState lookup (paletteState entry))
    {secondary : Bool} {id : RuntimeId} {index : ℤ}
    (h : Writer.Numbered registry.air secondary table id index) :
    ReadsBlock registry lookup s secondary id index := by
  rw [Writer.Numbered] at h
  split_ifs at h with hair
  · exact ⟨fun _ _ => h, fun hblock => absurd hair hblock⟩
  · refine ⟨fun hsecondary hid => absurd ⟨hsecondary, hid⟩ hair, fun _ => ?_⟩
    obtain ⟨number, hnumber, rfl⟩ := h
    obtain ⟨value, hvalue, rfl⟩ := hsound _ _ hnumber
    -- The palette has one entry for each number.
    have hlength := (forall₂_of_mapM_ok hentries).length_eq
    rw [List.length_map] at hlength
    have hlt : number < entries.length := hlength ▸ (List.getElem?_eq_some_iff.mp hvalue).1
    have hencoded : encodeState (registry.written value) = .ok entries[number] := by
      have hget := (forall₂_of_mapM_ok hentries).get
        (by rw [List.length_map, hlength]; exact hlt) hlt
      simp only [List.get_eq_getElem, List.getElem_map] at hget
      rwa [(List.getElem?_eq_some_iff.mp hvalue).2] at hget
    refine ⟨entries[number], hencoded, ?_, fun hkept => paletteState_encodeState hkept hencoded⟩
    rw [paletteAt, if_neg (by omega), Int.toNat_natCast, hpalette, List.getElem?_map,
      List.getElem?_eq_getElem hlt]
    rfl

theorem mem_entityCells {payload : Payload} :
    (cell, payload) ∈ s.entityCells ↔ ∃ index, s.blockEntities.lookup index = some payload ∧
      (0 ≤ index ∧ index.toNat < s.primaryIndices.size) ∧ cellAt s.originalSize index = cell := by
  rw [entityCells, List.mem_filterMap]
  constructor
  · rintro ⟨⟨index, payload'⟩, hmem, hentry⟩
    obtain ⟨hrange, hentry⟩ := else_of_some hentry
    cases hentry
    dsimp only at hrange
    exact ⟨index, AList.mem_lookup_iff.mpr hmem, by omega, rfl⟩
  · rintro ⟨index, hlookup, hrange, rfl⟩
    refine ⟨⟨index, payload⟩, AList.mem_lookup_iff.mp hlookup, if_neg ?_⟩
    dsimp only
    omega

/-- A chunk hands out the entities of its cells. -/
theorem mem_getChunkNbt (hoffset : s.offset = ⟨0, 0, 0⟩) {positions : List ChunkPos} {chunk : ChunkPos}
    (hchunk : chunk ∈ positions) :
    ∃ found, (s.getChunkNbt positions).lookup chunk = some found ∧ ∀ entity, entity ∈ found ↔
      ∃ cell payload, (cell, payload) ∈ s.entityCells ∧ blockToChunk cell = chunk ∧
        entity = chunkLocalEntity cell payload := by
  have hcell (cell : BlockPos) : cell.add ⟨0, 0, 0⟩ = cell := by simp [BlockPos.add]
  rw [getChunkNbt, NbtChunkMap.lookup_foldl_place, NbtChunkMap.lookup_emplaceAll, if_pos hchunk,
    Option.map_some, List.nil_append, hoffset]
  refine ⟨_, rfl, fun entity => ?_⟩
  simp only [hcell, List.mem_map, List.mem_filter, decide_eq_true_eq, Prod.exists]
  constructor
  · rintro ⟨cell, payload, ⟨hmem, hsame⟩, rfl⟩
    exact ⟨cell, payload, hmem, hsame, rfl⟩
  · rintro ⟨cell, payload, hmem, hsame, rfl⟩
    exact ⟨cell, payload, ⟨hmem, hsame⟩, rfl⟩

/-- A tag with that many compounds around a number. -/
def nestedTag : ℕ → Tag
  | 0 => .int 0
  | levels + 1 => .compound [("a".toList, nestedTag levels)]

/-- Entities that are known by a number; one with a negative number is nested. -/
def numberFormat : PayloadFormat ℤ where
  empty _ := false
  document number :=
    some [if number < 0 then ("a".toList, nestedTag 1023) else ("id".toList, .int number)]
  serialize compound := ((compound.lookup "id".toList).bind readInteger).getD 0

/-- A structure of one stone with these entities. -/
def oneStone (numbers : List ℤ) : ChunkSource ℤ where
  size := ⟨1, 1, 1⟩
  getChunks positions := .ok ((ChunkMap.emplaceAll positions).forEach fun _ chunk =>
    chunk.setBlock 0 (-4) 0 1)
  getChunkNbt positions := .ok (positions.foldl (fun result pos =>
    AssocMap.tryEmplace result pos (numbers.map (chunkLocalEntity ⟨0, 0, 0⟩))) ∅)

def stoneStates : StateLookup where
  air := 0
  state id := if id = 1 then some ⟨"minecraft:stone".toList, [], 0⟩ else none

def stoneRegistry : PaletteRegistry where
  air := 0
  unknown := 2
  find name states := if name = "minecraft:stone".toList ∧ states = [] then some 1 else none
  findName _ := none

def writeOneStone (numbers : List ℤ) : Except String Entries :=
  Writer.writeMcstructure stoneStates numberFormat (oneStone numbers) ⟨65536 * 2, 0⟩

/-- The entities after writing and reading. -/
def rereadOneStone (numbers : List ℤ) : Except String (List (BlockPos × ℤ)) := do
  let s ← read stoneRegistry numberFormat (← writeOneStone numbers)
  return s.entityCells

end WaterStructure.McStructure
