import WaterStructure.Library.AlignedPacking
import WaterStructure.Library.ByteReader
import WaterStructure.Library.InternTable
import WaterStructure.Library.LastValue
import WaterStructure.Library.SelfDelimiting
import WaterStructure.World.StoredWorld

/-!
# The payload of a stored subchunk

A layer is stored as the palette of its blocks and the numbers of the blocks in it, which are packed into
words of 32 bits in the order of the disk. The width of a number depends on the size of the palette. Reading
a payload gives every block back, as what its entry in the palette stands for.

How an entry describes a block state is a parameter.
-/

namespace WaterStructure

namespace SubChunkPayload

open ByteReader InternTable SelfDelimiting

/-- What `encodePaletteEntry` writes of a runtime id, and how it is read. -/
structure PaletteCodec where
  encodeEntry : RuntimeId → List UInt8
  decodeEntry : Reader RuntimeId

/-- What an entry that was written is read as; air is read as air. -/
structure PaletteCodec.Restores (codec : PaletteCodec) (air : RuntimeId) (written : RuntimeId → RuntimeId) : Prop where
  entry : ∀ id, Reads codec.decodeEntry (codec.encodeEntry id) (written id)
  air_eq : written air = air

def paletteSizeFor (count : ℕ) : ℕ :=
  if count ≤ 1 then 0
  else if count ≤ 2 then 1
  else if count ≤ 4 then 2
  else if count ≤ 8 then 3
  else if count ≤ 16 then 4
  else if count ≤ 32 then 5
  else if count ≤ 64 then 6
  else if count ≤ 256 then 8
  else 16

def isValidPaletteBits (bits : ℕ) : Bool := [0, 1, 2, 3, 4, 5, 6, 8, 16].contains bits

def packedUint32Count (bits : ℕ) : ℕ :=
  if bits = 0 then 0 else 4096 / (32 / bits) + if bits = 3 ∨ bits = 5 ∨ bits = 6 then 1 else 0

/-- The block of a number on the disk, where the order is x, z, y. -/
def blockIndex (storageIndex : ℕ) : ℕ :=
  storageIndex &&& 0xf00 ||| (storageIndex &&& 0x00f) <<< 4 ||| (storageIndex &&& 0x0f0) >>> 4

def packIndices (blockPaletteIndices : ℕ → ℕ) (bits : ℕ) : List (BitVec 32) :=
  let packed := List.replicate (packedUint32Count bits) 0
  if bits = 0 then packed
  else AlignedPacking.packFrom bits packed 0 ((List.range 4096).map fun storageIndex =>
    BitVec.ofNat 32 (blockPaletteIndices (blockIndex storageIndex)))

section Writing

variable (codec : PaletteCodec) (air : RuntimeId)

/-- The palette of a layer. -/
def paletteOf (blocks : BlockLayer) : Table RuntimeId RuntimeId :=
  ((List.range 4096).map blocks).foldl (Table.add id) ⟨[], ∅⟩

/-- A layer in `encodeSubChunk`. -/
def encodeStorage (blocks : BlockLayer) : List UInt8 :=
  let table := paletteOf blocks
  let bits := paletteSizeFor table.values.length
  let packed := packIndices (fun index => (table.indices.lookup (blocks index)).getD 0) bits
  [UInt8.ofNat (bits <<< 1)] ++ (packed.flatMap fun word => littleEndian 4 word.toNat) ++
    ((if bits = 0 then [] else littleEndian 4 table.values.length) ++ table.values.flatMap codec.encodeEntry)

/-- The layers up to `NativeSubChunk::layerCount`. -/
def countedLayers (layer0 : BlockLayer) (layer1 : Option BlockLayer) : List BlockLayer :=
  match layer1 with
  | none => [layer0]
  | some blocks => if (List.range 4096).all fun index => blocks index = air then [layer0] else [layer0, blocks]

/-- `encodeSubChunk` for the disk and the overworld. -/
def encodeSubChunk (layer0 : BlockLayer) (layer1 : Option BlockLayer) (row : ℤ) : List UInt8 :=
  let layers := countedLayers air layer0 layer1
  [9] ++ ([UInt8.ofNat layers.length] ++ [UInt8.ofNat ((row + kMinSubChunkY) % 256).toNat] ++
    layers.flatMap (encodeStorage codec))

end Writing

section Reading

variable {α : Type}

/-- The next bytes. -/
def bytes (count : ℕ) : Reader (List UInt8) := fun input =>
  if input.length < count then .error "unexpected end of buffer" else .ok (input.take count, input.drop count)

def number (width : ℕ) : Reader ℕ := do
  let read ← bytes width
  pure (read.foldr (fun byte value => byte.toNat + 256 * value) 0)

def times (r : Reader α) : ℕ → Reader (List α)
  | 0 => pure []
  | count + 1 => do
    let first ← r
    let rest ← times r count
    pure (first :: rest)

variable (codec : PaletteCodec) (air : RuntimeId)

def readPaletteCount (bits : ℕ) : Reader ℕ :=
  if bits = 0 then pure 1
  else do
    let count ← number 4
    if count = 0 ∨ count ≥ 2147483648 then fail "empty palette"
    else if count > 4096 then fail "invalid palette size"
    else pure count

/-- The blocks of a layer, from the numbers on the disk. -/
def expand (bits : ℕ) (packed : List (BitVec 32)) (palette : List RuntimeId) : BlockLayer :=
  let front := palette.headD 0
  if bits = 0 then fun _ => front
  else (List.range 4096).foldl (fun blocks storageIndex =>
    Function.update blocks (blockIndex storageIndex)
      (palette[(AlignedPacking.field bits packed storageIndex).toNat]?.getD front)) fun _ => front

def readStorage (bits : ℕ) : Reader (Option BlockLayer) :=
  if bits = 0x7f then pure none
  else if isValidPaletteBits bits = false then fail "invalid palette bit width"
  else do
    let packed ← times (number 4) (packedUint32Count bits)
    let count ← readPaletteCount bits
    let palette ← times codec.decodeEntry count
    pure (some (expand bits (packed.map (BitVec.ofNat 32)) palette))

def decodePalettedStorage : Reader (Option BlockLayer) := do
  let header ← number 1
  readStorage codec (header >>> 1)

/-- `NativeSubChunk::setBlocks` -/
def setBlocks (layers : List BlockLayer) (layer : ℕ) (blocks : BlockLayer) : List BlockLayer :=
  (layers ++ List.replicate (layer + 1 - layers.length) fun _ => air).set layer blocks

/-- The loop of `decodeSubChunk`. -/
def decodeLayers : ℕ → ℕ → List BlockLayer → Reader (List BlockLayer)
  | 0, _, layers => pure layers
  | count + 1, layer, layers => do
    let blocks ← decodePalettedStorage codec
    decodeLayers count (layer + 1) (blocks.elim layers (setBlocks air layers layer))

/-- The layers and the index. -/
def decodeVersion (version : ℕ) : Reader (List BlockLayer × ℤ) :=
  let native : List BlockLayer := [fun _ => air]
  if version = 1 then do
    let layers ← decodeLayers codec air 1 0 native
    pure (layers, 0)
  else if version = 8 then do
    let storageCount ← number 1
    let layers ← decodeLayers codec air storageCount 0 native
    pure (layers, 0)
  else if version = 9 then do
    let storageCount ← number 1
    let y ← number 1
    let layers ← decodeLayers codec air storageCount 0 native
    pure (layers, Int.bmod y 256 - kMinSubChunkY)
  else fail "unsupported subchunk version"

/-- `decodeSubChunk` for the disk and the overworld. -/
def decodeSubChunk : Reader (List BlockLayer × ℤ) := do
  let version ← number 1
  decodeVersion codec air version

end Reading

variable {codec : PaletteCodec} {air : RuntimeId} {written : RuntimeId → RuntimeId}

/-! ## Numbers -/

theorem reads_bytes {part : List UInt8} {count : ℕ} (h : part.length = count) : Reads (bytes count) part part := by
  intro rest
  rw [bytes, if_neg (by rw [List.length_append]; omega), List.take_left' h, List.drop_left' h]

theorem foldr_littleEndian (width value : ℕ) :
    (littleEndian width value).foldr (fun byte value => byte.toNat + 256 * value) 0 = value % 256 ^ width := by
  induction width generalizing value with
  | zero => exact (Nat.mod_one value).symm
  | succ width ih =>
    rw [littleEndian_succ, List.foldr_cons, ih, UInt8.toNat_ofNat']
    exact ((congrArg (value % ·) Nat.pow_succ').trans Nat.mod_mul).symm

theorem reads_number {width value : ℕ} (h : value < 256 ^ width) :
    Reads (number width) (littleEndian width value) value := by
  have hread := (reads_bytes (length_littleEndian width value)).map
    (f := fun read => read.foldr (fun byte value => byte.toNat + 256 * value) 0)
  rwa [foldr_littleEndian, Nat.mod_eq_of_lt h] at hread

theorem reads_byte {value : ℕ} (h : value < 256) : Reads (number 1) [UInt8.ofNat value] value := by
  have hread := @reads_number 1 value h
  rwa [littleEndian_succ] at hread

theorem reads_times {α β : Type} {r : Reader α} {encode : β → List UInt8} {value : β → α} {items : List β}
    (h : ∀ item ∈ items, Reads r (encode item) (value item)) :
    Reads (times r items.length) (items.flatMap encode) (items.map value) := by
  induction items with
  | nil => exact .pure []
  | cons item rest ih =>
    rw [List.flatMap_cons]
    exact (h item List.mem_cons_self).bind
      (ih fun other hother => h other (List.mem_cons_of_mem item hother)).map

/-! ## The words -/

theorem paletteSizeFor_mem (count : ℕ) : paletteSizeFor count ∈ [0, 1, 2, 3, 4, 5, 6, 8, 16] := by
  rw [paletteSizeFor]
  split_ifs <;> decide

theorem le_two_pow_paletteSizeFor {count : ℕ} (h : count ≤ 4096) : count ≤ 2 ^ paletteSizeFor count := by
  rw [paletteSizeFor]
  split_ifs <;> omega

/-- The words have a field for every block. -/
theorem room_of_mem : ∀ bits ∈ [0, 1, 2, 3, 4, 5, 6, 8, 16], bits ≠ 0 → bits < 32 ∧
    0 < AlignedPacking.perWord 32 bits ∧ 4096 ≤ packedUint32Count bits * AlignedPacking.perWord 32 bits := by
  decide

/-- The order of the disk is its own inverse. -/
theorem blockIndex_blockIndex {index : ℕ} (h : index < 4096) :
    blockIndex index < 4096 ∧ blockIndex (blockIndex index) = index := by
  have hswap : ∀ x < 16, ∀ y < 16, ∀ z < 16, blockIndex ((x * 16 + y) * 16 + z) = (x * 16 + z) * 16 + y := by
    decide +kernel
  obtain ⟨x, y, z, hx, hy, hz, rfl⟩ : ∃ x y z, x < 16 ∧ y < 16 ∧ z < 16 ∧ index = (x * 16 + y) * 16 + z :=
    ⟨index / 256, index / 16 % 16, index % 16, by omega, by omega, by omega, by omega⟩
  rw [hswap x hx y hy z hz, hswap x hx z hz y hy]
  omega

theorem field_packIndices {bits : ℕ} (hmem : bits ∈ [0, 1, 2, 3, 4, 5, 6, 8, 16]) (hbits : bits ≠ 0)
    {indices : ℕ → ℕ} (hindices : ∀ index < 4096, indices index < 2 ^ bits) {storageIndex : ℕ}
    (h : storageIndex < 4096) :
    AlignedPacking.field bits (packIndices indices bits) storageIndex =
      BitVec.ofNat 32 (indices (blockIndex storageIndex)) := by
  obtain ⟨hlt, hper, hroom⟩ := room_of_mem bits hmem hbits
  rw [packIndices, if_neg hbits, AlignedPacking.field_packFrom hlt hper, if_neg (Nat.not_lt_zero _), Nat.sub_zero,
    List.getElem?_map, List.getElem?_range h]
  · rfl
  · intro value hvalue
    obtain ⟨index, hindex, rfl⟩ := List.mem_map.mp hvalue
    have hblock := (blockIndex_blockIndex (List.mem_range.mp hindex)).1
    rw [BitVec.toNat_ofNat]
    exact (Nat.mod_le _ _).trans_lt (hindices _ hblock)
  · rwa [Nat.zero_add, List.length_map, List.length_range, List.length_replicate]
  · exact fun j _ => AlignedPacking.field_replicate_zero bits _ j

theorem expand_apply {bits : ℕ} (hbits : bits ≠ 0) (packed : List (BitVec 32)) (palette : List RuntimeId)
    {index : ℕ} (h : index < 4096) : expand bits packed palette index =
      palette[(AlignedPacking.field bits packed (blockIndex index)).toNat]?.getD (palette.headD 0) := by
  obtain ⟨hlt, hself⟩ := blockIndex_blockIndex h
  have hstep (blocks : BlockLayer) (storageIndex : ℕ) (id : RuntimeId) :
      Function.update blocks (blockIndex storageIndex) id index =
        (if blockIndex storageIndex = index then some id else none).getD (blocks index) := by
    by_cases hsame : blockIndex storageIndex = index
    · rw [if_pos hsame, hsame, Function.update_self, Option.getD_some]
    · rw [if_neg hsame, Function.update_of_ne (Ne.symm hsame), Option.getD_none]
  rw [expand, if_neg hbits, LastValue.foldl_observe (fun blocks : BlockLayer => blocks index)
    (fun storageIndex => if blockIndex storageIndex = index then
      some (palette[(AlignedPacking.field bits packed storageIndex).toNat]?.getD (palette.headD 0)) else none)
    _ _ _ fun blocks storageIndex _ => hstep blocks storageIndex _,
    LastValue.lastValue_of_unique (List.mem_range.mpr hlt), if_pos hself, Option.getD_some]
  rintro other hother hne
  refine if_neg fun hsame => hne ?_
  rw [← hsame, (blockIndex_blockIndex (List.mem_range.mp hother)).2]

/-! ## A layer -/

theorem paletteOf_spec (blocks : BlockLayer) : (paletteOf blocks).values.length ≤ 4096 ∧
    ∀ index < 4096, ∃ number, (paletteOf blocks).indices.lookup (blocks index) = some number ∧
      (paletteOf blocks).values[number]? = some (blocks index) := by
  constructor
  · have hle := @Table.length_foldl_add_le _ _ _ id ((List.range 4096).map blocks) ⟨[], ∅⟩
    rwa [List.length_map, List.length_range, List.length_nil, Nat.zero_add] at hle
  · intro index hindex
    obtain ⟨hsound, -, hknows⟩ := @Table.foldl_add _ _ _ id ((List.range 4096).map blocks) ⟨[], ∅⟩
      (Table.sound_empty id)
    obtain ⟨number, hnumber⟩ := Option.isSome_iff_exists.mp
      (hknows (blocks index) (List.mem_map_of_mem (List.mem_range.mpr hindex)))
    obtain ⟨value, hvalue, rfl⟩ := hsound _ _ hnumber
    exact ⟨number, hnumber, hvalue⟩

theorem reads_readPaletteCount {bits count : ℕ} (hpos : 0 < count) (hlength : count ≤ 4096)
    (hone : bits = 0 → count = 1) :
    Reads (readPaletteCount bits) (if bits = 0 then [] else littleEndian 4 count) count := by
  rw [readPaletteCount]
  by_cases hzero : bits = 0
  · rw [if_pos hzero, if_pos hzero, hone hzero]
    exact .pure 1
  · rw [if_neg hzero, if_neg hzero]
    refine List.append_nil (littleEndian 4 _) ▸ (reads_number (by omega)).bind ?_
    rw [if_neg (by omega), if_neg (by omega)]
    exact .pure _

/-- The parts of a layer are read back. -/
theorem reads_storage (hentry : ∀ id, Reads codec.decodeEntry (codec.encodeEntry id) (written id)) {bits : ℕ}
    (hmem : bits ∈ [0, 1, 2, 3, 4, 5, 6, 8, 16]) {palette : List RuntimeId} (hpos : 0 < palette.length)
    (hlength : palette.length ≤ 4096) (hone : bits = 0 → palette.length = 1) {packed : List (BitVec 32)}
    (hcount : packed.length = packedUint32Count bits) :
    Reads (decodePalettedStorage codec)
      ([UInt8.ofNat (bits <<< 1)] ++ ((packed.flatMap fun word => littleEndian 4 word.toNat) ++
        ((if bits = 0 then [] else littleEndian 4 palette.length) ++ palette.flatMap codec.encodeEntry)))
      (some (expand bits packed (palette.map written))) := by
  have hsmall : bits <<< 1 < 256 ∧ bits <<< 1 >>> 1 = bits ∧ bits ≠ 0x7f ∧ isValidPaletteBits bits = true := by
    clear hone hcount
    revert bits
    decide
  have hwords : (packed.map BitVec.toNat).map (BitVec.ofNat 32) = packed := by
    rw [List.map_map]
    refine (List.map_congr_left fun word _ => BitVec.eq_of_toNat_eq ?_).trans (List.map_id packed)
    rw [Function.comp_apply, BitVec.toNat_ofNat, Nat.mod_eq_of_lt word.isLt, id]
  refine (reads_byte hsmall.1).bind ?_
  rw [hsmall.2.1, readStorage, if_neg hsmall.2.2.1, if_neg (by rw [hsmall.2.2.2]; decide), ← hcount]
  refine (reads_times fun word _ => reads_number word.isLt).bind
    ((reads_readPaletteCount hpos hlength hone).bind ?_)
  rw [hwords]
  exact (reads_times fun id _ => hentry id).map

/-- A block that was packed is the entry with its number. -/
theorem expand_packIndices {bits : ℕ} (hmem : bits ∈ [0, 1, 2, 3, 4, 5, 6, 8, 16]) {indices : ℕ → ℕ}
    (hindices : ∀ index < 4096, indices index < 2 ^ bits) {palette : List RuntimeId} {index : ℕ}
    (h : index < 4096) {id : RuntimeId} (hid : palette[indices index]? = some id) :
    expand bits (packIndices indices bits) palette index = id := by
  by_cases hzero : bits = 0
  · have hnumber := hindices index h
    rw [hzero, Nat.pow_zero, Nat.lt_one_iff] at hnumber
    rw [expand, if_pos hzero, List.headD_eq_head?_getD, List.head?_eq_getElem?, ← hnumber, hid, Option.getD_some]
  · obtain ⟨hplace, hself⟩ := blockIndex_blockIndex h
    have hword : 2 ^ bits ≤ 2 ^ 32 := Nat.pow_le_pow_right (by decide) (room_of_mem bits hmem hzero).1.le
    rw [expand_apply hzero _ _ h, field_packIndices hmem hzero hindices hplace, hself, BitVec.toNat_ofNat,
      Nat.mod_eq_of_lt ((hindices index h).trans_le hword), hid, Option.getD_some]

/-- A layer is read back. -/
theorem reads_encodeStorage (hentry : ∀ id, Reads codec.decodeEntry (codec.encodeEntry id) (written id))
    (blocks : BlockLayer) : ∃ layer, Reads (decodePalettedStorage codec) (encodeStorage codec blocks) (some layer) ∧
      ∀ index < 4096, layer index = written (blocks index) := by
  rw [encodeStorage]
  obtain ⟨hlength, hspec⟩ := paletteOf_spec blocks
  generalize paletteOf blocks = table at hlength hspec ⊢
  obtain ⟨first, -, hfirst⟩ := hspec 0 (by decide)
  have hpos : 0 < table.values.length := Nat.zero_lt_of_lt (List.getElem?_eq_some_iff.mp hfirst).1
  have hmem := paletteSizeFor_mem table.values.length
  have hfits := le_two_pow_paletteSizeFor hlength
  generalize paletteSizeFor table.values.length = bits at hmem hfits ⊢
  have hindices (index : ℕ) (h : index < 4096) : (table.indices.lookup (blocks index)).getD 0 < 2 ^ bits := by
    obtain ⟨number, hnumber, hvalue⟩ := hspec index h
    rw [hnumber, Option.getD_some]
    exact (List.getElem?_eq_some_iff.mp hvalue).1.trans_le hfits
  have hcount : (packIndices (fun index => (table.indices.lookup (blocks index)).getD 0) bits).length =
      packedUint32Count bits := by
    rw [packIndices]
    split
    case isTrue => rw [List.length_replicate]
    case isFalse => rw [AlignedPacking.length_packFrom, List.length_replicate]
  rw [List.append_assoc]
  refine ⟨_, reads_storage hentry hmem hpos hlength (fun hzero => ?_) hcount, fun index h => ?_⟩
  · rw [hzero] at hfits
    omega
  · obtain ⟨number, hnumber, hvalue⟩ := hspec index h
    refine expand_packIndices hmem hindices h ?_
    rw [hnumber, Option.getD_some, List.getElem?_map, hvalue, Option.map_some]

/-! ## A subchunk -/

theorem reads_decodeSubChunk {count : ℕ} (hcount : count < 256) {row : ℤ}
    (hrow : kMinSubChunkY ≤ row + kMinSubChunkY ∧ row + kMinSubChunkY ≤ kMaxSubChunkY) {body : List UInt8}
    {layers : List BlockLayer} (hbody : Reads (decodeLayers codec air count 0 [fun _ => air]) body layers) :
    Reads (decodeSubChunk codec air) ([9] ++ ([UInt8.ofNat count] ++
      ([UInt8.ofNat ((row + kMinSubChunkY) % 256).toNat] ++ body))) (layers, row) := by
  have hmin : kMinSubChunkY = -4 := rfl
  have hmax : kMaxSubChunkY = 19 := rfl
  have hindex : Int.bmod (((row + kMinSubChunkY) % 256).toNat : ℕ) 256 - kMinSubChunkY = row := by
    rw [Int.bmod]
    omega
  refine (@reads_byte 9 (by decide)).bind ((reads_byte hcount).bind ((reads_byte (by omega)).bind ?_))
  rw [hindex]
  exact hbody.map

/-- The second layer counts when it has a block. -/
theorem countedLayers_cases (layer0 : BlockLayer) (layer1 : Option BlockLayer) :
    (countedLayers air layer0 layer1 = [layer0] ∧
      ∀ index < 4096, (layer1.elim air fun blocks => blocks index) = air) ∨
    ∃ blocks, layer1 = some blocks ∧ countedLayers air layer0 layer1 = [layer0, blocks] ∧
      ∃ index < 4096, blocks index ≠ air := by
  cases layer1 with
  | none => exact .inl ⟨rfl, fun _ _ => rfl⟩
  | some blocks =>
    rw [countedLayers]
    split
    case isTrue hall =>
      exact .inl ⟨rfl, fun index h => of_decide_eq_true (List.all_eq_true.mp hall index (List.mem_range.mpr h))⟩
    case isFalse hnot =>
      rw [List.all_eq_true, not_forall] at hnot
      obtain ⟨index, hnot⟩ := hnot
      obtain ⟨hindex, hblock⟩ := Classical.not_imp.mp hnot
      exact .inr ⟨blocks, rfl, rfl, index, List.mem_range.mp hindex, fun hair => hblock (decide_eq_true hair)⟩

/-- A subchunk is read back, with its row; a block has become what its entry in the palette stands for. -/
theorem reads_encodeSubChunk (hcodec : codec.Restores air written) (layer0 : BlockLayer)
    (layer1 : Option BlockLayer) {row : ℤ}
    (hrow : kMinSubChunkY ≤ row + kMinSubChunkY ∧ row + kMinSubChunkY ≤ kMaxSubChunkY) :
    ∃ layers, Reads (decodeSubChunk codec air) (encodeSubChunk codec air layer0 layer1 row) (layers, row) ∧
      ∀ index < 4096, (layers.headD fun _ => air) index = written (layer0 index) ∧
        (layers[1]?.elim air fun blocks => blocks index) =
          written (layer1.elim air fun blocks => blocks index) := by
  obtain ⟨first, hfirst, hblocks⟩ := reads_encodeStorage hcodec.entry layer0
  rw [encodeSubChunk]
  obtain ⟨hcounted, hempty⟩ | ⟨blocks, rfl, hcounted, -⟩ := @countedLayers_cases air layer0 layer1
  · have hlayers : Reads (decodeLayers codec air 1 0 [fun _ => air]) (encodeStorage codec layer0 ++ []) [first] :=
      hfirst.bind (.pure _)
    refine ⟨[first], ?_, fun index h => ⟨hblocks index h, ?_⟩⟩
    · rw [hcounted, List.flatMap_cons, List.append_assoc]
      exact reads_decodeSubChunk (by simp) hrow hlayers
    · rw [hempty index h, hcodec.air_eq]
      rfl
  · obtain ⟨second, hsecond, hothers⟩ := reads_encodeStorage hcodec.entry blocks
    have hlayers : Reads (decodeLayers codec air 2 0 [fun _ => air])
        (encodeStorage codec layer0 ++ (encodeStorage codec blocks ++ [])) [first, second] :=
      hfirst.bind (hsecond.bind (.pure _))
    refine ⟨[first, second], ?_, fun index h => ⟨hblocks index h, hothers index h⟩⟩
    rw [hcounted, List.flatMap_cons, List.flatMap_cons, List.append_assoc]
    exact reads_decodeSubChunk (by simp) hrow hlayers

theorem encodeStorage_congr {blocks other : BlockLayer} (h : ∀ index < 4096, blocks index = other index) :
    encodeStorage codec blocks = encodeStorage codec other := by
  have hpalette : paletteOf blocks = paletteOf other :=
    congrArg (List.foldl _ _) (List.map_congr_left fun index hindex => h index (List.mem_range.mp hindex))
  rw [encodeStorage, encodeStorage, hpalette]
  generalize paletteOf other = table
  have hpacked (bits : ℕ) : packIndices (fun index => (table.indices.lookup (blocks index)).getD 0) bits =
      packIndices (fun index => (table.indices.lookup (other index)).getD 0) bits := by
    rw [packIndices, packIndices]
    refine if_congr Iff.rfl rfl (congrArg _ (List.map_congr_left fun index hindex => ?_))
    rw [h _ (blockIndex_blockIndex (List.mem_range.mp hindex)).1]
  rw [hpacked]

/-- A payload depends on the blocks only. -/
theorem encodeSubChunk_congr {layer0 other0 : BlockLayer} {layer1 other1 : Option BlockLayer}
    (h0 : ∀ index < 4096, layer0 index = other0 index)
    (h1 : ∀ index < 4096, (layer1.elim air fun blocks => blocks index) = other1.elim air fun blocks => blocks index)
    (row : ℤ) : encodeSubChunk codec air layer0 layer1 row = encodeSubChunk codec air other0 other1 row := by
  have hstorage := @encodeStorage_congr codec _ _ h0
  rw [encodeSubChunk, encodeSubChunk]
  obtain ⟨hcounted, hempty⟩ | ⟨blocks, rfl, hcounted, hblock⟩ := @countedLayers_cases air layer0 layer1 <;>
    obtain ⟨hcounted', hempty'⟩ | ⟨blocks', rfl, hcounted', hblock'⟩ := @countedLayers_cases air other0 other1 <;>
    rw [hcounted, hcounted']
  · simp only [List.flatMap_singleton, List.length_singleton, hstorage]
  · obtain ⟨index, hindex, hne⟩ := hblock'
    exact absurd ((h1 index hindex).symm.trans (hempty index hindex)) hne
  · obtain ⟨index, hindex, hne⟩ := hblock
    exact absurd ((h1 index hindex).trans (hempty' index hindex)) hne
  · simp only [List.flatMap_cons, List.length_cons, hstorage, @encodeStorage_congr codec blocks blocks' h1]

/-- Every subchunk that is written is read back, and writing again what was read gives the same bytes. -/
theorem encodeSubChunk_decoded (hcodec : codec.Restores air id) (layer0 : BlockLayer)
    (layer1 : Option BlockLayer) {row : ℤ}
    (hrow : kMinSubChunkY ≤ row + kMinSubChunkY ∧ row + kMinSubChunkY ≤ kMaxSubChunkY) :
    ∃ layers, Reads (decodeSubChunk codec air) (encodeSubChunk codec air layer0 layer1 row) (layers, row) ∧
      (∀ index < 4096, (layers.headD fun _ => air) index = layer0 index ∧
        (layers[1]?.elim air fun blocks => blocks index) = layer1.elim air fun blocks => blocks index) ∧
      encodeSubChunk codec air (layers.headD fun _ => air) layers[1]? row =
        encodeSubChunk codec air layer0 layer1 row := by
  obtain ⟨layers, hreads, hblocks⟩ := reads_encodeSubChunk hcodec layer0 layer1 hrow
  exact ⟨layers, hreads, hblocks,
    encodeSubChunk_congr (fun index h => (hblocks index h).1) (fun index h => (hblocks index h).2) row⟩

/-- Entries of four bytes. -/
def wordCodec : PaletteCodec := ⟨fun id => littleEndian 4 id.toNat, UInt32.ofNat <$> number 4⟩

theorem wordCodec_restores : wordCodec.Restores 0 id where
  entry id := by
    have hread := (@reads_number 4 id.toNat (UInt32.toNat_lt id)).map (f := UInt32.ofNat)
    rwa [UInt32.ofNat_toNat] at hread
  air_eq := rfl

/-- A subchunk with a block in the second layer. -/
theorem encodeSubChunk_decoded_word :
    ∃ layers, Reads (decodeSubChunk wordCodec 0) (encodeSubChunk wordCodec 0
        (fun index => if index < 2 then 7 else 0) (some fun index => if index = 4095 then 9 else 0) 3) (layers, 3) ∧
      (layers.headD fun _ => 0) 1 = 7 ∧ (layers[1]?.elim 0 fun blocks => blocks 4095) = 9 := by
  obtain ⟨layers, hreads, hblocks, -⟩ := @encodeSubChunk_decoded wordCodec 0 wordCodec_restores
    (fun index => if index < 2 then 7 else 0) (some fun index => if index = 4095 then 9 else 0) 3 (by decide)
  exact ⟨layers, hreads, (hblocks 1 (by decide)).1, (hblocks 4095 (by decide)).2⟩

end SubChunkPayload

end WaterStructure
