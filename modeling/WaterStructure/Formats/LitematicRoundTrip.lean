import WaterStructure.Formats.Litematic

/-!
# Litematic round trip

The writer's and the reader's words are the packed fields of the bit-packing library, with a
width that holds every palette index. So each entry is read back, and the chunks that the
reader materialises give every cell the palette entry that was written for it.
-/

namespace WaterStructure.Litematic

open BitPacking InternTable LastValue

/-- Every bit is counted. -/
theorem lt_two_pow_countBits (value : ℕ) : value < 2 ^ countBits value := by
  induction value using Nat.strongRecOn with
  | ind value ih =>
    unfold countBits
    split_ifs with hpos
    · simp [hpos]
    · have hhalf := ih (value / 2) (by omega)
      rw [pow_succ]
      omega

/-- No bit is counted twice. -/
theorem countBits_le {value n : ℕ} (h : value < 2 ^ n) : countBits value ≤ n := by
  induction n generalizing value with
  | zero =>
    obtain rfl : value = 0 := by simpa using h
    simp [countBits]
  | succ n ih =>
    unfold countBits
    split
    · omega
    · have hhalf := ih (show value / 2 < 2 ^ n by rw [pow_succ] at h; omega)
      omega

/-- The reader recomputes the writer's width. -/
theorem bitsForPalette_eq (size : ℕ) :
    Reader.bitsForPalette size = Writer.bitsForPalette size := rfl

/-- The width holds every index of the palette, and stays between 2 and 32 bits. -/
theorem bitsForPalette_bounds {size : ℕ} (hpos : 0 < size) (hsize : size ≤ 2 ^ 32) :
    2 ≤ Writer.bitsForPalette size ∧ Writer.bitsForPalette size ≤ 32 ∧
      ∀ index < size, index < 2 ^ Writer.bitsForPalette size := by
  have hle : countBits (size - 1) ≤ 32 := countBits_le (by omega)
  rw [Writer.bitsForPalette, if_pos hpos]
  refine ⟨le_max_left _ _, max_le (by decide) hle, fun index hindex => ?_⟩
  calc index ≤ size - 1 := by omega
    _ < 2 ^ countBits (size - 1) := lt_two_pow_countBits _
    _ ≤ 2 ^ max 2 (countBits (size - 1)) := Nat.pow_le_pow_right (by decide) (le_max_right _ _)

variable {bits : ℕ} {indexOf : BlockPos → Option ℕ} {assign : BlockPos → ℕ} {size : Size}

/-- The writer's update is the library's field store. -/
theorem packBlock_eq_orField {blockIndex : ℕ} (hstart : blockIndex * bits < 2 ^ 64)
    (packed : List (BitVec 64)) (value : ℕ) :
    Writer.packBlock bits packed blockIndex value =
      orField packed (blockIndex * bits) bits (BitVec.ofNat 64 value) := by
  simp only [Writer.packBlock, Nat.mod_eq_of_lt hstart, orField, orWord]
  cases packed[blockIndex * bits / 64]? with
  | none => rfl
  | some current =>
    simp only [Option.map_some, Option.bind_some]
    split
    · split
      case h_1 hnone => rw [hnone]; rfl
      case h_2 next hsome => rw [hsome]; rfl
    · rfl

/-- The reader's entry is the library's field load. -/
theorem paletteIndexAt_eq_readField {index : ℕ} (hstart : index * bits < 2 ^ 64)
    (packed : List (BitVec 64)) :
    Reader.paletteIndexAt packed bits index =
      (readField packed (index * bits) bits).toNat % 2 ^ 32 := by
  simp only [Reader.paletteIndexAt, Nat.mod_eq_of_lt hstart, readField]
  cases packed[index * bits / 64]? with
  | none => rfl
  | some current => cases packed[index * bits / 64 + 1]? <;> rfl

/-- The packing loop stores the looked-up entries as consecutive fields. -/
theorem packCells_eq_packFrom (cells : List BlockPos)
    (hassign : ∀ pos ∈ cells, indexOf pos = some (assign pos)) (blockIndex : ℕ)
    (hfits : (blockIndex + cells.length) * bits < 2 ^ 64) (packed : List (BitVec 64)) :
    Writer.packCells bits indexOf cells blockIndex packed =
      packFrom bits packed blockIndex (cells.map fun pos => BitVec.ofNat 64 (assign pos)) := by
  induction cells generalizing blockIndex packed with
  | nil => rfl
  | cons pos rest ih =>
    rw [List.length_cons] at hfits
    have hstart : blockIndex * bits < 2 ^ 64 :=
      (Nat.mul_le_mul_right bits (by omega)).trans_lt hfits
    have hrest : (blockIndex + 1 + rest.length) * bits < 2 ^ 64 := by
      rwa [Nat.add_assoc, Nat.add_comm 1]
    rw [Writer.packCells, hassign pos List.mem_cons_self, Option.bind_some,
      packBlock_eq_orField hstart, List.map_cons, packFrom]
    congr 1
    funext packed'
    exact ih (fun p hp => hassign p (List.mem_cons_of_mem pos hp)) (blockIndex + 1) hrest packed'

/-- A structure that a 32-bit volume fits packs below 2⁶⁴ bits. -/
theorem mul_bits_lt {count : ℕ} (hcount : count ≤ 2 ^ 31) (hbits : bits ≤ 32) :
    count * bits < 2 ^ 62 :=
  calc count * bits ≤ 2 ^ 31 * 32 := Nat.mul_le_mul hcount hbits
    _ < 2 ^ 62 := by decide

/-- The word count is the number of bits divided by 64, rounded up. -/
theorem wordCount_eq {volume : ℕ} (h : volume * bits < 2 ^ 62) :
    Writer.wordCount volume bits = (volume * bits + 63) / 64 := by
  rw [Writer.wordCount, Nat.mod_eq_of_lt (by omega), Nat.mod_eq_of_lt (by omega)]

/-- Packing the cells succeeds, fills exactly the reserved words, and every entry is read
back at the place of its cell. -/
theorem packCells_round_trip (hbits : 2 ≤ bits) (hbits' : bits ≤ 32)
    (hcount : size.cellsYZX.length ≤ 2 ^ 31)
    (hindex : ∀ pos ∈ size.cellsYZX, indexOf pos = some (assign pos))
    (hassign : ∀ pos ∈ size.cellsYZX, assign pos < 2 ^ bits) :
    ∃ packed, Writer.packCells bits indexOf size.cellsYZX 0
        (List.replicate (Writer.wordCount size.cellsYZX.length bits) 0) = some packed ∧
      packed.length = (size.cellsYZX.length * bits + 63) / 64 ∧
      ∀ pos, size.Contains pos →
        Reader.paletteIndexAt packed bits (size.cellIndex pos) = assign pos := by
  have hsmall := mul_bits_lt hcount hbits'
  have hwords := wordCount_eq hsmall
  have hvalues : ∀ value ∈ size.cellsYZX.map fun pos => BitVec.ofNat 64 (assign pos),
      value.toNat < 2 ^ bits := by
    intro value hvalue
    obtain ⟨pos, hpos, rfl⟩ := List.mem_map.mp hvalue
    exact (Nat.mod_le _ _).trans_lt (hassign pos hpos)
  have hfits : (([] : List (BitVec 64)).length +
      (size.cellsYZX.map fun pos => BitVec.ofNat 64 (assign pos)).length) * bits ≤
        (List.replicate (Writer.wordCount size.cellsYZX.length bits) (0 : BitVec 64)).length * 64 := by
    rw [List.length_nil, Nat.zero_add, List.length_map, List.length_replicate, hwords]
    omega
  obtain ⟨packed, hpacked, hlength, hstream⟩ := packFrom_spec (w := 64) (by decide)
    (by omega : 0 < bits) [] _ (List.replicate (Writer.wordCount size.cellsYZX.length bits) 0)
    (fun j => by rw [bitAt_replicate_zero]; simp [fieldBit]) hvalues hfits
  refine ⟨packed, ?_, by rw [hlength, List.length_replicate, hwords], fun pos hpos => ?_⟩
  · rw [packCells_eq_packFrom _ hindex 0 (by rw [Nat.zero_add]; omega)]
    exact hpacked
  · have hlt := Size.cellIndex_lt hpos
    have hplace : size.cellIndex pos * bits < 2 ^ 64 :=
      (Nat.mul_le_mul_right bits hlt.le).trans_lt (by omega)
    have hfield := readField_of_fieldBit (w := 64) (by decide) (by omega) (by omega) hstream
      (by simpa using hvalues) (by rw [hlength]; simpa using hfits)
      (i := size.cellIndex pos) (by simpa using hlt)
    have hcell := List.getElem?_eq_some_iff.mp (Size.getElem?_cellsYZX hpos)
    have hbound : assign pos < 2 ^ 32 := (hassign pos (Size.mem_cellsYZX.mpr hpos)).trans_le
      (Nat.pow_le_pow_right (by decide) hbits')
    rw [paletteIndexAt_eq_readField hplace, hfield]
    simp only [List.nil_append, List.getElem_map, hcell.2, BitVec.toNat_ofNat]
    omega

namespace LitematicStructure

/-- The block that the reader stores for a source cell; air and unknown entries are skipped. -/
def sourceBlock (s : LitematicStructure) (air : RuntimeId) (cell : BlockPos) : Option RuntimeId :=
  match s.palette[s.paletteIndexAt (s.originalSize.cellIndex cell)]? with
  | none => none
  | some id => if id = air then none else some id

/-- The loops visit the source cells that the offset moves into the chunk. -/
theorem mem_cellsOf (s : LitematicStructure) (chunkPos : ChunkPos) (cell : BlockPos) :
    cell ∈ s.cellsOf chunkPos ↔
      s.originalSize.Contains cell ∧ blockToChunk (cell.add s.offset) = chunkPos := by
  obtain ⟨x, y, z⟩ := cell
  obtain ⟨cx, cz⟩ := chunkPos
  simp only [cellsOf, blockToChunk, BlockPos.add, Size.Contains, floorDiv_sixteen,
    ChunkPos.mk.injEq]
  split_ifs with hempty
  · simp only [List.not_mem_nil, false_iff]; omega
  · simp only [List.mem_flatMap, List.mem_map, Int.mem_range_iff, BlockPos.mk.injEq]
    constructor
    · rintro ⟨y, hy, z, hz, x, hx, rfl, rfl, rfl⟩
      omega
    · rintro ⟨⟨hx, hy, hz⟩, hcx, hcz⟩
      exact ⟨y, by omega, z, by omega, x, by omega, rfl, rfl, rfl⟩

/-- Filling a chunk is a sweep over its cells. -/
theorem foldl_storeCell_eq_sweep (s : LitematicStructure) (air : RuntimeId)
    (chunkPos : ChunkPos) :
    (s.cellsOf chunkPos).foldl (s.storeCell air chunkPos) {} =
      ChunkData.sweep {} air (s.cellsOf chunkPos) (·.add s.offset) (s.sourceBlock air) := by
  refine ChunkData.foldl_eq_sweep {} fun chunk hlayout cell hcell => ?_
  obtain ⟨hinside, hchunk⟩ := (s.mem_cellsOf chunkPos cell).mp hcell
  have hindex : (cell.y * (s.originalSize.width * s.originalSize.length) +
      cell.z * s.originalSize.width + cell.x).toNat = s.originalSize.cellIndex cell := by
    rw [Size.cellIndex]
    congr 1
    ring
  have hx : floorMod (cell.x + s.offset.x) 16 = cell.x + s.offset.x - chunkPos.x * 16 := by
    rw [← hchunk]
    rfl
  have hz : floorMod (cell.z + s.offset.z) 16 = cell.z + s.offset.z - chunkPos.z * 16 := by
    rw [← hchunk]
    rfl
  simp only [storeCell, sourceBlock, hindex]
  cases s.palette[s.paletteIndexAt (s.originalSize.cellIndex cell)]? with
  | none => rfl
  | some id =>
    by_cases hair : id = air
    · simp [hair]
    · simp only [hair, if_false, ChunkData.setAt, BlockPos.add, hx, hz, hlayout,
        BlockLayerLayout.index]

/-- Every requested chunk shows the source moved by the offset, and air around it. -/
theorem blockAt_getChunks (s : LitematicStructure) (air : RuntimeId) (positions : List ChunkPos)
    {pos : BlockPos} (hpos : blockToChunk pos ∈ positions) :
    (s.getChunks air positions).blockAt air pos =
      some (if s.originalSize.Contains (pos.sub s.offset) then
        (s.sourceBlock air (pos.sub s.offset)).getD air else air) := by
  rw [getChunks, ChunkMap.blockAt_forEach_emplaceAll, if_pos hpos, foldl_storeCell_eq_sweep]
  exact congrArg some (ChunkData.blockAt_sweep_add (s.mem_cellsOf _) _)

end LitematicStructure

variable {palette : List BlockState} {javaState : RuntimeId → Option BlockState} {air : RuntimeId}
  {getChunksLayer0 : List ChunkPos → Except String ChunkMap} {options : ConversionOptions}

/-- The reader accepts a region whose words hold all entries, and keeps its data. -/
theorem read_of_enough_words (hwidth : 0 < size.width) (hheight : 0 < size.height)
    (hlength : 0 < size.length) (hpalette : 0 < palette.length) {packed : List (BitVec 64)}
    (hwords : size.volume.toNat * Writer.bitsForPalette palette.length ≤ packed.length * 64)
    (hsmall : packed.length * 64 < 2 ^ 64) (resolve : BlockState → Option RuntimeId)
    (unknown air : RuntimeId) :
    let ids := palette.map fun entry => (resolve entry).getD unknown
    let bits := Writer.bitsForPalette palette.length
    Reader.read resolve unknown air
        ⟨⟨0, 0, 0⟩, ⟨size.width, size.height, size.length⟩, palette, packed⟩ =
      .ok ⟨⟨0, 0, 0⟩, size, ids, bits, packed,
        Reader.countNonAir air ids packed bits size.volume.toNat, ⟨0, 0, 0⟩⟩ := by
  intro ids bits
  obtain ⟨w, h, l⟩ := size
  have hbits : 0 < bits := (by decide : 0 < 2).trans_le (le_max_left _ _)
  have hids : ids.isEmpty = false := by
    rw [List.isEmpty_eq_false_iff, ← List.length_pos_iff]
    simpa [ids] using hpalette
  have hvolume : ¬ (⟨w, h, l⟩ : Size).volume.toNat > (2 ^ 64 - 1) / bits := by
    rw [not_lt, Nat.le_div_iff_mul_le hbits]
    exact hwords.trans (by omega)
  have hpositive : ¬ (w ≤ 0 ∨ h ≤ 0 ∨ l ≤ 0) := by
    simp only at hwidth hheight hlength
    omega
  have henough : ¬ packed.length * 64 % 2 ^ 64 < (⟨w, h, l⟩ : Size).volume.toNat * bits := by
    rw [Nat.mod_eq_of_lt hsmall]
    exact Nat.not_lt.mpr hwords
  simp only [Reader.read, Int.natAbs_of_nonneg hwidth.le, Int.natAbs_of_nonneg hheight.le,
    Int.natAbs_of_nonneg hlength.le, if_neg hpositive, List.length_map, bitsForPalette_eq]
  rw [if_neg (by rw [hids]; decide), if_neg hvolume, if_neg henough]

/-- Packed entries of any palette pass the reader's checks and come back as the reader's ids of
the palette states assigned to the cells. -/
theorem assignment_round_trip (hwidth : 0 < size.width) (hheight : 0 < size.height)
    (hlength : 0 < size.length) (hvolume : size.volume ≤ int32Max) (hpalette : palette.length ≤ 2 ^ 32)
    (hindex : ∀ pos, size.Contains pos → indexOf pos = some (assign pos))
    (hassign : ∀ pos, size.Contains pos → assign pos < palette.length)
    (resolve : BlockState → Option RuntimeId) (unknown air : RuntimeId) :
    let bits := Writer.bitsForPalette palette.length
    ∃ packed s, Writer.packCells bits indexOf size.cellsYZX 0
        (List.replicate (Writer.wordCount size.volume.toNat bits) 0) = some packed ∧
      packed.length = (size.volume.toNat * bits + 63) / 64 ∧
      Reader.read resolve unknown air
        ⟨⟨0, 0, 0⟩, ⟨size.width, size.height, size.length⟩, palette, packed⟩ = .ok s ∧
      (∀ pos, size.Contains pos → s.paletteIndexAt (size.cellIndex pos) = assign pos) ∧
      ∀ positions pos (hpos : size.Contains pos), blockToChunk pos ∈ positions →
        (s.getChunks air positions).blockAt air pos =
          some ((resolve (palette.get ⟨assign pos, hassign pos hpos⟩)).getD unknown) := by
  intro bits
  have hcells := Size.length_cellsYZX_eq_volume hwidth hheight hlength
    (hvolume.trans_lt (by decide))
  have hcount : size.volume.toNat = size.cellsYZX.length := by omega
  have hcount' : size.cellsYZX.length ≤ 2 ^ 31 := by
    rw [← hcount]
    unfold int32Max at hvolume
    omega
  have horigin : size.Contains ⟨0, 0, 0⟩ := ⟨⟨le_rfl, hwidth⟩, ⟨le_rfl, hheight⟩, le_rfl, hlength⟩
  have hnonempty : 0 < palette.length := (Nat.zero_le _).trans_lt (hassign _ horigin)
  obtain ⟨hbits, hbits', hall⟩ := bitsForPalette_bounds hnonempty hpalette
  obtain ⟨packed, hpacked, hwords, hentries⟩ := packCells_round_trip hbits hbits' hcount'
    (fun pos hpos => hindex pos (Size.mem_cellsYZX.mp hpos))
    (fun pos hpos => hall _ (hassign pos (Size.mem_cellsYZX.mp hpos)))
  have hsmall := mul_bits_lt hcount' hbits'
  rw [← hcount] at hpacked hwords hsmall
  have hread := read_of_enough_words hwidth hheight hlength hnonempty
    (by rw [hwords]; omega) (by rw [hwords]; omega) resolve unknown air
  refine ⟨packed, _, hpacked, hwords, hread, hentries, fun positions pos hpos hchunk => ?_⟩
  have hentry := hentries pos hpos
  have hlookup : (palette.map fun entry => (resolve entry).getD unknown)[assign pos]? =
      some ((resolve (palette.get ⟨assign pos, hassign pos hpos⟩)).getD unknown) := by
    rw [List.getElem?_map, List.getElem?_eq_getElem (hassign pos hpos)]
    rfl
  have hunmoved : pos.sub ⟨0, 0, 0⟩ = pos := by simp [BlockPos.sub]
  rw [LitematicStructure.blockAt_getChunks _ air positions hchunk]
  simp only [hunmoved, if_pos hpos, LitematicStructure.sourceBlock,
    LitematicStructure.paletteIndexAt, hentry, hlookup]
  split_ifs with hair
  · rw [hair]; rfl
  · rfl

/-- The palette of the writer: every state of the structure has a number, and each number
names an entry with the key of that state. -/
theorem buildPalette_spec (javaState : RuntimeId → Option BlockState) (air : RuntimeId)
    (size : Size) (chunks : ChunkMap) :
    let table := Writer.buildPalette javaState air size chunks
    table.values.length ≤ size.cellsYZX.length + 1 ∧
      ∀ pos, size.Contains pos → ∃ index state,
        table.indices.lookup (Writer.paletteKey
          (Writer.javaPaletteState javaState (Writer.blockAt chunks air pos))) = some index ∧
        table.values[index]? = some state ∧
        Writer.paletteKey state = Writer.paletteKey
          (Writer.javaPaletteState javaState (Writer.blockAt chunks air pos)) := by
  intro table
  let added := size.cellsYZX.map fun pos =>
    Writer.javaPaletteState javaState (Writer.blockAt chunks air pos)
  let airState := Writer.javaPaletteState javaState air
  let start : Table BlockState (List Char) :=
    ⟨[airState], AList.singleton (Writer.paletteKey airState) 0⟩
  have htable : table = added.foldl (Table.add Writer.paletteKey) start := by
    simp only [table, Writer.buildPalette, added, List.foldl_map]
    rfl
  obtain ⟨hsound, -, hknows⟩ := Table.foldl_add added start
    (Table.sound_singleton Writer.paletteKey airState)
  rw [← htable] at hsound hknows
  refine ⟨?_, fun pos hpos => ?_⟩
  · rw [htable]
    have hadds := @Table.length_foldl_add_le _ _ _ Writer.paletteKey added start
    rwa [List.length_map, Nat.add_comm] at hadds
  · have hmem : Writer.javaPaletteState javaState (Writer.blockAt chunks air pos) ∈ added :=
      List.mem_map.mpr ⟨pos, Size.mem_cellsYZX.mpr hpos, rfl⟩
    obtain ⟨index, hindex⟩ := Option.isSome_iff_exists.mp (hknows _ hmem)
    obtain ⟨state, hstate, hkey⟩ := hsound _ index hindex
    exact ⟨index, state, hindex, hstate, hkey⟩

/-- The number under which the writer finds the state of a cell. -/
def writtenIndex (javaState : RuntimeId → Option BlockState) (air : RuntimeId) (size : Size)
    (chunks : ChunkMap) (pos : BlockPos) : ℕ :=
  ((Writer.buildPalette javaState air size chunks).indices.lookup (Writer.paletteKey
    (Writer.javaPaletteState javaState (Writer.blockAt chunks air pos)))).getD 0

/-- The writer looks up every cell, and finds an entry with the key of its state. -/
theorem writtenIndex_spec (javaState : RuntimeId → Option BlockState) (air : RuntimeId)
    (chunks : ChunkMap) {pos : BlockPos} (hpos : size.Contains pos) :
    let table := Writer.buildPalette javaState air size chunks
    let key := Writer.paletteKey (Writer.javaPaletteState javaState (Writer.blockAt chunks air pos))
    table.indices.lookup key = some (writtenIndex javaState air size chunks pos) ∧
      ∃ state, table.values[writtenIndex javaState air size chunks pos]? = some state ∧
        Writer.paletteKey state = key := by
  obtain ⟨index, state, hlookup, hvalue, hkey⟩ :=
    (buildPalette_spec javaState air size chunks).2 pos hpos
  have hindex : writtenIndex javaState air size chunks pos = index := by
    rw [writtenIndex, hlookup, Option.getD_some]
  rw [hindex]
  exact ⟨hlookup, state, hvalue, hkey⟩

/-- The writer's own assignment goes through the reader. -/
theorem writer_round_trip (hwidth : 0 < size.width) (hheight : 0 < size.height)
    (hlength : 0 < size.length) (hvolume : size.volume ≤ int32Max)
    (javaState : RuntimeId → Option BlockState) (resolve : BlockState → Option RuntimeId)
    (unknown air : RuntimeId) (chunks : ChunkMap) :
    let table := Writer.buildPalette javaState air size chunks
    let bits := Writer.bitsForPalette table.values.length
    ∃ packed s, Writer.packCells bits
          (fun pos => table.indices.lookup (Writer.paletteKey
            (Writer.javaPaletteState javaState (Writer.blockAt chunks air pos))))
          size.cellsYZX 0 (List.replicate (Writer.wordCount size.volume.toNat bits) 0) =
        some packed ∧
      packed.length = (size.volume.toNat * bits + 63) / 64 ∧
      Reader.read resolve unknown air
        ⟨⟨0, 0, 0⟩, ⟨size.width, size.height, size.length⟩, table.values, packed⟩ = .ok s ∧
      ∀ positions pos, size.Contains pos → blockToChunk pos ∈ positions →
        ∃ state, table.values[s.paletteIndexAt (size.cellIndex pos)]? = some state ∧
          Writer.paletteKey state = Writer.paletteKey
            (Writer.javaPaletteState javaState (Writer.blockAt chunks air pos)) ∧
          (s.getChunks air positions).blockAt air pos = some ((resolve state).getD unknown) := by
  intro table bits
  have hcells := Size.length_cellsYZX_eq_volume hwidth hheight hlength
    (hvolume.trans_lt (by decide))
  have hlen : table.values.length ≤ size.cellsYZX.length + 1 :=
    (buildPalette_spec javaState air size chunks).1
  have hpalette : table.values.length ≤ 2 ^ 32 := by
    unfold int32Max at hvolume
    omega
  have hassign (pos : BlockPos) (hpos : size.Contains pos) :
      writtenIndex javaState air size chunks pos < table.values.length := by
    obtain ⟨-, state, hvalue, -⟩ := writtenIndex_spec javaState air chunks hpos
    exact (List.getElem?_eq_some_iff.mp hvalue).1
  obtain ⟨packed, s, hpacked, hwords, hread, hentries, hblocks⟩ := assignment_round_trip hwidth
    hheight hlength hvolume hpalette
    (fun pos hpos => (writtenIndex_spec javaState air chunks hpos).1) hassign resolve unknown air
  refine ⟨packed, s, hpacked, hwords, hread, fun positions pos hpos hchunk => ?_⟩
  obtain ⟨-, state, hvalue, hkey⟩ := writtenIndex_spec javaState air chunks hpos
  refine ⟨state, by rw [hentries pos hpos]; exact hvalue, hkey, ?_⟩
  rw [hblocks positions pos hpos hchunk]
  exact congrArg (fun entry => some ((resolve entry).getD unknown))
    (List.getElem?_eq_some_iff.mp hvalue).2

/-- The region written for the given chunks, before it is known that packing succeeds. -/
theorem writeLitematic_cases {region : Region}
    (h : Writer.writeLitematic javaState air size getChunksLayer0 options = .ok region) :
    ∃ chunks packed, getChunksLayer0 (Writer.positions size) = .ok chunks ∧
      0 < size.width ∧ 0 < size.height ∧ 0 < size.length ∧ size.volume ≤ int32Max ∧
      let table := Writer.buildPalette javaState air size chunks
      let bits := Writer.bitsForPalette table.values.length
      Writer.packCells bits
          (fun pos => table.indices.lookup (Writer.paletteKey
            (Writer.javaPaletteState javaState (Writer.blockAt chunks air pos))))
          size.cellsYZX 0 (List.replicate (Writer.wordCount size.volume.toNat bits) 0) =
        some packed ∧
      region = ⟨⟨0, 0, 0⟩, ⟨size.width, size.height, size.length⟩, table.values, packed⟩ := by
  unfold Writer.writeLitematic at h
  obtain ⟨hsize, h⟩ := NestedLoop.else_of_ok h
  obtain ⟨_, h⟩ := NestedLoop.else_of_ok h
  simp only at h
  obtain ⟨_, h⟩ := NestedLoop.else_of_ok h
  obtain ⟨_, h⟩ := NestedLoop.else_of_ok h
  split at h
  case h_1 => cases h
  case h_2 chunks hchunks =>
    split at h
    case h_1 => cases h
    case h_2 packed hpacked =>
      cases h
      exact ⟨chunks, packed, hchunks, by omega, by omega, by omega, by omega, hpacked, rfl⟩

/-- Packing never leaves the array: a structure that passes the size and memory checks and whose
chunks can be read is written. -/
theorem exists_writeLitematic {chunks : ChunkMap} (hwidth : 0 < size.width) (hheight : 0 < size.height)
    (hlength : 0 < size.length) (hpositive : 0 < size.volume) (hvolume : size.volume ≤ int32Max)
    (hflight : options.maxInFlightChunks = 0) (hbudget : 64 * 1024 ≤ options.softMemoryBudgetBytes)
    (hwindow : (size.chunkXCount.toNat * size.chunkZCount.toNat % 2 ^ 64 *
        max (64 * 1024) ((size.height.toNat + 15) / 16 * 4096 * 4 + 8 * 1024) +
      (size.volume.toNat * 32 + 63) / 64 * 8) % 2 ^ 64 ≤ options.softMemoryBudgetBytes)
    (hchunks : getChunksLayer0 (Writer.positions size) = .ok chunks) :
    ∃ region, Writer.writeLitematic javaState air size getChunksLayer0 options = .ok region := by
  obtain ⟨packed, -, hpacked, -⟩ := writer_round_trip hwidth hheight hlength hvolume javaState
    (fun _ => none) 0 air chunks
  unfold Writer.writeLitematic
  rw [if_neg (by omega), if_neg (by omega)]
  simp only [hflight, ne_eq, not_true_eq_false, false_and, if_false]
  rw [if_neg (by omega), hchunks]
  simp only [hpacked]
  exact ⟨_, rfl⟩

/-- Every assignment of palette entries to cells survives packing and reading; so a region that
the writer produced gives every cell the palette state written for it. -/
theorem litematic_round_trip (javaState : RuntimeId → Option BlockState)
    (resolve : BlockState → Option RuntimeId) (unknown air : RuntimeId) (size : Size)
    (hwidth : 0 < size.width) (hheight : 0 < size.height) (hlength : 0 < size.length)
    (hvolume : size.volume ≤ int32Max) :
    (∀ (palette : List BlockState) (assign : BlockPos → ℕ), palette.length ≤ 2 ^ 32 →
      ∀ hassign : ∀ pos, size.Contains pos → assign pos < palette.length,
      let bits := Writer.bitsForPalette palette.length
      ∃ packed s, Writer.packCells bits (fun pos => some (assign pos)) size.cellsYZX 0
          (List.replicate (Writer.wordCount size.volume.toNat bits) 0) = some packed ∧
        packed.length = (size.volume.toNat * bits + 63) / 64 ∧
        Reader.read resolve unknown air
          ⟨⟨0, 0, 0⟩, ⟨size.width, size.height, size.length⟩, palette, packed⟩ = .ok s ∧
        (∀ pos, size.Contains pos → s.paletteIndexAt (size.cellIndex pos) = assign pos) ∧
        ∀ positions pos (hpos : size.Contains pos), blockToChunk pos ∈ positions →
          (s.getChunks air positions).blockAt air pos =
            some ((resolve (palette.get ⟨assign pos, hassign pos hpos⟩)).getD unknown)) ∧
    ∀ getChunksLayer0 options chunks region, getChunksLayer0 (Writer.positions size) = .ok chunks →
      Writer.writeLitematic javaState air size getChunksLayer0 options = .ok region →
      ∃ s, Reader.read resolve unknown air region = .ok s ∧
        region.packedStates.length =
          (size.volume.toNat * Writer.bitsForPalette region.palette.length + 63) / 64 ∧
        ∀ positions pos, size.Contains pos → blockToChunk pos ∈ positions →
          ∃ state, region.palette[s.paletteIndexAt (size.cellIndex pos)]? = some state ∧
            Writer.paletteKey state = Writer.paletteKey
              (Writer.javaPaletteState javaState (Writer.blockAt chunks air pos)) ∧
            (s.getChunks air positions).blockAt air pos =
              some ((resolve state).getD unknown) := by
  refine ⟨fun palette assign hpalette hassign => assignment_round_trip hwidth hheight hlength
    hvolume hpalette (fun _ _ => rfl) hassign resolve unknown air, ?_⟩
  intro getChunksLayer0 options chunks region hchunks hwrite
  obtain ⟨chunks', packed, hchunks', -, -, -, -, hpacked, rfl⟩ := writeLitematic_cases hwrite
  cases hchunks.symm.trans hchunks'
  obtain ⟨packed', s, hpacked', hwords, hread, hblocks⟩ := writer_round_trip hwidth hheight
    hlength hvolume javaState resolve unknown air chunks
  cases hpacked.symm.trans hpacked'
  exact ⟨s, hread, hwords, hblocks⟩

/-- Two of three cells hold the second palette state, and an all-air structure is written and
read back. -/
theorem litematic_round_trip_row :
    (∃ packed s, Writer.packCells (Writer.bitsForPalette 2)
        (fun pos => some (if pos.x = 0 then 0 else 1)) (Size.mk 3 1 1).cellsYZX 0
        (List.replicate (Writer.wordCount 3 (Writer.bitsForPalette 2)) 0) = some packed ∧
      Reader.read (fun _ => none) 7 0
        ⟨⟨0, 0, 0⟩, ⟨3, 1, 1⟩, [⟨['a'], [], 0⟩, ⟨['b'], [], 0⟩], packed⟩ = .ok s ∧
      s.paletteIndexAt 2 = 1) ∧
    ∃ region s, Writer.writeLitematic (fun _ => none) 0 ⟨3, 1, 1⟩ (fun _ => .ok ∅)
        ⟨1048576, 0⟩ = .ok region ∧
      Reader.read (fun _ => none) 7 0 region = .ok s ∧
      (s.getChunks 0 [⟨0, 0⟩]).blockAt 0 ⟨2, 0, 0⟩ = some 7 := by
  have hround := litematic_round_trip (fun _ => none) (fun _ => none) 7 0 ⟨3, 1, 1⟩ (by decide)
    (by decide) (by decide) (by decide)
  constructor
  · obtain ⟨packed, s, hpacked, -, hread, hentries, -⟩ := hround.1
      [⟨['a'], [], 0⟩, ⟨['b'], [], 0⟩] (fun pos => if pos.x = 0 then 0 else 1) (by decide)
      (fun pos _ => by
        show (if pos.x = 0 then 0 else 1) < 2
        split <;> decide)
    exact ⟨packed, s, hpacked, hread, hentries ⟨2, 0, 0⟩ (by decide)⟩
  · obtain ⟨region, hwrite⟩ : ∃ region, Writer.writeLitematic (fun _ => none) 0 ⟨3, 1, 1⟩
        (fun _ => .ok ∅) ⟨1048576, 0⟩ = .ok region :=
      exists_writeLitematic (by decide) (by decide) (by decide) (by decide) (by decide) rfl
        (by decide) (by decide) rfl
    obtain ⟨s, hread, -, hblocks⟩ := hround.2 _ _ _ region rfl hwrite
    obtain ⟨state, -, -, hblock⟩ := hblocks [⟨0, 0⟩] ⟨2, 0, 0⟩ (by decide) (by decide)
    exact ⟨region, s, hwrite, hread, hblock⟩

end WaterStructure.Litematic
