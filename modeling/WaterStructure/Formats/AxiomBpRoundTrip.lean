import Mathlib.Algebra.Order.Ring.Int
import WaterStructure.Formats.AxiomBpReading

/-!
# Blueprints round trip

The regions of a blueprint tile a box that contains the structure, so the reader goes over every
source cell exactly once; regions beyond the structure may be missing. The reader refuses regions
that span more cells than an `int32` counts, and the writer does not look for them.
-/

namespace WaterStructure

open NestedLoop

namespace AxiomBp

open NbtTag

/-! ## The document of the writer -/

/-- The parts of a successful serialisation. -/
theorem blockData_cases {registry : Registry} {size : Size}
    {getChunksLayer0 : List ChunkPos → Except String ChunkMap} {chunks : ChunkMap}
    (hchunks : getChunksLayer0 (positions size) = .ok chunks) {document : Entries} {count : ℕ}
    (h : blockData registry size getChunksLayer0 = .ok (document, count)) :
    ∃ regionsX regionsY regionsZ encoded, regionCount size.width = .ok regionsX ∧
      regionCount size.height = .ok regionsY ∧ regionCount size.length = .ok regionsZ ∧
      (regionsYZX regionsX regionsY regionsZ).mapM
        (encodeRegion registry (blockAt chunks registry.airRuntimeId size)) = .ok encoded ∧
      document = documentOf (encoded.map Prod.fst) ∧ count = (encoded.map Prod.snd).sum := by
  rw [blockData, hchunks] at h
  obtain ⟨regionsX, hx, h⟩ := exists_of_bind_ok h
  obtain ⟨regionsY, hy, h⟩ := exists_of_bind_ok h
  obtain ⟨regionsZ, hz, h⟩ := exists_of_bind_ok h
  dsimp only at h
  obtain ⟨_, h⟩ := else_of_ok h
  split at h
  case h_1 => cases h
  case h_2 encoded hencoded =>
    cases h
    exact ⟨regionsX, regionsY, regionsZ, encoded, hx, hy, hz, hencoded, rfl, rfl⟩

/-- The cubes that are written span no more cells than an `int32` counts. -/
def RegionsFit (size : Size) : Prop :=
  ∀ extent ∈ [size.width, size.height, size.length], ∀ count,
    regionCount extent = .ok count → count * 16 ≤ int32Max

/-- The regions of a structure, as far as they hold its cells. -/
structure Tiles (size : Size) (regions : List BlockPos) : Prop where
  nodup : regions.Nodup
  cover : ∀ cell, size.Contains cell → regionOf cell ∈ regions
  nonneg : ∀ region ∈ regions, 0 ≤ region.x ∧ 0 ≤ region.y ∧ 0 ≤ region.z

variable {size : Size} {count : ℕ} {registry : Registry} {regionsX regionsY regionsZ : ℤ}
  {kept : List BlockPos} {bytes : List UInt8} {getChunksLayer0 : List ChunkPos → Except String ChunkMap}
  {document : Entries}

/-- The regions that are written tile a box that contains the structure. -/
theorem tiles_regionsYZX (hsize : 0 < size.width ∧ 0 < size.height ∧ 0 < size.length)
    (hx : regionCount size.width = .ok regionsX) (hy : regionCount size.height = .ok regionsY)
    (hz : regionCount size.length = .ok regionsZ) : Tiles size (regionsYZX regionsX regionsY regionsZ) where
  nodup := Size.nodup_cellsYZX _
  cover := by
    rintro cell ⟨hcellX, hcellY, hcellZ⟩
    have hlastX := regionCount_spec hx hsize.1
    have hlastY := regionCount_spec hy hsize.2.1
    have hlastZ := regionCount_spec hz hsize.2.2
    apply Size.mem_cellsYZX.mpr
    unfold regionOf Size.Contains
    dsimp only
    omega
  nonneg := by
    intro region hregion
    obtain ⟨hregionX, hregionY, hregionZ⟩ := Size.mem_cellsYZX.mp hregion
    exact ⟨hregionX.1, hregionY.1, hregionZ.1⟩

/-- Regions without cells of the structure leave no trace. -/
theorem filter_flatMap_of_sublist {p : BlockPos → Bool} {regions : List BlockPos} (h : kept.Sublist regions)
    (hnodup : regions.Nodup)
    (hdropped : ∀ region ∈ regions, region ∉ kept → ∀ cell ∈ regionCells region, p cell = false) :
    (kept.flatMap regionCells).filter p = (regions.flatMap regionCells).filter p := by
  induction h with
  | slnil => rfl
  | @cons kept regions region hsub ih =>
    obtain ⟨hnew, hrest⟩ := List.nodup_cons.mp hnodup
    have hempty : (regionCells region).filter p = [] := by
      apply List.filter_eq_nil_iff.mpr
      intro cell hcell
      rw [hdropped region List.mem_cons_self (fun hkept => hnew (hsub.subset hkept)) cell hcell]
      exact Bool.false_ne_true
    rw [List.flatMap_cons, List.filter_append, hempty, List.nil_append]
    exact ih hrest fun other hother hout => hdropped other (List.mem_cons_of_mem _ hother) hout
  | @cons_cons kept regions region hsub ih =>
    obtain ⟨hnew, hrest⟩ := List.nodup_cons.mp hnodup
    rw [List.flatMap_cons, List.flatMap_cons, List.filter_append, List.filter_append]
    congr 1
    apply ih hrest
    intro other hother hout
    apply hdropped other (List.mem_cons_of_mem _ hother)
    intro hkept
    rcases List.mem_cons.mp hkept with rfl | hkept
    · exact hnew hother
    · exact hout hkept

/-! ## The file -/

theorem reads_skip (hcount : bytes.length = count) (field : String) :
    ByteReader.Reads (ByteReader.skip count field) bytes () := by
  intro rest
  rw [ByteReader.skip, List.length_append, if_neg (by omega), ← hcount, List.drop_left]

theorem reads_readExact (hcount : bytes.length = count) (message : String) :
    ByteReader.Reads (readExact count message) bytes bytes := by
  intro rest
  rw [readExact, List.length_append, if_neg (by omega), ← hcount, List.take_left, List.drop_left]

/-- The length of an array that is short enough. -/
theorem reads_length (hcount : (count : ℤ) ≤ int32Max) :
    ByteReader.Reads (ByteReader.i32 "AxiomBP header") (ByteReader.be32 count) count := by
  unfold int32Max at hcount
  exact ByteReader.reads_i32 _ (by omega) hcount

theorem reads_skipArray {bytes : List UInt8} (hlength : (bytes.length : ℤ) ≤ int32Max)
    (context : String) : ByteReader.Reads (skipArray context)
      (ByteReader.be32 bytes.length ++ bytes) () := by
  apply (reads_length hlength).bind
  apply ByteReader.Reads.failIf
  · unfold int32Max at hlength
    exact decide_eq_false (by omega)
  · exact reads_skip (Int.toNat_natCast _).symm context

/-- The compressed data are found behind the header, the metadata and the empty thumbnail. -/
theorem readBlockData_file {metadata compressed : List UInt8}
    (hmetadata : (metadata.length : ℤ) ≤ int32Max)
    (hcompressed : (compressed.length : ℤ) ≤ int32Max) :
    readBlockData (ByteReader.be32 kMagic ++ (ByteReader.be32 metadata.length ++ (metadata ++
      (ByteReader.be32 0 ++ (ByteReader.be32 compressed.length ++ compressed))))) =
        .ok (compressed, []) := by
  have hdata : ByteReader.Reads (do
      let length ← ByteReader.i32 "AxiomBP header"
      ByteReader.failIf (decide (length < 0)) "AxiomBP block data length is invalid"
      readExact length.toNat "AxiomBP block data length is invalid")
      (ByteReader.be32 compressed.length ++ compressed) compressed := by
    apply (reads_length hcompressed).bind
    apply ByteReader.Reads.failIf (decide_eq_false (by omega))
    exact reads_readExact (Int.toNat_natCast _).symm _
  have hthumbnail : ByteReader.Reads (skipArray "AxiomBP thumbnail") (ByteReader.be32 0) () := by
    have hempty := @reads_skipArray [] (by decide) "AxiomBP thumbnail"
    rwa [List.append_nil] at hempty
  have hfile : ByteReader.Reads readBlockData (ByteReader.be32 kMagic ++
      ((ByteReader.be32 metadata.length ++ metadata) ++
        (ByteReader.be32 0 ++ (ByteReader.be32 compressed.length ++ compressed)))) compressed := by
    apply (ByteReader.reads_i32 _ (by decide) (by decide)).bind
    apply ByteReader.Reads.failIf (by decide)
    exact (reads_skipArray hmetadata _).bind (hthumbnail.bind hdata)
  have hread := hfile []
  rwa [List.append_nil, List.append_assoc (ByteReader.be32 metadata.length)] at hread

/-- The parts of a successful write. -/
theorem writeAxiomBp_cases {codec : Codec} {metadataBytes : ℕ → Bool → List UInt8}
    {allowTemporarySpool : Bool} {options : ConversionOptions} {file : List UInt8}
    (h : writeAxiomBp registry codec metadataBytes size getChunksLayer0 allowTemporarySpool options =
      .ok file) :
    (0 < size.width ∧ 0 < size.height ∧ 0 < size.length ∧ size.volume ≤ int32Max) ∧
      ∃ document count, blockData registry size getChunksLayer0 = .ok (document, count) ∧
        readBlockData file = .ok (codec.compress document, []) := by
  rw [writeAxiomBp] at h
  obtain ⟨_, h⟩ := else_of_ok h
  obtain ⟨hsize, h⟩ := else_of_ok h
  obtain ⟨_, h⟩ := else_of_ok h
  dsimp only at h
  obtain ⟨_, h⟩ := else_of_ok h
  obtain ⟨_, h⟩ := else_of_ok h
  obtain ⟨⟨document, count⟩, hdata, h⟩ := exists_of_bind_ok h
  dsimp only at h
  obtain ⟨_, h⟩ := else_of_ok h
  obtain ⟨hcompressed, h⟩ := else_of_ok h
  obtain ⟨hmetadata, h⟩ := else_of_ok h
  cases h
  exact ⟨⟨by omega, by omega, by omega, by omega⟩, document, count, hdata,
    readBlockData_file (Int.not_lt.mp hmetadata) (Int.not_lt.mp hcompressed)⟩

/-! ## Round trip -/

/-- The regions of a structure whose cubes fit start at zero and are not too many. -/
theorem spans_of_tiles (hsize : 0 < size.width ∧ 0 < size.height ∧ 0 < size.length)
    (hx : regionCount size.width = .ok regionsX) (hy : regionCount size.height = .ok regionsY)
    (hz : regionCount size.length = .ok regionsZ) (hfit : RegionsFit size)
    (hkept : kept.Sublist (regionsYZX regionsX regionsY regionsZ))
    (hcover : ∀ cell, size.Contains cell → regionOf cell ∈ kept) : Spans kept := by
  have hfitX := hfit size.width (by simp) regionsX hx
  have hfitY := hfit size.height (by simp) regionsY hy
  have hfitZ := hfit size.length (by simp) regionsZ hz
  have hbounds : ∀ region ∈ kept, (0 ≤ region.x ∧ region.x < regionsX) ∧
      (0 ≤ region.y ∧ region.y < regionsY) ∧ 0 ≤ region.z ∧ region.z < regionsZ :=
    fun region hregion => Size.mem_cellsYZX.mp (hkept.subset hregion)
  refine ⟨hcover ⟨0, 0, 0⟩ ⟨⟨le_rfl, hsize.1⟩, ⟨le_rfl, hsize.2.1⟩, le_rfl, hsize.2.2⟩, ?_, ?_, ?_⟩
  · intro region hregion
    have := (hbounds region hregion).1
    omega
  · intro region hregion
    have := (hbounds region hregion).2.1
    omega
  · intro region hregion
    have := (hbounds region hregion).2.2
    omega

/-- Extents are at most the volume. -/
theorem extents_le_int32Max (hsize : 0 < size.width ∧ 0 < size.height ∧ 0 < size.length)
    (hvolume : size.volume ≤ int32Max) :
    size.width ≤ int32Max ∧ size.height ≤ int32Max ∧ size.length ≤ int32Max := by
  obtain ⟨hwidth, hheight, hlength⟩ := hsize
  rw [Size.volume_eq hwidth hheight hlength (hvolume.trans_lt (by decide))] at hvolume
  have harea : 0 < size.width * size.height := Int.mul_pos hwidth hheight
  have hside : size.width ≤ size.width * size.height ∧ size.height ≤ size.width * size.height :=
    ⟨le_mul_of_one_le_right hwidth.le hheight, le_mul_of_one_le_left hheight.le hwidth⟩
  have hall : size.width * size.height ≤ size.width * size.height * size.length ∧
      size.length ≤ size.width * size.height * size.length :=
    ⟨le_mul_of_one_le_right harea.le hlength, le_mul_of_one_le_left hlength.le harea⟩
  omega

/-- The blocks of a region are counted once. -/
theorem encodeRegion_count {block : BlockPos → RuntimeId} {region : BlockPos} {encoded : Tag × ℕ}
    (h : encodeRegion registry block region = .ok encoded) :
    encoded.2 = (regionCells region).countP fun cell => block cell ≠ registry.airRuntimeId := by
  obtain ⟨entries, -, hencoded⟩ := exists_of_bind_ok h
  have hstate := (holds_regionState registry.airRuntimeId block region).count
  obtain ⟨state, hdef⟩ : ∃ state, regionState registry.airRuntimeId block region = state := ⟨_, rfl⟩
  rw [hdef] at hencoded hstate
  cases hencoded
  rw [regionCells, List.countP_map]
  exact hstate

/-- The metadata are given the number of blocks of the structure. -/
theorem blockData_count {chunks : ChunkMap} (hsize : 0 < size.width ∧ 0 < size.height ∧ 0 < size.length)
    (hchunks : getChunksLayer0 (positions size) = .ok chunks)
    (h : blockData registry size getChunksLayer0 = .ok (document, count)) :
    count = size.cellsYZX.countP fun cell =>
      blockAt chunks registry.airRuntimeId size cell ≠ registry.airRuntimeId := by
  obtain ⟨regionsX, regionsY, regionsZ, encoded, hx, hy, hz, hencoded, -, rfl⟩ :=
    blockData_cases hchunks h
  have htiles := tiles_regionsYZX hsize hx hy hz
  have : Inhabited Tag := ⟨.byte 0⟩
  obtain ⟨encode, rfl, hencode⟩ := exists_map_of_mapM_ok hencoded
  rw [List.map_map]
  have hsum : (regionsYZX regionsX regionsY regionsZ).map (Prod.snd ∘ encode) =
      (regionsYZX regionsX regionsY regionsZ).map fun region => (regionCells region).countP
        fun cell => blockAt chunks registry.airRuntimeId size cell ≠ registry.airRuntimeId :=
    List.map_congr_left fun region hregion => encodeRegion_count (hencode region hregion)
  refine (congrArg List.sum hsum).trans (List.countP_flatMap.symm.trans ?_)
  apply countP_eq_of_mem_iff (nodup_cells htiles.nodup) size.nodup_cellsYZX
  intro cell hcell
  rw [decide_eq_true_iff] at hcell
  have hcontained : size.Contains cell := by
    by_contra hout
    apply hcell
    rw [blockAt, if_pos hout]
  exact iff_of_true
    (List.mem_flatMap.mpr ⟨_, htiles.cover cell hcontained, mem_regionCells.mpr rfl⟩)
    (Size.mem_cellsYZX.mpr hcontained)

/-- A loop whose steps succeed. -/
theorem exists_mapM_ok {α β : Type} {f : α → Except String β} (h : ∀ item, ∃ result, f item = .ok result)
    (items : List α) : ∃ results, items.mapM f = .ok results := by
  induction items with
  | nil => exact ⟨[], rfl⟩
  | cons item rest ih =>
    obtain ⟨result, hresult⟩ := h item
    obtain ⟨results, hresults⟩ := ih
    refine ⟨result :: results, ?_⟩
    rw [List.mapM_cons, hresult, ok_bind, hresults]
    rfl

/-- The document is written when all palette entries are. -/
theorem exists_blockData {registry : Registry} {size : Size}
    {getChunksLayer0 : List ChunkPos → Except String ChunkMap} {chunks : ChunkMap}
    (hentries : ∀ id, ∃ entry, paletteEntry registry id = .ok entry)
    (hchunks : getChunksLayer0 (positions size) = .ok chunks) {regionsX regionsY regionsZ : ℤ}
    (hx : regionCount size.width = .ok regionsX) (hy : regionCount size.height = .ok regionsY)
    (hz : regionCount size.length = .ok regionsZ)
    (htotal : ¬ (regionsX * regionsY * regionsZ ≤ 0 ∨ regionsX * regionsY * regionsZ > int32Max)) :
    ∃ document count, blockData registry size getChunksLayer0 = .ok (document, count) := by
  have hregion : ∀ region, ∃ encoded, encodeRegion registry
      (blockAt chunks registry.airRuntimeId size) region = .ok encoded := by
    intro region
    obtain ⟨entries, hall⟩ := exists_mapM_ok hentries
      (regionState registry.airRuntimeId (blockAt chunks registry.airRuntimeId size) region).palette.values
    cases hencoded : encodeRegion registry (blockAt chunks registry.airRuntimeId size) region with
    | ok encoded => exact ⟨encoded, rfl⟩
    | error error =>
      rw [encodeRegion, hall] at hencoded
      cases hencoded
  obtain ⟨encoded, hencoded⟩ := exists_mapM_ok hregion (regionsYZX regionsX regionsY regionsZ)
  refine ⟨documentOf (encoded.map Prod.fst), (encoded.map Prod.snd).sum, ?_⟩
  rw [blockData, hchunks]
  dsimp only
  rw [hx, ok_bind, hy, ok_bind, hz, ok_bind, if_neg htotal, hencoded]

/-- The file is written when the document is, the budget suffices and the compressed data are
small. -/
theorem exists_file {registry : Registry} {codec : Codec} {size : Size}
    {getChunksLayer0 : List ChunkPos → Except String ChunkMap} {chunks : ChunkMap}
    {options : ConversionOptions}
    (hsize : 0 < size.width ∧ 0 < size.height ∧ 0 < size.length)
    (hvolume : 0 < size.volume ∧ size.volume ≤ int32Max)
    (hchunks : getChunksLayer0 (positions size) = .ok chunks) {document : Entries} {count : ℕ}
    (hdata : blockData registry size getChunksLayer0 = .ok (document, count))
    (hbudget : ¬ options.softMemoryBudgetBytes < 64 * 1024) (hwindow : options.maxInFlightChunks = 0)
    (hbytes : max (64 * 1024) ((size.height.toNat + 15) / 16 * 4096 * 4 + 8 * 1024) ≤
      options.softMemoryBudgetBytes / (size.chunkXCount.toNat * size.chunkZCount.toNat))
    (hcompress : codec.compress document = []) :
    ∃ file, writeAxiomBp registry codec (fun _ _ => []) size getChunksLayer0 true options =
      .ok file := by
  have hcount : (count : ℤ) ≤ int32Max := by
    have hcells := Size.length_cellsYZX_eq_volume hsize.1 hsize.2.1 hsize.2.2
      (hvolume.2.trans_lt (by decide))
    have hle := @List.countP_le_length _ (fun cell => decide
      (blockAt chunks registry.airRuntimeId size cell ≠ registry.airRuntimeId)) size.cellsYZX
    rw [← blockData_count hsize hchunks hdata] at hle
    omega
  cases hfile : writeAxiomBp registry codec (fun _ _ => []) size getChunksLayer0 true options with
  | ok file => exact ⟨file, rfl⟩
  | error error =>
    rw [writeAxiomBp, if_neg (show ¬ true = false by decide), if_neg (by omega), if_neg hbudget] at hfile
    dsimp only at hfile
    rw [if_neg fun h => h.1 hwindow, if_neg fun h => absurd hbytes (Nat.not_le.mpr h.2), hdata,
      ok_bind] at hfile
    dsimp only at hfile
    rw [if_neg (Int.not_lt.mpr hcount), hcompress, if_neg (by decide), if_neg (by decide)] at hfile
    cases hfile

/-- A registry with air and stone. -/
def stoneRegistry : Registry where
  airRuntimeId := 0
  javaState := fun id => if id = 1 then some ⟨"minecraft:stone".toList, [], 0⟩ else none
  javaRuntimeId := fun text =>
    if text = "minecraft:air".toList then some 0
    else if text = "minecraft:stone".toList then some 1
    else none
  compatibleJavaRuntimeId := fun _ => none
  find := fun _ _ => none
  registerState := fun _ => 2

/-- A chunk of stone. -/
def stoneChunks : ChunkMap :=
  AList.singleton ⟨0, 0⟩ { subChunks := AList.singleton (-4) (.filled 1) }

/-- A codec that is lossless on the document of a structure of this size. -/
def stoneCodec (size : Size) : Codec where
  compress := fun _ => []
  inflate := fun _ => (blockData stoneRegistry size fun _ => .ok stoneChunks).map Prod.fst

theorem exists_paletteEntry_stone (id : RuntimeId) : ∃ entry, paletteEntry stoneRegistry id = .ok entry := by
  by_cases h : id = 1
  · subst h
    exact ⟨_, rfl⟩
  · have hstate : stoneRegistry.javaState id = none := if_neg h
    rw [paletteEntry, Litematic.Writer.javaPaletteState, hstate]
    exact ⟨_, rfl⟩

theorem findsAgain_stone {id : RuntimeId} (h : id = 0 ∨ id = 1) : stoneRegistry.FindsAgain id := by
  intro entry hentry
  rcases h with rfl | rfl
  · cases hentry
    rfl
  · cases hentry
    rfl

theorem blockAt_stone (size : Size) (cell : BlockPos) :
    blockAt stoneChunks 0 size cell = 0 ∨ blockAt stoneChunks 0 size cell = 1 := by
  unfold blockAt
  split
  · exact .inl rfl
  · unfold Litematic.Writer.blockAt
    split
    case h_1 => exact .inl rfl
    case h_2 chunk hchunk =>
      have hentry := List.mem_singleton.mp (AList.mem_lookup_iff.mp hchunk)
      rw [Sigma.mk.injEq, heq_eq_eq] at hentry
      rw [hentry.2]
      dsimp only
      split
      case h_1 => exact .inl rfl
      case h_2 sub hsub =>
        have hlayer := List.mem_singleton.mp (AList.mem_lookup_iff.mp hsub)
        rw [Sigma.mk.injEq, heq_eq_eq] at hlayer
        rw [hlayer.2]
        exact .inr rfl

/-- The document of a structure of stone, and its file. -/
theorem exists_file_stone {size : Size} (hsize : 0 < size.width ∧ 0 < size.height ∧ 0 < size.length)
    (hvolume : 0 < size.volume ∧ size.volume ≤ int32Max) {regionsX regionsY regionsZ : ℤ}
    (hx : regionCount size.width = .ok regionsX) (hy : regionCount size.height = .ok regionsY)
    (hz : regionCount size.length = .ok regionsZ)
    (htotal : ¬ (regionsX * regionsY * regionsZ ≤ 0 ∨ regionsX * regionsY * regionsZ > int32Max))
    {budget : ℕ} (hbudget : ¬ budget < 64 * 1024)
    (hbytes : max (64 * 1024) ((size.height.toNat + 15) / 16 * 4096 * 4 + 8 * 1024) ≤
      budget / (size.chunkXCount.toNat * size.chunkZCount.toNat)) :
    ∃ document count file,
      blockData stoneRegistry size (fun _ => .ok stoneChunks) = .ok (document, count) ∧
      writeAxiomBp stoneRegistry (stoneCodec size) (fun _ _ => []) size (fun _ => .ok stoneChunks)
        true ⟨budget, 0⟩ = .ok file := by
  obtain ⟨document, count, hdata⟩ := @exists_blockData stoneRegistry size (fun _ => .ok stoneChunks)
    stoneChunks exists_paletteEntry_stone rfl _ _ _ hx hy hz htotal
  obtain ⟨file, hfile⟩ := @exists_file stoneRegistry (stoneCodec size) size
    (fun _ => .ok stoneChunks) stoneChunks ⟨budget, 0⟩ hsize hvolume rfl document count hdata hbudget
    rfl hbytes rfl
  exact ⟨document, count, file, hdata, hfile⟩

/-- What is written of stone is found again in the compressed data. -/
theorem lossless_stone (h : blockData stoneRegistry size (fun _ => .ok stoneChunks) = .ok (document, count)) :
    (stoneCodec size).inflate ((stoneCodec size).compress document) = .ok document := by
  change (blockData stoneRegistry size fun _ => .ok stoneChunks).map Prod.fst = .ok document
  rw [h]
  rfl

/-- Regions that span more cells than an `int32` counts are refused. -/
theorem readDocument_of_wide {registry : Registry} {block : BlockPos → RuntimeId}
    {tagOf : BlockPos → Tag} {regions : List BlockPos} (horigin : ⟨0, 0, 0⟩ ∈ regions)
    (hnonneg : ∀ region ∈ regions, 0 ≤ region.x) {last : BlockPos} (hlast : last ∈ regions)
    (hwide : (last.x + 1) * 16 > int32Max)
    (h : ∀ region ∈ regions, Readable registry block region (tagOf region)) :
    readDocument registry (documentOf (regions.map tagOf)) =
      .error "AxiomBP region bounds exceed int32" := by
  obtain ⟨parts, hparts, hregions, -⟩ := exists_parts h 0
  have hmap : (parts.map fun part => part.region.x) = regions.map BlockPos.x := by
    rw [← hregions, List.map_map]
    rfl
  have hfirst : (regions.map BlockPos.x).foldl min int32Max ≤ 0 :=
    Extremes.foldl_min_le (List.mem_map_of_mem horigin) int32Max
  have habove : ∀ value ∈ regions.map BlockPos.x, int32Min ≤ value := by
    intro value hvalue
    obtain ⟨region, hregion, rfl⟩ := List.mem_map.mp hvalue
    have := hnonneg region hregion
    unfold int32Min
    omega
  have hend : last.x ≤ (regions.map BlockPos.x).foldl max int32Min :=
    (Extremes.isGreatest_foldl_max (List.ne_nil_of_mem (List.mem_map_of_mem hlast)) habove).2
      (List.mem_map_of_mem hlast)
  have hsome : (regions.map tagOf).isEmpty = false := by
    rw [List.isEmpty_eq_false_iff]
    exact List.ne_nil_of_mem (List.mem_map_of_mem hlast)
  have hfind : findValue (documentOf (regions.map tagOf)) "BlockRegion" =
      some (.list .Compound (regions.map tagOf)) := rfl
  rw [readDocument, hfind]
  dsimp only
  rw [hsome, if_neg Bool.false_ne_true, hparts, ok_bind, hmap, if_pos]
  unfold provisionalExtent
  omega

/-- A row of cells with as many regions as an `int32` counts sixteenths, and one more. -/
def wideSize : Size := ⟨2147483618, 1, 1⟩

end AxiomBp

end WaterStructure
