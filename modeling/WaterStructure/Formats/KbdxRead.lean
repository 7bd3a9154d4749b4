import WaterStructure.Formats.KbdxIndex
import WaterStructure.Library.Extremes
import WaterStructure.Library.Memo

/-!
# What a KBDX read leaves

The cache of runtime ids is transparent, so that a block is what its record says. Sorting and compacting
keep the last record of each position. A read that succeeds therefore leaves the bounding box of the
records, in every cell of it the last record of the cell or air, and the entities that stand on a record.
-/

namespace WaterStructure

open LastValue

namespace Kbdx

/-- The records of a file, without the variables of the loop. -/
def recordsOf : ℕ → List UInt8 → Option (List Record)
  | 0, _ => some []
  | count + 1, bytes =>
    match readRecord bytes with
    | .error _ => none
    | .ok (record, rest) => (recordsOf count rest).map (record :: ·)

/-- The id of a position: that of the last record there. -/
def lastRuntimeId (registry : McFunction.BlockRegistry) (palette : Palette) (records : List Record)
    (pos : BlockPos) : Option RuntimeId :=
  lastValue (fun record =>
    if record.pos = pos then some (resolve registry palette record.paletteIndex record.aux) else none)
    records

/-- The bounding box of records, with its corners. -/
structure BoundingBox (records : List Record) (min max : BlockPos) : Prop where
  minX : IsLeast {x | x ∈ records.map (·.pos.x)} min.x
  minY : IsLeast {y | y ∈ records.map (·.pos.y)} min.y
  minZ : IsLeast {z | z ∈ records.map (·.pos.z)} min.z
  maxX : IsGreatest {x | x ∈ records.map (·.pos.x)} max.x
  maxY : IsGreatest {y | y ∈ records.map (·.pos.y)} max.y
  maxZ : IsGreatest {z | z ∈ records.map (·.pos.z)} max.z

section Records

variable {registry : McFunction.BlockRegistry} {palette : Palette} {bytes rest : List UInt8} {count : ℕ}
  {error : String} {records : List Record}

theorem readU32_lt {value : ℕ} (h : readU32 error bytes = .ok (value, rest)) : value < 4294967296 := by
  rw [readU32.eq_def] at h
  split at h
  case h_1 first second third fourth _ =>
    have hvalue := congrArg Prod.fst (Except.ok.inj h)
    dsimp only at hvalue
    have h₁ := first.toNat_lt
    have h₂ := second.toNat_lt
    have h₃ := third.toNat_lt
    have h₄ := fourth.toNat_lt
    omega
  case h_2 => cases h

theorem isInt32_of_readI32 {value : ℤ} (h : readI32 error bytes = .ok (value, rest)) : IsInt32 value := by
  rw [readI32] at h
  cases hread : readU32 error bytes with
  | error _ =>
    rw [hread] at h
    cases h
  | ok read =>
    rw [hread] at h
    simp only [Except.map, Except.ok.injEq, Prod.mk.injEq] at h
    rw [← h.1]
    unfold IsInt32 int32Min int32Max toInt32
    omega

/-- The numbers of a record are in the ranges of their types. -/
structure Record.Ranged (record : Record) : Prop where
  pos : record.pos.FitsInt32
  aux : record.aux < 4294967296

theorem ranged_of_readRecord {record : Record} (h : readRecord bytes = .ok (record, rest)) : record.Ranged := by
  rw [readRecord] at h
  obtain ⟨⟨x, afterX⟩, hx, h⟩ := NestedLoop.exists_of_bind_ok h
  obtain ⟨⟨y, afterY⟩, hy, h⟩ := NestedLoop.exists_of_bind_ok h
  obtain ⟨⟨z, afterZ⟩, hz, h⟩ := NestedLoop.exists_of_bind_ok h
  obtain ⟨⟨index, afterIndex⟩, -, h⟩ := NestedLoop.exists_of_bind_ok h
  obtain ⟨⟨aux, afterAux⟩, haux, h⟩ := NestedLoop.exists_of_bind_ok h
  cases h
  exact ⟨⟨isInt32_of_readI32 hx, isInt32_of_readI32 hy, isInt32_of_readI32 hz⟩, readU32_lt haux⟩

theorem recordsOf_spec (h : recordsOf count bytes = some records) :
    records.length = count ∧ ∀ record ∈ records, record.Ranged := by
  induction count generalizing bytes records with
  | zero =>
    cases h
    exact ⟨rfl, nofun⟩
  | succ count ih =>
    rw [recordsOf] at h
    split at h
    case h_1 => cases h
    case h_2 record rest hread =>
      obtain ⟨more, hmore, rfl⟩ := Option.map_eq_some_iff.mp h
      obtain ⟨hlength, hranged⟩ := ih hmore
      exact ⟨by rw [List.length_cons, hlength],
        List.forall_mem_cons.mpr ⟨ranged_of_readRecord hread, hranged⟩⟩

/-- The loop over the records ends early if and only if a record is missing. -/
theorem readRecords_of_recordsOf (h : recordsOf count bytes = some records) (decoded : Decoded) :
    readRecords registry palette count bytes decoded =
      (records.foldl (Decoded.push registry palette) decoded, none) := by
  induction count generalizing bytes records decoded with
  | zero =>
    cases h
    rfl
  | succ count ih =>
    rw [recordsOf] at h
    rw [readRecords]
    cases hread : readRecord bytes with
    | error error =>
      rw [hread] at h
      cases h
    | ok result =>
      obtain ⟨record, rest⟩ := result
      rw [hread] at h
      obtain ⟨more, hmore, rfl⟩ := Option.map_eq_some_iff.mp h
      exact ih hmore _

theorem exists_recordsOf {decoded result : Decoded}
    (h : readRecords registry palette count bytes decoded = (result, none)) :
    ∃ records, recordsOf count bytes = some records := by
  induction count generalizing bytes decoded with
  | zero => exact ⟨[], rfl⟩
  | succ count ih =>
    rw [readRecords] at h
    rw [recordsOf]
    cases hread : readRecord bytes with
    | error error =>
      rw [hread] at h
      cases h
    | ok result =>
      obtain ⟨record, rest⟩ := result
      rw [hread] at h
      obtain ⟨records, hrecords⟩ := ih h
      exact ⟨record :: records, congrArg (Option.map (record :: ·)) hrecords⟩

/-- What the cache keeps: the answer under the key of a pair of numbers. -/
def resolveKey (registry : McFunction.BlockRegistry) (palette : Palette) (key : ℕ) : Option RuntimeId :=
  some (resolve registry palette (key / 4294967296) (key % 4294967296))

theorem resolveKey_runtimeKey (paletteIndex : ℕ) {aux : ℕ} (h : aux < 4294967296) :
    resolveKey registry palette (runtimeKey paletteIndex aux) =
      some (resolve registry palette paletteIndex aux) := by
  have hkey : runtimeKey paletteIndex aux = paletteIndex * 4294967296 + aux := by
    rw [runtimeKey, ← Nat.shiftLeft_add_eq_or_of_lt h, Nat.shiftLeft_eq]
  have hindex : (paletteIndex * 4294967296 + aux) / 4294967296 = paletteIndex := by omega
  have haux : (paletteIndex * 4294967296 + aux) % 4294967296 = aux := by omega
  rw [resolveKey, hkey, hindex, haux]

/-- The cache is the one of `Memo`, under keys that tell pairs of numbers apart. -/
theorem resolveCached_eq {cache : RuntimeCache} (hcache : Memo.Sound (resolveKey registry palette) cache)
    (paletteIndex : ℕ) {aux : ℕ} (h : aux < 4294967296) :
    (resolveCached registry palette cache paletteIndex aux).2 = resolve registry palette paletteIndex aux ∧
      Memo.Sound (resolveKey registry palette) (resolveCached registry palette cache paletteIndex aux).1 := by
  have hkey := @resolveKey_runtimeKey registry palette paletteIndex aux h
  have hvalue := @Memo.memo_snd _ _ _ kMaxRuntimeCacheEntries _ cache hcache (runtimeKey paletteIndex aux)
  have hsound := @Memo.Sound.memo _ _ _ kMaxRuntimeCacheEntries _ cache hcache (runtimeKey paletteIndex aux)
  rw [Memo.memo, hkey] at hvalue hsound
  rw [resolveCached]
  cases hlookup : cache.lookup (runtimeKey paletteIndex aux) with
  | some runtimeId =>
    rw [hlookup] at hvalue
    exact ⟨Option.some.inj hvalue, hcache⟩
  | none =>
    rw [hlookup] at hsound
    exact ⟨rfl, hsound⟩

def blockOf (registry : McFunction.BlockRegistry) (palette : Palette) (record : Record) : Block :=
  ⟨record.pos, resolve registry palette record.paletteIndex record.aux⟩

/-- The loop over the records collects their blocks and the extremes of their coordinates. -/
theorem foldl_push {records : List Record} {decoded : Decoded}
    (hcache : Memo.Sound (resolveKey registry palette) decoded.cache)
    (h : ∀ record ∈ records, record.Ranged) :
    let result := records.foldl (Decoded.push registry palette) decoded
    result.blocks = decoded.blocks ++ records.map (blockOf registry palette) ∧
      result.min = ⟨(records.map (·.pos.x)).foldl min decoded.min.x,
        (records.map (·.pos.y)).foldl min decoded.min.y, (records.map (·.pos.z)).foldl min decoded.min.z⟩ ∧
      result.max = ⟨(records.map (·.pos.x)).foldl max decoded.max.x,
        (records.map (·.pos.y)).foldl max decoded.max.y, (records.map (·.pos.z)).foldl max decoded.max.z⟩ := by
  induction records generalizing decoded with
  | nil => exact ⟨(List.append_nil _).symm, rfl, rfl⟩
  | cons record rest ih =>
    obtain ⟨hrecord, hrest⟩ := List.forall_mem_cons.mp h
    obtain ⟨hvalue, hsound⟩ := resolveCached_eq hcache record.paletteIndex hrecord.aux
    obtain ⟨hblocks, hmin, hmax⟩ := @ih (decoded.push registry palette record) hsound hrest
    refine ⟨?_, hmin, hmax⟩
    rw [List.foldl_cons, hblocks, Decoded.push, hvalue, List.append_assoc, List.singleton_append,
      List.map_cons]
    rfl

end Records

theorem blocks_foldl_push {registry : McFunction.BlockRegistry} {palette : Palette} {records : List Record}
    (h : ∀ record ∈ records, record.Ranged) :
    (records.foldl (Decoded.push registry palette) {}).blocks = records.map (blockOf registry palette) :=
  (@foldl_push registry palette records {} (Memo.sound_empty _) h).1

theorem boundingBox_foldl_push {registry : McFunction.BlockRegistry} {palette : Palette}
    {records : List Record} (hne : records ≠ []) (h : ∀ record ∈ records, record.Ranged) :
    BoundingBox records (records.foldl (Decoded.push registry palette) {}).min
      (records.foldl (Decoded.push registry palette) {}).max := by
  obtain ⟨-, hmin, hmax⟩ := @foldl_push registry palette records {} (Memo.sound_empty _) h
  have hleast (axis : Record → ℤ) (hrange : ∀ record ∈ records, IsInt32 (axis record)) :
      IsLeast {value | value ∈ records.map axis} ((records.map axis).foldl min int32Max) ∧
        IsGreatest {value | value ∈ records.map axis} ((records.map axis).foldl max int32Min) := by
    have hmap : records.map axis ≠ [] := by simpa using hne
    exact ⟨Extremes.isLeast_foldl_min hmap (List.forall_mem_map.mpr fun record hmem => (hrange record hmem).2),
      Extremes.isGreatest_foldl_max hmap (List.forall_mem_map.mpr fun record hmem => (hrange record hmem).1)⟩
  have hx := hleast (·.pos.x) fun record hmem => (h record hmem).pos.1
  have hy := hleast (·.pos.y) fun record hmem => (h record hmem).pos.2.1
  have hz := hleast (·.pos.z) fun record hmem => (h record hmem).pos.2.2
  rw [hmin, hmax]
  exact ⟨hx.1, hy.1, hz.1, hx.2, hy.2, hz.2⟩

section Sorting

instance : IsTrans Block fun left right => ¬ right.Before left where
  trans a b c hab hbc := by
    unfold Block.Before at *
    split_ifs at * <;> omega

instance : Std.Total fun left right : Block => ¬ right.Before left where
  total a b := by
    unfold Block.Before
    split_ifs <;> omega

theorem pos_eq_iff_before (a b : Block) : a.pos = b.pos ↔ ¬ b.Before a ∧ ¬ a.Before b := by
  obtain ⟨⟨ax, ay, az⟩, a⟩ := a
  obtain ⟨⟨bx, by_, bz⟩, b⟩ := b
  unfold Block.Before
  simp only [BlockPos.mk.injEq]
  split_ifs <;> omega

theorem not_below_of_pos_eq (a b : Block) (h : a.pos = b.pos) : ¬ b.Below a := by
  rw [Block.Below, h]
  simp

/-- Sorting and compacting keeps the last block of each position. -/
theorem lastBlocks_spec (blocks : List Block) :
    ((lastBlocks blocks).map Block.pos).Nodup ∧ (∀ block ∈ lastBlocks blocks, block ∈ blocks) ∧
      ∀ pos, lastValue (fun block : Block => if block.pos = pos then some block.runtimeId else none)
          (lastBlocks blocks) =
        lastValue (fun block : Block => if block.pos = pos then some block.runtimeId else none) blocks := by
  obtain ⟨hnodup, hmem, hlast⟩ := @KeepLast.compact_insertionSort _ _ _ Block.pos
    (fun left right => ¬ right.Before left) _ _ _ pos_eq_iff_before blocks
  exact ⟨hnodup, hmem, fun pos => hlast Block.runtimeId pos⟩

variable {blocks : List Block}

/-- No position is lost. -/
theorem mem_pos_lastBlocks {pos : BlockPos} :
    pos ∈ (lastBlocks blocks).map Block.pos ↔ pos ∈ blocks.map Block.pos := by
  have hnone := KeepLast.lastValue_eq_none_iff Block.pos Block.runtimeId pos
  rw [← not_iff_not, ← hnone, ← hnone, (lastBlocks_spec blocks).2.2 pos]

theorem length_lastBlocks_le (blocks : List Block) : (lastBlocks blocks).length ≤ blocks.length :=
  (KeepLast.length_compact_le _ _).trans_eq (List.length_insertionSort _ _)

/-- The id of the last block at a position. -/
def lastAt (blocks : List Block) (pos : BlockPos) : Option RuntimeId :=
  lastValue (fun block => if block.pos = pos then some block.runtimeId else none) blocks

/-- The blocks that are kept and are not air are the cells of the box that show no air. -/
theorem countP_lastBlocks (air : RuntimeId) {min : BlockPos} {size : Size}
    (hinside : ∀ block ∈ blocks, size.Contains (block.pos.sub min)) :
    ((lastBlocks blocks).countP fun block => block.runtimeId ≠ air) =
      size.cellsYZX.countP fun cell => (lastAt blocks (cell.add min)).getD air ≠ air := by
  obtain ⟨hnodup, hmem, hlast⟩ := lastBlocks_spec blocks
  -- The block that is kept at a position is the last one there.
  have hvalue {block : Block} (hblock : block ∈ lastBlocks blocks) :
      lastAt blocks block.pos = some block.runtimeId := by
    have hunique := @lastValue_of_unique _ _
      (fun other : Block => if other.pos = block.pos then some other.runtimeId else none) _ _ hblock
      fun other hother hne => if_neg fun heq => hne (List.inj_on_of_nodup_map hnodup hother hblock heq)
    rwa [hlast, if_pos rfl] at hunique
  rw [List.countP_eq_length_filter, List.countP_eq_length_filter,
    ← List.length_map (fun block : Block => block.pos.sub min)]
  refine List.Perm.length_eq ((List.perm_ext_iff_of_nodup ?_ ?_).mpr fun cell => ?_)
  · refine List.Nodup.map_on (fun first hfirst second hsecond heq => ?_)
      ((List.Nodup.of_map _ hnodup).filter _)
    refine List.inj_on_of_nodup_map hnodup (List.mem_filter.mp hfirst).1 (List.mem_filter.mp hsecond).1 ?_
    rw [← BlockPos.add_eq_iff.mpr heq, BlockPos.add_eq_iff.mpr rfl]
  · exact (Size.nodup_cellsYZX _).filter _
  · rw [List.mem_map, List.mem_filter, Size.mem_cellsYZX, decide_eq_true_iff]
    constructor
    · rintro ⟨block, hblock, rfl⟩
      obtain ⟨hkept, hnonAir⟩ := List.mem_filter.mp hblock
      refine ⟨hinside block (hmem block hkept), ?_⟩
      rw [BlockPos.add_eq_iff.mpr rfl, hvalue hkept]
      exact of_decide_eq_true hnonAir
    · rintro ⟨-, hnonAir⟩
      have hreached : cell.add min ∈ (lastBlocks blocks).map Block.pos := by
        rw [mem_pos_lastBlocks]
        by_contra hmissed
        rw [lastAt, (KeepLast.lastValue_eq_none_iff Block.pos Block.runtimeId _ blocks).mpr hmissed] at hnonAir
        exact hnonAir rfl
      obtain ⟨block, hblock, hpos⟩ := List.mem_map.mp hreached
      refine ⟨block, List.mem_filter.mpr ⟨hblock, decide_eq_true ?_⟩, ?_⟩
      · rwa [← hpos, hvalue hblock] at hnonAir
      · exact (BlockPos.add_eq_iff.mp hpos.symm).symm

/-- The entities that stand on a block are kept, at their moved positions. -/
theorem lookup_keepEntities {Nbt : Type} (entities : AList fun _ : BlockPos => Nbt) (min cell : BlockPos)
    (blocks : List Block) (kept : AList fun _ : BlockPos => Nbt) :
    (blocks.foldl (fun kept block =>
        match entities.lookup block.pos with
        | none => kept
        | some payload => AssocMap.tryEmplace kept (block.pos.sub min) payload) kept).lookup (cell.sub min) =
      (kept.lookup (cell.sub min)).or
        (if cell ∈ blocks.map Block.pos then entities.lookup cell else none) := by
  have hinjective {other : BlockPos} (h : cell.sub min = other.sub min) : cell = other := by
    obtain ⟨cx, cy, cz⟩ := cell
    obtain ⟨ox, oy, oz⟩ := other
    simp only [BlockPos.sub, BlockPos.mk.injEq] at h ⊢
    omega
  induction blocks generalizing kept with
  | nil => simp
  | cons block rest ih =>
    rw [List.foldl_cons, ih]
    by_cases hcell : cell = block.pos
    · subst hcell
      cases hlookup : entities.lookup block.pos with
      | none => simp
      | some payload =>
        simp only [AssocMap.lookup_tryEmplace]
        cases kept.lookup (block.pos.sub min) <;> simp
    · have hkept : (match entities.lookup block.pos with
          | none => kept
          | some payload => AssocMap.tryEmplace kept (block.pos.sub min) payload).lookup (cell.sub min) =
            kept.lookup (cell.sub min) := by
        cases entities.lookup block.pos with
        | none => rfl
        | some payload =>
          dsimp only
          rw [AssocMap.lookup_tryEmplace, if_neg fun heq => hcell (hinjective heq)]
      rw [hkept]
      simp [hcell]

end Sorting

variable {Nbt : Type} {services : Services Nbt} {metadata : Metadata Nbt}

theorem blockCount_of_readRoot {blockCount : ℕ} {bytes : List UInt8}
    (h : readRoot services blockCount bytes = .ok metadata) : metadata.blockCount = blockCount := by
  simp only [readRoot] at h
  repeat' split at h
  all_goals cases h
  rfl

theorem blockCount_of_readMetadata {file : File} (h : readMetadata services file = .ok metadata) :
    metadata.blockCount ≠ 0 ∧ metadata.blockCount ≤ kMaxRawBlocks := by
  simp only [readMetadata] at h
  repeat' split at h
  all_goals try cases h
  rename_i blockCount _ _ hcount _ _ _
  rw [blockCount_of_readRoot h]
  omega

/-- What `dimensions` accepts. -/
theorem dimensions_eq_ok {min max : BlockPos} {size : Size} (h : dimensions min max = .ok size) :
    size = ⟨max.x - min.x + 1, max.y - min.y + 1, max.z - min.z + 1⟩ ∧
      size.width ≤ int32Max ∧ size.height ≤ int32Max ∧ size.length ≤ int32Max := by
  have hdimension {minimum maximum extent : ℤ} {axis : String}
      (h : dimension minimum maximum axis = .ok extent) :
      extent = maximum - minimum + 1 ∧ extent ≤ int32Max := by
    rw [dimension] at h
    obtain ⟨hspan, h⟩ := NestedLoop.else_of_ok h
    cases h
    exact ⟨rfl, by omega⟩
  rw [dimensions] at h
  obtain ⟨width, hwidth, h⟩ := NestedLoop.exists_of_bind_ok h
  obtain ⟨height, hheight, h⟩ := NestedLoop.exists_of_bind_ok h
  obtain ⟨length, hlength, h⟩ := NestedLoop.exists_of_bind_ok h
  cases h
  obtain ⟨rfl, hwidth⟩ := hdimension hwidth
  obtain ⟨rfl, hheight⟩ := hdimension hheight
  obtain ⟨rfl, hlength⟩ := hdimension hlength
  exact ⟨rfl, hwidth, hheight, hlength⟩

end Kbdx

open Kbdx

namespace KbdxStructure

variable {Nbt : Type} {services : Services Nbt} {object t : KbdxStructure Nbt} {file : File}

/-- A read that succeeds has read all records, and their box has fitted. -/
theorem read_ok (h : object.read services file = (.ok (), t)) : ∃ metadata records size,
    readMetadata services file = .ok metadata ∧
      recordsOf metadata.blockCount ((file.bytes.getD []).drop 4) = some records ∧
      dimensions (records.foldl (Decoded.push services.registry metadata.palette) {}).min
        (records.foldl (Decoded.push services.registry metadata.palette) {}).max = .ok size ∧
      t = { object.load services metadata (records.foldl (Decoded.push services.registry metadata.palette) {})
            with originalSize := size }.setOffset ⟨0, 0, 0⟩ := by
  rw [read] at h
  split at h
  case h_1 => cases h
  case h_2 metadata hmetadata =>
    split at h
    case h_1 => cases h
    case h_2 decoded hdecoded =>
      obtain ⟨records, hrecords⟩ := exists_recordsOf hdecoded
      rw [readRecords_of_recordsOf hrecords] at hdecoded
      cases hdecoded
      split at h
      · cases h
      · dsimp only at h
        split at h
        case h_1 => cases h
        case h_2 size hsize =>
          cases h
          exact ⟨metadata, records, size, hmetadata, hrecords, hsize, rfl⟩

/-- The ids that the object shows are those of the last records. -/
theorem lastValue_load {metadata : Metadata Nbt} {records : List Record}
    (h : ∀ record ∈ records, record.Ranged) (object : KbdxStructure Nbt) (offset pos : BlockPos) :
    let decoded := records.foldl (Decoded.push services.registry metadata.palette) {}
    lastValue (moved offset pos) (object.load services metadata decoded).blocks =
      lastRuntimeId services.registry metadata.palette records ((pos.sub offset).add decoded.min) := by
  intro decoded
  have hblocks : decoded.blocks = records.map (blockOf services.registry metadata.palette) :=
    blocks_foldl_push h
  have hmoved (block : Block) : moved offset pos block =
      if block.pos = pos.sub offset then some block.runtimeId else none :=
    if_congr BlockPos.add_eq_iff rfl rfl
  have hshifted (block : Block) : (block.pos.sub decoded.min = pos.sub offset) ↔
      block.pos = (pos.sub offset).add decoded.min := by
    rw [eq_comm, ← BlockPos.add_eq_iff, eq_comm]
  rw [funext hmoved, load, KeepLast.lastValue_insertionSort not_below_of_pos_eq, lastValue_map]
  simp only [hshifted]
  rw [(lastBlocks_spec decoded.blocks).2.2, hblocks, lastValue_map]
  rfl

/-- The blocks stand where the records do. -/
theorem forall_pos_load {metadata : Metadata Nbt} {decoded : Decoded} {records : List Record}
    (hblocks : decoded.blocks = records.map (blockOf services.registry metadata.palette))
    (object : KbdxStructure Nbt) (p : BlockPos → Prop) :
    (∀ block ∈ (object.load services metadata decoded).blocks, p block.pos) ↔
      ∀ record ∈ records, p (record.pos.sub decoded.min) := by
  have hpositions : (∀ block ∈ lastBlocks decoded.blocks, p (block.pos.sub decoded.min)) ↔
      ∀ pos ∈ (lastBlocks decoded.blocks).map Block.pos, p (pos.sub decoded.min) := by
    rw [List.forall_mem_map]
  rw [load]
  simp only [List.mem_insertionSort, List.forall_mem_map]
  rw [hpositions]
  simp only [mem_pos_lastBlocks, hblocks, List.forall_mem_map, blockOf]

/-- The count is that of the cells of the box that are not air. -/
theorem nonAirBlocks_load {metadata : Metadata Nbt} {records : List Record}
    (h : ∀ record ∈ records, record.Ranged) (object : KbdxStructure Nbt) :
    let decoded := records.foldl (Decoded.push services.registry metadata.palette) {}
    ∀ max, BoundingBox records decoded.min max →
      (object.load services metadata decoded).nonAirBlocks =
        (Size.mk (max.x - decoded.min.x + 1) (max.y - decoded.min.y + 1)
          (max.z - decoded.min.z + 1)).cellsYZX.countP fun cell =>
            (lastRuntimeId services.registry metadata.palette records (cell.add decoded.min)).getD
              services.registry.airRuntimeId ≠ services.registry.airRuntimeId := by
  intro decoded max hbox
  have hblocks : decoded.blocks = records.map (blockOf services.registry metadata.palette) :=
    blocks_foldl_push h
  have hlast (pos : BlockPos) : lastRuntimeId services.registry metadata.palette records pos =
      lastAt decoded.blocks pos := by
    rw [lastAt, hblocks, lastValue_map]
    rfl
  have hinside : ∀ block ∈ decoded.blocks, (Size.mk (max.x - decoded.min.x + 1) (max.y - decoded.min.y + 1)
      (max.z - decoded.min.z + 1)).Contains (block.pos.sub decoded.min) := by
    intro block hblock
    rw [hblocks] at hblock
    obtain ⟨record, hrecord, rfl⟩ := List.mem_map.mp hblock
    have hminX := hbox.minX.2 (List.mem_map_of_mem (f := fun record : Record => record.pos.x) hrecord)
    have hminY := hbox.minY.2 (List.mem_map_of_mem (f := fun record : Record => record.pos.y) hrecord)
    have hminZ := hbox.minZ.2 (List.mem_map_of_mem (f := fun record : Record => record.pos.z) hrecord)
    have hmaxX := hbox.maxX.2 (List.mem_map_of_mem (f := fun record : Record => record.pos.x) hrecord)
    have hmaxY := hbox.maxY.2 (List.mem_map_of_mem (f := fun record : Record => record.pos.y) hrecord)
    have hmaxZ := hbox.maxZ.2 (List.mem_map_of_mem (f := fun record : Record => record.pos.z) hrecord)
    simp only [Size.Contains, BlockPos.sub, blockOf]
    omega
  simp only [hlast]
  exact countP_lastBlocks _ hinside

/-- Requests after a read. -/
def perform (air : RuntimeId) (object : KbdxStructure Nbt) : ChunkRequest → KbdxStructure Nbt
  | .setOffset offset => object.setOffset offset
  | .getChunks positions => (object.getChunks air positions).2

/-- Requests change the offset, and the index with it. -/
theorem Indexed.perform (h : object.Indexed) (air : RuntimeId) (request : ChunkRequest) :
    (object.perform air request).Indexed ∧ (object.perform air request).blocks = object.blocks := by
  cases request with
  | setOffset offset => exact ⟨indexed_setOffset object offset, rfl⟩
  | getChunks positions =>
    obtain ⟨chunkIndex, heq, hindexed⟩ := h.getChunks_cases air positions
    rw [KbdxStructure.perform, heq]
    exact ⟨hindexed, rfl⟩

theorem Indexed.foldl_perform (h : object.Indexed) (air : RuntimeId) (requests : List ChunkRequest) :
    (requests.foldl (KbdxStructure.perform air) object).Indexed ∧
      (requests.foldl (KbdxStructure.perform air) object).blocks = object.blocks := by
  induction requests generalizing object with
  | nil => exact ⟨h, rfl⟩
  | cons request rest ih =>
    obtain ⟨hindexed, hblocks⟩ := h.perform air request
    obtain ⟨hlast, hkept⟩ := ih hindexed
    exact ⟨hlast, hkept.trans hblocks⟩

/-- The object holds the last records of a file, in the box with the given corners. -/
structure HoldsLast (services : Services Nbt) (file : File) (metadata : Metadata Nbt) (records : List Record)
    (min max : BlockPos) (object : KbdxStructure Nbt) : Prop where
  reads : readMetadata services file = .ok metadata
  decodes : recordsOf metadata.blockCount ((file.bytes.getD []).drop 4) = some records
  box : BoundingBox records min max
  size : object.size = ⟨max.x - min.x + 1, max.y - min.y + 1, max.z - min.z + 1⟩
  /-- Whatever is asked for and however the offset is changed, a request shows the last records at their moved
  positions; it fails if one of them leaves the range of `int32`. -/
  chunks : ∀ (requests : List ChunkRequest) positions,
    let air := services.registry.airRuntimeId
    let asked := requests.foldl (perform air) object
    if ∀ record ∈ records, ((record.pos.sub min).add asked.offset).FitsInt32 then
      ∃ chunks, (asked.getChunks air positions).1 = .ok chunks ∧ ∀ pos, chunks.blockAt air pos =
        if blockToChunk pos ∈ positions then
          some ((lastRuntimeId services.registry metadata.palette records
            ((pos.sub asked.offset).add min)).getD air)
        else none
    else (asked.getChunks air positions).1 = .error "KBDX offset moves block outside int32 range"
  entities : ∀ pos, object.blockEntities.lookup (pos.sub min) =
    if pos ∈ records.map Record.pos then metadata.entities.lookup pos else none
  count : object.countNonAirBlocks = object.size.cellsYZX.countP fun cell =>
    (lastRuntimeId services.registry metadata.palette records (cell.add min)).getD
      services.registry.airRuntimeId ≠ services.registry.airRuntimeId

/-- A read that succeeds leaves the box of the records as the size, the last record of each position and
the entities that stand on one, and counts the cells that are not air. -/
theorem read_holdsLast (h : object.read services file = (.ok (), t)) :
    ∃ metadata records min max, HoldsLast services file metadata records min max t := by
  obtain ⟨metadata, records, size, hmetadata, hrecords, hsize, rfl⟩ := read_ok h
  obtain ⟨hcount, hlimit⟩ := blockCount_of_readMetadata hmetadata
  obtain ⟨hlength, hranged⟩ := recordsOf_spec hrecords
  have hne : records ≠ [] := by
    rintro rfl
    exact hcount hlength.symm
  have hbox := @boundingBox_foldl_push services.registry metadata.palette records hne hranged
  have hblocks := @blocks_foldl_push services.registry metadata.palette records hranged
  have hlastValue := @lastValue_load Nbt services metadata records hranged object
  have hnonAir := @nonAirBlocks_load Nbt services metadata records hranged object _ hbox
  generalize records.foldl (Decoded.push services.registry metadata.palette) {} = decoded at *
  obtain ⟨rfl, hwidth, hheight, hlength'⟩ := dimensions_eq_ok hsize
  have hexpand : (⟨decoded.max.x - decoded.min.x + 1, decoded.max.y - decoded.min.y + 1,
      decoded.max.z - decoded.min.z + 1⟩ : Size).expand ⟨0, 0, 0⟩ =
        ⟨decoded.max.x - decoded.min.x + 1, decoded.max.y - decoded.min.y + 1,
          decoded.max.z - decoded.min.z + 1⟩ := by
    simp only [Size.expand, expanded, Size.mk.injEq]
    dsimp only at hwidth hheight hlength'
    omega
  have hindexed := indexed_setOffset { object.load services metadata decoded with
    originalSize := ⟨decoded.max.x - decoded.min.x + 1, decoded.max.y - decoded.min.y + 1,
      decoded.max.z - decoded.min.z + 1⟩ } ⟨0, 0, 0⟩
  refine ⟨metadata, records, decoded.min, decoded.max, ⟨hmetadata, hrecords, hbox, hexpand, ?_, ?_, ?_⟩⟩
  · intro requests positions air asked
    obtain ⟨hasked, hkept⟩ := hindexed.foldl_perform air requests
    have hfits : (∀ block ∈ asked.blocks, (block.pos.add asked.offset).FitsInt32) ↔
        ∀ record ∈ records, ((record.pos.sub decoded.min).add asked.offset).FitsInt32 := by
      rw [hkept]
      exact forall_pos_load hblocks object fun pos => (pos.add asked.offset).FitsInt32
    have hroom : asked.blocks.length ≤ 4294967295 := by
      rw [hkept]
      have hload : (object.load services metadata decoded).blocks.length ≤ records.length := by
        rw [load, List.length_insertionSort, List.length_map]
        exact (length_lastBlocks_le _).trans_eq (by rw [hblocks, List.length_map])
      unfold kMaxRawBlocks at hlimit
      exact hload.trans (by omega)
    split
    case isTrue hall =>
      obtain ⟨chunks, hchunks, hshown⟩ := hasked.getChunks_ok hroom (hfits.mpr hall) positions
      refine ⟨chunks, hchunks, fun pos => ?_⟩
      have hlast : lastValue (moved asked.offset pos) asked.blocks =
          lastRuntimeId services.registry metadata.palette records ((pos.sub asked.offset).add decoded.min) := by
        rw [hkept]
        exact hlastValue asked.offset pos
      rw [hshown, hlast]
    case isFalse hnot =>
      rw [← hfits] at hnot
      push Not at hnot
      exact getChunks_error hnot positions
  · intro pos
    refine (lookup_keepEntities metadata.entities decoded.min pos (lastBlocks decoded.blocks) ∅).trans ?_
    rw [AList.lookup_empty, Option.none_or, hblocks]
    refine if_congr ?_ rfl rfl
    rw [mem_pos_lastBlocks, List.map_map]
    rfl
  · rw [countNonAirBlocks]
    refine hnonAir.trans ?_
    rw [setOffset]
    dsimp only
    rw [hexpand]

end KbdxStructure

namespace Kbdx

/-- A registry of stone, and the palette of the files below. -/
def stoneServices : Services Unit where
  registry :=
    { find _ _ := none
      legacyStateRuntimeId _ _ := none
      legacyRuntimeId name _ := if name = "minecraft:stone".toList then some 1 else none
      compatibleJavaRuntimeId _ := none
      airRuntimeId := 0 }
  parse text := if text = "\x7b\"stone\":0\x7d".toList then some (.object [("stone".toList, .unsigned 0)]) else none
  entityNbt _ := .ok none

/-- A record of stone on the x axis. -/
def stoneRecord (x : ℕ) : List UInt8 :=
  [UInt8.ofNat x, UInt8.ofNat (x / 256), UInt8.ofNat (x / 65536), UInt8.ofNat (x / 16777216)] ++
    List.replicate 16 0

def stoneFile (xs : List ℕ) : File :=
  let bytes := [UInt8.ofNat xs.length, 0, 0, 0] ++ xs.flatMap stoneRecord ++
    "\x7b\"stone\":0\x7d".toList.map fun c => UInt8.ofNat c.toNat
  ⟨some bytes.length, some bytes⟩

end Kbdx

namespace KbdxStructure

/-- What is read of three records, two of them at one position. -/
def threeStones : KbdxStructure Unit :=
  (({} : KbdxStructure Unit).read stoneServices (stoneFile [5, 3, 5])).2

theorem read_threeStones :
    ({} : KbdxStructure Unit).read stoneServices (stoneFile [5, 3, 5]) = (.ok (), threeStones) := by
  have hok : (({} : KbdxStructure Unit).read stoneServices (stoneFile [5, 3, 5])).1.isOk = true := by
    decide +kernel
  refine Prod.ext ?_ rfl
  obtain ⟨done, hread⟩ := NestedLoop.exists_of_isOk hok
  exact hread

theorem read_holdsLast_stone : ∃ metadata records min max,
    HoldsLast stoneServices (stoneFile [5, 3, 5]) metadata records min max threeStones :=
  read_holdsLast read_threeStones

/-- An offset that moves one of two blocks out of the range of `int32` makes a request fail. -/
theorem not_chunks_every_offset :
    ¬ ∀ (services : Services Unit) file t, ({} : KbdxStructure Unit).read services file = (.ok (), t) →
      ∀ (offset : BlockPos) positions, offset.FitsInt32 →
        ∃ chunks, ((t.setOffset offset).getChunks services.registry.airRuntimeId positions).1 = .ok chunks := by
  intro h
  obtain ⟨chunks, hchunks⟩ := h stoneServices (stoneFile [5, 3, 5]) threeStones read_threeStones
    ⟨int32Max, 0, 0⟩ [] (by decide)
  have hfails : ((threeStones.setOffset ⟨int32Max, 0, 0⟩).getChunks
      stoneServices.registry.airRuntimeId []).1.isOk = false := by decide +kernel
  rw [hchunks] at hfails
  cases hfails

end KbdxStructure

end WaterStructure
