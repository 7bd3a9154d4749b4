import Mathlib.Data.UInt
import Mathlib.Tactic.NormNum
import WaterStructure.Formats.BdxStream
import WaterStructure.Library.ShardedLog

/-!
# The placement spool of a BDX structure

The placements of a stream are normalised and written to shard files, as records of sixteen bytes.
The shard of a record depends on its chunk only.
-/

namespace WaterStructure.Bdx

open NestedLoop ShardedLog

def kPlacementShardCount : ℕ := 1024

def kPlacementOpenShardLimit : ℕ := 16

def kPlacementRecordBytes : ℕ := 16

/-- The largest value of `std::size_t`. -/
def sizeMax : ℕ := 18446744073709551615

/-- `static_cast<std::uint32_t>`. -/
def toUInt32 (value : ℤ) : UInt32 := UInt32.ofNat (value % 4294967296).toNat

def writeU32Le (value : UInt32) : List UInt8 :=
  [value.toUInt8, (value >>> 8).toUInt8, (value >>> 16).toUInt8, (value >>> 24).toUInt8]

def readU32Le (input : List UInt8) (offset : ℕ) : UInt32 :=
  (input.getD offset 0).toUInt32 ||| (input.getD (offset + 1) 0).toUInt32 <<< 8 |||
    (input.getD (offset + 2) 0).toUInt32 <<< 16 ||| (input.getD (offset + 3) 0).toUInt32 <<< 24

def readI32Le (input : List UInt8) (offset : ℕ) : ℤ :=
  let value := readU32Le input offset
  if (value.toNat : ℤ) ≤ int32Max then value.toNat else int32Min + (value - 0x80000000).toNat

def encodePlacementRecord (pos : BlockPos) (runtime : RuntimeId) : List UInt8 :=
  writeU32Le (toUInt32 pos.x) ++ writeU32Le (toUInt32 pos.y) ++ writeU32Le (toUInt32 pos.z) ++
    writeU32Le runtime

/-- What the reader takes from a record. -/
def decodePlacementRecord (input : List UInt8) : BlockPos × RuntimeId :=
  (⟨readI32Le input 0, readI32Le input 4, readI32Le input 8⟩, readU32Le input 12)

def normalizePlacementCoordinate (raw minimum offset dimension : ℤ) : Option ℤ :=
  let source := raw - minimum
  if dimension ≤ 0 ∨ source < 0 ∨ source ≥ dimension then none
  else if source + offset < int32Min ∨ source + offset > int32Max then none
  else some (source + offset)

def placementCoordinateInExtent (value offset dimension : ℤ) : Bool :=
  if dimension ≤ 0 then false
  else offset ≤ value && value ≤ offset + dimension - 1

def placementShard (position : ChunkPos) : ℕ :=
  let value := (toUInt32 position.x).toUInt64 <<< 32 ^^^ (toUInt32 position.z).toUInt64
  let value := (value ^^^ value >>> 30) * 0xbf58476d1ce4e5b9
  let value := (value ^^^ value >>> 27) * 0x94d049bb133111eb
  (value ^^^ value >>> 31).toNat % kPlacementShardCount

/-- The shard files of one build. -/
structure Spool where
  files : ℕ → LogFile UInt8
  bytes : ℕ

structure BdxStructure where
  commands : List Command
  minimum : BlockPos
  originalSize : Size
  size : Size := ⟨0, 0, 0⟩
  offset : BlockPos := ⟨0, 0, 0⟩
  allowTemporarySpool : Bool := true
  temporaryFileLimitBytes : ℕ := 0
  spool : Option Spool := none

/-- What a decoding does not depend on: how much is in its buffer, how many shards are open at a
time, and how much of a stream has reached its file after each write. -/
structure DecodeRun where
  window : ℕ → ℕ
  openShards : ℕ := kPlacementOpenShardLimit
  openShards_pos : 0 < openShards := by decide
  drained : ℕ → ℕ := fun _ => 0

def expanded (base delta : ℤ) : ℤ := min (base + |delta|) int32Max

def decode (boundsOnly : Bool) (window : ℕ → ℕ) (commands : List Command) :
    Except String DecodeState :=
  if boundsOnly then decodeSingle true {} commands
  else decodeFull window commands.length {} commands

/-- Decode the commands and find the size. -/
def parse (boundsOnly : Bool) (window : ℕ → ℕ) (commands : List Command) :
    Except String (DecodeState × Size) := do
  let decoded ← decode boundsOnly window commands
  let width ← dimension "X" decoded.minimum.x decoded.maximum.x
  let height ← dimension "Y" decoded.minimum.y decoded.maximum.y
  let length ← dimension "Z" decoded.minimum.z decoded.maximum.z
  return (decoded, ⟨width, height, length⟩)

namespace BdxStructure

def setOffset (s : BdxStructure) (offset : BlockPos) : BdxStructure :=
  { s with
    spool := none
    offset
    size := ⟨expanded s.originalSize.width offset.x, expanded s.originalSize.height offset.y,
      expanded s.originalSize.length offset.z⟩ }

def setStreamingOptions (s : BdxStructure) (allowTemporarySpool : Bool)
    (temporaryFileLimitBytes : ℕ) : BdxStructure :=
  { s with spool := none, allowTemporarySpool, temporaryFileLimitBytes }

/-- Read a file. -/
def read (boundsOnly : Bool) (window : ℕ → ℕ) (commands : List Command) :
    Except String BdxStructure := do
  let (decoded, originalSize) ← parse boundsOnly window commands
  return BdxStructure.setOffset
    { commands, minimum := decoded.minimum, originalSize } ⟨0, 0, 0⟩

/-- Where a placement ends up. -/
def target (s : BdxStructure) (raw : BlockPos) : Option BlockPos := do
  let x ← normalizePlacementCoordinate raw.x s.minimum.x s.offset.x s.originalSize.width
  let y ← normalizePlacementCoordinate raw.y s.minimum.y s.offset.y s.originalSize.height
  let z ← normalizePlacementCoordinate raw.z s.minimum.z s.offset.z s.originalSize.length
  return ⟨x, y, z⟩

end BdxStructure

/-- Hand one delivery to a consumer of single placements. -/
def deliver {σ : Type} (consumer : σ → BlockPos × RuntimeId → Except String σ) (state : σ) :
    Delivery → Except String σ
  | .single pos runtime => consumer state (pos, runtime)
  | .run start runtimes =>
    runtimes.zipIdx.foldlM (fun state entry =>
      if ¬ IsInt32 (start.z + entry.2) then .error "BDX placement Z run 坐标超出 int32 范围"
      else consumer state (⟨start.x, start.y, start.z + entry.2⟩, entry.1)) state

namespace BdxStructure

/-- Append a placement to its shard. -/
def append (s : BdxStructure) (run : DecodeRun) (spool : Logs UInt8 × ℕ)
    (placement : BlockPos × RuntimeId) : Except String (Logs UInt8 × ℕ) :=
  match s.target placement.1 with
  | none => .ok spool
  | some pos =>
    if spool.2 > sizeMax - kPlacementRecordBytes then .error "BDX placement spool 大小溢出"
    else if s.temporaryFileLimitBytes ≠ 0 ∧ (s.temporaryFileLimitBytes < kPlacementRecordBytes ∨
        spool.2 > s.temporaryFileLimitBytes - kPlacementRecordBytes) then
      .error "BDX placement spool 超过 temporary_file_limit_bytes"
    else
      .ok (spool.1.append run.openShards (placementShard (blockToChunk pos))
        (encodePlacementRecord pos placement.2) (run.drained spool.2),
        spool.2 + kPlacementRecordBytes)

/-- Decode the commands once more and write the shards. -/
def buildSpool (s : BdxStructure) (run : DecodeRun) : Except String Spool := do
  let (decoded, _) ← parse false run.window s.commands
  let (logs, bytes) ← decoded.deliveries.foldlM (deliver (s.append run)) ({}, 0)
  let files := logs.closeAll.files
  let persisted := ((List.range kPlacementShardCount).map fun shard =>
    (files shard).persisted.length).sum
  if persisted ≠ bytes then .error "BDX placement spool 写入大小不一致"
  else if s.temporaryFileLimitBytes ≠ 0 ∧ persisted > s.temporaryFileLimitBytes then
    .error "BDX placement spool 超过 temporary_file_limit_bytes"
  else return ⟨files, bytes⟩

def ensurePlacementSpool (s : BdxStructure) (run : DecodeRun) : Except String Spool :=
  if ¬ s.allowTemporarySpool then
    .error "BDX chunk random access 需要临时 placement spool，且 allow_temporary_spool=false"
  else
    match s.spool with
    | some spool => .ok spool
    | none =>
      match s.buildSpool run with
      | .error error => .error ("BDX placement spool 构建失败: " ++ error)
      | .ok spool => .ok spool

end BdxStructure

@[simp] theorem length_encodePlacementRecord (pos : BlockPos) (runtime : RuntimeId) :
    (encodePlacementRecord pos runtime).length = kPlacementRecordBytes := rfl

/-- Four bytes hold a word. -/
theorem readU32Le_writeU32Le (value : UInt32) (before after : List UInt8) :
    readU32Le (before ++ writeU32Le value ++ after) before.length = value := by
  have hbyte (index : ℕ) (hindex : index < 4) :
      (before ++ writeU32Le value ++ after).getD (before.length + index) 0 =
        (writeU32Le value).getD index 0 := by
    simp only [List.getD_eq_getElem?_getD, List.append_assoc]
    rw [List.getElem?_append_right (Nat.le_add_right _ _), Nat.add_sub_cancel_left,
      List.getElem?_append_left hindex]
  have h8 : (8 : UInt32).toBitVec % 32 = 8#32 := rfl
  have h16 : (16 : UInt32).toBitVec % 32 = 16#32 := rfl
  have h24 : (24 : UInt32).toBitVec % 32 = 24#32 := rfl
  rw [readU32Le, hbyte 1 (by decide), hbyte 2 (by decide), hbyte 3 (by decide)]
  rw [show (before ++ writeU32Le value ++ after).getD before.length 0 = _ from hbyte 0 (by decide)]
  simp only [writeU32Le, List.getD_cons_zero, List.getD_cons_succ]
  apply UInt32.eq_of_toBitVec_eq
  simp only [UInt32.toBitVec_or, UInt32.toBitVec_shiftLeft, UInt32.toBitVec_shiftRight,
    UInt8.toBitVec_toUInt32, UInt32.toBitVec_toUInt8, h8, h16, h24]
  apply BitVec.eq_of_getLsbD_eq
  intro bit hbit
  -- Each bit is in one of the four bytes.
  simp only [BitVec.getLsbD_or, BitVec.shiftLeft_eq', BitVec.ushiftRight_eq',
    BitVec.getLsbD_shiftLeft, BitVec.getLsbD_setWidth, BitVec.getLsbD_ushiftRight,
    BitVec.toNat_ofNat]
  norm_num
  grind

/-- The signed reading undoes the conversion to an unsigned word. -/
theorem readI32Le_writeU32Le {value : ℤ} (h : IsInt32 value) (before after : List UInt8) :
    readI32Le (before ++ writeU32Le (toUInt32 value) ++ after) before.length = value := by
  unfold IsInt32 int32Min int32Max at h
  have hword : ((toUInt32 value).toNat : ℤ) = value % 4294967296 := by
    rw [toUInt32, UInt32.toNat_ofNat']
    omega
  simp only [readI32Le, readU32Le_writeU32Le, int32Max, int32Min]
  split_ifs with hgt
  · omega
  · have hhalf : UInt32.toNat 0x80000000 = 2147483648 := rfl
    rw [UInt32.toNat_sub_of_le _ _ (by rw [UInt32.le_iff_toNat_le]; omega), hhalf]
    omega

/-- A record loses nothing. -/
theorem decodePlacementRecord_encodePlacementRecord {pos : BlockPos} (h : pos.FitsInt32)
    (runtime : RuntimeId) :
    decodePlacementRecord (encodePlacementRecord pos runtime) = (pos, runtime) := by
  have hx := readI32Le_writeU32Le h.1 [] (writeU32Le (toUInt32 pos.y) ++
    (writeU32Le (toUInt32 pos.z) ++ writeU32Le runtime))
  have hy := readI32Le_writeU32Le h.2.1 (writeU32Le (toUInt32 pos.x))
    (writeU32Le (toUInt32 pos.z) ++ writeU32Le runtime)
  have hz := readI32Le_writeU32Le h.2.2 (writeU32Le (toUInt32 pos.x) ++ writeU32Le (toUInt32 pos.y))
    (writeU32Le runtime)
  have hruntime := readU32Le_writeU32Le runtime (writeU32Le (toUInt32 pos.x) ++
    writeU32Le (toUInt32 pos.y) ++ writeU32Le (toUInt32 pos.z)) []
  simp only [List.nil_append, List.append_nil, List.append_assoc] at hx hy hz hruntime
  simp only [decodePlacementRecord, encodePlacementRecord, List.append_assoc]
  exact Prod.ext (BlockPos.mk.injEq .. ▸ ⟨hx, hy, hz⟩) hruntime

theorem placementShard_lt (position : ChunkPos) : placementShard position < kPlacementShardCount :=
  Nat.mod_lt _ (by decide)

theorem dimension_eq_ok {axis : String} {minimum maximum span : ℤ}
    (h : dimension axis minimum maximum = .ok span) : span = maximum - minimum + 1 ∧ 0 < span := by
  simp only [dimension] at h
  obtain ⟨hspan, h⟩ := else_of_ok h
  cases h
  exact ⟨rfl, by omega⟩

theorem normalizePlacementCoordinate_eq_some {raw minimum offset dimension value : ℤ} :
    normalizePlacementCoordinate raw minimum offset dimension = some value ↔
      (0 ≤ raw - minimum ∧ raw - minimum < dimension) ∧ raw - minimum + offset = value ∧
        IsInt32 value := by
  simp only [normalizePlacementCoordinate, IsInt32]
  split_ifs with hout hout
  · refine iff_of_false (fun h => nomatch h) ?_
    rintro ⟨hsource, -⟩
    omega
  · refine iff_of_false (fun h => nomatch h) ?_
    rintro ⟨-, htarget, hrange⟩
    omega
  · rw [Option.some_inj]
    constructor
    · intro htarget
      exact ⟨by omega, htarget, by omega⟩
    · exact fun h => h.2.1

theorem placementCoordinateInExtent_of_normalize {raw minimum offset dimension value : ℤ}
    (h : normalizePlacementCoordinate raw minimum offset dimension = some value) :
    placementCoordinateInExtent value offset dimension = true := by
  obtain ⟨hsource, rfl, -⟩ := normalizePlacementCoordinate_eq_some.mp h
  rw [placementCoordinateInExtent, if_neg (by omega), Bool.and_eq_true, decide_eq_true_iff,
    decide_eq_true_iff]
  omega

/-- If a delivery is consumed, then its placements are, one by one. -/
theorem foldlM_of_deliver {σ : Type} {consumer : σ → BlockPos × RuntimeId → Except String σ}
    {s t : σ} {delivery : Delivery} (h : deliver consumer s delivery = .ok t) :
    delivery.placements.foldlM consumer s = .ok t := by
  cases delivery with
  | single pos runtime =>
    rw [Delivery.placements, List.foldlM_cons]
    exact (congrArg (· >>= fun s' => [].foldlM consumer s') h).trans rfl
  | run start runtimes =>
    rw [Delivery.placements, List.foldlM_map]
    rw [deliver] at h
    generalize runtimes.zipIdx = entries at h
    induction entries generalizing s with
    | nil => exact h
    | cons entry rest ih =>
      rw [List.foldlM_cons] at h ⊢
      obtain ⟨next, hnext, h⟩ := exists_of_bind_ok h
      obtain ⟨-, hnext⟩ := else_of_ok hnext
      rw [hnext]
      exact ih h

theorem foldlM_of_deliveries {σ : Type} {consumer : σ → BlockPos × RuntimeId → Except String σ}
    {s t : σ} {deliveries : List Delivery} (h : deliveries.foldlM (deliver consumer) s = .ok t) :
    (deliveries.flatMap Delivery.placements).foldlM consumer s = .ok t := by
  induction deliveries generalizing s with
  | nil => exact h
  | cons delivery rest ih =>
    rw [List.foldlM_cons] at h
    obtain ⟨next, hnext, h⟩ := exists_of_bind_ok h
    rw [List.flatMap_cons, List.foldlM_append, foldlM_of_deliver hnext]
    exact ih h

/-- A parse hands over the placements of the stream and finds a box around them. -/
theorem parse_ok {boundsOnly : Bool} {window : ℕ → ℕ} {commands : List Command}
    {decoded : DecodeState} {size : Size} (h : parse boundsOnly window commands = .ok (decoded, size)) :
    (∀ placed ∈ placementsFrom ⟨0, 0, 0⟩ commands, size.Contains (placed.1.sub decoded.minimum)) ∧
      (boundsOnly = false → decoded.placements = placementsFrom ⟨0, 0, 0⟩ commands) := by
  rw [parse] at h
  obtain ⟨found, hfound, h⟩ := exists_of_bind_ok h
  obtain ⟨width, hwidth, h⟩ := exists_of_bind_ok h
  obtain ⟨height, hheight, h⟩ := exists_of_bind_ok h
  obtain ⟨length, hlength, h⟩ := exists_of_bind_ok h
  cases h
  have hstart : ({} : DecodeState).InBox ({} : DecodeState).cursor :=
    ⟨⟨le_rfl, le_rfl⟩, ⟨le_rfl, le_rfl⟩, le_rfl, le_rfl⟩
  have hdecoded : Covers {} decoded commands ∧
      (boundsOnly = false → decoded.placements = placementsFrom ⟨0, 0, 0⟩ commands) := by
    rw [decode] at hfound
    split_ifs at hfound with hbounds
    · exact ⟨covers_of_decodeSingle hstart hfound, fun hfull => by rw [hbounds] at hfull; cases hfull⟩
    · obtain ⟨hcovers, hplacements⟩ := decodeFull_ok hstart hfound
      exact ⟨hcovers, fun _ => hplacements⟩
  refine ⟨fun placed hplaced => ?_, hdecoded.2⟩
  obtain ⟨hx, hy, hz⟩ := hdecoded.1.placed placed hplaced
  have hwidth := (dimension_eq_ok hwidth).1
  have hheight := (dimension_eq_ok hheight).1
  have hlength := (dimension_eq_ok hlength).1
  simp only [Size.Contains, BlockPos.sub]
  omega

namespace BdxStructure

/-- A placement with the position where it ends up. -/
def targeted (s : BdxStructure) (placement : BlockPos × RuntimeId) : Option (BlockPos × RuntimeId) :=
  (s.target placement.1).map fun pos => (pos, placement.2)

/-- The placements that a spool has to hold. -/
def targets (s : BdxStructure) : List (BlockPos × RuntimeId) :=
  (placementsFrom ⟨0, 0, 0⟩ s.commands).filterMap s.targeted

theorem target_eq_some {s : BdxStructure} {raw pos : BlockPos} :
    s.target raw = some pos ↔ s.originalSize.Contains (raw.sub s.minimum) ∧
      (raw.sub s.minimum).add s.offset = pos ∧ pos.FitsInt32 := by
  obtain ⟨x, y, z⟩ := pos
  simp only [target, Option.bind_eq_bind, Option.bind_eq_some_iff, Option.pure_def, Option.some_inj,
    normalizePlacementCoordinate_eq_some, Size.Contains, BlockPos.sub, BlockPos.add,
    BlockPos.FitsInt32, BlockPos.mk.injEq]
  constructor
  · rintro ⟨x', hx, y', hy, z', hz, rfl, rfl, rfl⟩
    exact ⟨⟨hx.1, hy.1, hz.1⟩, ⟨hx.2.1, hy.2.1, hz.2.1⟩, hx.2.2, hy.2.2, hz.2.2⟩
  · rintro ⟨⟨hx, hy, hz⟩, ⟨hx', hy', hz'⟩, hfx, hfy, hfz⟩
    exact ⟨x, ⟨hx, hx', hfx⟩, y, ⟨hy, hy', hfy⟩, z, ⟨hz, hz', hfz⟩, rfl, rfl, rfl⟩

/-- Appending placements adds to each shard its records, in order. -/
theorem foldlM_append_ok {s : BdxStructure} {run : DecodeRun} {placements : List (BlockPos × RuntimeId)}
    {before after : Logs UInt8 × ℕ} (hvalid : before.1.Valid)
    (h : placements.foldlM (s.append run) before = .ok after) : after.1.Valid ∧
      ∀ shard, (after.1.files shard).contents = (before.1.files shard).contents ++
        ((placements.filterMap s.targeted).filter fun placement =>
          placementShard (blockToChunk placement.1) = shard).flatMap fun placement =>
            encodePlacementRecord placement.1 placement.2 := by
  induction placements generalizing before with
  | nil =>
    cases h
    exact ⟨hvalid, fun shard => (List.append_nil _).symm⟩
  | cons placement rest ih =>
    rw [List.foldlM_cons] at h
    obtain ⟨next, hnext, h⟩ := exists_of_bind_ok h
    rw [append] at hnext
    split at hnext
    case h_1 htarget =>
      cases hnext
      rw [List.filterMap_cons_none (by rw [targeted, htarget]; rfl)]
      exact ih hvalid h
    case h_2 pos htarget =>
      obtain ⟨_, hnext⟩ := else_of_ok hnext
      obtain ⟨_, hnext⟩ := else_of_ok hnext
      cases hnext
      obtain ⟨hvalid', hcontents⟩ := ih (hvalid.append run.openShards_pos _ _ _) h
      refine ⟨hvalid', fun shard => ?_⟩
      rw [List.filterMap_cons_some (show s.targeted placement = some (pos, placement.2) by
        rw [targeted, htarget]; rfl), hcontents, Logs.contents_append run.openShards_pos,
        List.append_assoc, List.filter_cons]
      by_cases hshard : placementShard (blockToChunk pos) = shard
      · rw [if_pos hshard.symm, if_pos (decide_eq_true hshard), List.flatMap_cons]
      · rw [if_neg (Ne.symm hshard), if_neg (by simpa using hshard), List.nil_append]

/-- The spool holds the records of each shard, in stream order. -/
structure Holds (s : BdxStructure) (spool : Spool) : Prop where
  persisted : ∀ shard, (spool.files shard).persisted =
    (s.targets.filter fun placement => placementShard (blockToChunk placement.1) = shard).flatMap
      fun placement => encodePlacementRecord placement.1 placement.2
  created : ∀ shard, (spool.files shard).created = false → (spool.files shard).persisted = []

theorem holds_of_buildSpool {s : BdxStructure} {run : DecodeRun} {spool : Spool}
    (h : s.buildSpool run = .ok spool) : s.Holds spool := by
  rw [buildSpool] at h
  obtain ⟨⟨decoded, size⟩, hparse, h⟩ := exists_of_bind_ok h
  obtain ⟨⟨logs, bytes⟩, hlogs, h⟩ := exists_of_bind_ok h
  have hplacements := foldlM_of_deliveries hlogs
  rw [show decoded.deliveries.flatMap Delivery.placements = placementsFrom ⟨0, 0, 0⟩ s.commands from
    (parse_ok hparse).2 rfl] at hplacements
  obtain ⟨hvalid, hcontents⟩ := foldlM_append_ok Logs.valid_empty hplacements
  dsimp only at h
  obtain ⟨_, h⟩ := else_of_ok h
  obtain ⟨-, h⟩ := else_of_ok h
  cases h
  refine ⟨fun shard => ?_, fun shard hcreated => (hvalid.closeAll shard hcreated).1⟩
  exact (Logs.persisted_closeAll logs shard).trans ((hcontents shard).trans (List.nil_append _))

end BdxStructure

end WaterStructure.Bdx
