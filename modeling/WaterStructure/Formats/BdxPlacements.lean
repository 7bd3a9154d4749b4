import WaterStructure.Formats.BdxSpool
import WaterStructure.Library.LastValue

/-!
# Chunks of a BDX structure

Chunks are filled by replaying the shards that can hold their records, or by decoding the commands
once more when no spool is allowed. Either way a cell has the block of the last placement there, air
included. Subchunks that end up with air only are taken away.
-/

namespace WaterStructure.Bdx

open LastValue NestedLoop ShardedLog

/-- Store a block, if its chunk is requested. -/
def storePlacement (air : RuntimeId) (chunks : ChunkMap) (placement : BlockPos × RuntimeId) :
    ChunkMap :=
  AssocMap.update chunks (blockToChunk placement.1) fun chunk =>
    let subY := toInt32 (floorDiv64 (placement.1.y - 64) 16)
    let localSubY := toInt32 (placement.1.y - (subY * 16 + 64))
    chunk.setBlock air subY ((localSubY * 16 + floorMod placement.1.z 16) * 16 +
      floorMod placement.1.x 16).toNat placement.2

/-- The first layer has air only. -/
def onlyAir (air : RuntimeId) (sub : SubChunkData) : Bool :=
  (List.range 4096).all fun index => sub.layer0 index = air

/-- Take away the subchunks with air only. -/
def dropAirSubChunks (air : RuntimeId) (chunks : ChunkMap) : ChunkMap :=
  AssocMap.mapValues chunks fun chunk =>
    { chunk with subChunks := AssocMap.filterValues chunk.subChunks fun sub => !onlyAir air sub }

namespace BdxStructure

def inExtent (s : BdxStructure) (pos : BlockPos) : Bool :=
  placementCoordinateInExtent pos.x s.offset.x s.originalSize.width &&
    placementCoordinateInExtent pos.y s.offset.y s.originalSize.height &&
    placementCoordinateInExtent pos.z s.offset.z s.originalSize.length

/-- Replay the records of a shard; the fuel is at least their number. -/
def readShard (s : BdxStructure) (air : RuntimeId) : ℕ → ChunkMap → List UInt8 →
    Except String ChunkMap
  | 0, chunks, _ => .ok chunks
  | fuel + 1, chunks, bytes =>
    let record := bytes.take kPlacementRecordBytes
    if record = [] then .ok chunks
    else if record.length ≠ kPlacementRecordBytes then .error "BDX placement shard 截断"
    else
      let placement := decodePlacementRecord record
      if ¬ s.inExtent placement.1 then .error "BDX placement shard 坐标越界"
      else s.readShard air fuel (storePlacement air chunks placement)
        (bytes.drop kPlacementRecordBytes)

/-- The shards that can hold requested chunks. -/
def requestedShards (positions : List ChunkPos) : List ℕ :=
  (List.range kPlacementShardCount).filter fun shard =>
    positions.any fun position => placementShard position = shard

/-- Replay these shards. -/
def replay (s : BdxStructure) (air : RuntimeId) (spool : Spool) (positions : List ChunkPos) :
    Except String ChunkMap := do
  let chunks ← (requestedShards positions).foldlM (fun chunks shard =>
      if ¬ (spool.files shard).created then .ok chunks
      else s.readShard air (spool.files shard).persisted.length chunks (spool.files shard).persisted)
    (ChunkMap.emplaceAll positions)
  return dropAirSubChunks air chunks

/-- Without a spool the placements are applied while the commands are decoded. -/
def applyPlacement (s : BdxStructure) (air : RuntimeId) (chunks : ChunkMap)
    (placement : BlockPos × RuntimeId) : Except String ChunkMap :=
  match s.target placement.1 with
  | none => .ok chunks
  | some pos => .ok (storePlacement air chunks (pos, placement.2))

def redecode (s : BdxStructure) (run : DecodeRun) (air : RuntimeId) (positions : List ChunkPos) :
    Except String ChunkMap := do
  let (decoded, _) ← parse false run.window s.commands
  let chunks ← decoded.deliveries.foldlM (deliver (s.applyPlacement air))
    (ChunkMap.emplaceAll positions)
  return dropAirSubChunks air chunks

/-- `get_chunks`; the spool stays for the next request. -/
def getChunks (s : BdxStructure) (run : DecodeRun) (air : RuntimeId) (positions : List ChunkPos) :
    Except String ChunkMap × BdxStructure :=
  if s.allowTemporarySpool then
    match s.ensurePlacementSpool run with
    | .error error => (.error error, { s with spool := none })
    | .ok spool => (s.replay air spool positions, { s with spool := some spool })
  else (s.redecode run air positions, s)

end BdxStructure

/-- What a caller does with a structure that has been read. -/
inductive Call where
  | setOffset (offset : BlockPos)
  | setStreamingOptions (allowTemporarySpool : Bool) (temporaryFileLimitBytes : ℕ)
  | getChunks (run : DecodeRun) (positions : List ChunkPos)

def BdxStructure.apply (air : RuntimeId) (s : BdxStructure) : Call → BdxStructure
  | .setOffset offset => s.setOffset offset
  | .setStreamingOptions allow limit => s.setStreamingOptions allow limit
  | .getChunks run positions => (s.getChunks run air positions).2

/-- The block of the last placement of the stream that is moved to the position. -/
def lastPlaced (commands : List Command) (minimum offset pos : BlockPos) : Option RuntimeId :=
  lastValue (fun placement : BlockPos × RuntimeId =>
    if (placement.1.sub minimum).add offset = pos then some placement.2 else none)
    (placementsFrom ⟨0, 0, 0⟩ commands)

/-- A block whose position fits the machine integers is stored under its position. -/
theorem lookup_storePlacement {air : RuntimeId} {chunks : ChunkMap} {pos : BlockPos}
    (hpos : pos.FitsInt32) (runtime : RuntimeId)
    (hlayout : ∀ key chunk, chunks.lookup key = some chunk → chunk.layout = .Internal)
    (key : ChunkPos) : (storePlacement air chunks (pos, runtime)).lookup key =
      if key = blockToChunk pos then (chunks.lookup key).map fun chunk => chunk.setAt air pos runtime
      else chunks.lookup key := by
  rw [storePlacement, AssocMap.lookup_update]
  split_ifs with hkey
  · subst hkey
    refine Option.map_congr fun chunk hchunk => ?_
    obtain ⟨-, hy, -⟩ := hpos
    unfold IsInt32 int32Min int32Max at hy
    have hsub : toInt32 (floorDiv64 (pos.y - 64) 16) = floorDiv (pos.y - 64) 16 := by
      rw [floorDiv64_sixteen, floorDiv_sixteen, toInt32]
      omega
    have hlocal : toInt32 (pos.y - (floorDiv (pos.y - 64) 16 * 16 + 64)) =
        pos.y - (floorDiv (pos.y - 64) 16 * 16 + 64) := by
      rw [floorDiv_sixteen, toInt32]
      omega
    simp only [hsub, hlocal, ChunkData.setAt, hlayout _ chunk hchunk]
    rfl
  · rfl

/-- The chunks are those asked for, in the layout of the readers. -/
structure Requested (positions : List ChunkPos) (chunks : ChunkMap) : Prop where
  isSome : ∀ key, (chunks.lookup key).isSome = true ↔ key ∈ positions
  layout : ∀ key chunk, chunks.lookup key = some chunk → chunk.layout = .Internal

theorem requested_emplaceAll (positions : List ChunkPos) :
    Requested positions (ChunkMap.emplaceAll positions) := by
  refine ⟨fun key => ?_, fun key chunk hchunk => ?_⟩
  · rw [ChunkMap.lookup_emplaceAll]
    split_ifs with hkey
    · exact iff_of_true rfl hkey
    · exact iff_of_false (fun h => nomatch h) hkey
  · rw [ChunkMap.lookup_emplaceAll] at hchunk
    obtain ⟨-, hchunk⟩ := then_of_some hchunk
    cases hchunk
    rfl

variable {air : RuntimeId} {chunks : ChunkMap}

/-- Storing one block changes one cell of the requested chunks. -/
theorem Requested.storePlacement {positions : List ChunkPos} (h : Requested positions chunks)
    {placement : BlockPos × RuntimeId} (hpos : placement.1.FitsInt32) :
    Requested positions (storePlacement air chunks placement) ∧
      ∀ other, blockToChunk other ∈ positions →
        ((Bdx.storePlacement air chunks placement).blockAt air other).getD air =
          (if placement.1 = other then some placement.2 else none).getD
            ((chunks.blockAt air other).getD air) := by
  have hlookup := @lookup_storePlacement air chunks placement.1 hpos placement.2 h.layout
  refine ⟨⟨fun key => ?_, fun key chunk hchunk => ?_⟩, fun other hother => ?_⟩
  · rw [hlookup, ← h.isSome]
    split
    · rw [Option.isSome_map]
    · rfl
  · rw [hlookup] at hchunk
    split at hchunk
    · obtain ⟨old, hold, rfl⟩ := Option.map_eq_some_iff.mp hchunk
      exact h.layout key old hold
    · exact h.layout key chunk hchunk
  · obtain ⟨chunk, hchunk⟩ := Option.isSome_iff_exists.mp ((h.isSome _).mpr hother)
    simp only [ChunkMap.blockAt, hlookup, hchunk, Option.map_some]
    by_cases hkey : blockToChunk other = blockToChunk placement.1
    · rw [if_pos hkey, Option.map_some, Option.getD_some, ChunkData.blockAt_setAt _ _ _ hkey.symm]
      by_cases hsame : other = placement.1
      · rw [if_pos hsame, if_pos hsame.symm]
        rfl
      · rw [if_neg hsame, if_neg (Ne.symm hsame)]
        rfl
    · have hne : placement.1 ≠ other := fun hsame => hkey (congrArg blockToChunk hsame.symm)
      rw [if_neg hkey, if_neg hne]
      rfl

theorem Requested.foldl {air : RuntimeId} {positions : List ChunkPos} {chunks : ChunkMap}
    (h : Requested positions chunks) {placements : List (BlockPos × RuntimeId)}
    (hfits : ∀ placement ∈ placements, placement.1.FitsInt32) :
    Requested positions (placements.foldl (Bdx.storePlacement air) chunks) := by
  induction placements generalizing chunks with
  | nil => exact h
  | cons placement rest ih =>
    exact ih (h.storePlacement (hfits placement List.mem_cons_self)).1
      fun other hother => hfits other (List.mem_cons_of_mem placement hother)

/-- After any stores each cell has the last block stored there. -/
theorem Requested.blockAt_foldl {air : RuntimeId} {positions : List ChunkPos} {chunks : ChunkMap}
    (h : Requested positions chunks) {placements : List (BlockPos × RuntimeId)}
    (hfits : ∀ placement ∈ placements, placement.1.FitsInt32) {other : BlockPos}
    (hother : blockToChunk other ∈ positions) :
    ((placements.foldl (Bdx.storePlacement air) chunks).blockAt air other).getD air =
      (lastValue (fun placement : BlockPos × RuntimeId =>
        if placement.1 = other then some placement.2 else none) placements).getD
          ((chunks.blockAt air other).getD air) :=
  (foldl_observe_inv (fun chunks : ChunkMap => (chunks.blockAt air other).getD air) _
    (Bdx.storePlacement air) (Requested positions) placements h
    fun chunks hchunks placement hplacement =>
      ⟨(hchunks.storePlacement (hfits placement hplacement)).1,
        (hchunks.storePlacement (hfits placement hplacement)).2 other hother⟩).2

variable {sub : SubChunkData}

theorem onlyAir_eq_true : onlyAir air sub = true ↔ ∀ index < 4096, sub.layer0 index = air := by
  simp only [onlyAir, List.all_eq_true, List.mem_range, decide_eq_true_iff]

/-- A subchunk with air only reads as a missing one does. -/
theorem blockAt_dropAirSubChunks (pos : BlockPos) :
    (dropAirSubChunks air chunks).blockAt air pos = chunks.blockAt air pos := by
  rw [ChunkMap.blockAt, ChunkMap.blockAt, dropAirSubChunks, AssocMap.lookup_mapValues,
    Option.map_map]
  congr 1
  funext chunk
  have hlocal : IsLocal (pos.y - (floorDiv (pos.y - 64) 16 * 16 + 64)) := by
    rw [floorDiv_sixteen, IsLocal]
    omega
  have hx : IsLocal (floorMod pos.x 16) := floorMod_sixteen pos.x ▸ isLocal_emod pos.x
  have hz : IsLocal (floorMod pos.z 16) := floorMod_sixteen pos.z ▸ isLocal_emod pos.z
  have hindex := chunk.layout.index_lt hx hlocal hz
  simp only [Function.comp_apply, ChunkData.blockAt, ChunkData.layer0At, AssocMap.lookup_filterValues]
  cases hsub : chunk.subChunks.lookup (floorDiv (pos.y - 64) 16) with
  | none => rfl
  | some sub =>
    rw [Option.filter_some]
    split
    case h_1 hdropped =>
      split at hdropped
      case isTrue => cases hdropped
      case isFalse hair =>
        rw [Bool.not_eq_true, Bool.not_eq_false'] at hair
        exact (onlyAir_eq_true.mp hair _ hindex).symm
    case h_2 kept hkept =>
      obtain ⟨-, hkept⟩ := then_of_some hkept
      cases hkept
      rfl

/-- What is left has blocks. -/
theorem exists_block_dropAirSubChunks {key : ChunkPos} {chunk : ChunkData}
    (hchunk : (dropAirSubChunks air chunks).lookup key = some chunk) {subY : ℤ}
    (hsub : chunk.subChunks.lookup subY = some sub) : ∃ index < 4096, sub.layer0 index ≠ air := by
  rw [dropAirSubChunks, AssocMap.lookup_mapValues] at hchunk
  obtain ⟨old, -, rfl⟩ := Option.map_eq_some_iff.mp hchunk
  rw [AssocMap.lookup_filterValues, Option.filter_eq_some_iff] at hsub
  by_contra hall
  rw [onlyAir_eq_true.mpr fun index hindex => by
    by_contra hne
    exact hall ⟨index, hindex, hne⟩] at hsub
  exact Bool.noConfusion hsub.2

namespace BdxStructure

/-- The records of a shard are replayed one after the other. -/
theorem readShard_ok {s : BdxStructure} {air : RuntimeId} {fuel : ℕ} {chunks : ChunkMap}
    {records : List (BlockPos × RuntimeId)}
    (hrecords : ∀ record ∈ records, record.1.FitsInt32 ∧ s.inExtent record.1 = true)
    (hfuel : records.length ≤ fuel) :
    s.readShard air fuel chunks
        (records.flatMap fun record => encodePlacementRecord record.1 record.2) =
      .ok (records.foldl (storePlacement air) chunks) := by
  induction records generalizing fuel chunks with
  | nil =>
    cases fuel with
    | zero => rfl
    | succ fuel => rfl
  | cons record rest ih =>
    obtain ⟨fuel, rfl⟩ : ∃ less, fuel = less + 1 := ⟨fuel - 1, by
      rw [List.length_cons] at hfuel
      omega⟩
    obtain ⟨hfits, hextent⟩ := hrecords record List.mem_cons_self
    have htake : ((record :: rest).flatMap fun record =>
        encodePlacementRecord record.1 record.2).take kPlacementRecordBytes =
          encodePlacementRecord record.1 record.2 := by
      rw [List.flatMap_cons, List.take_left' (length_encodePlacementRecord _ _)]
    have hdrop : ((record :: rest).flatMap fun record =>
        encodePlacementRecord record.1 record.2).drop kPlacementRecordBytes =
          rest.flatMap fun record => encodePlacementRecord record.1 record.2 := by
      rw [List.flatMap_cons, List.drop_left' (length_encodePlacementRecord _ _)]
    have hne : encodePlacementRecord record.1 record.2 ≠ [] := fun hnil => by
      have hlength := congrArg List.length hnil
      cases hlength
    simp only [readShard, htake, hdrop, if_neg hne,
      decodePlacementRecord_encodePlacementRecord hfits, length_encodePlacementRecord, hextent]
    exact ih (fun other hother => hrecords other (List.mem_cons_of_mem record hother))
      (Nat.le_of_succ_le_succ hfuel)

variable {s : BdxStructure} {air : RuntimeId} {positions : List ChunkPos} {run : DecodeRun}

theorem mem_targets {placement : BlockPos × RuntimeId} (h : placement ∈ s.targets) :
    placement.1.FitsInt32 ∧ s.inExtent placement.1 = true := by
  obtain ⟨⟨raw, runtime⟩, -, htargeted⟩ := List.mem_filterMap.mp h
  obtain ⟨pos, hpos, rfl⟩ := Option.map_eq_some_iff.mp htargeted
  refine ⟨(target_eq_some.mp hpos).2.2, ?_⟩
  obtain ⟨x, hx, hpos⟩ := Option.bind_eq_some_iff.mp hpos
  obtain ⟨y, hy, hpos⟩ := Option.bind_eq_some_iff.mp hpos
  obtain ⟨z, hz, hpos⟩ := Option.bind_eq_some_iff.mp hpos
  cases hpos
  rw [inExtent, Bool.and_eq_true, Bool.and_eq_true]
  exact ⟨⟨placementCoordinateInExtent_of_normalize hx, placementCoordinateInExtent_of_normalize hy⟩,
    placementCoordinateInExtent_of_normalize hz⟩

variable {spool : Spool} {pos : BlockPos} {boundsOnly : Bool} {window : ℕ → ℕ}
  {commands : List Command}

theorem replay_ok (hspool : s.Holds spool) (positions : List ChunkPos) :
    s.replay air spool positions = .ok (dropAirSubChunks air
      (((requestedShards positions).flatMap fun shard => s.targets.filter fun placement =>
        placementShard (blockToChunk placement.1) = shard).foldl (storePlacement air)
          (ChunkMap.emplaceAll positions))) := by
  have hshard (chunks : ChunkMap) (shard : ℕ) :
      (if ¬ (spool.files shard).created then .ok chunks
        else s.readShard air (spool.files shard).persisted.length chunks
          (spool.files shard).persisted) =
        .ok ((s.targets.filter fun placement =>
          placementShard (blockToChunk placement.1) = shard).foldl (storePlacement air) chunks) := by
    have hlength (records : List (BlockPos × RuntimeId)) : records.length ≤
        (records.flatMap fun record => encodePlacementRecord record.1 record.2).length := by
      induction records with
      | nil => exact le_rfl
      | cons record rest ih =>
        rw [List.flatMap_cons, List.length_append, length_encodePlacementRecord, List.length_cons,
          kPlacementRecordBytes]
        omega
    have hreplay := @readShard_ok s air _ chunks
      (s.targets.filter fun placement => placementShard (blockToChunk placement.1) = shard)
      (fun record hrecord => mem_targets (List.mem_of_mem_filter hrecord)) (hlength _)
    rw [← hspool.persisted] at hreplay
    split
    case isTrue hcreated =>
      rw [hspool.created shard (Bool.eq_false_iff.mpr hcreated)] at hreplay
      exact hreplay
    case isFalse => exact hreplay
  rw [replay]
  simp only [hshard]
  rw [@foldlM_ok _ _ _ _ (fun chunks shard => (s.targets.filter fun placement =>
    placementShard (blockToChunk placement.1) = shard).foldl (storePlacement air) chunks) _
      fun _ _ _ => rfl, List.foldl_flatMap]
  rfl

/-- What a cell gets from its shard is what it gets from the whole stream. -/
theorem lastValue_requestedShards (hpos : blockToChunk pos ∈ positions) :
    lastValue (fun placement : BlockPos × RuntimeId =>
        if placement.1 = pos then some placement.2 else none)
      ((requestedShards positions).flatMap fun shard => s.targets.filter fun placement =>
        placementShard (blockToChunk placement.1) = shard) =
      lastValue (fun placement : BlockPos × RuntimeId =>
        if placement.1 = pos then some placement.2 else none) s.targets := by
  have hmem : placementShard (blockToChunk pos) ∈ requestedShards positions :=
    List.mem_filter.mpr ⟨List.mem_range.mpr (placementShard_lt _),
      List.any_eq_true.mpr ⟨_, hpos, decide_eq_true rfl⟩⟩
  rw [lastValue_flatMap, lastValue_of_unique hmem, lastValue_filter]
  · intro placement _ hother
    rw [if_neg]
    rintro rfl
    simp at hother
  · intro shard _ hshard
    refine lastValue_eq_none.mpr fun placement hplacement => ?_
    have hsame := of_decide_eq_true (List.mem_filter.mp hplacement).2
    rw [if_neg]
    rintro rfl
    exact hshard hsame.symm

theorem redecode_ok {chunks : ChunkMap} (h : s.redecode run air positions = .ok chunks) :
    chunks = dropAirSubChunks air
      (s.targets.foldl (storePlacement air) (ChunkMap.emplaceAll positions)) := by
  rw [redecode] at h
  obtain ⟨⟨decoded, size⟩, hparse, h⟩ := exists_of_bind_ok h
  obtain ⟨filled, hfilled, h⟩ := exists_of_bind_ok h
  cases h
  have happly (placements : List (BlockPos × RuntimeId)) (chunks : ChunkMap) :
      placements.foldlM (s.applyPlacement air) chunks =
        .ok ((placements.filterMap s.targeted).foldl (storePlacement air) chunks) := by
    induction placements generalizing chunks with
    | nil => rfl
    | cons placement rest ih =>
      rw [List.foldlM_cons, applyPlacement]
      split
      case h_1 htarget =>
        rw [List.filterMap_cons_none (by rw [targeted, htarget]; rfl)]
        exact ih chunks
      case h_2 pos htarget =>
        rw [List.filterMap_cons_some (show s.targeted placement = some (pos, placement.2) by
          rw [targeted, htarget]; rfl)]
        exact ih _
  have hplacements := foldlM_of_deliveries hfilled
  rw [happly, show decoded.deliveries.flatMap Delivery.placements =
    placementsFrom ⟨0, 0, 0⟩ s.commands from (parse_ok hparse).2 rfl] at hplacements
  rw [← Except.ok.inj hplacements, targets]

/-- All placements are in the box of the structure, and a spool holds them. -/
structure Coherent (s : BdxStructure) : Prop where
  inside : ∀ placed ∈ placementsFrom ⟨0, 0, 0⟩ s.commands,
    s.originalSize.Contains (placed.1.sub s.minimum)
  holds : ∀ spool, s.spool = some spool → s.Holds spool

theorem coherent_read (h : read boundsOnly window commands = .ok s) : s.Coherent := by
  rw [read] at h
  obtain ⟨⟨decoded, size⟩, hparse, h⟩ := exists_of_bind_ok h
  cases h
  exact ⟨(parse_ok hparse).1, fun spool hspool => nomatch hspool⟩

theorem commands_of_read (h : read boundsOnly window commands = .ok s) : s.commands = commands := by
  rw [read] at h
  obtain ⟨⟨decoded, size⟩, -, h⟩ := exists_of_bind_ok h
  cases h
  rfl

theorem holds_of_ensurePlacementSpool (h : s.Coherent)
    (hspool : s.ensurePlacementSpool run = .ok spool) : s.Holds spool := by
  rw [ensurePlacementSpool] at hspool
  obtain ⟨_, hspool⟩ := else_of_ok hspool
  split at hspool
  case h_1 found hfound =>
    cases hspool
    exact h.holds _ hfound
  case h_2 =>
    split at hspool
    case h_1 => cases hspool
    case h_2 built hbuilt =>
      cases hspool
      exact holds_of_buildSpool hbuilt

/-- No call moves a placement out of the box, and none leaves a spool that is out of date. -/
theorem Coherent.apply (h : s.Coherent) (air : RuntimeId) (call : Call) :
    (s.apply air call).Coherent := by
  cases call with
  | setOffset offset => exact ⟨h.inside, fun spool hspool => nomatch hspool⟩
  | setStreamingOptions allow limit => exact ⟨h.inside, fun spool hspool => nomatch hspool⟩
  | getChunks run positions =>
    rw [BdxStructure.apply, getChunks]
    split
    · split
      case h_1 => exact ⟨h.inside, fun spool hspool => nomatch hspool⟩
      case h_2 spool hspool =>
        refine ⟨h.inside, fun other hother => ?_⟩
        cases hother
        have hholds := holds_of_ensurePlacementSpool h hspool
        exact ⟨hholds.persisted, hholds.created⟩
    · exact h

theorem Coherent.foldl_apply (h : s.Coherent) (air : RuntimeId) (calls : List Call) :
    (calls.foldl (BdxStructure.apply air) s).Coherent := by
  induction calls generalizing s with
  | nil => exact h
  | cons call rest ih => exact ih (h.apply air call)

/-- In the box nothing but the machine integers clips a placement. -/
theorem Coherent.lastValue_targets (h : s.Coherent) (hpos : pos.FitsInt32) :
    lastValue (fun placement : BlockPos × RuntimeId =>
      if placement.1 = pos then some placement.2 else none) s.targets =
        lastPlaced s.commands s.minimum s.offset pos := by
  rw [targets, lastValue_filterMap, lastPlaced]
  refine lastValue_congr fun placement hplacement => ?_
  have hinside := h.inside placement hplacement
  rw [targeted]
  by_cases hsame : (placement.1.sub s.minimum).add s.offset = pos
  · rw [target_eq_some.mpr ⟨hinside, hsame, hpos⟩, if_pos hsame]
    exact if_pos rfl
  · rw [if_neg hsame]
    cases htarget : s.target placement.1 with
    | none => rfl
    | some found => exact if_neg fun hfound => hsame ((target_eq_some.mp htarget).2.1.trans hfound)

/-- Both ways of filling chunks store the last placements. -/
theorem Coherent.getChunks_ok {next : BdxStructure} (h : s.Coherent) {chunks : ChunkMap}
    (hchunks : s.getChunks run air positions = (.ok chunks, next)) :
    ∃ placements, chunks = dropAirSubChunks air
        (placements.foldl (storePlacement air) (ChunkMap.emplaceAll positions)) ∧
      (∀ placement ∈ placements, placement.1.FitsInt32) ∧
      ∀ pos, blockToChunk pos ∈ positions →
        lastValue (fun placement : BlockPos × RuntimeId =>
            if placement.1 = pos then some placement.2 else none) placements =
          lastValue (fun placement : BlockPos × RuntimeId =>
            if placement.1 = pos then some placement.2 else none) s.targets := by
  rw [getChunks] at hchunks
  split at hchunks
  · split at hchunks
    case h_1 => cases hchunks
    case h_2 spool hspool =>
      obtain ⟨hreplay, -⟩ := Prod.mk.inj hchunks
      rw [replay_ok (holds_of_ensurePlacementSpool h hspool)] at hreplay
      refine ⟨_, (Except.ok.inj hreplay).symm, fun placement hplacement => ?_,
        fun pos hpos => lastValue_requestedShards hpos⟩
      obtain ⟨shard, -, hshard⟩ := List.mem_flatMap.mp hplacement
      exact (mem_targets (List.mem_of_mem_filter hshard)).1
  · obtain ⟨hredecode, -⟩ := Prod.mk.inj hchunks
    exact ⟨_, redecode_ok hredecode, fun placement hplacement => (mem_targets hplacement).1,
      fun _ _ => rfl⟩

end BdxStructure

/-- Calls do not change what has been read. -/
theorem BdxStructure.foldl_apply_read (air : RuntimeId) (calls : List Call) (s : BdxStructure) :
    (calls.foldl (BdxStructure.apply air) s).commands = s.commands ∧
      (calls.foldl (BdxStructure.apply air) s).minimum = s.minimum := by
  induction calls generalizing s with
  | nil => exact ⟨rfl, rfl⟩
  | cons call rest ih =>
    have hcall : (s.apply air call).commands = s.commands ∧
        (s.apply air call).minimum = s.minimum := by
      cases call with
      | setOffset offset => exact ⟨rfl, rfl⟩
      | setStreamingOptions allow limit => exact ⟨rfl, rfl⟩
      | getChunks run positions =>
        rw [BdxStructure.apply, BdxStructure.getChunks]
        split
        · split
          case h_1 => exact ⟨rfl, rfl⟩
          case h_2 => exact ⟨rfl, rfl⟩
        · exact ⟨rfl, rfl⟩
    exact ⟨(ih _).1.trans hcall.1, (ih _).2.trans hcall.2⟩

/-- After a read and any calls, with or without a spool, a cell of a requested chunk has the block of
the last placement that is moved there, and air when there is none; subchunks with air only are left
out; and the records of the spool lose nothing. -/
theorem getChunks_lastPlaced {air : RuntimeId} {boundsOnly : Bool} {window : ℕ → ℕ}
    {commands : List Command} {s next : BdxStructure}
    (hread : BdxStructure.read boundsOnly window commands = .ok s) (calls : List Call)
    (run : DecodeRun) (positions : List ChunkPos) {chunks : ChunkMap}
    (h : (calls.foldl (BdxStructure.apply air) s).getChunks run air positions = (.ok chunks, next)) :
    (∀ key, key ∈ chunks ↔ key ∈ positions) ∧
      (∀ pos, pos.FitsInt32 → blockToChunk pos ∈ positions → chunks.blockAt air pos =
        some ((lastPlaced commands s.minimum (calls.foldl (BdxStructure.apply air) s).offset pos).getD
          air)) ∧
      (∀ key chunk, chunks.lookup key = some chunk → ∀ subY sub,
        chunk.subChunks.lookup subY = some sub → ∃ index < 4096, sub.layer0 index ≠ air) ∧
      ∀ pos runtime, pos.FitsInt32 →
        decodePlacementRecord (encodePlacementRecord pos runtime) = (pos, runtime) := by
  have hcoherent := (BdxStructure.coherent_read hread).foldl_apply air calls
  obtain ⟨hcommands, hminimum⟩ := BdxStructure.foldl_apply_read air calls s
  obtain ⟨placements, rfl, hfits, hlast⟩ := hcoherent.getChunks_ok h
  have hrequested := @Requested.foldl air _ _ (requested_emplaceAll positions) _ hfits
  refine ⟨fun key => ?_, fun pos hpos hkey => ?_,
    fun key chunk hchunk subY sub hsub => exists_block_dropAirSubChunks hchunk hsub,
    fun pos runtime hpos => decodePlacementRecord_encodePlacementRecord hpos runtime⟩
  · rw [← hrequested.isSome, ← AList.lookup_isSome, dropAirSubChunks, AssocMap.lookup_mapValues,
      Option.isSome_map]
  · have hblock := @Requested.blockAt_foldl air _ _ (requested_emplaceAll positions) _ hfits _ hkey
    have hempty : ((ChunkMap.emplaceAll positions).blockAt air pos).getD air = air := by
      rw [ChunkMap.blockAt, ChunkMap.lookup_emplaceAll, if_pos hkey]
      rfl
    rw [hlast pos hkey, hcoherent.lastValue_targets hpos, hempty, hcommands, hminimum,
      BdxStructure.commands_of_read hread] at hblock
    obtain ⟨chunk, hchunk⟩ := Option.isSome_iff_exists.mp ((hrequested.isSome _).mpr hkey)
    rw [blockAt_dropAirSubChunks]
    rw [ChunkMap.blockAt, hchunk] at hblock ⊢
    exact congrArg some hblock

/-- A stream with two blocks at its start. -/
def twiceCommands : List Command :=
  [.placeConstant (.ok 7), .nextZ, .place (.ok 9), .move .Z (-1), .placeConstant (.ok 8), .terminate]

def twiceStructure : BdxStructure :=
  BdxStructure.setOffset
    { commands := twiceCommands
      minimum := ⟨0, 0, 0⟩
      originalSize := ⟨1, 1, 2⟩ } ⟨0, 0, 0⟩

/-- The structure is moved and read back from a small spool. -/
def twiceCalls : List Call := [.setStreamingOptions true 48, .setOffset ⟨-20, 3, 15⟩]

theorem getChunks_lastPlaced_twice : ∃ chunks next,
    (twiceCalls.foldl (BdxStructure.apply 0) twiceStructure).getChunks { window := fun _ => 0 } 0
        [⟨-2, 0⟩, ⟨-2, 1⟩] = (.ok chunks, next) ∧
      chunks.blockAt 0 ⟨-20, 3, 15⟩ = some 8 ∧ chunks.blockAt 0 ⟨-20, 3, 16⟩ = some 9 ∧
      chunks.blockAt 0 ⟨-20, 4, 15⟩ = some 0 := by
  have hread : BdxStructure.read true (fun _ => 0) twiceCommands = .ok twiceStructure := rfl
  have hok : ((twiceCalls.foldl (BdxStructure.apply 0) twiceStructure).getChunks
      { window := fun _ => 0 } 0 [⟨-2, 0⟩, ⟨-2, 1⟩]).1.isOk = true := by
    decide +kernel
  cases hresult : (twiceCalls.foldl (BdxStructure.apply 0) twiceStructure).getChunks
      { window := fun _ => 0 } 0 [⟨-2, 0⟩, ⟨-2, 1⟩] with
  | mk result next =>
    rw [hresult] at hok
    cases result with
    | error error => cases hok
    | ok chunks =>
      obtain ⟨-, hblocks, -⟩ := getChunks_lastPlaced hread twiceCalls { window := fun _ => 0 }
        [⟨-2, 0⟩, ⟨-2, 1⟩] hresult
      exact ⟨chunks, next, rfl, hblocks ⟨-20, 3, 15⟩ (by decide) (by decide),
        hblocks ⟨-20, 3, 16⟩ (by decide) (by decide), hblocks ⟨-20, 4, 15⟩ (by decide) (by decide)⟩

end WaterStructure.Bdx
