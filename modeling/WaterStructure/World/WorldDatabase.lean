import WaterStructure.Formats.McWorldSelection
import WaterStructure.World.EncodeChunks
import WaterStructure.World.EntityLanding
import WaterStructure.World.MovedStructures
import WaterStructure.World.SubChunkPayload

/-!
# From a structure to a stored world and back

A world encodes the subchunks of the chunks that it is told to save, and puts each payload into its database
under the key of the subchunk, where it replaces an older one. The marks and the entities of a chunk have keys
of their own. Whatever was saved, a cell that is read is the one that was saved last. A structure that is
converted into an empty world and selected there shows the same blocks.
-/

namespace WaterStructure

open ChunkStream EncodeChunks LastValue NestedLoop SelfDelimiting
open SubChunkPayload (PaletteCodec wordCodec wordCodec_restores)

/-- The keys of a world and their values. -/
abbrev WorldDatabase := List UInt8 → Option (List UInt8)

namespace WorldDatabase

/-- `makeChunkKey` for the overworld. -/
def makeChunkKey (x z : ℤ) (suffix : List UInt8) : List UInt8 :=
  littleEndian 4 (x % 4294967296).toNat ++ (littleEndian 4 (z % 4294967296).toNat ++ suffix)

def subChunkKey (pos : SubChunkPos) : List UInt8 := makeChunkKey pos.x pos.z [47, UInt8.ofNat (pos.y % 256).toNat]

def put (database : WorldDatabase) (key value : List UInt8) : WorldDatabase :=
  Function.update database key (some value)

/-- The version and the finalisation of a chunk. -/
def putMetadata (database : WorldDatabase) (chunk : ℤ × ℤ) : WorldDatabase :=
  put (put database (makeChunkKey chunk.1 chunk.2 [44]) [40]) (makeChunkKey chunk.1 chunk.2 [54])
    (littleEndian 4 2)

/-- What `World::saveSubChunkPayloadsBatch` refuses. -/
def refusal (write : EncodedSubChunk) : Option String :=
  if write.pos.y < kMinSubChunkY ∨ write.pos.y > kMaxSubChunkY then some "subchunk Y is out of dimension range"
  else
    match write.payload with
    | [] => some "payload is empty; use nullopt to delete"
    | version :: header =>
      if version ≠ 1 ∧ version ≠ 8 ∧ version ≠ 9 then some "unsupported subchunk payload version"
      else if version = 1 then none
      else
        match header with
        | [] => some "truncated subchunk payload header"
        | storages :: rest =>
          if storages = 0 then some "subchunk payload has no storages"
          else if version = 8 then none
          else
            match rest with
            | [] => some "truncated v9 subchunk payload header"
            | y :: _ => if Int.bmod y.toNat 256 = write.pos.y then none else some "v9 payload Y does not match position"

/-- `World::saveSubChunkPayloadsBatch`: all of the payloads or none. -/
def saveSubChunkPayloadsBatch (database : WorldDatabase) (writes : List EncodedSubChunk) :
    Except String WorldDatabase :=
  match writes.findSome? refusal with
  | some reason => .error ("World::saveSubChunkPayloadsBatch: " ++ reason)
  | none => .ok (writes.foldl (fun database write => put database (subChunkKey write.pos) write.payload)
      ((writes.map fun write => (write.pos.x, write.pos.z)).eraseDups.foldl putMetadata database))

section Calls

variable {Nbt : Type} (codec : PaletteCodec) (air : RuntimeId)
  (encodeNbt : List (BlockEntity Nbt) → Except String (List UInt8))

/-- The codec takes every layer of 4096 blocks. -/
def payloadCodec : PayloadCodec where
  setBlocks _ _ := true
  encode layer0 layer1 row := .ok (SubChunkPayload.encodeSubChunk codec air layer0 layer1 row)

/-- `save_chunks`; what the workers encode is what one of them would. -/
def saveChunks (database : WorldDatabase) (writes : List WaterStructure.ChunkWrite) :
    Except String WorldDatabase := do
  let encoded ← encodeRange (payloadCodec codec air) air
    (writes.map fun write => ⟨write.position, some write.chunk⟩)
  saveSubChunkPayloadsBatch database encoded

def saveChunkNbt (database : WorldDatabase) (position : ChunkPos) (entities : List (BlockEntity Nbt)) :
    Except String WorldDatabase := do
  let bytes ← encodeNbt entities
  return if bytes.isEmpty then database else put database (makeChunkKey position.x position.z [49]) bytes

def perform (database : WorldDatabase) : WorldCall Nbt → Except String WorldDatabase
  | .saveChunks writes => saveChunks codec air database writes
  | .saveChunkNbt position entities => saveChunkNbt encodeNbt database position entities

/-- `World::loadSubChunks` passes over a payload that it cannot decode. -/
def loadSubChunk (payload : List UInt8) : Option NativeSubChunk :=
  match SubChunkPayload.decodeSubChunk codec air payload with
  | .error _ => none
  | .ok ((layers, _), _) => some ⟨layers.headD fun _ => air, layers[1]?⟩

/-- The world that is read. -/
def world (database : WorldDatabase) : StoredWorld where
  subChunk := fun pos => (database (subChunkKey pos)).bind (loadSubChunk codec air)

end Calls

variable {Nbt : Type} {codec : PaletteCodec} {air : RuntimeId}
  {encodeNbt : List (BlockEntity Nbt) → Except String (List UInt8)} {written : RuntimeId → RuntimeId}
  {before after : WorldDatabase} {secondary : Bool} {pos : BlockPos} {calls : List (WorldCall Nbt)}

/-! ## Keys -/

theorem suffix_of_key {x z x' z' : ℤ} {suffix other : List UInt8}
    (h : makeChunkKey x z suffix = makeChunkKey x' z' other) : suffix = other :=
  (littleEndian_append (littleEndian_append h).2).2

/-- A subchunk of the overworld whose chunk the world can have. -/
def InOverworld (pos : SubChunkPos) : Prop :=
  (IsInt32 pos.x ∧ IsInt32 pos.z) ∧ kMinSubChunkY ≤ pos.y ∧ pos.y ≤ kMaxSubChunkY

theorem subChunkKey_inj {pos other : SubChunkPos} (hpos : InOverworld pos) (hother : InOverworld other)
    (h : subChunkKey pos = subChunkKey other) : pos = other := by
  obtain ⟨hx, hrest⟩ := littleEndian_append h
  obtain ⟨hz, hsuffix⟩ := littleEndian_append hrest
  have hy := congrArg UInt8.toNat (List.cons.inj (List.cons.inj hsuffix).2).1
  rw [UInt8.toNat_ofNat', UInt8.toNat_ofNat'] at hy
  have hmin : kMinSubChunkY = -4 := rfl
  have hmax : kMaxSubChunkY = 19 := rfl
  obtain ⟨x, y, z⟩ := pos
  obtain ⟨x', y', z'⟩ := other
  simp only [InOverworld, IsInt32, int32Min, int32Max, SubChunkPos.mk.injEq] at *
  omega

/-- Other keys are not seen. -/
theorem world_put_of_suffix {x z : ℤ} {suffix value : List UInt8} (h : suffix.length = 1) :
    world codec air (put before (makeChunkKey x z suffix) value) = world codec air before := by
  refine congrArg StoredWorld.mk (funext fun place => ?_)
  rw [put, Function.update_of_ne fun heq => ?_]
  rw [← suffix_of_key heq] at h
  cases h

/-! ## Cells -/

/-- The subchunk of a cell. -/
def subChunkOf (pos : BlockPos) : SubChunkPos := ⟨floorDiv pos.x 16, floorDiv pos.y 16, floorDiv pos.z 16⟩

/-- The id that a saved subchunk gives a cell. -/
def cellAt (codec : PaletteCodec) (air : RuntimeId) (secondary : Bool) (pos : BlockPos)
    (write : EncodedSubChunk) : Option RuntimeId :=
  if write.pos = subChunkOf pos then
    some ((loadSubChunk codec air write.payload).elim air fun sub =>
      (if secondary then sub.layer1.getD fun _ => air else sub.layer0)
        (BlockLayerLayout.Native.index (floorMod pos.x 16) (floorMod pos.y 16) (floorMod pos.z 16)))
  else none

theorem cell_put {write : EncodedSubChunk} (hwrite : InOverworld write.pos)
    (hpos : IsInt32 (blockToChunk pos).x ∧ IsInt32 (blockToChunk pos).z) :
    (world codec air (put before (subChunkKey write.pos) write.payload)).cell air secondary pos =
      (cellAt codec air secondary pos write).getD ((world codec air before).cell air secondary pos) := by
  rw [cellAt, StoredWorld.cell, StoredWorld.cell]
  dsimp only [world, put]
  split
  case isTrue hrow =>
    rw [if_neg fun h => ?_, Option.getD_none]
    rw [h] at hwrite
    dsimp only [InOverworld, subChunkOf] at hwrite
    omega
  case isFalse hrow =>
    by_cases hplace : write.pos = subChunkOf pos
    · rw [if_pos hplace, hplace]
      dsimp only [subChunkOf]
      rw [Function.update_self, Option.bind_some, Option.getD_some]
      cases loadSubChunk codec air write.payload <;> rfl
    · have hinside : InOverworld (subChunkOf pos) := ⟨hpos, by dsimp only [subChunkOf]; omega⟩
      have hne : subChunkKey ⟨floorDiv pos.x 16, floorDiv pos.y 16, floorDiv pos.z 16⟩ ≠ subChunkKey write.pos :=
        fun heq => hplace (subChunkKey_inj hinside hwrite heq).symm
      rw [if_neg hplace, Option.getD_none, Function.update_of_ne hne]

/-- A batch leaves in a cell what its last payload there holds. -/
theorem cell_saveSubChunkPayloadsBatch {writes : List EncodedSubChunk}
    (h : saveSubChunkPayloadsBatch before writes = .ok after)
    (hwrites : ∀ write ∈ writes, IsInt32 write.pos.x ∧ IsInt32 write.pos.z)
    (hpos : IsInt32 (blockToChunk pos).x ∧ IsInt32 (blockToChunk pos).z) :
    (world codec air after).cell air secondary pos =
      (lastValue (cellAt codec air secondary pos) writes).getD
        ((world codec air before).cell air secondary pos) := by
  rw [saveSubChunkPayloadsBatch] at h
  cases hrefused : writes.findSome? refusal with
  | some reason =>
    rw [hrefused] at h
    cases h
  | none =>
    rw [hrefused] at h
    cases h
    have hmarked (chunks : List (ℤ × ℤ)) (database : WorldDatabase) :
        world codec air (chunks.foldl putMetadata database) = world codec air database := by
      induction chunks generalizing database with
      | nil => rfl
      | cons chunk rest ih =>
        rw [List.foldl_cons, ih, putMetadata, world_put_of_suffix rfl, world_put_of_suffix rfl]
    have hinside (write : EncodedSubChunk) (hwrite : write ∈ writes) : InOverworld write.pos := by
      have hnone := List.findSome?_eq_none_iff.mp hrefused write hwrite
      rw [refusal] at hnone
      have hrow := (else_of_ne (fun h => by cases h) hnone).1
      exact ⟨hwrites write hwrite, by omega⟩
    rw [← hmarked (writes.map fun write => (write.pos.x, write.pos.z)).eraseDups before]
    exact foldl_observe (fun database => (world codec air database).cell air secondary pos)
      (cellAt codec air secondary pos) _ _ _ fun database write hwrite => cell_put (hinside write hwrite) hpos

/-! ## Chunks -/

/-- The id that a write gives a cell of the world. -/
def idAt (secondary : Bool) (pos : BlockPos) (write : WaterStructure.ChunkWrite) : Option RuntimeId :=
  if write.position = blockToChunk pos then
    (write.chunk.subChunks.lookup (worldYToSubchunk pos.y)).map fun sub =>
      sub.layer secondary
        (write.chunk.layout.index (floorMod pos.x 16) (floorMod pos.y 16) (floorMod pos.z 16))
  else none

/-- Layers in the order of the codec. -/
theorem nativeLayer_index (layout : BlockLayerLayout) (layer : BlockLayer) {x y z : ℤ} (hx : IsLocal x)
    (hy : IsLocal y) (hz : IsLocal z) :
    nativeLayer layout layer (BlockLayerLayout.Native.index x y z) = layer (layout.index x y z) := by
  cases layout with
  | Native => rfl
  | Internal =>
    obtain ⟨x, rfl⟩ := Int.eq_ofNat_of_zero_le hx.1
    obtain ⟨y, rfl⟩ := Int.eq_ofNat_of_zero_le hy.1
    obtain ⟨z, rfl⟩ := Int.eq_ofNat_of_zero_le hz.1
    unfold IsLocal at hx hy hz
    have hnative : ((x : ℤ) * 256 + y * 16 + z).toNat = (x * 16 + y) * 16 + z := by omega
    have hinternal : (((y : ℤ) * 16 + z) * 16 + x).toNat = (y * 16 + z) * 16 + x := by omega
    rw [nativeLayer, BlockLayerLayout.index, BlockLayerLayout.index, hnative, hinternal]
    exact congrArg layer (by omega)

theorem loadSubChunk_of_reads {payload : List UInt8} {layers : List BlockLayer} {row : ℤ}
    (h : ByteReader.Reads (SubChunkPayload.decodeSubChunk codec air) payload (layers, row)) :
    loadSubChunk codec air payload = some ⟨layers.headD fun _ => air, layers[1]?⟩ := by
  have hload := h []
  rw [List.append_nil] at hload
  rw [loadSubChunk, hload]

/-- A second layer that is left out is air. -/
theorem layer1_encoded (data : SubChunkData) (layout : BlockLayerLayout) {x y z : ℤ} (hx : IsLocal x)
    (hy : IsLocal y) (hz : IsLocal z) :
    ((if hasLayer1 air data then some (nativeLayer layout data.layer1) else none).elim air fun blocks =>
      blocks (BlockLayerLayout.Native.index x y z)) = data.layer1 (layout.index x y z) := by
  split_ifs with hnone
  · exact nativeLayer_index layout data.layer1 hx hy hz
  · rw [hasLayer1, Bool.not_eq_true, List.any_eq_false] at hnone
    have hair := hnone _ (List.mem_range.mpr (layout.index_lt hx hy hz))
    exact (Decidable.not_not.mp fun h => hair (decide_eq_true h)).symm

/-- The entry of a key in a map. -/
theorem lastValue_dlookup {f : SubChunkData → Option RuntimeId} {key : ℤ}
    {entries : List (Sigma fun _ : ℤ => SubChunkData)} (h : entries.NodupKeys) :
    lastValue (fun entry => if entry.1 = key then f entry.2 else none) entries =
      (entries.dlookup key).bind f := by
  induction entries with
  | nil => rfl
  | cons entry rest ih =>
    obtain ⟨first, value⟩ := entry
    obtain ⟨hnew, hrest⟩ := List.nodupKeys_cons.mp h
    rw [lastValue_cons, ih hrest]
    by_cases hkey : first = key
    · subst hkey
      rw [List.dlookup_eq_none.mpr hnew, List.dlookup_cons_eq, if_pos rfl]
      rfl
    · rw [if_neg hkey, Option.or_none, List.dlookup_cons_ne _ _ (Ne.symm hkey)]

/-! ## Calls -/

/-- The chunks that are saved have positions that the world can have. -/
def Positioned (calls : List (WorldCall Nbt)) : Prop :=
  ∀ write ∈ savedChunks calls, IsInt32 write.position.x ∧ IsInt32 write.position.z

/-- A chunk that was received has a position that the world can have. -/
theorem positioned_push {sink next : WorldChunkSink Nbt} {source : StreamChunk Nbt}
    (h : sink.push source = .ok next)
    (hsink : ∀ write ∈ sink.writes, IsInt32 write.position.x ∧ IsInt32 write.position.z) :
    ∀ write ∈ next.writes, IsInt32 write.position.x ∧ IsInt32 write.position.z := by
  obtain ⟨-, moved, hwrites, hmoved⟩ := WorldChunkSink.writes_push h
  rw [WorldChunkSink.push] at h
  obtain ⟨hfits, -⟩ := else_of_ok h
  rw [Decidable.not_not] at hfits
  intro write hwrite
  rw [hwrites] at hwrite
  rcases List.mem_append.mp hwrite with hwrite | hwrite
  · exact hsink write hwrite
  · rw [List.mem_singleton.mp hwrite, hmoved.position]
    exact ⟨hfits.1, hfits.2.1⟩

theorem positioned_of_converts {source : ChunkSource Nbt} {formatDefaultBatchSize : ℕ} {start : SubChunkPos}
    {options : WorldConversionOptions} (h : ConvertsToWorld source formatDefaultBatchSize start options calls) :
    Positioned calls := by
  obtain ⟨-, state, -, -, sink, hrun, rfl⟩ := h
  rw [Positioned, WorldChunkSink.savedChunks_flush]
  refine @foldlM_ok_rule _ _ _ _ (fun _ sink => ∀ write ∈ WorldChunkSink.writes sink,
    IsInt32 write.position.x ∧ IsInt32 write.position.z) _
    (fun _ _ _ _ _ hsink hpush => positioned_push hpush hsink) [] _ _ ?_ hrun
  intro write hwrite
  cases hwrite

section Restored

variable (hcodec : codec.Restores air written)

include hcodec

/-- A subchunk that was encoded gives its cells what their entries stand for. -/
theorem cellAt_encodeSubChunk {chunkPos : ChunkPos} {layout : BlockLayerLayout} {subY : ℤ} {data : SubChunkData}
    {sub : EncodedSubChunk}
    (hsub : encodeSubChunk (payloadCodec codec air) air chunkPos layout subY data = .ok sub) :
    cellAt codec air secondary pos sub =
      if subY = worldYToSubchunk pos.y then
        if chunkPos = blockToChunk pos then
          some (written (data.layer secondary
            (layout.index (floorMod pos.x 16) (floorMod pos.y 16) (floorMod pos.z 16))))
        else none
      else none := by
  have hlocal (value : ℤ) : IsLocal (floorMod value 16) := floorMod_sixteen value ▸ isLocal_emod value
  rw [encodeSubChunk] at hsub
  obtain ⟨hrow, hsub⟩ := else_of_ok hsub
  obtain ⟨-, hsub⟩ := else_of_ok hsub
  obtain ⟨-, hsub⟩ := else_of_ok hsub
  cases hsub
  have hsame : (⟨chunkPos.x, subY, chunkPos.z⟩ : SubChunkPos) = subChunkOf pos ↔
      subY = worldYToSubchunk pos.y ∧ chunkPos = blockToChunk pos := by
    obtain ⟨x, z⟩ := chunkPos
    simp only [subChunkOf, blockToChunk, worldYToSubchunk, SubChunkPos.mk.injEq, ChunkPos.mk.injEq]
    omega
  obtain ⟨layers, hreads, hblocks⟩ := @SubChunkPayload.reads_encodeSubChunk codec air written hcodec
    (nativeLayer layout data.layer0) (if hasLayer1 air data then some (nativeLayer layout data.layer1) else none)
    (subY - kMinSubChunkY) (by omega)
  obtain ⟨hfirst, hsecond⟩ :=
    hblocks _ (BlockLayerLayout.Native.index_lt (hlocal pos.x) (hlocal pos.y) (hlocal pos.z))
  rw [← ite_and]
  refine if_congr hsame (congrArg some ?_) rfl
  refine (congrArg (fun loaded : Option NativeSubChunk => loaded.elim air _) (loadSubChunk_of_reads hreads)).trans ?_
  rw [Option.elim_some]
  cases secondary with
  | false => exact hfirst.trans (congrArg written (nativeLayer_index layout _ (hlocal _) (hlocal _) (hlocal _)))
  | true =>
    rw [layer1_encoded data layout (hlocal _) (hlocal _) (hlocal _)] at hsecond
    refine Eq.trans ?_ hsecond
    cases layers[1]? <;> rfl

/-- What the subchunks of one chunk give a cell. -/
theorem lastValue_subChunks {chunkPos : ChunkPos} {layout : BlockLayerLayout}
    {entries : List (Sigma fun _ : ℤ => SubChunkData)} {subs : List EncodedSubChunk} (hkeys : entries.NodupKeys)
    (h : List.Forall₂ (fun entry sub =>
      encodeSubChunk (payloadCodec codec air) air chunkPos layout entry.1 entry.2 = .ok sub) entries subs) :
    lastValue (cellAt codec air secondary pos) subs =
      (entries.dlookup (worldYToSubchunk pos.y)).bind fun sub =>
        if chunkPos = blockToChunk pos then some (written (sub.layer secondary
          (layout.index (floorMod pos.x 16) (floorMod pos.y 16) (floorMod pos.z 16))))
        else none := by
  rw [← lastValue_dlookup hkeys]
  clear hkeys
  induction h with
  | nil => rfl
  | cons hsub _ ih => rw [lastValue_cons, lastValue_cons, ih, cellAt_encodeSubChunk hcodec hsub]

/-- What was encoded gives a cell what the writes give it. -/
theorem lastValue_encodeRange {writes : List WaterStructure.ChunkWrite} {encoded : List EncodedSubChunk}
    (h : encodeRange (payloadCodec codec air) air
      (writes.map fun write => ⟨write.position, some write.chunk⟩) = .ok encoded) :
    lastValue (cellAt codec air secondary pos) encoded =
      (lastValue (idAt secondary pos) writes).map written := by
  induction writes generalizing encoded with
  | nil =>
    cases h
    rfl
  | cons write rest ih =>
    rw [List.map_cons, encodeRange] at h
    obtain ⟨first, hfirst, h⟩ := exists_of_bind_ok h
    obtain ⟨others, hothers, h⟩ := exists_of_bind_ok h
    cases h
    rw [lastValue_append, lastValue_cons, Option.map_or, ih hothers,
      lastValue_subChunks hcodec write.chunk.subChunks.nodupKeys (forall₂_of_mapM_ok hfirst), idAt, AList.lookup]
    cases write.chunk.subChunks.entries.dlookup (worldYToSubchunk pos.y) <;> split <;> rfl

variable (hpos : IsInt32 (blockToChunk pos).x ∧ IsInt32 (blockToChunk pos).z)

include hpos

theorem cell_perform {call : WorldCall Nbt} (hcall : Positioned [call])
    (h : perform codec air encodeNbt before call = .ok after) :
    (world codec air after).cell air secondary pos =
      ((lastValue (idAt secondary pos) (savedChunks [call])).map written).getD
        ((world codec air before).cell air secondary pos) := by
  cases call with
  | saveChunks writes =>
    obtain ⟨encoded, hencoded, h⟩ := exists_of_bind_ok h
    have hsaved : savedChunks [(.saveChunks writes : WorldCall Nbt)] = writes := List.append_nil writes
    rw [Positioned, hsaved] at hcall
    rw [hsaved, ← lastValue_encodeRange hcodec hencoded]
    refine cell_saveSubChunkPayloadsBatch h (fun sub hsub => ?_) hpos
    have hmem := List.mem_map_of_mem (f := EncodedSubChunk.pos) hsub
    rw [encodeRange_positions hencoded, List.flatMap_map] at hmem
    obtain ⟨write, hwrite, hplace⟩ := List.mem_flatMap.mp hmem
    obtain ⟨subY, -, hsame⟩ := List.mem_map.mp hplace
    rw [← hsame]
    exact hcall write hwrite
  | saveChunkNbt position entities =>
    obtain ⟨bytes, -, h⟩ := exists_of_bind_ok h
    cases h
    rw [show savedChunks [(.saveChunkNbt position entities : WorldCall Nbt)] = [] from rfl]
    split
    · rfl
    · rw [world_put_of_suffix rfl]; rfl

/-- A run leaves in every cell what was saved there last. -/
theorem cell_run (hcalls : Positioned calls)
    (hrun : calls.foldlM (perform codec air encodeNbt) before = .ok after) (secondary : Bool) :
    (world codec air after).cell air secondary pos =
      ((lastValue (idAt secondary pos) (savedChunks calls)).map written).getD
        ((world codec air before).cell air secondary pos) := by
  induction calls generalizing before with
  | nil =>
    cases hrun
    rfl
  | cons call rest ih =>
    obtain ⟨next, hnext, hrest⟩ := exists_of_bind_ok hrun
    have hsplit : savedChunks (call :: rest) = savedChunks [call] ++ savedChunks rest :=
      WorldChunkSink.savedChunks_append [call] rest
    rw [Positioned, hsplit] at hcalls
    rw [ih (fun write hwrite => hcalls write (List.mem_append_right _ hwrite)) hrest,
      cell_perform hcodec hpos (fun write hwrite => hcalls write (List.mem_append_left _ hwrite)) hnext, hsplit,
      lastValue_append, Option.map_or, Option.getD_or]

/-- In a world that was empty, a block is what stands for the recorded one. -/
theorem cell_recorded (hcalls : Positioned calls)
    (hrun : calls.foldlM (perform codec air encodeNbt) (fun _ => none) = .ok after) :
    (world codec air after).cell air false pos = written (recordedBlock air calls pos) := by
  have hempty : (world codec air fun _ => none).cell air false pos = air := by
    rw [StoredWorld.cell]
    exact ite_self air
  have hsame : lastValue (fun write : WaterStructure.ChunkWrite => write.blockAt pos) (savedChunks calls) =
      lastValue (idAt false pos) (savedChunks calls) := rfl
  rw [cell_run hcodec hpos hcalls hrun false, hempty, recordedBlock, hsame]
  cases lastValue (idAt false pos) (savedChunks calls) with
  | none => exact hcodec.air_eq.symm
  | some id => rfl

/-- Whatever the calls are, every cell of both layers is the one that was saved last, and what it was before if
none was; what an empty world records is what is read from it. -/
theorem cell_saved (hcalls : Positioned calls)
    (hrun : calls.foldlM (perform codec air encodeNbt) before = .ok after) :
    (∀ secondary, (world codec air after).cell air secondary pos =
      ((lastValue (idAt secondary pos) (savedChunks calls)).map written).getD
        ((world codec air before).cell air secondary pos)) ∧
    ((before = fun _ => none) →
      (world codec air after).cell air false pos = written (recordedBlock air calls pos)) := by
  refine ⟨fun secondary => cell_run hcodec hpos hcalls hrun secondary, ?_⟩
  rintro rfl
  exact cell_recorded hcodec hpos hcalls hrun

end Restored

/-- Two calls that save a block of one cell. -/
def rewrites : List (WorldCall Unit) :=
  [7, 8].map fun id => .saveChunks [⟨⟨2, -1⟩,
    ⟨AssocMap.tryEmplace ∅ 3 ⟨fun index => if index = 5 then id else 0, fun _ => 0⟩, .Internal⟩⟩]

theorem cell_saved_twice : ∃ after,
    rewrites.foldlM (perform wordCodec 0 fun _ => .ok []) (fun _ => none) = .ok after ∧
      (world wordCodec 0 after).cell 0 false ⟨37, 48, -16⟩ = 8 := by
  have hok : (rewrites.foldlM (perform wordCodec 0 fun _ => .ok []) fun _ => none).isOk = true := by
    decide +kernel
  obtain ⟨after, hrun⟩ := exists_of_isOk hok
  have hcalls : ∀ write ∈ savedChunks rewrites, IsInt32 write.position.x ∧ IsInt32 write.position.z := by decide
  have hcell := (@cell_saved _ _ _ _ _ _ _ ⟨37, 48, -16⟩ _ wordCodec_restores (by decide) hcalls hrun).1 false
  exact ⟨after, hrun, hcell.trans (by decide +kernel)⟩

/-! ## Conversion -/

/-- A structure whose grid covers it, converted into an empty world and selected there, has the size and shows
the blocks of the structure, for any batches and any interleaving. -/
theorem select_converted (hcodec : codec.Restores air written) {source : ChunkSource Nbt}
    {content : BlockPos → RuntimeId} {offset : BlockPos} (hshows : ShowsMoved air content offset source.getChunks)
    (hcovers : GridCovers source.size air source.getChunks) {formatDefaultBatchSize : ℕ} {start : SubChunkPos}
    {options : WorldConversionOptions}
    (hconverts : ConvertsToWorld source formatDefaultBatchSize start options calls)
    (hrun : calls.foldlM (perform codec air encodeNbt) (fun _ => none) = .ok after) {last : BlockPos}
    (hlast : last = start.origin.add ⟨source.size.width - 1, source.size.height - 1, source.size.length - 1⟩)
    (hfits : start.origin.FitsInt32 ∧ last.FitsInt32) :
    (McWorldStructure.read (world codec air after) start.origin last).size = source.size ∧
      ∀ includeLayer1 positions, ∃ chunks, ((McWorldStructure.read (world codec air after) start.origin
          last).getChunksImpl air includeLayer1 positions {}).1 = .ok chunks ∧
        ∀ pos, chunks.idAt air false pos =
          if blockToChunk pos ∈ positions then
            some (if source.size.Contains pos then written (content (pos.sub offset)) else air)
          else none := by
  obtain ⟨⟨hwidth, hheight, hlength⟩, -⟩ := id hconverts
  have hcell (pos : BlockPos) (hpos : source.size.Contains pos) :
      (world codec air after).cell air false (pos.add start.origin) = written (content (pos.sub offset)) := by
    rw [cell_recorded hcodec ?_ (positioned_of_converts hconverts) hrun,
      hconverts.recordedBlock_of_covers hshows hcovers, BlockPos.add_sub]
    simp only [hlast, BlockPos.FitsInt32, BlockPos.add, Size.Contains, blockToChunk, floorDiv_sixteen, IsInt32,
      int32Min, int32Max] at *
    omega
  generalize world codec air after = stored at hcell
  have hopened : (McWorldStructure.read stored start.origin last).Opened stored :=
    McWorldStructure.opened_read stored start.origin last ⟨0, 0, 0⟩
  have hoffset : (McWorldStructure.read stored start.origin last).offset = ⟨0, 0, 0⟩ := rfl
  have hcorners : (McWorldStructure.read stored start.origin last).min = start.origin ∧
      (McWorldStructure.read stored start.origin last).max = last := by
    subst hlast
    simp only [McWorldStructure.read, McWorldStructure.setOffset, SubChunkPos.origin, BlockPos.add, BlockPos.mk.injEq]
    omega
  generalize McWorldStructure.read stored start.origin last = s at *
  have horiginal : s.originalSize = source.size := by
    rw [hopened.originalSize, hcorners.1, hcorners.2, hlast]
    simp [BlockPos.add]
  have hsize : s.size = source.size := by
    rw [hopened.size, hoffset, horiginal]
    simp
  refine ⟨hsize, fun includeLayer1 positions => ⟨_, McWorldStructure.getChunksImpl_empty hopened.world positions,
    fun pos => ?_⟩⟩
  rw [ChunkMap.idAt]
  split
  case isTrue hposition =>
    obtain ⟨chunk, hchunk, hshown⟩ :=
      @McWorldStructure.shows_plainChunks s stored air includeLayer1 hopened _ _ hposition
    have hplace : s.worldPos pos = pos.add start.origin := by
      simp only [McWorldStructure.worldPos, hcorners.1, hoffset, BlockPos.add, BlockPos.mk.injEq]
      omega
    have hsame : pos.sub s.offset = pos := by simp [hoffset, BlockPos.sub]
    rw [hchunk, Option.map_some, hshown.2 false (fun h => by cases h) pos rfl, McWorldStructure.selected, hsize,
      horiginal, hsame, hplace]
    by_cases hinside : source.size.Contains pos
    · rw [if_pos ⟨hinside, hinside⟩, if_pos hinside, hcell pos hinside]
    · rw [if_neg fun h => hinside h.1, if_neg hinside]
  case isFalse hposition => rw [McWorldStructure.lookup_plainChunks_of_not_mem hposition]; rfl

/-- A store with one block. -/
def loneBlock : SparseBlockStore Unit := .ofBlocks 0 ⟨1, 1, 1⟩ false [(⟨0, 0, 0⟩, 7)]

theorem select_converted_lone : ∃ calls after chunks,
    ConvertsToWorld (loneBlock.chunkSource 0) 1 ⟨2, 0, -1⟩ ⟨1, 1⟩ calls ∧
    calls.foldlM (perform wordCodec 0 fun _ => .ok []) (fun _ => none) = .ok after ∧
    ((McWorldStructure.read (world wordCodec 0 after) ⟨32, 0, -16⟩ ⟨32, 0, -16⟩).getChunksImpl 0 false
      [⟨0, 0⟩] {}).1 = .ok chunks ∧ chunks.idAt 0 false ⟨0, 0, 0⟩ = some 7 := by
  have hholds : loneBlock.Holds 0 (loneBlock.content 0) ⟨1, 1, 1⟩ ⟨0, 0, 0⟩ (some loneBlock.nonAirBlocks) :=
    SparseBlockStore.holds_ofBlocks (by decide) (by decide)
  have hshows : ShowsMoved 0 (loneBlock.content 0) ⟨0, 0, 0⟩ (loneBlock.chunkSource 0).getChunks :=
    hholds.inBounds.getChunks_ok hholds.moves
  have hcovers : GridCovers (loneBlock.chunkSource 0).size 0 (loneBlock.chunkSource 0).getChunks := by
    have hcontains (cell : BlockPos) : loneBlock.content 0 cell ≠ 0 → (⟨1, 1, 1⟩ : Size).Contains cell :=
      hholds.inBounds.contains_of_content
    refine (gridCovers_iff hcontains hshows).mpr fun cell hcell => ?_
    obtain ⟨hx, -, hz⟩ := hcontains cell hcell
    dsimp only
    omega
  obtain ⟨chunk, sink, hbatch, hpush, hok⟩ : ∃ chunk sink,
      structureBatch (loneBlock.chunkSource 0) [⟨0, 0⟩] = .ok [chunk] ∧
      ({ start := ⟨2, 0, -1⟩, batchCapacity := conversionBatchSize ⟨1, 1⟩ 1 } : WorldChunkSink Unit).push chunk =
        .ok sink ∧
      (sink.flush.calls.foldlM (perform wordCodec 0 fun _ => .ok []) fun _ => none).isOk = true :=
    ⟨_, _, rfl, rfl, by decide +kernel⟩
  have hconverts : ConvertsToWorld (loneBlock.chunkSource 0) 1 ⟨2, 0, -1⟩ ⟨1, 1⟩ sink.flush.calls :=
    convertsToWorld_single (by decide) rfl hbatch (by decide) hpush
  obtain ⟨after, hrun⟩ := exists_of_isOk hok
  obtain ⟨-, hselect⟩ := select_converted wordCodec_restores hshows hcovers hconverts hrun rfl (by decide)
  obtain ⟨chunks, hchunks, hblocks⟩ := hselect false [⟨0, 0⟩]
  exact ⟨_, after, chunks, hconverts, hrun, hchunks, hblocks ⟨0, 0, 0⟩⟩

end WorldDatabase

end WaterStructure
