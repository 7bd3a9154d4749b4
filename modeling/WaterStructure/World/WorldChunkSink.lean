import WaterStructure.Core.GridStream
import WaterStructure.Library.LastValue

/-!
# Writing a structure into a world

The generic conversion streams the chunks of a structure into a sink that moves them to their
place in the world and saves them in batches. The world records what it is told to save; a block
of it is the one that was saved last. Whatever the batches are, the world holds the blocks of the
structure, moved by the start position.
-/

namespace WaterStructure

open ChunkStream LastValue NestedLoop

structure ChunkWrite where
  position : ChunkPos
  chunk : ChunkData

/-- What a world is told to save. -/
inductive WorldCall (Nbt : Type) where
  | saveChunks (writes : List ChunkWrite)
  | saveChunkNbt (position : ChunkPos) (entities : List (BlockEntity Nbt))

variable {Nbt : Type}

/-- The block that a write gives a place of the world, if it has the subchunk of that place. -/
def ChunkWrite.blockAt (write : ChunkWrite) (pos : BlockPos) : Option RuntimeId :=
  if write.position = blockToChunk pos then
    (write.chunk.subChunks.lookup (worldYToSubchunk pos.y)).map fun sub =>
      sub.layer0 (write.chunk.layout.index (floorMod pos.x 16) (floorMod pos.y 16)
        (floorMod pos.z 16))
  else none

/-- The chunks that were saved, in order. -/
def savedChunks (calls : List (WorldCall Nbt)) : List ChunkWrite :=
  calls.flatMap fun
    | .saveChunks writes => writes
    | .saveChunkNbt _ _ => []

/-- A block of the recorded world. -/
def recordedBlock (air : RuntimeId) (calls : List (WorldCall Nbt)) (pos : BlockPos) : RuntimeId :=
  (lastValue (fun write => write.blockAt pos) (savedChunks calls)).getD air

/-- The block at which the structure starts. -/
def SubChunkPos.origin (start : SubChunkPos) : BlockPos := ⟨start.x * 16, start.y * 16, start.z * 16⟩

structure WorldChunkSink (Nbt : Type) where
  start : SubChunkPos
  batchCapacity : ℕ
  pending : List (ChunkWrite × List (BlockEntity Nbt)) := []
  calls : List (WorldCall Nbt) := []

namespace WorldChunkSink

/-- Put one subchunk under its row in the world. -/
def shiftSubChunk (target : ChunkPos) (subYOffset : ℤ) (shifted : AList fun _ : ℤ => SubChunkData)
    (entry : Sigma fun _ : ℤ => SubChunkData) : Except String (AList fun _ : ℤ => SubChunkData) :=
  let targetSubY := entry.1 + subYOffset
  if ¬ IsInt32 targetSubY then .error "signed integer overflow"
  else if targetSubY < kMinSubChunkY ∨ targetSubY > kMaxSubChunkY then
    .error ("目标 subchunk 超出 Overworld 高度范围: chunk=(" ++ toString target.x ++ "," ++
      toString target.z ++ "),subY=" ++ toString targetSubY)
  else .ok (AssocMap.tryEmplace shifted targetSubY entry.2)

def shiftChunk (target : ChunkPos) (subYOffset : ℤ) (source : ChunkData) :
    Except String ChunkData := do
  let subChunks ← source.subChunks.entries.foldlM (shiftSubChunk target subYOffset) ∅
  return { subChunks, layout := source.layout }

/-- An entity at its place in the world. -/
def shiftEntity (target : ChunkPos) (start : SubChunkPos) (entity : BlockEntity Nbt) :
    Except String (BlockEntity Nbt) :=
  let pos : BlockPos := ⟨entity.pos.x + target.x * 16,
    entity.pos.y + (start.y * 16 - kOverworldMinY), entity.pos.z + target.z * 16⟩
  if IsInt32 pos.x ∧ IsInt32 pos.y ∧ IsInt32 pos.z ∧ IsInt32 (target.x * 16) ∧
      IsInt32 (target.z * 16) ∧ IsInt32 (start.y * 16) ∧ IsInt32 (start.y * 16 - kOverworldMinY)
  then .ok { entity with pos }
  else .error "signed integer overflow"

/-- Save what is pending. -/
def flush (sink : WorldChunkSink Nbt) : WorldChunkSink Nbt :=
  if sink.pending.isEmpty then sink
  else
    { sink with
      pending := []
      calls := sink.calls ++ .saveChunks (sink.pending.map Prod.fst) ::
        (sink.pending.filter fun entry => !entry.2.isEmpty).map fun entry =>
          .saveChunkNbt entry.1.position entry.2 }

/-- Receive one chunk; a full batch is saved. -/
def push (sink : WorldChunkSink Nbt) (source : StreamChunk Nbt) :
    Except String (WorldChunkSink Nbt) :=
  let target : ChunkPos := ⟨source.position.x + sink.start.x, source.position.z + sink.start.z⟩
  let subYOffset := sink.start.y - kMinSubChunkY
  if ¬ (IsInt32 target.x ∧ IsInt32 target.z ∧ IsInt32 subYOffset) then
    .error "signed integer overflow"
  else do
    let shifted ← shiftChunk target subYOffset source.blocks
    let entities ← source.entities.mapM (shiftEntity target sink.start)
    let received := { sink with pending := sink.pending ++ [(⟨target, shifted⟩, entities)] }
    return if received.pending.length ≥ max sink.batchCapacity 1 then received.flush else received

/-- What has been saved, and what is going to be. -/
def writes (sink : WorldChunkSink Nbt) : List ChunkWrite :=
  savedChunks sink.calls ++ sink.pending.map Prod.fst

@[simp] theorem savedChunks_append (calls more : List (WorldCall Nbt)) :
    savedChunks (calls ++ more) = savedChunks calls ++ savedChunks more :=
  List.flatMap_append

@[simp] theorem savedChunks_saveChunks (writes : List ChunkWrite) (more : List (WorldCall Nbt)) :
    savedChunks (.saveChunks writes :: more) = writes ++ savedChunks more :=
  List.flatMap_cons

/-- Entities are no chunks. -/
theorem savedChunks_entities {α : Type} (entries : List α) (position : α → ChunkPos)
    (entities : α → List (BlockEntity Nbt)) :
    savedChunks (entries.map fun entry => .saveChunkNbt (position entry) (entities entry)) = [] := by
  rw [savedChunks, List.flatMap_map, List.flatMap_eq_nil_iff]
  exact fun _ _ => rfl

/-- Saving moves what is pending to what is saved. -/
theorem savedChunks_flush (sink : WorldChunkSink Nbt) :
    savedChunks sink.flush.calls = sink.writes := by
  rw [flush, writes]
  split_ifs with hempty
  · rw [List.isEmpty_iff.mp hempty, List.map_nil, List.append_nil]
  · rw [savedChunks_append, savedChunks_saveChunks, savedChunks_entities, List.append_nil]

theorem writes_flush (sink : WorldChunkSink Nbt) : sink.flush.writes = sink.writes := by
  have hpending : sink.flush.pending = [] := by
    rw [flush]
    split_ifs with hempty
    · exact List.isEmpty_iff.mp hempty
    · rfl
  rw [writes, savedChunks_flush, hpending, List.map_nil, List.append_nil]

@[simp] theorem flush_start (sink : WorldChunkSink Nbt) : sink.flush.start = sink.start := by
  rw [flush]
  split <;> rfl

/-- The write is the chunk moved to its place. -/
structure Moved (start : SubChunkPos) (source : StreamChunk Nbt) (write : ChunkWrite) : Prop where
  position : write.position = ⟨source.position.x + start.x, source.position.z + start.z⟩
  layout : write.chunk.layout = source.blocks.layout
  lookup : ∀ subY, write.chunk.subChunks.lookup subY =
    source.blocks.subChunks.lookup (subY - (start.y - kMinSubChunkY))

/-- Every subchunk is found under its new row. -/
theorem lookup_of_shiftSubChunks {target : ChunkPos} {subYOffset : ℤ}
    {entries : List (Sigma fun _ : ℤ => SubChunkData)} {acc shifted : AList fun _ : ℤ => SubChunkData}
    (h : entries.foldlM (shiftSubChunk target subYOffset) acc = .ok shifted) (subY : ℤ) :
    shifted.lookup subY = (acc.lookup subY).or (entries.dlookup (subY - subYOffset)) := by
  induction entries generalizing acc with
  | nil =>
    cases h
    simp
  | cons entry rest ih =>
    obtain ⟨key, value⟩ := entry
    rw [List.foldlM_cons] at h
    obtain ⟨next, hnext, hrest⟩ := exists_of_bind_ok h
    rw [shiftSubChunk] at hnext
    dsimp only at hnext
    obtain ⟨_, hnext⟩ := else_of_ok hnext
    obtain ⟨_, hnext⟩ := else_of_ok hnext
    cases hnext
    rw [ih hrest, AssocMap.lookup_tryEmplace]
    by_cases hkey : subY = key + subYOffset
    · have hsource : subY - subYOffset = key := by omega
      rw [if_pos hkey, hsource, List.dlookup_cons_eq, ← hkey]
      cases acc.lookup subY <;> rfl
    · rw [if_neg hkey, List.dlookup_cons_ne _ _ (by dsimp only; omega)]

theorem lookup_of_shiftChunk {target : ChunkPos} {subYOffset : ℤ} {source shifted : ChunkData}
    (h : shiftChunk target subYOffset source = .ok shifted) :
    shifted.layout = source.layout ∧ ∀ subY,
      shifted.subChunks.lookup subY = source.subChunks.lookup (subY - subYOffset) := by
  obtain ⟨subChunks, hfold, heq⟩ := exists_of_bind_ok h
  cases heq
  constructor
  · rfl
  · intro subY
    rw [lookup_of_shiftSubChunks hfold, AList.lookup_empty, Option.none_or]
    rfl

/-- A chunk that was received is going to be saved, at its place. -/
theorem writes_push {sink next : WorldChunkSink Nbt} {source : StreamChunk Nbt}
    (h : sink.push source = .ok next) :
    next.start = sink.start ∧ ∃ write, next.writes = sink.writes ++ [write] ∧
      Moved sink.start source write := by
  rw [push] at h
  dsimp only at h
  obtain ⟨_, h⟩ := else_of_ok h
  obtain ⟨shifted, hshifted, h⟩ := exists_of_bind_ok h
  obtain ⟨entities, -, h⟩ := exists_of_bind_ok h
  obtain ⟨hlayout, hlookup⟩ := lookup_of_shiftChunk hshifted
  cases h
  have hmoved : Moved sink.start source
      ⟨⟨source.position.x + sink.start.x, source.position.z + sink.start.z⟩, shifted⟩ :=
    ⟨rfl, hlayout, hlookup⟩
  constructor
  · split
    · exact flush_start _
    · rfl
  · refine ⟨_, ?_, hmoved⟩
    split
    · rw [writes_flush]
      simp [writes]
    · simp [writes]

/-- All chunks of a stream are saved, each at its place, and nothing else. -/
theorem writes_of_stream {sink final : WorldChunkSink Nbt} {chunks : List (StreamChunk Nbt)}
    (h : chunks.foldlM push sink = .ok final) :
    ∃ more, final.writes = sink.writes ++ more ∧
      (∀ source ∈ chunks, ∃ write ∈ more, Moved sink.start source write) ∧
      ∀ write ∈ more, ∃ source ∈ chunks, Moved sink.start source write := by
  induction chunks generalizing sink with
  | nil =>
    cases h
    exact ⟨[], (List.append_nil _).symm, (fun _ hmem => nomatch hmem), fun _ hmem => nomatch hmem⟩
  | cons first rest ih =>
    rw [List.foldlM_cons] at h
    obtain ⟨next, hnext, hrest⟩ := exists_of_bind_ok h
    obtain ⟨hstart, firstWrite, hwrites, hmoved⟩ := writes_push hnext
    obtain ⟨more, hmore, hsaved, hsource⟩ := ih hrest
    rw [hstart] at hsaved hsource
    refine ⟨firstWrite :: more, ?_, ?_, ?_⟩
    · rw [hmore, hwrites, List.append_assoc]
      rfl
    · intro source hmem
      rcases List.mem_cons.mp hmem with rfl | hmem
      · exact ⟨firstWrite, List.mem_cons_self, hmoved⟩
      · obtain ⟨write, hwrite, hmove⟩ := hsaved source hmem
        exact ⟨write, List.mem_cons_of_mem _ hwrite, hmove⟩
    · intro write hmem
      rcases List.mem_cons.mp hmem with rfl | hmem
      · exact ⟨first, List.mem_cons_self, hmoved⟩
      · obtain ⟨source, hmem, hmove⟩ := hsource write hmem
        exact ⟨source, List.mem_cons_of_mem _ hmem, hmove⟩

/-- A moved chunk shows the block of the structure that belongs to the place. -/
theorem Moved.blockAt {start : SubChunkPos} {source : StreamChunk Nbt} {write : ChunkWrite}
    (h : Moved start source write) (air : RuntimeId) (pos : BlockPos) :
    write.blockAt pos =
      if source.position = blockToChunk (pos.sub start.origin) then
        (source.blocks.subChunks.lookup (floorDiv (pos.y - start.origin.y - 64) 16)).map fun _ =>
          source.blocks.blockAt air (pos.sub start.origin)
      else none := by
  have hchunk : write.position = blockToChunk pos ↔
      source.position = blockToChunk (pos.sub start.origin) := by
    rw [h.position]
    obtain ⟨⟨x, z⟩, _, _⟩ := source
    simp only [blockToChunk, BlockPos.sub, SubChunkPos.origin, floorDiv_sixteen, ChunkPos.mk.injEq]
    omega
  have hsub : worldYToSubchunk pos.y - (start.y - kMinSubChunkY) =
      floorDiv (pos.y - start.origin.y - 64) 16 := by
    have hmin : kMinSubChunkY = -4 := rfl
    simp only [worldYToSubchunk, SubChunkPos.origin, hmin, floorDiv_sixteen]
    omega
  rw [ChunkWrite.blockAt, h.lookup, h.layout, hsub]
  apply if_congr hchunk _ rfl
  cases hlookup : source.blocks.subChunks.lookup (floorDiv (pos.y - start.origin.y - 64) 16) with
  | none => rfl
  | some sub =>
    simp only [Option.map_some, Option.some.injEq, ChunkData.blockAt, ChunkData.layer0At,
      BlockPos.sub, hlookup]
    congr 2
    · simp only [floorMod_sixteen, SubChunkPos.origin]
      omega
    · simp only [floorMod_sixteen, floorDiv_sixteen, SubChunkPos.origin]
      omega
    · simp only [floorMod_sixteen, SubChunkPos.origin]
      omega

end WorldChunkSink

structure WorldConversionOptions where
  maxInFlightChunks : ℕ := 0
  softMemoryBudgetBytes : ℕ := 471859200

/-- The number of chunks in a batch. -/
def conversionBatchSize (options : WorldConversionOptions) (formatDefaultBatchSize : ℕ) : ℕ :=
  let kConservativeBytesPerChunk := 6 * 1024 * 1024
  let budgetChunks := max 1 (options.softMemoryBudgetBytes / kConservativeBytesPerChunk)
  let explicitChunks :=
    if options.maxInFlightChunks = 0 then formatDefaultBatchSize else options.maxInFlightChunks
  max 1 (min formatDefaultBatchSize (min explicitChunks budgetChunks))

/-- `convert_to_world` succeeds under some interleaving of its threads, and the world has seen
these calls. -/
def ConvertsToWorld (source : ChunkSource Nbt) (formatDefaultBatchSize : ℕ) (start : SubChunkPos)
    (options : WorldConversionOptions) (calls : List (WorldCall Nbt)) : Prop :=
  let batchSize := conversionBatchSize options formatDefaultBatchSize
  (0 < source.size.width ∧ 0 < source.size.height ∧ 0 < source.size.length) ∧
    ∃ state, Reachable (streamCapacity batchSize options.softMemoryBudgetBytes)
        (fromStructureGrid source batchSize) state ∧
      state.main = .returned (.ok ()) ∧
      ∃ sink, (accepted state.calls).foldlM WorldChunkSink.push
          ({ start, batchCapacity := batchSize } : WorldChunkSink Nbt) = .ok sink ∧
        sink.flush.calls = calls

/-- Whatever the batches and the interleaving, the world holds the blocks of the structure that are
in its grid, if the structure gives each chunk. -/
theorem ConvertsToWorld.recordedBlock_grid {source : ChunkSource Nbt} {formatDefaultBatchSize : ℕ}
    {start : SubChunkPos} {options : WorldConversionOptions} {calls : List (WorldCall Nbt)}
    (h : ConvertsToWorld source formatDefaultBatchSize start options calls) {air : RuntimeId}
    {block : BlockPos → RuntimeId}
    (hsource : ∀ batch found, source.getChunks batch = .ok found → ∀ position ∈ batch,
      (found.lookup position).isSome = true ∧ ∀ pos, blockToChunk pos = position →
        found.blockAt air pos = some (block pos)) (pos : BlockPos) :
    recordedBlock air calls pos =
      if blockToChunk (pos.sub start.origin) ∈ gridPositions source.size then
        block (pos.sub start.origin) else air := by
  obtain ⟨-, state, hreach, hreturned, sink, hrun, rfl⟩ := h
  have hbatched := batched_of_produceGrid (accepted_eq_items hreach hreturned)
  rw [List.nil_append] at hbatched
  obtain ⟨writes, hwrites, hsaved, hmoved⟩ := WorldChunkSink.writes_of_stream hrun
  have hstart : ({ start, batchCapacity := conversionBatchSize options formatDefaultBatchSize } :
      WorldChunkSink Nbt).writes = [] := rfl
  rw [hstart, List.nil_append] at hwrites
  rw [recordedBlock, WorldChunkSink.savedChunks_flush, hwrites]
  -- A chunk of the stream shows the blocks of the structure.
  have hblocks (item : StreamChunk Nbt) (hitem : item ∈ accepted state.calls)
      (hposition : item.position = blockToChunk (pos.sub start.origin)) :
      item.blocks.blockAt air (pos.sub start.origin) = block (pos.sub start.origin) := by
    obtain ⟨-, batch, found, hbatch, hfound, hlookup⟩ := hbatched.blocks hitem
    have hblock := (hsource batch found hfound _ hbatch).2 _ hposition.symm
    rw [ChunkMap.blockAt, ← hposition, hlookup, Option.map_some, Option.some.injEq] at hblock
    exact hblock
  apply lastValue_getD_of_agree
  · intro write hwrite other hother
    obtain ⟨item, hitem, hmove⟩ := hmoved write hwrite
    rw [hmove.blockAt air] at hother
    obtain ⟨hposition, hother⟩ := then_of_some hother
    obtain ⟨-, -, rfl⟩ := Option.map_eq_some_iff.mp hother
    rw [if_pos (hposition ▸ (hbatched.blocks hitem).1)]
    exact hblocks item hitem hposition
  · intro hnone
    split_ifs with hgrid
    · obtain ⟨item, hitem, hposition⟩ := hbatched.complete
        (fun batch found hfound position hposition => (hsource batch found hfound position hposition).1)
        hgrid
      obtain ⟨write, hwrite, hmove⟩ := hsaved item hitem
      have hmissing := hnone write hwrite
      rw [hmove.blockAt air, if_pos hposition, Option.map_eq_none_iff] at hmissing
      rw [← hblocks item hitem hposition, ChunkData.blockAt, ChunkData.layer0At]
      dsimp only [BlockPos.sub]
      rw [hmissing]
    · rfl

/-- The world holds all blocks of the structure if nothing lies outside the grid. -/
theorem ConvertsToWorld.recordedBlock_eq {source : ChunkSource Nbt} {formatDefaultBatchSize : ℕ}
    {start : SubChunkPos} {options : WorldConversionOptions} {calls : List (WorldCall Nbt)}
    (h : ConvertsToWorld source formatDefaultBatchSize start options calls) {air : RuntimeId}
    {block : BlockPos → RuntimeId}
    (hsource : ∀ batch found, source.getChunks batch = .ok found → ∀ position ∈ batch,
      (found.lookup position).isSome = true ∧ ∀ pos, blockToChunk pos = position →
        found.blockAt air pos = some (block pos))
    (houtside : ∀ pos, blockToChunk pos ∉ gridPositions source.size → block pos = air)
    (pos : BlockPos) : recordedBlock air calls pos = block (pos.sub start.origin) := by
  rw [h.recordedBlock_grid hsource]
  split_ifs with hgrid
  · rfl
  · exact (houtside _ hgrid).symm

end WaterStructure
