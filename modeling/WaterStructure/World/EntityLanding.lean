import WaterStructure.Core.SparseBlockStore
import WaterStructure.Formats.LitematicRoundTrip
import WaterStructure.Formats.McStructureChunks
import WaterStructure.World.GridCoverage

/-!
# Where block entities land

A structure hands out blocks and entities by chunk, each in its own coordinates, and the sink moves
both. Whatever the batches are, an entity is saved once, at the place in the world where the block
of its cell is saved.
-/

namespace WaterStructure

open ChunkStream NestedLoop

variable {Nbt : Type}

/-- The entities that were saved, with the chunks under which they were saved. -/
def savedEntities (calls : List (WorldCall Nbt)) : List (ChunkPos × BlockEntity Nbt) :=
  calls.flatMap fun
    | .saveChunks _ => []
    | .saveChunkNbt position entities => entities.map fun entity => (position, entity)

namespace WorldChunkSink

/-- An entity of a chunk at its place in the world, with its chunk. -/
def placed (start : SubChunkPos) (source : ChunkPos) (entity : BlockEntity Nbt) :
    ChunkPos × BlockEntity Nbt :=
  let target : ChunkPos := ⟨source.x + start.x, source.z + start.z⟩
  (target, { entity with
    pos := ⟨entity.pos.x + target.x * 16, entity.pos.y + (start.y * 16 - kOverworldMinY),
      entity.pos.z + target.z * 16⟩ })

/-- The entities that have been saved, and those that are going to be. -/
def entities (sink : WorldChunkSink Nbt) : List (ChunkPos × BlockEntity Nbt) :=
  savedEntities sink.calls ++ sink.pending.flatMap fun entry =>
    entry.2.map fun entity => (entry.1.position, entity)

theorem savedEntities_append (calls more : List (WorldCall Nbt)) :
    savedEntities (calls ++ more) = savedEntities calls ++ savedEntities more :=
  List.flatMap_append

/-- Chunks without entities need no call. -/
theorem savedEntities_pending (pending : List (ChunkWrite × List (BlockEntity Nbt))) :
    savedEntities ((pending.filter fun entry => !entry.2.isEmpty).map fun entry =>
      .saveChunkNbt entry.1.position entry.2) =
        pending.flatMap fun entry => entry.2.map fun entity => (entry.1.position, entity) := by
  induction pending with
  | nil => rfl
  | cons entry rest ih =>
    rw [List.flatMap_cons, ← ih, List.filter_cons]
    cases hentities : entry.2 with
    | nil => rfl
    | cons entity more =>
      simp [savedEntities, hentities]

theorem savedEntities_flush (sink : WorldChunkSink Nbt) :
    savedEntities sink.flush.calls = sink.entities := by
  rw [flush, entities]
  split_ifs with hempty
  · rw [List.isEmpty_iff.mp hempty, List.flatMap_nil, List.append_nil]
  · rw [savedEntities_append, ← savedEntities_pending]
    rfl

theorem entities_flush (sink : WorldChunkSink Nbt) : sink.flush.entities = sink.entities := by
  have hpending : sink.flush.pending = [] := by
    rw [flush]
    split_ifs with hempty
    · exact List.isEmpty_iff.mp hempty
    · rfl
  rw [entities, savedEntities_flush, hpending, List.flatMap_nil, List.append_nil]

/-- The entities of a chunk are moved together, or the push fails. -/
theorem map_of_mapM_shiftEntity {target : ChunkPos} {start : SubChunkPos}
    {source moved : List (BlockEntity Nbt)} (h : source.mapM (shiftEntity target start) = .ok moved) :
    moved = source.map fun entity => { entity with
      pos := ⟨entity.pos.x + target.x * 16, entity.pos.y + (start.y * 16 - kOverworldMinY),
        entity.pos.z + target.z * 16⟩ } := by
  have hall := forall₂_of_mapM_ok h
  clear h
  induction hall with
  | nil => rfl
  | cons hfirst _ ih =>
    rw [List.map_cons, ← ih]
    rw [shiftEntity] at hfirst
    dsimp only at hfirst
    obtain ⟨-, hfirst⟩ := then_of_ok hfirst
    cases hfirst
    rfl

variable {sink : WorldChunkSink Nbt}

theorem entities_push {next : WorldChunkSink Nbt} {source : StreamChunk Nbt}
    (h : sink.push source = .ok next) :
    next.entities = sink.entities ++ source.entities.map (placed sink.start source.position) := by
  rw [push] at h
  dsimp only at h
  obtain ⟨_, h⟩ := else_of_ok h
  obtain ⟨shifted, -, h⟩ := exists_of_bind_ok h
  obtain ⟨moved, hmoved, h⟩ := exists_of_bind_ok h
  cases h
  have hreceived : ({ sink with
      pending := sink.pending ++ [(⟨⟨source.position.x + sink.start.x,
        source.position.z + sink.start.z⟩, shifted⟩, moved)] } : WorldChunkSink Nbt).entities =
          sink.entities ++ source.entities.map (placed sink.start source.position) := by
    rw [map_of_mapM_shiftEntity hmoved]
    simp [entities, placed, Function.comp_def]
  split
  · rw [entities_flush, hreceived]
  · exact hreceived

/-- All entities of a stream are saved, in order, each at its place. -/
theorem entities_of_stream {final : WorldChunkSink Nbt} {chunks : List (StreamChunk Nbt)}
    (h : chunks.foldlM push sink = .ok final) : final.entities = sink.entities ++
      chunks.flatMap fun source => source.entities.map (placed sink.start source.position) := by
  induction chunks generalizing sink with
  | nil =>
    cases h
    exact (List.append_nil _).symm
  | cons first rest ih =>
    rw [List.foldlM_cons] at h
    obtain ⟨next, hnext, hrest⟩ := exists_of_bind_ok h
    rw [ih hrest, (writes_push hnext).1, entities_push hnext, List.append_assoc, List.flatMap_cons]

end WorldChunkSink

/-- What a structure hands out for its blocks and the entities of its cells, under an offset. -/
structure HandsOut (source : ChunkSource Nbt) (air : RuntimeId) (offset : BlockPos)
    (block : BlockPos → RuntimeId) (cells : List (BlockPos × Nbt)) : Prop where
  blocks : ∀ batch found, source.getChunks batch = .ok found → ∀ position ∈ batch,
    ∃ chunk, found.lookup position = some chunk ∧ ∀ pos, blockToChunk pos = position →
      chunk.blockAt air pos = block (pos.sub offset)
  entities : ∀ batch found, source.getChunkNbt batch = .ok found → ∀ position ∈ batch,
    found.lookup position = some ((cells.filter fun cell =>
      blockToChunk (cell.1.add offset) = position).map fun cell =>
        chunkLocalEntity (cell.1.add offset) cell.2)

/-- The place of a cell in the world. -/
def worldPos (offset : BlockPos) (start : SubChunkPos) (cell : BlockPos) : BlockPos :=
  (cell.add offset).add start.origin

/-- An entity of a cell as it is saved at a place in the world. -/
def entityAt (pos : BlockPos) (payload : Nbt) : ChunkPos × BlockEntity Nbt :=
  (blockToChunk pos, ⟨pos, payload⟩)

/-- Every visited cell has its block and each of its entities at one place in the world, and no
other entity is saved. -/
structure Lands (size : Size) (air : RuntimeId) (offset : BlockPos) (start : SubChunkPos)
    (block : BlockPos → RuntimeId) (cells : List (BlockPos × Nbt)) (calls : List (WorldCall Nbt)) :
    Prop where
  block : ∀ cell, blockToChunk (cell.add offset) ∈ gridPositions size →
    recordedBlock air calls (worldPos offset start cell) = block cell
  entities : (savedEntities calls).Perm ((cells.filter fun cell =>
    blockToChunk (cell.1.add offset) ∈ gridPositions size).map fun cell =>
      entityAt (worldPos offset start cell.1) cell.2)

/-- The detour over the coordinates of the chunk ends at the place of the cell. -/
theorem placed_chunkLocalEntity (start : SubChunkPos) (pos : BlockPos) (payload : Nbt) :
    WorldChunkSink.placed start (blockToChunk pos) (chunkLocalEntity pos payload) =
      entityAt (pos.add start.origin) payload := by
  obtain ⟨x, y, z⟩ := pos
  simp only [WorldChunkSink.placed, chunkLocalEntity, entityAt, blockToChunk, BlockPos.add,
    SubChunkPos.origin, structureYToChunkLocal, floorDiv_sixteen, Prod.mk.injEq, ChunkPos.mk.injEq,
    BlockEntity.mk.injEq, BlockPos.mk.injEq, and_true]
  omega

/-- Going over different keys meets each item with one of these keys once. -/
theorem perm_flatMap_filter {α κ : Type} [DecidableEq κ] {keys : List κ} (hkeys : keys.Nodup)
    (key : α → κ) (items : List α) :
    (keys.flatMap fun k => items.filter fun item => key item = k).Perm
      (items.filter fun item => key item ∈ keys) := by
  induction keys with
  | nil => simp
  | cons first rest ih =>
    obtain ⟨hfirst, hrest⟩ := List.nodup_cons.mp hkeys
    rw [List.flatMap_cons]
    refine ((ih hrest).append_left _).trans ?_
    have hsplit := List.filter_append_perm (fun item => decide (key item = first))
      (items.filter fun item => key item ∈ first :: rest)
    rw [List.filter_filter, List.filter_filter] at hsplit
    refine List.Perm.trans (List.Perm.of_eq ?_) hsplit
    congr 1
    · refine List.filter_congr fun item _ => ?_
      by_cases hkey : key item = first <;> simp [hkey]
    · refine List.filter_congr fun item _ => ?_
      by_cases hkey : key item = first
      · simp [hkey, hfirst]
      · simp [hkey]

variable {source : ChunkSource Nbt} {air : RuntimeId} {offset : BlockPos} {block : BlockPos → RuntimeId}
  {cells : List (BlockPos × Nbt)} {formatDefaultBatchSize : ℕ} {start : SubChunkPos}
  {options : WorldConversionOptions} {chunk : StreamChunk Nbt}

/-- The entities of a stream of chunks are those of its positions. -/
theorem Batched.entities (hsource : HandsOut source air offset block cells) {positions : List ChunkPos}
    {chunks : List (StreamChunk Nbt)} (h : Batched source positions chunks) (start : SubChunkPos) :
    (chunks.flatMap fun item => item.entities.map (WorldChunkSink.placed start item.position)) =
      (positions.flatMap fun position => cells.filter fun cell =>
        blockToChunk (cell.1.add offset) = position).map fun cell =>
          entityAt (worldPos offset start cell.1) cell.2 := by
  induction h with
  | nil => rfl
  | @cons batch rest chunks more hbatch hrest ih =>
    obtain ⟨entities, hentities, hbatch⟩ := exists_of_bind_ok hbatch
    obtain ⟨found, hfound, hbatch⟩ := exists_of_bind_ok hbatch
    cases hbatch
    rw [List.flatMap_append, List.flatMap_append, List.map_append, ih]
    congr 1
    -- The structure gives a chunk for each position of the batch.
    have hpositions (part : List ChunkPos) (hpart : ∀ position ∈ part, position ∈ batch) :
        ((streamChunks entities found part).flatMap fun item =>
          item.entities.map (WorldChunkSink.placed start item.position)) =
            (part.flatMap fun position => cells.filter fun cell =>
              blockToChunk (cell.1.add offset) = position).map fun cell =>
                entityAt (worldPos offset start cell.1) cell.2 := by
      induction part with
      | nil => rfl
      | cons position part ih =>
        have hposition := hpart position List.mem_cons_self
        obtain ⟨chunk, hlookup, -⟩ := hsource.blocks batch found hfound position hposition
        have hcells := hsource.entities batch entities hentities position hposition
        have hrest := ih fun other hother => hpart other (List.mem_cons_of_mem _ hother)
        rw [streamChunks] at hrest ⊢
        rw [List.filterMap_cons_some (by rw [hlookup]; rfl), List.flatMap_cons, hrest,
          List.flatMap_cons, List.map_append, hcells, Option.getD_some, List.map_map]
        congr 1
        refine List.map_congr_left fun cell hcell => ?_
        have hchunk := of_decide_eq_true (List.mem_filter.mp hcell).2
        subst hchunk
        exact placed_chunkLocalEntity start (cell.1.add offset) cell.2
    exact hpositions batch fun _ hposition => hposition

/-- Blocks and entities meet in the world, whatever the batches and the interleaving are. -/
theorem ConvertsToWorld.lands {calls : List (WorldCall Nbt)}
    (h : ConvertsToWorld source formatDefaultBatchSize start options calls)
    (hsource : HandsOut source air offset block cells) :
    Lands source.size air offset start block cells calls where
  block cell hcell := by
    have hworld := @ConvertsToWorld.recordedBlock_grid _ _ _ _ _ _ h air
      (fun pos => block (pos.sub offset)) (fun batch found hfound position hposition => by
        obtain ⟨chunk, hlookup, hblocks⟩ := hsource.blocks batch found hfound position hposition
        refine ⟨by rw [hlookup]; rfl, fun pos hpos => ?_⟩
        rw [ChunkMap.blockAt, hpos, hlookup, Option.map_some, hblocks pos hpos])
      (worldPos offset start cell)
    rwa [worldPos, BlockPos.add_sub, if_pos hcell, BlockPos.add_sub] at hworld
  entities := by
    obtain ⟨-, state, hreach, hreturned, sink, hrun, rfl⟩ := h
    have hbatched := batched_of_produceGrid (accepted_eq_items hreach hreturned)
    rw [List.nil_append] at hbatched
    have hsaved := WorldChunkSink.entities_of_stream hrun
    rw [WorldChunkSink.savedEntities_flush, hsaved, Batched.entities hsource hbatched start]
    exact (perm_flatMap_filter (nodup_gridPositions source.size) _ cells).map _

/-- A store as a conversion sees it. -/
def SparseBlockStore.chunkSource (store : SparseBlockStore Nbt) (air : RuntimeId) : ChunkSource Nbt :=
  ⟨store.size, store.getChunks air, fun positions => .ok (store.getChunkNbt positions)⟩

def SparseBlockStore.entityCells (store : SparseBlockStore Nbt) : List (BlockPos × Nbt) :=
  store.entities.entries.map fun entity => (entity.1, entity.2)

theorem SparseBlockStore.handsOut (store : SparseBlockStore Nbt) (air : RuntimeId) :
    HandsOut (store.chunkSource air) air store.offset (store.shown air) store.entityCells where
  blocks _ _ hfound _ hposition := store.getChunks_shown hfound hposition
  entities batch found hfound position hposition := by
    cases hfound
    exact NbtChunkMap.lookup_place_emplaceAll store.offset store.entityCells hposition

/-- A structure as a conversion sees it. -/
def McStructure.chunkSource (s : McStructure Nbt) (air : RuntimeId) : ChunkSource Nbt :=
  ⟨s.size, fun positions => .ok (s.getChunks air positions),
    fun positions => .ok (s.getChunkNbt positions)⟩

theorem McStructure.handsOut (s : McStructure Nbt) (air : RuntimeId) :
    HandsOut (s.chunkSource air) air s.offset (s.shown air) s.entityCells where
  blocks batch found hfound position hposition := by
    cases hfound
    exact s.getChunks_shown air hposition
  entities batch found hfound position hposition := by
    cases hfound
    exact NbtChunkMap.lookup_place_emplaceAll s.offset s.entityCells hposition

namespace Litematic

/-- A Litematic with its entities. -/
structure LitematicObject (Nbt : Type) extends LitematicStructure where
  size : Size
  blockEntities : List (BlockEntity Nbt)

namespace LitematicObject

def setOffset (s : LitematicObject Nbt) (offset : BlockPos) : LitematicObject Nbt :=
  { s with
    offset
    size := ⟨s.originalSize.width + |offset.x|, s.originalSize.height + |offset.y|,
      s.originalSize.length + |offset.z|⟩ }

def entityCells (s : LitematicObject Nbt) : List (BlockPos × Nbt) :=
  s.blockEntities.map fun entity => (entity.pos, entity.payload)

def getChunkNbt (s : LitematicObject Nbt) (positions : List ChunkPos) : NbtChunkMap Nbt :=
  s.entityCells.foldl (NbtChunkMap.place s.offset) (NbtChunkMap.emplaceAll positions)

def chunkSource (s : LitematicObject Nbt) (air : RuntimeId) : ChunkSource Nbt :=
  ⟨s.size, fun positions => .ok (s.toLitematicStructure.getChunks air positions),
    fun positions => .ok (s.getChunkNbt positions)⟩

/-- The block that a request shows for a cell. -/
def shown (s : LitematicObject Nbt) (air : RuntimeId) (cell : BlockPos) : RuntimeId :=
  if s.originalSize.Contains cell then (s.sourceBlock air cell).getD air else air

theorem handsOut (s : LitematicObject Nbt) (air : RuntimeId) :
    HandsOut (s.chunkSource air) air s.offset (s.shown air) s.entityCells where
  blocks batch found hfound position hposition := by
    cases hfound
    refine ⟨(s.cellsOf position).foldl (s.storeCell air position) {}, ?_, fun pos hpos => ?_⟩
    · rw [LitematicStructure.getChunks, ChunkMap.lookup_forEach, ChunkMap.lookup_emplaceAll,
        if_pos hposition, Option.map_some]
    · subst hpos
      have hblock := s.toLitematicStructure.blockAt_getChunks air batch hposition
      rw [LitematicStructure.getChunks, ChunkMap.blockAt_forEach_emplaceAll, if_pos hposition] at hblock
      exact Option.some.inj hblock
  entities batch found hfound position hposition := by
    cases hfound
    exact NbtChunkMap.lookup_place_emplaceAll s.offset s.entityCells hposition

end LitematicObject

end Litematic

/-- A store, an MCStructure and a Litematic alike: under any offset and start, a conversion saves each
entity of a visited cell once, at the place in the world where it saves the block of that cell. -/
theorem entities_land (air : RuntimeId) (formatDefaultBatchSize : ℕ) (start : SubChunkPos)
    (options : WorldConversionOptions) (calls : List (WorldCall Nbt)) :
    (∀ store : SparseBlockStore Nbt,
      ConvertsToWorld (store.chunkSource air) formatDefaultBatchSize start options calls →
        Lands store.size air store.offset start (store.shown air) store.entityCells calls) ∧
    (∀ s : McStructure Nbt,
      ConvertsToWorld (s.chunkSource air) formatDefaultBatchSize start options calls →
        Lands s.size air s.offset start (s.shown air) s.entityCells calls) ∧
    ∀ s : Litematic.LitematicObject Nbt,
      ConvertsToWorld (s.chunkSource air) formatDefaultBatchSize start options calls →
        Lands s.size air s.offset start (s.shown air) s.entityCells calls :=
  ⟨fun store h => h.lands (store.handsOut air), fun s h => h.lands (s.handsOut air),
    fun s h => h.lands (s.handsOut air)⟩

/-- A producer that pushes one chunk and passes on what that answers. -/
def pushLone (chunk : StreamChunk Nbt) : Producer (StreamChunk Nbt) := .push chunk fun
  | .error error => .done (.error error)
  | .ok () => .done (.ok ())

/-- A grid of one chunk is streamed as one push. -/
theorem fromStructureGrid_single (hgrid : gridPositions source.size = [⟨0, 0⟩])
    (hbatch : structureBatch source [⟨0, 0⟩] = .ok [chunk]) (batchSize : ℕ) :
    fromStructureGrid source batchSize = pushLone chunk := by
  have hone (next : Producer (StreamChunk Nbt)) (hnext : next = .done (.ok ())) :
      produceStructureBatch source [⟨0, 0⟩] next = pushLone chunk := by
    rw [produceStructureBatch, hbatch, hnext]
    rfl
  rw [fromStructureGrid, hgrid, produceGrid]
  split
  · exact hone _ rfl
  · exact hone _ rfl

/-- A structure with a single chunk is converted by one push. -/
theorem convertsToWorld_single {sink : WorldChunkSink Nbt}
    (hsize : 0 < source.size.width ∧ 0 < source.size.height ∧ 0 < source.size.length)
    (hgrid : gridPositions source.size = [⟨0, 0⟩])
    (hbatch : structureBatch source [⟨0, 0⟩] = .ok [chunk])
    (hcapacity : streamCapacity (conversionBatchSize options formatDefaultBatchSize)
      options.softMemoryBudgetBytes = 1)
    (hpush : ({ start, batchCapacity := conversionBatchSize options formatDefaultBatchSize } :
      WorldChunkSink Nbt).push chunk = .ok sink) :
    ConvertsToWorld source formatDefaultBatchSize start options sink.flush.calls := by
  obtain ⟨state, hrun, hreturned, haccepted⟩ : ∃ state, TransitionSystem.run (PumpState.step 1)
      (PumpState.initial (pushLone chunk)) pushOnceSchedule = some state ∧
        state.main = .returned (.ok ()) ∧ accepted state.calls = [chunk] := ⟨_, rfl, rfl, rfl⟩
  refine ⟨hsize, state, ?_, hreturned, sink, ?_, rfl⟩
  · rw [fromStructureGrid_single hgrid hbatch, hcapacity]
    exact .of_run .start hrun
  · rw [haccepted, List.foldlM_cons, hpush]
    rfl

/-- One block with an entity, moved by one block. -/
def loneStore : SparseBlockStore ℕ :=
  (((({} : SparseBlockStore ℕ).setSize ⟨1, 1, 1⟩).put 0 ⟨0, 0, 0⟩ 7).putEntity ⟨0, 0, 0⟩
    (some 5)).setOffset ⟨1, 0, 0⟩

def loneMcStructure : McStructure ℕ :=
  McStructure.setOffset
    { originalSize := ⟨1, 1, 1⟩
      primaryIndices := .compact [0]
      palette := [7]
      blockEntities := AList.singleton 0 5 } ⟨1, 0, 0⟩

def loneLitematic : Litematic.LitematicObject ℕ :=
  Litematic.LitematicObject.setOffset
    { regionOrigin := ⟨0, 0, 0⟩
      originalSize := ⟨1, 1, 1⟩
      palette := [7]
      bitsPerBlock := 2
      packedStates := [0]
      nonAirBlocks := 1
      offset := ⟨0, 0, 0⟩
      size := ⟨1, 1, 1⟩
      blockEntities := [⟨⟨0, 0, 0⟩, 5⟩] } ⟨1, 0, 0⟩

theorem entities_land_lone : ∃ store mcStructure litematic : List (WorldCall ℕ),
    Lands loneStore.size 0 loneStore.offset ⟨2, 0, -1⟩ (loneStore.shown 0) loneStore.entityCells store ∧
      Lands loneMcStructure.size 0 loneMcStructure.offset ⟨2, 0, -1⟩ (loneMcStructure.shown 0)
        loneMcStructure.entityCells mcStructure ∧
      Lands loneLitematic.size 0 loneLitematic.offset ⟨2, 0, -1⟩ (loneLitematic.shown 0)
        loneLitematic.entityCells litematic := by
  have hstart (source : ChunkSource ℕ) (hsize : source.size = ⟨2, 1, 1⟩)
      (h : ∃ chunk sink, structureBatch source [⟨0, 0⟩] = .ok [chunk] ∧
        ({ start := ⟨2, 0, -1⟩, batchCapacity := conversionBatchSize ⟨1, 1⟩ 1 } :
          WorldChunkSink ℕ).push chunk = .ok sink) :
      ∃ calls, ConvertsToWorld source 1 ⟨2, 0, -1⟩ ⟨1, 1⟩ calls := by
    obtain ⟨chunk, sink, hbatch, hpush⟩ := h
    have hgrid : gridPositions source.size = [⟨0, 0⟩] := by
      rw [hsize]
      rfl
    exact ⟨_, convertsToWorld_single (by rw [hsize]; decide) hgrid hbatch (by decide) hpush⟩
  obtain ⟨store, hstore⟩ := hstart (loneStore.chunkSource 0) rfl ⟨_, _, rfl, rfl⟩
  obtain ⟨mcStructure, hmcStructure⟩ := hstart (loneMcStructure.chunkSource 0) rfl ⟨_, _, rfl, rfl⟩
  obtain ⟨litematic, hlitematic⟩ := hstart (loneLitematic.chunkSource 0) rfl ⟨_, _, rfl, rfl⟩
  exact ⟨store, mcStructure, litematic, (entities_land 0 1 ⟨2, 0, -1⟩ ⟨1, 1⟩ store).1 _ hstore,
    (entities_land 0 1 ⟨2, 0, -1⟩ ⟨1, 1⟩ mcStructure).2.1 _ hmcStructure,
    (entities_land 0 1 ⟨2, 0, -1⟩ ⟨1, 1⟩ litematic).2.2 _ hlitematic⟩

end WaterStructure
