import WaterStructure.Core.Grid
import WaterStructure.Core.PumpDelivery

/-!
# The chunks of a structure as a stream

`from_structure_grid` asks a structure for its chunks batch by batch, row after row, and pushes
what it gets. A producer of any kind whose stream ends with success has pushed what it pushes
when no push fails, so the sink has accepted exactly the chunks of the structure.
-/

namespace WaterStructure

open ChunkStream

/-- A block with NBT data, at a position relative to its chunk. -/
structure BlockEntity (Nbt : Type) where
  pos : BlockPos
  payload : Nbt

structure StreamChunk (Nbt : Type) where
  position : ChunkPos
  blocks : ChunkData
  entities : List (BlockEntity Nbt) := []

/-- What a stream asks of a structure. -/
structure ChunkSource (Nbt : Type) where
  size : Size
  getChunks : List ChunkPos → Except String ChunkMap
  getChunkNbt : List ChunkPos → Except String (AList fun _ : ChunkPos => List (BlockEntity Nbt))

namespace ChunkStream

variable {Chunk : Type*} {Nbt : Type}

/-- What a producer pushes as long as every push succeeds, if it ends with success. -/
def Producer.items : Producer Chunk → Except String (List Chunk)
  | .done result => result.map fun _ => []
  | .push chunk next => (next (.ok ())).items.map (chunk :: ·)

/-- Push the chunks in turn and go on; the first failure ends the producer. -/
def pushAll : List Chunk → Producer Chunk → Producer Chunk
  | [], next => next
  | chunk :: rest, next =>
    .push chunk fun
      | .error error => .done (.error error)
      | .ok () => pushAll rest next

/-- The chunks that `visit_chunks` finds, with the entities of their positions. -/
def streamChunks (entities : AList fun _ : ChunkPos => List (BlockEntity Nbt)) (chunks : ChunkMap)
    (batch : List ChunkPos) : List (StreamChunk Nbt) :=
  batch.filterMap fun position =>
    (chunks.lookup position).map fun blocks =>
      { position, blocks, entities := (entities.lookup position).getD [] }

/-- The chunks of one batch. -/
def structureBatch (source : ChunkSource Nbt) (batch : List ChunkPos) :
    Except String (List (StreamChunk Nbt)) := do
  let entities ← source.getChunkNbt batch
  let chunks ← source.getChunks batch
  return streamChunks entities chunks batch

/-- `produce_structure_batch`, and what follows it. -/
def produceStructureBatch (source : ChunkSource Nbt) (batch : List ChunkPos)
    (next : Producer (StreamChunk Nbt)) : Producer (StreamChunk Nbt) :=
  match structureBatch source batch with
  | .error error => .done (.error error)
  | .ok chunks => pushAll chunks next

/-- The positions of the grid, row after row. -/
def gridPositions (size : Size) : List ChunkPos :=
  (Int.range 0 size.chunkZCount).flatMap fun z =>
    (Int.range 0 size.chunkXCount).map fun x => ⟨x, z⟩

/-- The loops over the grid, with the positions that are still to come and the open batch. -/
def produceGrid (source : ChunkSource Nbt) (batchSize : ℕ) :
    List ChunkPos → List ChunkPos → Producer (StreamChunk Nbt)
  | [], batch =>
    if batch.isEmpty then .done (.ok ()) else produceStructureBatch source batch (.done (.ok ()))
  | position :: rest, batch =>
    if (batch ++ [position]).length < batchSize then
      produceGrid source batchSize rest (batch ++ [position])
    else
      produceStructureBatch source (batch ++ [position]) (produceGrid source batchSize rest [])

/-- `from_structure_grid`. -/
def fromStructureGrid (source : ChunkSource Nbt) (batchSize : ℕ) : Producer (StreamChunk Nbt) :=
  produceGrid source (max batchSize 1) (gridPositions source.size) []

/-- `stream_capacity`. -/
def streamCapacity (maxInFlightChunks softMemoryBudgetBytes : ℕ) : ℕ :=
  let kBytesPerChunk := 2 * 1024 * 1024
  let budgetCapacity := min (max (max softMemoryBudgetBytes kBytesPerChunk / kBytesPerChunk) 1) 128
  if maxInFlightChunks = 0 then budgetCapacity
  else min (min (max maxInFlightChunks 1) 4096) budgetCapacity

theorem mem_gridPositions {size : Size} {position : ChunkPos} :
    position ∈ gridPositions size ↔ (0 ≤ position.x ∧ position.x < size.chunkXCount) ∧
      0 ≤ position.z ∧ position.z < size.chunkZCount := by
  simp only [gridPositions, List.mem_flatMap, List.mem_map, Int.mem_range_iff]
  constructor
  · intro ⟨z, hz, x, hx, hposition⟩
    rw [← hposition]
    exact ⟨hx, hz⟩
  · intro ⟨hx, hz⟩
    exact ⟨position.z, hz, position.x, hx, rfl⟩

/-- Pushing all chunks puts them in front of what follows. -/
theorem items_pushAll (chunks : List Chunk) (next : Producer Chunk) :
    (pushAll chunks next).items = next.items.map (chunks ++ ·) := by
  induction chunks with
  | nil =>
    rw [pushAll]
    cases next.items <;> rfl
  | cons chunk rest ih =>
    rw [pushAll, Producer.items, ih]
    cases next.items <;> rfl

/-- As long as there is no error, what the producer still pushes completes what it has pushed. -/
structure OnPath (producer : Producer Chunk) (s : PumpState Chunk) : Prop where
  producing : s.sink.error = none → ∀ rest, s.main = .producing rest →
    producer.items = rest.items.map (s.attempted ++ ·)
  done : s.sink.error = none → s.producerResult = some (.ok ()) →
    producer.items = .ok s.attempted

theorem OnPath.initial (producer : Producer Chunk) :
    OnPath producer (PumpState.initial producer) where
  producing := by
    intro _ rest hmain
    cases hmain
    cases producer.items <;> rfl
  done := fun _ h => nomatch h

variable {producer : Producer Chunk} {s t : PumpState Chunk} {capacity : ℕ} {source : ChunkSource Nbt}
  {chunks : List (StreamChunk Nbt)} {positions : List ChunkPos}

/-- A step that pushes nothing and ends nothing. -/
theorem OnPath.keep (hs : OnPath producer s) (herror : t.sink.error = none → s.sink.error = none)
    (hmain : ∀ rest, t.main = .producing rest → s.main = .producing rest)
    (hresult : t.producerResult = s.producerResult) (hattempted : t.attempted = s.attempted) :
    OnPath producer t where
  producing := by
    intro hnone rest hrest
    rw [hattempted]
    exact hs.producing (herror hnone) rest (hmain rest hrest)
  done := by
    intro hnone hok
    rw [hattempted]
    exact hs.done (herror hnone) (hresult ▸ hok)

/-- An error that was recorded stays. -/
theorem error_fail (sink : QueueSink Chunk) (error : String) :
    (sink.fail error).error ≠ none := by
  intro h
  cases h

/-- Every step of the calling thread stays on the path. -/
theorem stepMain_onPath {answer : Outcome} (hinvariant : PumpInvariant capacity s)
    (hs : OnPath producer s) (h : s.stepMain capacity answer = some t) : OnPath producer t := by
  cases hphase : s.main with
  | producing rest =>
    have hresult : s.producerResult = none := by
      have hmain := hinvariant.main
      rw [MainSound, hphase] at hmain
      exact hmain.1
    cases rest with
    | push chunk next =>
      simp only [PumpState.stepMain, hphase] at h
      split at h
      case h_1 => cases h
      case h_2 result sink hpush =>
        cases h
        constructor
        · intro hnone rest hrest
          cases hrest
          rcases QueueSink.push_cases hpush with ⟨rfl, -, hover⟩ | ⟨rfl, hopen, -, -, -⟩
          · -- A refused push means an error, since the producer has not closed the queue.
            have herror : s.sink.error.isSome = true := by
              rcases hover with herror | hclosed
              · exact herror
              · simpa [hphase, MainPhase.afterClose] using hinvariant.closedLate hclosed
            rw [show s.sink.error = none from hnone] at herror
            cases herror
          · rw [hs.producing hopen _ hphase, Producer.items]
            cases (next (.ok ())).items <;> simp [Except.map]
        · intro _ hok
          dsimp only at hok
          rw [hresult] at hok
          cases hok
    | done result =>
      cases result with
      | ok =>
        simp only [PumpState.stepMain, hphase, Option.some.injEq] at h
        subst h
        constructor
        · intro _ rest hrest
          cases hrest
        · intro hnone _
          rw [hs.producing hnone _ hphase, Producer.items]
          simp [Except.map]
      | error error =>
        simp only [PumpState.stepMain, hphase, Option.some.injEq] at h
        subst h
        constructor
        · intro _ rest hrest
          cases hrest
        · intro _ hok
          cases hok
  | failing error =>
    simp only [PumpState.stepMain, hphase, Option.some.injEq] at h
    subst h
    exact hs.keep (fun hnone => absurd hnone (error_fail _ _)) (fun _ hrest => by cases hrest) rfl rfl
  | joining result =>
    simp only [PumpState.stepMain, hphase] at h
    split at h
    case h_1 consumerResult hconsumer =>
      cases h
      have hnext (rest : Producer Chunk) :
          afterJoin result consumerResult s.sink.error ≠ .producing rest := by
        unfold afterJoin
        split <;> intro h <;> cases h
      exact hs.keep id (fun rest hrest => absurd hrest (hnext rest)) rfl rfl
    case h_2 => cases h
  | returned result => simp [PumpState.stepMain, hphase] at h
  | cancelling _ | closing _ | finishing =>
    simp only [PumpState.stepMain, hphase, Option.some.injEq] at h
    subst h
    exact hs.keep id (fun _ hrest => by cases hrest) rfl rfl

/-- Every step of the consumer stays on the path. -/
theorem stepConsumer_onPath {answer : Outcome} (hs : OnPath producer s)
    (h : s.stepConsumer answer = some t) : OnPath producer t := by
  cases hphase : s.consumer with
  | waiting =>
    simp only [PumpState.stepConsumer, hphase] at h
    split at h
    case h_1 => cases h
    case h_2 chunk sink htake =>
      cases h
      have hsame : sink.error = s.sink.error := by
        rcases QueueSink.take_cases htake with ⟨_, _, _, heq⟩ | ⟨_, _, _, heq⟩ | ⟨_, _, _, heq⟩
        · cases heq
          rfl
        · cases heq
        · cases heq
      exact hs.keep (fun hnone => hsame ▸ hnone) (fun _ hrest => hrest) rfl rfl
    case h_3 =>
      cases h
      exact hs.keep id (fun _ hrest => hrest) rfl rfl
  | holding chunk =>
    simp only [PumpState.stepConsumer, hphase] at h
    split at h <;> cases h <;> exact hs.keep id (fun _ hrest => hrest) rfl rfl
  | failing error =>
    simp only [PumpState.stepConsumer, hphase, Option.some.injEq] at h
    subst h
    exact hs.keep (fun hnone => absurd hnone (error_fail _ _)) (fun _ hrest => hrest) rfl rfl
  | cancelling error =>
    simp only [PumpState.stepConsumer, hphase, Option.some.injEq] at h
    subst h
    exact hs.keep id (fun _ hrest => hrest) rfl rfl
  | stopped result => simp [PumpState.stepConsumer, hphase] at h

theorem reachable_onPath (h : Reachable capacity producer s) : OnPath producer s := by
  induction h with
  | start => exact .initial producer
  | @next s t action hreach hstep ih =>
    cases action with
    | main answer => exact stepMain_onPath (reachable_invariant hreach) ih hstep
    | consumer answer => exact stepConsumer_onPath ih hstep

/-- A stream that ended with success has handed the sink what the producer pushes when no push
fails. -/
theorem accepted_eq_items (h : Reachable capacity producer s)
    (hreturned : s.main = .returned (.ok ())) : producer.items = .ok (accepted s.calls) := by
  have hs := reachable_invariant h
  rw [hs.accepted_of_success hreturned]
  have hmain := hs.main
  rw [MainSound, hreturned] at hmain
  obtain ⟨producerResult, consumer, hproducer, hconsumer, -, hsucceeded⟩ := hmain
  obtain ⟨hok, hok'⟩ := hsucceeded rfl
  have hstopped : s.consumer = .stopped (.ok ()) := by
    rcases consumer with error | ⟨⟩
    · cases hok'
    · exact hconsumer
  apply (reachable_onPath h).done (hs.stoppedWell hstopped).1
  rcases producerResult with error | ⟨⟩
  · cases hok
  · exact hproducer

/-- The chunks of some positions, asked for in batches. -/
inductive Batched (source : ChunkSource Nbt) : List ChunkPos → List (StreamChunk Nbt) → Prop where
  | nil : Batched source [] []
  | cons {batch rest : List ChunkPos} {chunks more : List (StreamChunk Nbt)} :
      structureBatch source batch = .ok chunks → Batched source rest more →
      Batched source (batch ++ rest) (chunks ++ more)

/-- What a batch and its successors push. -/
theorem items_produceStructureBatch {batch rest : List ChunkPos} {next : Producer (StreamChunk Nbt)}
    (h : (produceStructureBatch source batch next).items = .ok chunks)
    (hnext : ∀ more, next.items = .ok more → Batched source rest more) :
    Batched source (batch ++ rest) chunks := by
  rw [produceStructureBatch] at h
  split at h
  case h_1 => cases h
  case h_2 found hfound =>
    rw [items_pushAll] at h
    cases hitems : next.items with
    | error error =>
      rw [hitems] at h
      cases h
    | ok more =>
      rw [hitems] at h
      cases h
      exact .cons hfound (hnext more hitems)

/-- The loops over the grid ask for every position once, in order. -/
theorem batched_of_produceGrid {batchSize : ℕ} {batch : List ChunkPos}
    (h : (produceGrid source batchSize positions batch).items = .ok chunks) :
    Batched source (batch ++ positions) chunks := by
  have hend (more : List (StreamChunk Nbt))
      (hmore : (Producer.done (.ok ()) : Producer (StreamChunk Nbt)).items = .ok more) :
      Batched source [] more := by
    cases hmore
    exact .nil
  induction positions generalizing batch chunks with
  | nil =>
    rw [produceGrid] at h
    split_ifs at h with hempty
    · rw [List.isEmpty_iff.mp hempty]
      exact hend chunks h
    · exact items_produceStructureBatch h hend
  | cons position rest ih =>
    rw [produceGrid] at h
    rw [List.append_cons]
    split at h
    · exact ih h
    · exact items_produceStructureBatch h fun more hmore => ih hmore

/-- A chunk of the stream is the one that the structure gave for its position. -/
theorem Batched.blocks (h : Batched source positions chunks) {item : StreamChunk Nbt}
    (hitem : item ∈ chunks) :
    item.position ∈ positions ∧ ∃ batch found, item.position ∈ batch ∧
      source.getChunks batch = .ok found ∧ found.lookup item.position = some item.blocks := by
  induction h with
  | nil => cases hitem
  | @cons batch rest chunks more hbatch hrest ih =>
    rcases List.mem_append.mp hitem with hfirst | hmore
    · obtain ⟨entities, -, hbatch⟩ := NestedLoop.exists_of_bind_ok hbatch
      obtain ⟨found, hfound, hchunks⟩ := NestedLoop.exists_of_bind_ok hbatch
      cases hchunks
      obtain ⟨position, hposition, hlookup⟩ := List.mem_filterMap.mp hfirst
      obtain ⟨blocks, hblocks, rfl⟩ := Option.map_eq_some_iff.mp hlookup
      exact ⟨List.mem_append_left _ hposition, batch, found, hposition, hfound, hblocks⟩
    · obtain ⟨hposition, hblocks⟩ := ih hmore
      exact ⟨List.mem_append_right _ hposition, hblocks⟩

/-- Every position whose chunk the structure gives is in the stream. -/
theorem Batched.complete (h : Batched source positions chunks)
    (hsource : ∀ batch found, source.getChunks batch = .ok found →
      ∀ position ∈ batch, (found.lookup position).isSome = true) {position : ChunkPos}
    (hposition : position ∈ positions) : ∃ item ∈ chunks, item.position = position := by
  induction h with
  | nil => cases hposition
  | @cons batch rest chunks more hbatch hrest ih =>
    rcases List.mem_append.mp hposition with hfirst | hmore
    · obtain ⟨entities, -, hbatch⟩ := NestedLoop.exists_of_bind_ok hbatch
      obtain ⟨found, hfound, hchunks⟩ := NestedLoop.exists_of_bind_ok hbatch
      cases hchunks
      obtain ⟨blocks, hblocks⟩ := Option.isSome_iff_exists.mp (hsource batch found hfound _ hfirst)
      have hitem : ({ position, blocks, entities := (entities.lookup position).getD [] } :
          StreamChunk Nbt) ∈ streamChunks entities found batch := by
        apply List.mem_filterMap.mpr
        exact ⟨position, hfirst, by rw [hblocks]; rfl⟩
      exact ⟨_, List.mem_append_left _ hitem, rfl⟩
    · obtain ⟨item, hitem, hposition⟩ := ih hmore
      exact ⟨item, List.mem_append_right _ hitem, hposition⟩

end ChunkStream

end WaterStructure
