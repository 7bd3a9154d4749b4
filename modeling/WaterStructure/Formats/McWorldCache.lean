import WaterStructure.Formats.McWorldSelection

/-!
# MCWorld: the chunk cache over a sequence of calls

A call for the first layer may use a chunk that was loaded in either way. A call for both layers must
not use a chunk that was loaded without the second one. The flag that should prevent it belongs to
the whole cache: it is set by the first chunk that is loaded with both layers, and from then on chunks
that were loaded without the second layer are taken for complete.
-/

namespace WaterStructure

open NestedLoop StatefulRun ChunkStream

/-- The first layer of a chunk, and the order of its entries. -/
def ChunkData.firstLayer (chunk : ChunkData) : (ℤ → Option BlockLayer) × BlockLayerLayout :=
  (fun subY => (chunk.subChunks.lookup subY).map SubChunkData.layer0, chunk.layout)

/-- The chunks have the same first layers. -/
def ChunkMap.SameFirstLayers (chunks chunks' : ChunkMap) : Prop :=
  ∀ pos, (chunks.lookup pos).map ChunkData.firstLayer = (chunks'.lookup pos).map ChunkData.firstLayer

namespace McWorldStructure

inductive Request where
  | getChunks (positions : List ChunkPos)
  | getChunksLayer0 (positions : List ChunkPos)
  | countNonAirBlocks
  | releaseCachedChunks

inductive Response where
  | chunks (result : Except String ChunkMap)
  | chunksLayer0 (result : Except String ChunkMap)
  | count (result : Except String ℕ)
  | released

/-- The responses are equal, in the layers that were asked for. -/
inductive Response.Same : Response → Response → Prop
  | chunks (result : Except String ChunkMap) : Same (.chunks result) (.chunks result)
  | chunksLayer0 {result result' : Except String ChunkMap}
    (h : Alike ChunkMap.SameFirstLayers result result') : Same (.chunksLayer0 result) (.chunksLayer0 result')
  | count (result : Except String ℕ) : Same (.count result) (.count result)
  | released : Same .released .released

def serve (s : McWorldStructure) (air : RuntimeId) (request : Request) (cache : ChunkCache) :
    Response × ChunkCache :=
  match request with
  | .getChunks positions => (s.getChunks air positions cache).map .chunks id
  | .getChunksLayer0 positions => (s.getChunksLayer0 air positions cache).map .chunksLayer0 id
  | .countNonAirBlocks => (s.countNonAirBlocks air cache).map .count id
  | .releaseCachedChunks => (.released, McWorldStructure.releaseCachedChunks cache)

/-- One call after the other. -/
def responses (s : McWorldStructure) (air : RuntimeId) : List Request → ChunkCache → List Response
  | [], _ => []
  | request :: rest, cache =>
    (s.serve air request cache).1 :: s.responses air rest (s.serve air request cache).2

/-- The chunks that a request for both layers reads before it releases any, in this order. -/
def chunksRead (s : McWorldStructure) : Request → List ChunkPos
  | .getChunks positions => (s.allTasks positions).map fun turn => turn.2.source
  | .countNonAirBlocks => (s.allTasks ((gridPositions s.size).take 1)).map fun turn => turn.2.source
  | _ => []

/-- What is kept of the chunks has both layers. While the flag is not set, the first chunk that is
read is loaded again. -/
def Ready (s : McWorldStructure) (world : StoredWorld) (air : RuntimeId) (request : Request)
    (cache : ChunkCache) : Prop :=
  ∀ pos ∈ s.chunksRead request, cache.hasLayer1 = true ∨ (s.chunksRead request).head? ≠ some pos →
    ∀ chunk, cache.chunks.lookup pos = some chunk → chunk = s.loaded world air true pos

/-- Every call finds the cache ready. -/
def AllReady (s : McWorldStructure) (world : StoredWorld) (air : RuntimeId) :
    List Request → ChunkCache → Prop
  | [], _ => True
  | request :: rest, cache =>
    s.Ready world air request cache ∧ s.AllReady world air rest (s.serve air request cache).2

variable {s : McWorldStructure} {world : StoredWorld} {air : RuntimeId}

/-- Every chunk in the cache was loaded, with or without the second layer. -/
def Loaded (s : McWorldStructure) (world : StoredWorld) (air : RuntimeId) (cache : ChunkCache) : Prop :=
  ∀ pos chunk, cache.chunks.lookup pos = some chunk → ∃ includeLayer1,
    chunk = s.loaded world air includeLayer1 pos

/-- The first layer does not depend on how a chunk is loaded. -/
theorem firstLayer_loaded (includeLayer1 : Bool) (pos : ChunkPos) :
    (s.loaded world air includeLayer1 pos).firstLayer = (s.loaded world air false pos).firstLayer := by
  refine Prod.ext (funext fun subY => ?_) ?_
  · simp only [ChunkData.firstLayer, loaded, StoredWorld.lookup_loadChunkRange]
    split
    · rw [Option.map_map, Option.map_map]
      rfl
    · rfl
  · simp only [ChunkData.firstLayer, loaded, StoredWorld.loadChunkRange_layout]

variable {cache : ChunkCache} {positions : List ChunkPos} {pos : ChunkPos}

theorem Loaded.loadSource (h : s.world = some world) (hcache : s.Loaded world air cache)
    (includeLayer1 : Bool) (pos : ChunkPos) :
    s.Loaded world air (s.loadSource air includeLayer1 pos cache).2 := by
  rw [McWorldStructure.loadSource, h]
  intro other chunk hchunk
  dsimp only at hchunk
  rw [AssocMap.lookup_tryEmplace] at hchunk
  split_ifs at hchunk with hsame
  · subst hsame
    cases hold : cache.chunks.lookup other with
    | none =>
      rw [hold] at hchunk
      exact ⟨includeLayer1, (Option.some.inj hchunk).symm⟩
    | some old =>
      rw [hold] at hchunk
      cases hchunk
      exact hcache other old hold
  · exact hcache other chunk hchunk

theorem Loaded.erase (hcache : s.Loaded world air cache) (pos : ChunkPos) :
    s.Loaded world air { cache with chunks := cache.chunks.erase pos } := by
  intro other chunk hchunk
  by_cases hsame : other = pos
  · subst hsame
    rw [AList.lookup_erase] at hchunk
    cases hchunk
  · rw [AList.lookup_erase_ne hsame] at hchunk
    exact hcache other chunk hchunk

theorem Loaded.sourceChunk (h : s.world = some world) (hcache : s.Loaded world air cache)
    (includeLayer1 : Bool) (pos : ChunkPos) :
    s.Loaded world air (s.sourceChunk air includeLayer1 pos cache).2 := by
  rw [McWorldStructure.sourceChunk]
  split
  case h_1 => exact hcache.loadSource h includeLayer1 pos
  case h_2 =>
    split
    · exact hcache
    · exact (hcache.erase pos).loadSource h includeLayer1 pos

/-- Loading a chunk keeps its first layer. -/
theorem agrees_firstLayer (h : s.world = some world) (pos : ChunkPos) :
    Agrees (s.Loaded world air) (fun source source' => source.firstLayer = source'.firstLayer)
      (s.sourceChunk air false pos) (.ok (s.loaded world air false pos)) := by
  intro cache hcache
  refine ⟨?_, hcache.sourceChunk h false pos⟩
  rw [McWorldStructure.sourceChunk]
  split
  case h_1 =>
    rw [McWorldStructure.loadSource, h]
    exact .ok rfl
  case h_2 chunk hchunk =>
    rw [if_pos (.inl rfl)]
    obtain ⟨includeLayer1, rfl⟩ := hcache pos chunk hchunk
    exact .ok (firstLayer_loaded includeLayer1 pos)

/-- Storing in the first layer shows in the first layer only. -/
theorem firstLayer_setLayer (chunk : ChunkData) (fresh : SubChunkData) (subY : ℤ) (index : ℕ)
    (id : RuntimeId) : (chunk.setLayer fresh false subY index id).firstLayer =
      (Function.update chunk.firstLayer.1 subY
        (some (Function.update ((chunk.firstLayer.1 subY).getD fresh.layer0) index id)),
        chunk.firstLayer.2) := by
  refine Prod.ext (funext fun other => ?_) rfl
  simp only [ChunkData.firstLayer, ChunkData.setLayer, AssocMap.lookup_update,
    AssocMap.lookup_tryEmplace, Function.update_apply]
  by_cases hsame : other = subY
  · subst hsame
    cases chunk.subChunks.lookup other <;> simp [SubChunkData.setLayer]
  · simp [hsame]

/-- Copying a cell of the first layer depends on first layers only. -/
theorem firstLayer_copyCell {source source' output output' : ChunkData}
    (hsource : source.firstLayer = source'.firstLayer) (houtput : output.firstLayer = output'.firstLayer)
    (localX localZ sourceX sourceZ : ℤ) {cell : ℤ × Bool} (hcell : cell.2 = false) :
    (s.copyCell air false source localX localZ sourceX sourceZ output cell).firstLayer =
      (s.copyCell air false source' localX localZ sourceX sourceZ output' cell).firstLayer := by
  obtain ⟨localY, secondary⟩ := cell
  dsimp only at hcell
  subst hcell
  simp only [copyCell]
  split
  · exact houtput
  · have hlookup := congrFun (congrArg Prod.fst hsource)
      (floorDiv (s.min.y + (localY - s.offset.y)) 16)
    simp only [ChunkData.firstLayer] at hlookup
    cases hsub : source.subChunks.lookup (floorDiv (s.min.y + (localY - s.offset.y)) 16) with
    | none =>
      rw [hsub, Option.map_none, eq_comm, Option.map_eq_none_iff] at hlookup
      rw [hlookup]
      exact houtput
    | some sub =>
      rw [hsub, Option.map_some, eq_comm, Option.map_eq_some_iff] at hlookup
      obtain ⟨sub', hsub', hlayer⟩ := hlookup
      have hsame : sub.layer false = sub'.layer false := hlayer.symm
      rw [hsub']
      dsimp only
      rw [hsame]
      split
      · exact houtput
      · rw [firstLayer_setLayer, firstLayer_setLayer, houtput]

/-- Whether whole subchunks are left out depends on their first layer only. -/
theorem map_layer0_filter (keep : Bool) (sub : Option SubChunkData) :
    (sub.filter fun sub => keep && sub.hasNonAir air false).map SubChunkData.layer0 =
      (sub.map SubChunkData.layer0).filter fun layer =>
        keep && (List.range 4096).any fun index => layer index ≠ air := by
  cases sub with
  | none => rfl
  | some sub =>
    have hsame : sub.hasNonAir air false = (List.range 4096).any fun index => sub.layer0 index ≠ air := by
      rw [SubChunkData.hasNonAir, Bool.false_and, Bool.or_false]
    rw [Option.map_some, Option.filter_some, Option.filter_some, hsame]
    split <;> rfl

/-- What a turn for the first layer does depends on first layers only. -/
theorem firstLayer_perform {source source' output output' : ChunkData} (task : Task)
    (hsource : source.firstLayer = source'.firstLayer) (houtput : output.firstLayer = output'.firstLayer) :
    (s.perform air false source task output).firstLayer =
      (s.perform air false source' task output').firstLayer := by
  cases task with
  | subChunks pos =>
    have hlayout : output.layout = output'.layout := congrArg Prod.snd houtput
    refine Prod.ext (funext fun subY => ?_) hlayout
    have hold := congrFun (congrArg Prod.fst houtput) subY
    have hnew := congrFun (congrArg Prod.fst hsource) (subY + floorDiv (s.min.y + 64) 16)
    simp only [ChunkData.firstLayer] at hold hnew
    simp only [ChunkData.firstLayer, perform, lookup_copySubChunks, Option.map_or, map_layer0_filter,
      hold, hnew]
  | column localX localZ sourceX sourceZ =>
    rw [perform, perform]
    have hcells : ∀ cell ∈ s.columnCells false, cell.2 = false := by
      intro cell hcell
      have h := (mem_columnCells.mp hcell).2
      rwa [Bool.false_eq_true, imp_false, Bool.not_eq_true] at h
    generalize s.columnCells false = cells at hcells
    induction cells generalizing output output' with
    | nil => exact houtput
    | cons cell rest ih =>
      rw [List.foldl_cons, List.foldl_cons]
      exact ih (firstLayer_copyCell hsource houtput _ _ _ _ (hcells cell List.mem_cons_self))
        fun other hother => hcells other (List.mem_cons_of_mem _ hother)

/-- A call for the first layer gives what it gives without a cache. -/
theorem agrees_getChunksLayer0 (h : s.world = some world) (positions : List ChunkPos) :
    Agrees (s.Loaded world air) ChunkMap.SameFirstLayers (s.getChunksLayer0 air positions)
      (.ok (s.plainChunks world air false positions)) := by
  refine agrees_turns (fun turn _ => agrees_firstLayer h _) ?_ fun pos => rfl
  intro source source' task pos result result' hsource hresult other
  rw [AssocMap.lookup_update, AssocMap.lookup_update]
  split
  · have hpos := hresult pos
    cases hlookup : result.lookup pos with
    | none =>
      rw [hlookup, Option.map_none, eq_comm, Option.map_eq_none_iff] at hpos
      rw [hpos]
      rfl
    | some output =>
      rw [hlookup, Option.map_some, eq_comm, Option.map_eq_some_iff] at hpos
      obtain ⟨output', hlookup', houtput⟩ := hpos
      rw [hlookup', Option.map_some, Option.map_some, Option.map_some, Option.map_some]
      exact congrArg some (firstLayer_perform task hsource houtput.symm)
  · exact hresult other

/-- The chunks that will be read are there with both layers, or not at all. -/
structure Complete (s : McWorldStructure) (world : StoredWorld) (air : RuntimeId)
    (positions : List ChunkPos) (cache : ChunkCache) : Prop where
  loaded : s.Loaded world air cache
  flag : cache.hasLayer1 = true
  chunks : ∀ pos ∈ positions, ∀ chunk, cache.chunks.lookup pos = some chunk →
    chunk = s.loaded world air true pos

/-- Loading a chunk with both layers that is not in the cache. -/
theorem complete_loadSource (h : s.world = some world) (hcache : s.Loaded world air cache)
    (hnone : cache.chunks.lookup pos = none)
    (hothers : ∀ other ∈ positions, other ≠ pos → ∀ chunk, cache.chunks.lookup other = some chunk →
      chunk = s.loaded world air true other) :
    Alike Eq (s.loadSource air true pos cache).1 (.ok (s.loaded world air true pos)) ∧
      s.Complete world air positions (s.loadSource air true pos cache).2 := by
  refine ⟨?_, hcache.loadSource h true pos, ?_, fun other hother chunk hchunk => ?_⟩
  · rw [loadSource, h]
    exact .ok rfl
  · rw [loadSource, h]
    rfl
  · rw [loadSource, h] at hchunk
    dsimp only at hchunk
    rw [AssocMap.lookup_tryEmplace] at hchunk
    split_ifs at hchunk with hne
    · rw [hnone] at hchunk
      rw [hne]
      exact (Option.some.inj hchunk).symm
    · exact hothers other hother hne chunk hchunk

theorem agrees_complete (h : s.world = some world) (hpos : pos ∈ positions) :
    Agrees (s.Complete world air positions) Eq (s.sourceChunk air true pos)
      (.ok (s.loaded world air true pos)) := by
  intro cache hcache
  rw [sourceChunk]
  split
  case h_1 hnone =>
    exact complete_loadSource h hcache.loaded hnone fun other hother _ => hcache.chunks other hother
  case h_2 chunk hchunk =>
    rw [if_pos (.inr hcache.flag)]
    exact ⟨.ok (hcache.chunks pos hpos chunk hchunk), hcache⟩

/-- While the flag is not set, the first chunk is loaded anew and sets it. -/
theorem complete_first (h : s.world = some world) (hcache : s.Loaded world air cache)
    (hflag : cache.hasLayer1 = false)
    (hothers : ∀ other ∈ positions, other ≠ pos → ∀ chunk, cache.chunks.lookup other = some chunk →
      chunk = s.loaded world air true other) :
    Alike Eq (s.sourceChunk air true pos cache).1 (.ok (s.loaded world air true pos)) ∧
      s.Complete world air positions (s.sourceChunk air true pos cache).2 := by
  rw [sourceChunk]
  split
  case h_1 hnone => exact complete_loadSource h hcache hnone hothers
  case h_2 chunk hchunk =>
    rw [if_neg (by rw [hflag]; decide)]
    refine complete_loadSource h (hcache.erase pos) (AList.lookup_erase ..) fun other hother hne => ?_
    dsimp only
    rw [AList.lookup_erase_ne hne]
    exact hothers other hother hne

/-- A call for both layers that finds the cache ready gives what it gives without a cache. -/
theorem getChunks_of_ready (h : s.world = some world) (hcache : s.Loaded world air cache)
    (hready : s.Ready world air (.getChunks positions) cache) :
    (s.getChunks air positions cache).1 = .ok (s.plainChunks world air true positions) ∧
      s.Loaded world air (s.getChunks air positions cache).2 := by
  have hturns {turns : List (ChunkPos × Task)} (result : ChunkMap)
      (hmem : ∀ turn ∈ turns, turn.2.source ∈ s.chunksRead (.getChunks positions)) :
      Agrees (s.Complete world air (s.chunksRead (.getChunks positions))) Eq
        (loop (s.runTurn air true) turns result) (.ok (turns.foldl (s.plainTurn world air true) result)) :=
    agrees_turns (fun turn hturn => agrees_complete h (hmem turn hturn))
      (fun _ _ _ _ _ _ => update_congr) rfl
  have hmem : ∀ turn ∈ s.allTasks positions, turn.2.source ∈ s.chunksRead (.getChunks positions) :=
    fun turn hturn => List.mem_map.mpr ⟨turn, hturn, rfl⟩
  cases hflag : cache.hasLayer1 with
  | true =>
    have hcomplete : s.Complete world air (s.chunksRead (.getChunks positions)) cache :=
      ⟨hcache, hflag, fun pos hpos => hready pos hpos (.inl hflag)⟩
    obtain ⟨hsame, hafter⟩ := hturns (ChunkMap.emplaceAll positions) hmem cache hcomplete
    exact ⟨hsame.eq, hafter.loaded⟩
  | false =>
    rw [getChunks, getChunksImpl, plainChunks]
    have hfirst : ∀ turn rest, s.allTasks positions = turn :: rest → ∀ other ∈
        s.chunksRead (.getChunks positions), other ≠ turn.2.source → ∀ chunk,
          cache.chunks.lookup other = some chunk → chunk = s.loaded world air true other := by
      intro turn rest hall other hother hne
      refine hready other hother (.inr ?_)
      rw [chunksRead, hall, List.map_cons, List.head?_cons]
      exact fun h => hne (Option.some.inj h).symm
    cases hall : s.allTasks positions with
    | nil => exact ⟨rfl, hcache⟩
    | cons turn rest =>
      obtain ⟨hsame, hcomplete⟩ := complete_first h hcache hflag (hfirst turn rest hall)
      rw [loop, andThen, runTurn, andThen]
      generalize s.sourceChunk air true turn.2.source cache = read at hsame hcomplete
      obtain ⟨source, after⟩ := read
      cases hsame with
      | ok hsource =>
        subst hsource
        obtain ⟨hrest, hafter⟩ := hturns (s.plainTurn world air true
          (ChunkMap.emplaceAll positions) turn) (fun other hother => hmem other (by
            rw [hall]
            exact List.mem_cons_of_mem _ hother)) after hcomplete
        exact ⟨hrest.eq, hafter.loaded⟩

/-- A cache without chunks is ready. -/
theorem ready_empty (request : Request) (hcache : cache.chunks = ∅) : s.Ready world air request cache := by
  intro pos _ _ chunk hchunk
  rw [hcache, AList.lookup_empty] at hchunk
  cases hchunk

theorem loaded_empty : s.Loaded world air {} := fun _ _ h => nomatch h

/-- A requested chunk is in the result. -/
theorem exists_lookup_plainChunks {positions : List ChunkPos} {position : ChunkPos}
    (hposition : position ∈ positions) (includeLayer1 : Bool) :
    ∃ chunk, (s.plainChunks world air includeLayer1 positions).lookup position = some chunk :=
  ⟨_, (lookup_plainChunks positions position).trans (if_pos hposition)⟩

/-- The count of a chunk without a cache. -/
def plainCount (s : McWorldStructure) (world : StoredWorld) (air : RuntimeId) (count : ℕ)
    (pos : ChunkPos) : Except String ℕ :=
  match (s.plainChunks world air true [pos]).lookup pos with
  | none => .ok count
  | some chunk => countChunk air chunk count

/-- Counting starts with the cache as it is and goes on with an empty one. -/
theorem count_of_ready (h : s.world = some world) (count : ℕ) (hcache : s.Loaded world air cache)
    (hready : ∀ pos rest, positions = pos :: rest → s.Ready world air (.getChunks [pos]) cache) :
    let result := loop (fun count pos =>
      andThen (s.getChunks air [pos]) fun chunks cache =>
        match chunks.lookup pos with
        | none => (.ok count, cache)
        | some chunk =>
          match countChunk air chunk count with
          | .error error => (.error error, cache)
          | .ok count => (.ok count, releaseCachedChunks cache)) positions count cache
    result.1 = positions.foldlM (s.plainCount world air) count ∧ s.Loaded world air result.2 := by
  induction positions generalizing count cache with
  | nil => exact ⟨rfl, hcache⟩
  | cons pos rest ih =>
    obtain ⟨hchunks, hafter⟩ := getChunks_of_ready h hcache (hready pos rest rfl)
    obtain ⟨chunk, hchunk⟩ := @exists_lookup_plainChunks s world air [pos] pos List.mem_cons_self true
    dsimp only
    rw [loop, andThen, andThen, List.foldlM_cons, plainCount, hchunk]
    generalize s.getChunks air [pos] cache = read at hchunks hafter
    obtain ⟨result, after⟩ := read
    dsimp only at hchunks
    subst hchunks
    dsimp only
    rw [hchunk]
    dsimp only
    cases countChunk air chunk count with
    | error error => exact ⟨rfl, hafter⟩
    | ok next => exact ih next loaded_empty fun _ _ _ => ready_empty _ rfl

/-- A call that finds the cache ready is answered like the first call. -/
theorem serve_of_ready (h : s.world = some world) (request : Request) (hcache : s.Loaded world air cache)
    (hready : s.Ready world air request cache) :
    Response.Same (s.serve air request cache).1 (s.serve air request {}).1 ∧
      s.Loaded world air (s.serve air request cache).2 := by
  cases request with
  | getChunks positions =>
    obtain ⟨hresult, hafter⟩ := getChunks_of_ready h hcache hready
    have hfresh := (getChunks_of_ready h (@loaded_empty s world air)
      (ready_empty (.getChunks positions) rfl)).1
    refine ⟨?_, hafter⟩
    rw [serve, serve, Prod.map_fst, Prod.map_fst, hresult, hfresh]
    exact .chunks _
  | getChunksLayer0 positions =>
    obtain ⟨hresult, hafter⟩ := agrees_getChunksLayer0 h positions cache hcache
    have hfresh : (s.getChunksLayer0 air positions {}).1 = .ok (s.plainChunks world air false positions) :=
      getChunksImpl_empty h positions
    refine ⟨?_, hafter⟩
    rw [serve, serve, Prod.map_fst, Prod.map_fst, hfresh]
    exact .chunksLayer0 hresult
  | countNonAirBlocks =>
    have hcount {cache : ChunkCache} (hcache : s.Loaded world air cache)
        (hready : s.Ready world air .countNonAirBlocks cache) :
        (s.countNonAirBlocks air cache).1 = (gridPositions s.size).foldlM (s.plainCount world air) 0 ∧
          s.Loaded world air (s.countNonAirBlocks air cache).2 := by
      rw [countNonAirBlocks, h]
      refine count_of_ready h 0 hcache fun pos rest hgrid => ?_
      rw [Ready, chunksRead, hgrid] at hready
      exact hready
    obtain ⟨hresult, hafter⟩ := hcount hcache hready
    have hfresh := (hcount (@loaded_empty s world air) (ready_empty .countNonAirBlocks rfl)).1
    refine ⟨?_, hafter⟩
    rw [serve, serve, Prod.map_fst, Prod.map_fst, hresult, hfresh]
    exact .count _
  | releaseCachedChunks => exact ⟨.released, loaded_empty⟩

/-- Calls that find the cache ready are answered like first calls. -/
theorem responses_of_ready (h : s.world = some world) {requests : List Request}
    (hcache : s.Loaded world air cache) (hready : s.AllReady world air requests cache) :
    List.Forall₂ (fun request response => Response.Same response (s.serve air request {}).1) requests
      (s.responses air requests cache) := by
  induction requests generalizing cache with
  | nil => exact .nil
  | cons request rest ih =>
    obtain ⟨hsame, hafter⟩ := serve_of_ready h request hcache hready.1
    exact .cons hsame (ih hafter hready.2)

/-- In a run of calls on a structure that has just been read, every call is answered like a first
call, if no call for both layers uses a chunk that was kept without its second layer. -/
theorem responses_read (world : StoredWorld) (air : RuntimeId) (first second offset : BlockPos)
    (requests : List Request)
    (hready : ((read world first second).setOffset offset).AllReady world air requests {}) :
    let s := (read world first second).setOffset offset
    List.Forall₂ (fun request response => Response.Same response (s.serve air request {}).1) requests
      (s.responses air requests {}) :=
  responses_of_ready rfl loaded_empty hready

/-- One subchunk with water in its second layer. -/
def waterlogged : StoredWorld where
  subChunk := fun pos => if pos = ⟨0, -4, 0⟩ then some ⟨fun _ => 5, some fun _ => 7⟩ else none

/-- Two chunks of that world. -/
def twoChunks : McWorldStructure := (read waterlogged ⟨0, -64, 0⟩ ⟨31, -49, 15⟩).setOffset ⟨0, 0, 0⟩

/-- Asking for the first layer and then for both of the same chunk. -/
theorem responses_read_waterlogged :
    List.Forall₂ (fun request response => Response.Same response (twoChunks.serve 0 request {}).1)
      [.getChunksLayer0 [⟨0, 0⟩], .getChunks [⟨0, 0⟩], .releaseCachedChunks]
      (twoChunks.responses 0 [.getChunksLayer0 [⟨0, 0⟩], .getChunks [⟨0, 0⟩], .releaseCachedChunks] {}) := by
  refine responses_read waterlogged 0 _ _ _ _ ⟨ready_empty _ rfl, ?_, fun _ h => (nomatch h), trivial⟩
  -- The flag is not set, and the one chunk that is read is the first.
  have hread : twoChunks.chunksRead (.getChunks [⟨0, 0⟩]) = [⟨0, 0⟩] := by decide +kernel
  have hflag : (twoChunks.serve 0 (.getChunksLayer0 [⟨0, 0⟩]) {}).2.hasLayer1 = false := by
    decide +kernel
  intro pos hpos hkept
  change pos ∈ twoChunks.chunksRead (.getChunks [⟨0, 0⟩]) at hpos
  change (twoChunks.serve 0 (.getChunksLayer0 [⟨0, 0⟩]) {}).2.hasLayer1 = true ∨
    (twoChunks.chunksRead (.getChunks [⟨0, 0⟩])).head? ≠ some pos at hkept
  rw [hread, List.mem_singleton] at hpos
  rw [hread, hflag, hpos] at hkept
  rcases hkept with h | h
  · cases h
  · exact absurd rfl h

/-- The second layer of the first cell, in an answer. -/
def Response.secondLayer : Response → Option RuntimeId
  | .chunks (.ok found) => found.idAt 0 true ⟨0, 0, 0⟩
  | _ => none

theorem Response.Same.secondLayer_eq {response response' : Response} (h : response.Same response') :
    response.secondLayer = response'.secondLayer := by
  cases h <;> rfl

/-- When both layers of another chunk are asked for in between, the second layer is lost. -/
theorem not_responses_same :
    ¬ ∀ (world : StoredWorld) (air : RuntimeId) (first second offset : BlockPos) (requests : List Request),
      let s := (read world first second).setOffset offset
      List.Forall₂ (fun request response => Response.Same response (s.serve air request {}).1) requests
        (s.responses air requests {}) := by
  intro h
  have hrun := h waterlogged 0 ⟨0, -64, 0⟩ ⟨31, -49, 15⟩ ⟨0, 0, 0⟩
    [.getChunksLayer0 [⟨0, 0⟩], .getChunks [⟨1, 0⟩], .getChunks [⟨0, 0⟩]]
  have hthird := ((List.forall₂_cons.mp (List.forall₂_cons.mp
    (List.forall₂_cons.mp hrun).2).2).1).secondLayer_eq
  revert hthird
  decide +kernel

end McWorldStructure

end WaterStructure
