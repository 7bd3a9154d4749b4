import WaterStructure.Core.SparseBlockStore

/-!
# Runs of a sparse block store

A reader fixes the size of a sparse block store and whether blocks outside of it are wanted, and
then puts blocks and entities and moves the offset in any order. The last block put at a position is
the one that counts. A chunk without a column of the declared size is skipped before the blocks
outside of it are looked at, so such a chunk shows none of them.
-/

namespace WaterStructure

open LastValue NestedLoop

/-- A call that changes a store whose size is known. -/
inductive StoreCall (Nbt : Type) where
  | put (cell : BlockPos) (id : RuntimeId)
  | putEntity (cell : BlockPos) (payload : Option Nbt)
  | setOffset (offset : BlockPos)

namespace StoreCall

variable {Nbt : Type}

/-- What a call puts at a position. -/
def putAt (cell : BlockPos) : StoreCall Nbt → Option RuntimeId
  | .put other id => if other = cell then some id else none
  | _ => none

/-- The entity that a call stores at a position; an empty payload removes it. -/
def entityAt (cell : BlockPos) : StoreCall Nbt → Option (Option Nbt)
  | .putEntity other payload => if other = cell then some payload else none
  | _ => none

def newOffset : StoreCall Nbt → Option BlockPos
  | .setOffset offset => some offset
  | _ => none

end StoreCall

namespace SparseBlockStore

variable {Nbt : Type}

/-- The block that the last put for a position has left there. -/
def lastPut (calls : List (StoreCall Nbt)) (cell : BlockPos) : Option RuntimeId :=
  lastValue (StoreCall.putAt cell) calls

/-- The entity of a position. -/
def lastEntity (calls : List (StoreCall Nbt)) (cell : BlockPos) : Option Nbt :=
  (lastValue (StoreCall.entityAt cell) calls).join

/-- The offset that holds after the calls. -/
def lastOffset (calls : List (StoreCall Nbt)) : BlockPos :=
  (lastValue StoreCall.newOffset calls).getD ⟨0, 0, 0⟩

def call (air : RuntimeId) (store : SparseBlockStore Nbt) : StoreCall Nbt → SparseBlockStore Nbt
  | .put cell id => store.put air cell id
  | .putEntity cell payload => store.putEntity cell payload
  | .setOffset offset => store.setOffset offset

/-- The store after a run of calls. -/
def run (air : RuntimeId) (size : Size) (enabled : Bool) (calls : List (StoreCall Nbt)) :
    SparseBlockStore Nbt :=
  calls.foldl (call air) ((({} : SparseBlockStore Nbt).setSize size).setIncludeOutOfBounds enabled)

/-! ## The first layer alone -/

/-- A subchunk that was missing; its second layer is only filled if it is wanted. -/
def freshSubChunk (air : RuntimeId) (includeLayer1 : Bool) : SubChunkData where
  layer0 := fun _ => air
  layer1 := fun _ => if includeLayer1 then air else 0

/-- Store an id in the first layer of a chunk. -/
def setFirstLayer (fresh : SubChunkData) (chunk : ChunkData) (subY : ℤ) (index : ℕ) (id : RuntimeId) :
    ChunkData :=
  { chunk with
    subChunks := AssocMap.update (AssocMap.tryEmplace chunk.subChunks subY fresh) subY
      fun sub => { sub with layer0 := Function.update sub.layer0 index id } }

/-- `storeBlock`, with the subchunk that a missing one starts as. -/
def storeBlockIn (fresh : SubChunkData) (offset : BlockPos) (chunkPos : ChunkPos) (chunk : ChunkData)
    (block : Sigma fun _ : BlockPos => RuntimeId) : Except String ChunkData :=
  let world := block.1.add offset
  if ¬ (IsInt32 world.x ∧ IsInt32 world.y ∧ IsInt32 world.z ∧ IsInt32 (world.y - 64)) then
    .error "signed integer overflow"
  else
    let subY := floorDiv (world.y - 64) 16
    let lx := world.x - toInt32 (chunkPos.x * 16)
    let ly := world.y - (subY * 16 + 64)
    let lz := world.z - toInt32 (chunkPos.z * 16)
    if lx < 0 ∨ lx ≥ 16 ∨ ly < 0 ∨ ly ≥ 16 ∨ lz < 0 ∨ lz ≥ 16 then
      .error "稀疏方块坐标 materialize 越界"
    else .ok (setFirstLayer fresh chunk subY ((ly * 16 + lz) * 16 + lx).toNat block.2)

/-- `storeOutside`, with the subchunk that a missing one starts as. -/
def storeOutsideIn (fresh : SubChunkData) (offset : BlockPos) (chunkPos : ChunkPos)
    (chunk : ChunkData) (block : Sigma fun _ : BlockPos => RuntimeId) : Except String ChunkData :=
  let world := block.1.add offset
  if ¬ (IsInt32 world.x ∧ IsInt32 world.y ∧ IsInt32 world.z ∧ IsInt32 (world.y - 64)) then
    .error "signed integer overflow"
  else if floorDiv world.x 16 ≠ chunkPos.x ∨ floorDiv world.z 16 ≠ chunkPos.z then .ok chunk
  else
    .ok (setFirstLayer fresh chunk (floorDiv (world.y - 64) 16)
      ((floorMod (world.y - 64) 16 * 16 + floorMod world.z 16) * 16 + floorMod world.x 16).toNat
      block.2)

/-- One turn of the loop of `get_chunks_impl`. -/
def fillChunkImpl (store : SparseBlockStore Nbt) (fresh : SubChunkData) (chunkPos : ChunkPos)
    (chunk : ChunkData) : Except String ChunkData :=
  if ¬ store.Meets chunkPos then .ok chunk
  else do
    let chunk ← (store.blocksIn chunkPos).foldlM (storeBlockIn fresh store.offset chunkPos) chunk
    if store.includeOutOfBounds then
      store.outOfBoundsBlocks.entries.foldlM (storeOutsideIn fresh store.offset chunkPos) chunk
    else return chunk

/-- `get_chunks_impl`. -/
def getChunksImpl (store : SparseBlockStore Nbt) (air : RuntimeId) (positions : List ChunkPos)
    (includeLayer1 : Bool) : Except String ChunkMap :=
  (ChunkMap.emplaceAll positions).forEachM (store.fillChunkImpl (freshSubChunk air includeLayer1))

/-- `get_chunks_layer0`. -/
def getChunksLayer0 (store : SparseBlockStore Nbt) (air : RuntimeId) (positions : List ChunkPos) :
    Except String ChunkMap :=
  store.getChunksImpl air positions false

end SparseBlockStore

/-- The first layer of a subchunk of a chunk, if there is one. -/
def ChunkData.frontLayer (chunk : ChunkData) (subY : ℤ) : Option BlockLayer :=
  (chunk.subChunks.lookup subY).map SubChunkData.layer0

/-- The chunks have the same subchunks with the same first layers. -/
def ChunkData.SameFirst (chunk other : ChunkData) : Prop :=
  chunk.layout = other.layout ∧ ∀ subY, chunk.frontLayer subY = other.frontLayer subY

namespace SparseBlockStore

variable {Nbt : Type}

theorem frontLayer_setFirstLayer (fresh : SubChunkData) (chunk : ChunkData) (subY other : ℤ)
    (index : ℕ) (id : RuntimeId) :
    (setFirstLayer fresh chunk subY index id).frontLayer other =
      if other = subY then
        some (Function.update ((chunk.frontLayer subY).getD fresh.layer0) index id)
      else chunk.frontLayer other := by
  simp only [ChunkData.frontLayer, setFirstLayer, AssocMap.lookup_update, AssocMap.lookup_tryEmplace]
  by_cases hsub : other = subY
  · subst hsub
    cases chunk.subChunks.lookup other with
    | none => simp
    | some sub => simp
  · simp [hsub]

variable {fresh fresh' : SubChunkData} {store : SparseBlockStore Nbt} {air : RuntimeId}
  {positions : List ChunkPos} {position : ChunkPos}

variable {chunk chunk' : ChunkData} {chunks : ChunkMap} {chunkPos : ChunkPos}

/-- The second layer of a new subchunk does not matter for the first layers. -/
theorem sameFirst_setFirstLayer (hfresh : fresh.layer0 = fresh'.layer0) (h : chunk.SameFirst chunk')
    (subY : ℤ) (index : ℕ) (id : RuntimeId) :
    (setFirstLayer fresh chunk subY index id).SameFirst
      (setFirstLayer fresh' chunk' subY index id) := by
  refine ⟨h.1, fun other => ?_⟩
  rw [frontLayer_setFirstLayer, frontLayer_setFirstLayer, h.2, h.2, hfresh]

/-- Two runs whose results have the same first layers, or which fail alike. -/
def AlikeResults (first second : Except String ChunkData) : Prop :=
  (∃ error, first = .error error ∧ second = .error error) ∨
    ∃ chunk chunk', first = .ok chunk ∧ second = .ok chunk' ∧ chunk.SameFirst chunk'

/-- Loops whose turns keep the first layers alike. -/
theorem alike_foldlM {β : Type*} {step step' : ChunkData → β → Except String ChunkData}
    (hstep : ∀ chunk chunk' block, chunk.SameFirst chunk' →
      AlikeResults (step chunk block) (step' chunk' block)) (blocks : List β) (h : chunk.SameFirst chunk') :
    AlikeResults (blocks.foldlM step chunk) (blocks.foldlM step' chunk') := by
  induction blocks generalizing chunk chunk' with
  | nil => exact .inr ⟨chunk, chunk', rfl, rfl, h⟩
  | cons block rest ih =>
    rw [List.foldlM_cons, List.foldlM_cons]
    rcases hstep chunk chunk' block h with ⟨error, hfirst, hsecond⟩ | ⟨next, next', hfirst, hsecond, hnext⟩
    · rw [hfirst, hsecond]
      exact .inl ⟨error, rfl, rfl⟩
    · rw [hfirst, hsecond]
      exact ih hnext

theorem alike_storeBlockIn (hfresh : fresh.layer0 = fresh'.layer0) (offset : BlockPos) (chunkPos : ChunkPos)
    (chunk chunk' : ChunkData) (block : Sigma fun _ : BlockPos => RuntimeId) (h : chunk.SameFirst chunk') :
    AlikeResults (storeBlockIn fresh offset chunkPos chunk block)
      (storeBlockIn fresh' offset chunkPos chunk' block) := by
  rw [storeBlockIn, storeBlockIn]
  split
  · exact .inl ⟨_, rfl, rfl⟩
  · dsimp only
    split
    · exact .inl ⟨_, rfl, rfl⟩
    · exact .inr ⟨_, _, rfl, rfl, sameFirst_setFirstLayer hfresh h _ _ _⟩

theorem alike_storeOutsideIn (hfresh : fresh.layer0 = fresh'.layer0) (offset : BlockPos)
    (chunkPos : ChunkPos) (chunk chunk' : ChunkData) (block : Sigma fun _ : BlockPos => RuntimeId)
    (h : chunk.SameFirst chunk') :
    AlikeResults (storeOutsideIn fresh offset chunkPos chunk block)
      (storeOutsideIn fresh' offset chunkPos chunk' block) := by
  rw [storeOutsideIn, storeOutsideIn]
  split
  case isTrue => exact .inl ⟨_, rfl, rfl⟩
  case isFalse =>
    split
    · exact .inr ⟨_, _, rfl, rfl, h⟩
    · exact .inr ⟨_, _, rfl, rfl, sameFirst_setFirstLayer hfresh h _ _ _⟩

theorem alike_fillChunkImpl (hfresh : fresh.layer0 = fresh'.layer0) (store : SparseBlockStore Nbt)
    (chunkPos : ChunkPos) :
    AlikeResults (store.fillChunkImpl fresh chunkPos {})
      (store.fillChunkImpl fresh' chunkPos {}) := by
  have hempty : (({} : ChunkData)).SameFirst {} := ⟨rfl, fun _ => rfl⟩
  rw [fillChunkImpl, fillChunkImpl]
  split
  · exact .inr ⟨_, _, rfl, rfl, hempty⟩
  · have hinner := alike_foldlM (alike_storeBlockIn hfresh store.offset chunkPos)
      (store.blocksIn chunkPos) hempty
    rcases hinner with ⟨error, hfirst, hsecond⟩ | ⟨chunk, chunk', hfirst, hsecond, hchunk⟩
    · rw [hfirst, hsecond]
      exact .inl ⟨error, rfl, rfl⟩
    · rw [hfirst, hsecond, ok_bind, ok_bind]
      split
      · exact alike_foldlM (alike_storeOutsideIn hfresh store.offset chunkPos) _ hchunk
      · exact .inr ⟨chunk, chunk', rfl, rfl, hchunk⟩

/-- A request for the first layer alone gives the first layers that a full request gives. -/
theorem getChunksLayer0_alike (h : store.getChunks air positions = .ok chunks) :
    ∃ firsts, store.getChunksLayer0 air positions = .ok firsts ∧
      ∀ position, (firsts.lookup position).map ChunkData.frontLayer =
        (chunks.lookup position).map ChunkData.frontLayer := by
  have halike := fun position => alike_fillChunkImpl (show
    (freshSubChunk air true).layer0 = (freshSubChunk air false).layer0 from rfl) store position
  have hfull : ∀ position ∈ positions, ∃ chunk chunk', store.fillChunk air position {} = .ok chunk ∧
      store.fillChunkImpl (freshSubChunk air false) position {} = .ok chunk' ∧
        chunk.SameFirst chunk' := by
    intro position hposition
    obtain ⟨chunk, hchunk⟩ := ChunkMap.exists_of_forEachM_emplaceAll h hposition
    rcases halike position with ⟨error, hfirst, -⟩ | ⟨first, second, hfirst, hsecond, hsame⟩
    · cases hfirst.symm.trans hchunk
    · exact ⟨first, second, hfirst, hsecond, hsame⟩
  obtain ⟨found, hfound, hlookup⟩ := @ChunkMap.forEachM_emplaceAll positions (store.fillChunk air)
    fun position hposition => by
      obtain ⟨chunk, -, hchunk, -⟩ := hfull position hposition
      exact ⟨chunk, hchunk⟩
  cases hfound.symm.trans h
  obtain ⟨firsts, hfirsts, hfirstLookup⟩ := @ChunkMap.forEachM_emplaceAll positions
    (store.fillChunkImpl (freshSubChunk air false)) fun position hposition => by
      obtain ⟨-, chunk', -, hchunk, -⟩ := hfull position hposition
      exact ⟨chunk', hchunk⟩
  refine ⟨firsts, hfirsts, fun position => ?_⟩
  rw [hlookup, hfirstLookup]
  by_cases hposition : position ∈ positions
  · obtain ⟨chunk, chunk', hchunk, hchunk', hsame⟩ := hfull position hposition
    rw [if_pos hposition, if_pos hposition, hchunk, hchunk']
    exact congrArg some (funext fun subY => (hsame.2 subY).symm)
  · rw [if_neg hposition, if_neg hposition]

/-! ## What a run leaves in the store -/

theorem countP_kerase (keep : RuntimeId → Bool)
    {entries : List (Sigma fun _ : BlockPos => RuntimeId)} (hkeys : entries.NodupKeys)
    (cell : BlockPos) :
    entries.countP (fun block => keep block.2) =
      (entries.kerase cell).countP (fun block => keep block.2) +
        if (entries.dlookup cell).any keep then 1 else 0 := by
  induction entries with
  | nil => simp
  | cons block rest ih =>
    obtain ⟨first, id⟩ := block
    obtain ⟨hfresh, hrest⟩ := List.nodupKeys_cons.mp hkeys
    by_cases hcell : cell = first
    · subst hcell
      have herase : List.kerase cell ((⟨cell, id⟩ : Sigma fun _ : BlockPos => RuntimeId) :: rest) = rest :=
        List.kerase_cons_eq rfl
      rw [herase, List.countP_cons, List.dlookup_cons_eq, Option.any_some]
    · rw [List.kerase_cons_ne hcell, List.countP_cons, List.countP_cons,
        List.dlookup_cons_ne _ _ hcell, ih hrest]
      omega

/-- The store knows the last puts, and counts its blocks. -/
structure Recorded (air : RuntimeId) (size : Size) (enabled : Bool) (calls : List (StoreCall Nbt))
    (store : SparseBlockStore Nbt) : Prop where
  originalSize : store.originalSize = size
  includeOutOfBounds : store.includeOutOfBounds = enabled
  offset : store.offset = lastOffset calls
  blocks : ∀ cell, store.blocks.lookup cell = lastPut calls cell
  outside : ∀ cell, store.outOfBoundsBlocks.lookup cell =
    if enabled = true ∧ ¬ size.Contains cell then lastPut calls cell else none
  entities : ∀ cell, store.entities.lookup cell = lastEntity calls cell
  counted : store.nonAirBlocks = store.blocks.entries.countP fun block => block.2 ≠ air

theorem lastPut_append (calls : List (StoreCall Nbt)) (next : StoreCall Nbt) (cell : BlockPos) :
    lastPut (calls ++ [next]) cell = (next.putAt cell).or (lastPut calls cell) := by
  rw [lastPut, lastValue_append]
  rfl

theorem lastEntity_append (calls : List (StoreCall Nbt)) (next : StoreCall Nbt) (cell : BlockPos) :
    lastEntity (calls ++ [next]) cell =
      ((next.entityAt cell).or (lastValue (StoreCall.entityAt cell) calls)).join := by
  rw [lastEntity, lastValue_append]
  rfl

theorem lastOffset_append (calls : List (StoreCall Nbt)) (next : StoreCall Nbt) :
    lastOffset (calls ++ [next]) = next.newOffset.getD (lastOffset calls) := by
  rw [lastOffset, lastValue_append, lastValue_cons, lastValue_nil, Option.none_or]
  cases next.newOffset with
  | none => rfl
  | some offset => rfl

/-- The block that is replaced is no longer counted, the new one is. -/
theorem nonAirBlocks_put (h : store.nonAirBlocks = store.blocks.entries.countP fun block => block.2 ≠ air)
    (cell : BlockPos) (id : RuntimeId) :
    (store.put air cell id).nonAirBlocks =
      (store.put air cell id).blocks.entries.countP fun block => block.2 ≠ air := by
  have hold := countP_kerase (fun block => decide (block ≠ air)) store.blocks.nodupKeys cell
  have hlookup : store.blocks.lookup cell = store.blocks.entries.dlookup cell := rfl
  rw [← h, ← hlookup] at hold
  have hcount : (store.put air cell id).blocks.entries.countP (fun block => block.2 ≠ air) =
      (store.blocks.entries.kerase cell).countP (fun block => decide (block.2 ≠ air)) +
        if id ≠ air then 1 else 0 := by
    dsimp only [put]
    rw [AList.entries_insert, List.countP_cons]
    simp only [decide_eq_true_eq]
  rw [hcount]
  dsimp only [put]
  cases hprevious : store.blocks.lookup cell with
  | none =>
    rw [hprevious, Option.any_none, if_neg Bool.false_ne_true] at hold
    dsimp only
    split <;> omega
  | some previous =>
    rw [hprevious, Option.any_some] at hold
    dsimp only
    by_cases hair : previous = air
    · rw [hair, decide_eq_false (not_not_intro rfl), if_neg Bool.false_ne_true] at hold
      rw [hair, if_neg (not_not_intro rfl), hold]
      split <;> rfl
    · rw [decide_eq_true hair, if_pos rfl] at hold
      rw [if_pos hair, hold]
      split <;> rfl

/-- A call records what it does. -/
theorem Recorded.call {size : Size} {enabled : Bool} {calls : List (StoreCall Nbt)}
    (h : Recorded air size enabled calls store) (next : StoreCall Nbt) :
    Recorded air size enabled (calls ++ [next]) (store.call air next) := by
  cases next with
  | put cell id =>
    have hput (other : BlockPos) : lastPut (calls ++ [.put cell id]) other =
        if other = cell then some id else lastPut calls other := by
      rw [lastPut_append, StoreCall.putAt]
      by_cases hother : cell = other
      · rw [if_pos hother, if_pos hother.symm, Option.some_or]
      · rw [if_neg hother, if_neg (Ne.symm hother), Option.none_or]
    refine ⟨h.originalSize, h.includeOutOfBounds, ?_, fun other => ?_, fun other => ?_, fun other => ?_, ?_⟩
    · rw [lastOffset_append]
      exact h.offset
    · rw [hput, ← h.blocks]
      exact AssocMap.lookup_insert_eq _ _ _ _
    · rw [hput]
      dsimp only [SparseBlockStore.call, put]
      rw [h.originalSize, h.includeOutOfBounds]
      by_cases hother : other = cell
      · subst hother
        rw [if_pos rfl]
        split
        · rw [AList.lookup_insert]
        · rw [AList.lookup_erase]
      · rw [if_neg hother, ← h.outside]
        split
        · rw [AList.lookup_insert_ne hother]
        · rw [AList.lookup_erase_ne hother]
    · rw [lastEntity_append]
      exact h.entities other
    · exact nonAirBlocks_put h.counted cell id
  | putEntity cell payload =>
    have hentity (other : BlockPos) : lastEntity (calls ++ [.putEntity cell payload]) other =
        if other = cell then payload else lastEntity calls other := by
      rw [lastEntity_append, StoreCall.entityAt]
      by_cases hother : cell = other
      · rw [if_pos hother, if_pos hother.symm, Option.some_or, Option.join_some]
      · rw [if_neg hother, if_neg (Ne.symm hother), Option.none_or, lastEntity]
    have hframe : (store.call air (.putEntity cell payload)).originalSize = store.originalSize ∧
        (store.call air (.putEntity cell payload)).includeOutOfBounds = store.includeOutOfBounds ∧
        (store.call air (.putEntity cell payload)).offset = store.offset ∧
        (store.call air (.putEntity cell payload)).blocks = store.blocks ∧
        (store.call air (.putEntity cell payload)).outOfBoundsBlocks = store.outOfBoundsBlocks ∧
        (store.call air (.putEntity cell payload)).nonAirBlocks = store.nonAirBlocks := by
      cases payload with
      | none => exact ⟨rfl, rfl, rfl, rfl, rfl, rfl⟩
      | some payload => exact ⟨rfl, rfl, rfl, rfl, rfl, rfl⟩
    obtain ⟨hsize, hinclude, hoffset, hblocks, houtside, hcount⟩ := hframe
    refine ⟨hsize.trans h.originalSize, hinclude.trans h.includeOutOfBounds, ?_, fun other => ?_,
      fun other => ?_, fun other => ?_, ?_⟩
    · rw [hoffset, lastOffset_append]
      exact h.offset
    · rw [hblocks, lastPut_append]
      exact h.blocks other
    · rw [houtside, lastPut_append]
      exact h.outside other
    · rw [hentity, ← h.entities]
      cases payload with
      | none =>
        by_cases hother : other = cell
        · rw [if_pos hother, hother]
          exact AList.lookup_erase _ _
        · rw [if_neg hother]
          exact AList.lookup_erase_ne hother
      | some payload => exact AssocMap.lookup_insert_eq _ _ _ _
    · rw [hcount, hblocks]
      exact h.counted
  | setOffset offset =>
    refine ⟨h.originalSize, h.includeOutOfBounds, ?_, fun other => ?_, fun other => ?_, fun other => ?_,
      h.counted⟩
    · rw [lastOffset_append]
      rfl
    · rw [lastPut_append]
      exact h.blocks other
    · rw [lastPut_append]
      exact h.outside other
    · rw [lastEntity_append]
      exact h.entities other

theorem recorded_run (air : RuntimeId) (size : Size) (enabled : Bool)
    (calls : List (StoreCall Nbt)) :
    Recorded air size enabled calls (run air size enabled calls) := by
  induction calls using List.reverseRecOn with
  | nil =>
    refine ⟨rfl, rfl, rfl, fun _ => rfl, fun cell => ?_, fun _ => rfl, rfl⟩
    split <;> rfl
  | append_singleton calls next ih =>
    rw [run, List.foldl_append]
    exact ih.call next

/-! ## What a request gives -/

/-- The block that belongs at a cell of a store whose last calls were these. -/
def wanted (air : RuntimeId) (size : Size) (enabled : Bool) (calls : List (StoreCall Nbt))
    (pos : BlockPos) : RuntimeId :=
  let cell := pos.sub (lastOffset calls)
  if size.Contains cell ∨ enabled = true then (lastPut calls cell).getD air else air

/-- The moved position can be computed in `int32`, also above the lowest layer. -/
def MovesTo (offset cell : BlockPos) : Prop :=
  IsInt32 (cell.add offset).x ∧ IsInt32 (cell.add offset).y ∧ IsInt32 (cell.add offset).z ∧
    IsInt32 ((cell.add offset).y - 64)

/-- No position that a request computes leaves `int32`. -/
def NoOverflow (size : Size) (enabled : Bool) (calls : List (StoreCall Nbt)) : Prop :=
  (∀ cell, (lastPut calls cell).isSome = true → (size.Contains cell ∨ enabled = true) →
      MovesTo (lastOffset calls) cell) ∧
    ∀ cell, (lastEntity calls cell).isSome = true → MovesTo (lastOffset calls) cell

/-- The chunk holds a column of a structure of this size. -/
def HasColumn (size : Size) (offset : BlockPos) (chunkPos : ChunkPos) : Prop :=
  ∃ x z, (0 ≤ x ∧ x < size.width) ∧ (0 ≤ z ∧ z < size.length) ∧
    blockToChunk (BlockPos.add ⟨x, 0, z⟩ offset) = chunkPos

theorem meets_iff : store.Meets chunkPos ↔ HasColumn store.originalSize store.offset chunkPos := by
  obtain ⟨chunkX, chunkZ⟩ := chunkPos
  simp only [Meets, HasColumn, blockToChunk, BlockPos.add, floorDiv_sixteen, ChunkPos.mk.injEq]
  constructor
  · rintro ⟨hx, hz⟩
    exact ⟨max 0 (chunkX * 16 - store.offset.x), max 0 (chunkZ * 16 - store.offset.z), by omega,
      by omega, by omega, by omega⟩
  · rintro ⟨x, z, hx, hz, hchunkX, hchunkZ⟩
    omega

/-- What a reader expects of a store: a request shows the last puts, also without second layers; it
hands out each stored entity once, with its chunk; and the count is that of the positions whose last
put is not air. -/
structure LastWriteWins (air : RuntimeId) (size : Size) (enabled : Bool)
    (calls : List (StoreCall Nbt)) (positions : List ChunkPos) : Prop where
  blocks : ∃ chunks, (run air size enabled calls).getChunks air positions = .ok chunks ∧
    (∀ pos, chunks.blockAt air pos =
      if blockToChunk pos ∈ positions then some (wanted air size enabled calls pos) else none) ∧
    ∃ firsts, (run air size enabled calls).getChunksLayer0 air positions = .ok firsts ∧
      ∀ position, (firsts.lookup position).map ChunkData.frontLayer =
        (chunks.lookup position).map ChunkData.frontLayer
  entities : ∀ position, position ∈ positions → ∃ found,
    ((run air size enabled calls).getChunkNbt positions).lookup position = some found ∧
      (found.map BlockEntity.pos).Nodup ∧ ∀ entity, entity ∈ found ↔
        ∃ cell payload, lastEntity calls cell = some payload ∧
          blockToChunk (cell.add (lastOffset calls)) = position ∧
          entity = chunkLocalEntity (cell.add (lastOffset calls)) payload
  unasked : ∀ position, position ∉ positions →
    ((run air size enabled calls).getChunkNbt positions).lookup position = none
  counted : ∃ cells : List BlockPos, cells.Nodup ∧
    (∀ cell, cell ∈ cells ↔ ∃ id, lastPut calls cell = some id ∧ id ≠ air) ∧
    (run air size enabled calls).nonAirBlocks = cells.length

/-- Without overflow every turn of a request succeeds. -/
theorem fillChunk_succeeds (hinside : ∀ block ∈ store.blocks.entries, store.originalSize.Contains block.1 →
      MovesTo store.offset block.1)
    (houtside : ∀ block ∈ store.outOfBoundsBlocks.entries, MovesTo store.offset block.1) (chunk : ChunkData) :
    ∃ filled, store.fillChunk air chunkPos chunk = .ok filled := by
  rw [fillChunk]
  split
  · exact ⟨chunk, rfl⟩
  · obtain ⟨inner, hinner, -⟩ := @foldlM_succeeds _ _ _ (storeBlock air store.offset chunkPos)
      (fun _ => True) (store.blocksIn chunkPos) (fun state block hblock _ => by
        obtain ⟨hentry, hcontains, hchunk⟩ := mem_blocksIn.mp hblock
        exact ⟨_, storeBlock_eq hchunk (hinside block hentry hcontains) state, trivial⟩) chunk trivial
    rw [hinner, ok_bind]
    split
    · have hstep (state : ChunkData) (block : Sigma fun _ : BlockPos => RuntimeId)
          (hblock : block ∈ store.outOfBoundsBlocks.entries) (_ : True) :
          ∃ next, storeOutside air store.offset chunkPos state block = .ok next ∧ True := by
        have hmoves := houtside block hblock
        rw [MovesTo] at hmoves
        rw [storeOutside, if_neg (not_not_intro hmoves)]
        split
        · exact ⟨state, rfl, trivial⟩
        · exact ⟨_, rfl, trivial⟩
      obtain ⟨filled, hfilled, -⟩ := foldlM_succeeds (fun _ => True) hstep (s := inner) trivial
      exact ⟨filled, hfilled⟩
    · exact ⟨inner, rfl⟩

/-- Without overflow a request succeeds. -/
theorem getChunks_succeeds {air : RuntimeId} {size : Size} {enabled : Bool}
    {calls : List (StoreCall Nbt)} (h : NoOverflow size enabled calls) (positions : List ChunkPos) :
    ∃ chunks, (run air size enabled calls).getChunks air positions = .ok chunks := by
  have hrun := recorded_run air size enabled calls
  have hinside : ∀ block ∈ (run air size enabled calls).blocks.entries,
      (run air size enabled calls).originalSize.Contains block.1 →
        MovesTo (run air size enabled calls).offset block.1 := by
    intro block hblock hcontains
    rw [hrun.originalSize] at hcontains
    rw [hrun.offset]
    refine h.1 block.1 ?_ (.inl hcontains)
    rw [← hrun.blocks, AList.mem_lookup_iff.mpr hblock]
    rfl
  have houtside : ∀ block ∈ (run air size enabled calls).outOfBoundsBlocks.entries,
      MovesTo (run air size enabled calls).offset block.1 := by
    intro block hblock
    have hlookup := hrun.outside block.1
    rw [AList.mem_lookup_iff.mpr hblock] at hlookup
    obtain ⟨⟨henabled, -⟩, hput⟩ := Option.ite_none_right_eq_some.mp hlookup.symm
    rw [hrun.offset]
    exact h.1 block.1 (hput ▸ rfl) (.inr henabled)
  obtain ⟨chunks, hchunks, -⟩ := @ChunkMap.forEachM_emplaceAll positions
    ((run air size enabled calls).fillChunk air) fun _ _ => fillChunk_succeeds hinside houtside {}
  exact ⟨chunks, hchunks⟩

/-- A request has no chunk that was not asked for. -/
theorem getChunks_unasked (h : store.getChunks air positions = .ok chunks) (hposition : position ∉ positions) :
    chunks.lookup position = none := by
  obtain ⟨found, hfound, hlookup⟩ := @ChunkMap.forEachM_emplaceAll positions (store.fillChunk air)
    fun other hother => ChunkMap.exists_of_forEachM_emplaceAll h hother
  cases hfound.symm.trans h
  rw [hlookup, if_neg hposition]

/-- What a request shows after a run: a chunk without a column of the structure shows nothing. -/
theorem shown_run (air : RuntimeId) (size : Size) (enabled : Bool) (calls : List (StoreCall Nbt))
    (pos : BlockPos) [Decidable (HasColumn size (lastOffset calls) (blockToChunk pos))] :
    (run air size enabled calls).shown air (pos.sub (lastOffset calls)) =
      if HasColumn size (lastOffset calls) (blockToChunk pos) then wanted air size enabled calls pos
      else air := by
  have hrun := recorded_run air size enabled calls
  have hmoved : (pos.sub (lastOffset calls)).add (lastOffset calls) = pos :=
    BlockPos.add_eq_iff.mpr rfl
  rw [shown, hrun.offset, hmoved]
  refine if_congr ?_ ?_ rfl
  · rw [meets_iff, hrun.originalSize, hrun.offset]
  · rw [hrun.includeOutOfBounds, hrun.originalSize, hrun.blocks, hrun.outside, wanted]
    by_cases hcontains : size.Contains (pos.sub (lastOffset calls))
    · have hnot : ¬ (enabled = true ∧ ¬ size.Contains (pos.sub (lastOffset calls))) :=
        fun hboth => hboth.2 hcontains
      rw [if_neg hnot, ite_self, Option.none_or, if_pos hcontains, if_pos (.inl hcontains)]
    · cases enabled with
      | true => rw [if_pos rfl, if_pos ⟨rfl, hcontains⟩, if_neg hcontains, Option.or_none,
          if_pos (.inr rfl)]
      | false =>
        have hnot : ¬ (size.Contains (pos.sub (lastOffset calls)) ∨ false = true) := by
          rintro (hin | hfalse)
          · exact hcontains hin
          · cases hfalse
        rw [if_neg Bool.false_ne_true, if_neg hcontains, if_neg hnot]
        rfl

/-- Entities of different cells stand at different places of their chunk. -/
theorem chunkLocalEntity_pos_inj {pos other : BlockPos} {payload payload' : Nbt}
    (hchunk : blockToChunk pos = blockToChunk other)
    (h : (chunkLocalEntity pos payload).pos = (chunkLocalEntity other payload').pos) :
    pos = other := by
  obtain ⟨x, y, z⟩ := pos
  obtain ⟨x', y', z'⟩ := other
  simp only [chunkLocalEntity, hchunk, BlockPos.mk.injEq, structureYToChunkLocal] at h
  rw [BlockPos.mk.injEq]
  omega

/-- A requested chunk gets the entities that are moved into it, each of them once. -/
theorem entities_run (air : RuntimeId) (size : Size) (enabled : Bool) (calls : List (StoreCall Nbt))
    (hposition : position ∈ positions) :
    ∃ found, ((run air size enabled calls).getChunkNbt positions).lookup position = some found ∧
      (found.map BlockEntity.pos).Nodup ∧ ∀ entity, entity ∈ found ↔
        ∃ cell payload, lastEntity calls cell = some payload ∧
          blockToChunk (cell.add (lastOffset calls)) = position ∧
          entity = chunkLocalEntity (cell.add (lastOffset calls)) payload := by
  have hrun := recorded_run air size enabled calls
  refine ⟨_, NbtChunkMap.lookup_place_emplaceAll _ _ hposition, ?_, fun entity => ?_⟩
  · rw [List.map_map, hrun.offset]
    have hkeys : ((run air size enabled calls).entities.entries.map fun entity =>
        (entity.1, entity.2)).Pairwise fun first second => first.1 ≠ second.1 := by
      rw [List.pairwise_map]
      exact List.pairwise_map.mp (run air size enabled calls).entities.nodupKeys
    refine List.pairwise_map.mpr ((hkeys.filter _).imp_of_mem fun hfirst hsecond hne hsame => ?_)
    have hfirst := of_decide_eq_true (List.mem_filter.mp hfirst).2
    have hsecond := of_decide_eq_true (List.mem_filter.mp hsecond).2
    have hmoved := chunkLocalEntity_pos_inj (hfirst.trans hsecond.symm) hsame
    exact hne ((BlockPos.add_eq_iff.mp hmoved).trans (BlockPos.add_eq_iff.mp rfl).symm)
  · rw [hrun.offset]
    simp only [List.mem_map, List.mem_filter, decide_eq_true_eq]
    constructor
    · rintro ⟨placed, ⟨⟨entry, hentry, rfl⟩, hchunk⟩, rfl⟩
      refine ⟨entry.1, entry.2, ?_, hchunk, rfl⟩
      rw [← hrun.entities]
      exact AList.mem_lookup_iff.mpr hentry
    · rintro ⟨cell, payload, hstored, hchunk, rfl⟩
      rw [← hrun.entities] at hstored
      exact ⟨(cell, payload), ⟨⟨⟨cell, payload⟩, AList.mem_lookup_iff.mp hstored, rfl⟩, hchunk⟩, rfl⟩

/-- A chunk that is not requested gets nothing. -/
theorem entities_unasked (store : SparseBlockStore Nbt) (hposition : position ∉ positions) :
    (store.getChunkNbt positions).lookup position = none := by
  rw [getChunkNbt, NbtChunkMap.lookup_foldl_place, NbtChunkMap.lookup_emplaceAll, if_neg hposition]
  rfl

/-- The count is that of the positions whose last put is not air. -/
theorem counted_run (air : RuntimeId) (size : Size) (enabled : Bool)
    (calls : List (StoreCall Nbt)) : ∃ cells : List BlockPos, cells.Nodup ∧
      (∀ cell, cell ∈ cells ↔ ∃ id, lastPut calls cell = some id ∧ id ≠ air) ∧
      (run air size enabled calls).nonAirBlocks = cells.length := by
  have hrun := recorded_run air size enabled calls
  refine ⟨((run air size enabled calls).blocks.entries.filter fun block => block.2 ≠ air).map
    Sigma.fst, ?_, fun cell => ?_, ?_⟩
  · exact (run air size enabled calls).blocks.nodupKeys.sublist List.filter_sublist
  · simp only [List.mem_map, List.mem_filter, decide_eq_true_eq]
    constructor
    · rintro ⟨block, ⟨hblock, hne⟩, rfl⟩
      refine ⟨block.2, ?_, hne⟩
      rw [← hrun.blocks]
      exact AList.mem_lookup_iff.mpr hblock
    · rintro ⟨id, hput, hne⟩
      rw [← hrun.blocks] at hput
      exact ⟨⟨cell, id⟩, ⟨AList.mem_lookup_iff.mp hput, hne⟩, rfl⟩
  · rw [hrun.counted, List.length_map, List.countP_eq_length_filter]

/-- The store behaves as expected exactly if no requested chunk without a column of the structure
holds a wanted block outside of it. -/
theorem lastWriteWins_iff (air : RuntimeId) (size : Size) (enabled : Bool)
    (calls : List (StoreCall Nbt)) (positions : List ChunkPos)
    (h : NoOverflow size enabled calls) :
    LastWriteWins air size enabled calls positions ↔
      ∀ cell id, enabled = true → ¬ size.Contains cell → lastPut calls cell = some id → id ≠ air →
        blockToChunk (cell.add (lastOffset calls)) ∈ positions →
          HasColumn size (lastOffset calls) (blockToChunk (cell.add (lastOffset calls))) := by
  classical
  have hrun := recorded_run air size enabled calls
  obtain ⟨chunks, hchunks⟩ := @getChunks_succeeds _ air _ _ _ h positions
  have hshown (pos : BlockPos) (hpos : blockToChunk pos ∈ positions) : chunks.blockAt air pos =
      some (if HasColumn size (lastOffset calls) (blockToChunk pos) then
        wanted air size enabled calls pos else air) := by
    obtain ⟨chunk, hchunk, hblocks⟩ := getChunks_shown hchunks hpos
    rw [ChunkMap.blockAt, hchunk, Option.map_some, hblocks pos rfl, hrun.offset, shown_run]
  constructor
  · intro hwins cell id henabled _ hput hne hposition
    obtain ⟨found, hfound, hblocks, -⟩ := hwins.blocks
    cases hfound.symm.trans hchunks
    by_contra hcolumn
    have hcell : (cell.add (lastOffset calls)).sub (lastOffset calls) = cell :=
      (BlockPos.add_eq_iff.mp rfl).symm
    have hwanted : wanted air size enabled calls (cell.add (lastOffset calls)) = id := by
      rw [wanted, hcell, if_pos (.inr henabled), hput]
      rfl
    have hblock := (hshown _ hposition).symm.trans (hblocks _)
    rw [if_neg hcolumn, if_pos hposition, hwanted] at hblock
    exact hne (Option.some.inj hblock).symm
  · intro hcolumns
    refine ⟨⟨chunks, hchunks, fun pos => ?_, getChunksLayer0_alike hchunks⟩,
      fun position hposition => entities_run air size enabled calls hposition,
      fun position hposition => entities_unasked _ hposition, counted_run air size enabled calls⟩
    have hmoved : (pos.sub (lastOffset calls)).add (lastOffset calls) = pos :=
      BlockPos.add_eq_iff.mpr rfl
    by_cases hposition : blockToChunk pos ∈ positions
    · rw [hshown pos hposition, if_pos hposition]
      split
      case isTrue => rfl
      case isFalse hcolumn =>
        -- A cell inside the structure has its own column.
        have hout : ¬ size.Contains (pos.sub (lastOffset calls)) := by
          intro hcontains
          refine hcolumn ⟨(pos.sub (lastOffset calls)).x, (pos.sub (lastOffset calls)).z, hcontains.1,
            hcontains.2.2, ?_⟩
          have hsame : blockToChunk (BlockPos.add ⟨(pos.sub (lastOffset calls)).x, 0,
              (pos.sub (lastOffset calls)).z⟩ (lastOffset calls)) =
              blockToChunk ((pos.sub (lastOffset calls)).add (lastOffset calls)) := rfl
          rw [hsame, hmoved]
        rw [wanted]
        split
        case isFalse => rfl
        case isTrue hwanted =>
          have henabled := hwanted.resolve_left hout
          cases hput : lastPut calls (pos.sub (lastOffset calls)) with
          | none => rfl
          | some id =>
            by_contra hne
            refine hcolumn ?_
            have hcolumn := hcolumns _ id henabled hout hput
              (fun hair => hne (by rw [hair, Option.getD_some])) (by rwa [hmoved])
            rwa [hmoved] at hcolumn
    · rw [ChunkMap.blockAt, getChunks_unasked hchunks hposition, if_neg hposition]
      rfl

/-- A block one chunk beyond a structure of one column. -/
def beyond : List (StoreCall Unit) := [.put ⟨16, 0, 0⟩ 1]

theorem lastPut_beyond (cell : BlockPos) :
    lastPut beyond cell = if (⟨16, 0, 0⟩ : BlockPos) = cell then some 1 else none :=
  Option.none_or

theorem noOverflow_beyond : NoOverflow ⟨1, 1, 1⟩ true beyond := by
  constructor
  · intro cell hput _
    rw [lastPut_beyond] at hput
    split_ifs at hput with hcell
    · subst hcell
      exact ⟨by decide, by decide, by decide, by decide⟩
    · cases hput
  · intro cell hentity
    cases hentity

theorem lastWriteWins_beyond : NoOverflow ⟨1, 1, 1⟩ true beyond ∧
    (LastWriteWins 0 ⟨1, 1, 1⟩ true beyond [⟨0, 0⟩] ↔
      ∀ cell id, true = true → ¬ (⟨1, 1, 1⟩ : Size).Contains cell → lastPut beyond cell = some id →
        id ≠ 0 → blockToChunk (cell.add (lastOffset beyond)) ∈ ([⟨0, 0⟩] : List ChunkPos) →
          HasColumn ⟨1, 1, 1⟩ (lastOffset beyond) (blockToChunk (cell.add (lastOffset beyond)))) :=
  ⟨noOverflow_beyond, lastWriteWins_iff 0 ⟨1, 1, 1⟩ true beyond [⟨0, 0⟩] noOverflow_beyond⟩

/-- The chunk beyond the structure does not show the block that is wanted there. -/
theorem beyond_not_shown : NoOverflow ⟨1, 1, 1⟩ true beyond ∧
    ¬ LastWriteWins 0 ⟨1, 1, 1⟩ true beyond [⟨1, 0⟩] := by
  refine ⟨noOverflow_beyond, fun hwins => ?_⟩
  obtain ⟨chunks, hchunks, hblocks, -⟩ := hwins.blocks
  have hshown : ((run 0 ⟨1, 1, 1⟩ true beyond).getChunks 0 [⟨1, 0⟩]).toOption.map
      (fun chunks => chunks.blockAt 0 ⟨16, 0, 0⟩) = some (some 0) := by decide +kernel
  have hwanted : (if blockToChunk ⟨16, 0, 0⟩ ∈ ([⟨1, 0⟩] : List ChunkPos) then
      some (wanted 0 ⟨1, 1, 1⟩ true beyond ⟨16, 0, 0⟩) else none) = some 1 := by decide +kernel
  rw [hchunks] at hshown
  have hblock := (Option.some.inj hshown).symm.trans (hblocks ⟨16, 0, 0⟩)
  rw [hwanted] at hblock
  exact absurd hblock (by decide)

end SparseBlockStore

end WaterStructure
