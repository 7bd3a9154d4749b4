import WaterStructure.Core.BlockEntities

/-!
# The sparse block store

Blocks of several formats are kept by their local position. The offset is applied when chunks are
asked for. Blocks outside the declared size are kept apart and only shown if that is wanted.
-/

namespace WaterStructure

open LastValue NestedLoop

structure SparseBlockStore (Nbt : Type) where
  originalSize : Size := ⟨0, 0, 0⟩
  size : Size := ⟨0, 0, 0⟩
  offset : BlockPos := ⟨0, 0, 0⟩
  blocks : AList fun _ : BlockPos => RuntimeId := ∅
  outOfBoundsBlocks : AList fun _ : BlockPos => RuntimeId := ∅
  entities : AList fun _ : BlockPos => Nbt := ∅
  nonAirBlocks : ℕ := 0
  includeOutOfBounds : Bool := false

namespace SparseBlockStore

variable {Nbt : Type}

def setSize (store : SparseBlockStore Nbt) (size : Size) : SparseBlockStore Nbt :=
  { store with originalSize := size, size }

def setOffset (store : SparseBlockStore Nbt) (offset : BlockPos) : SparseBlockStore Nbt :=
  { store with
    offset
    size := ⟨store.originalSize.width + |offset.x|, store.originalSize.height + |offset.y|,
      store.originalSize.length + |offset.z|⟩ }

def setIncludeOutOfBounds (store : SparseBlockStore Nbt) (enabled : Bool) : SparseBlockStore Nbt :=
  { store with includeOutOfBounds := enabled }

/-- Store a block; the one that was there is no longer counted. -/
def put (air : RuntimeId) (store : SparseBlockStore Nbt) (cell : BlockPos) (id : RuntimeId) :
    SparseBlockStore Nbt :=
  let others := match store.blocks.lookup cell with
    | some previous => if previous ≠ air then store.nonAirBlocks - 1 else store.nonAirBlocks
    | none => store.nonAirBlocks
  { store with
    blocks := store.blocks.insert cell id
    outOfBoundsBlocks :=
      if store.includeOutOfBounds ∧ ¬ store.originalSize.Contains cell then
        store.outOfBoundsBlocks.insert cell id
      else store.outOfBoundsBlocks.erase cell
    nonAirBlocks := if id ≠ air then others + 1 else others }

/-- Store an entity; an empty payload removes it. -/
def putEntity (store : SparseBlockStore Nbt) (cell : BlockPos) (payload : Option Nbt) :
    SparseBlockStore Nbt :=
  match payload with
  | none => { store with entities := store.entities.erase cell }
  | some payload => { store with entities := store.entities.insert cell payload }

/-- The blocks from `lower_bound` to `upper_bound` in one column of one layer. -/
def row (store : SparseBlockStore Nbt) (x y minZ maxZ : ℤ) :
    List (Sigma fun _ : BlockPos => RuntimeId) :=
  store.blocks.entries.filter fun block =>
    block.1.x = x ∧ block.1.y = y ∧ minZ ≤ block.1.z ∧ block.1.z ≤ maxZ

/-- Store one block of a requested chunk. -/
def storeBlock (air : RuntimeId) (offset : BlockPos) (chunkPos : ChunkPos) (chunk : ChunkData)
    (block : Sigma fun _ : BlockPos => RuntimeId) : Except String ChunkData :=
  let world := block.1.add offset
  if ¬ (IsInt32 world.x ∧ IsInt32 world.y ∧ IsInt32 world.z ∧ IsInt32 (world.y - 64)) then
    .error "signed integer overflow"
  else
    let subY := floorDiv (world.y - 64) 16
    let lx := world.x - toInt32 (chunkPos.x * 16)
    let ly := world.y - (subY * 16 + 64)
    let lz := world.z - toInt32 (chunkPos.z * 16)
    if lx < 0 ∨ lx ≥ 16 ∨ ly < 0 ∨ ly ≥ 16 ∨ lz < 0 ∨ lz ≥ 16 then
      .error "稀疏方块坐标 materialize 越界"
    else .ok (chunk.setBlock air subY ((ly * 16 + lz) * 16 + lx).toNat block.2)

/-- Store one block outside the declared size, if it belongs to the chunk. -/
def storeOutside (air : RuntimeId) (offset : BlockPos) (chunkPos : ChunkPos) (chunk : ChunkData)
    (block : Sigma fun _ : BlockPos => RuntimeId) : Except String ChunkData :=
  let world := block.1.add offset
  if ¬ (IsInt32 world.x ∧ IsInt32 world.y ∧ IsInt32 world.z ∧ IsInt32 (world.y - 64)) then
    .error "signed integer overflow"
  else if floorDiv world.x 16 ≠ chunkPos.x ∨ floorDiv world.z 16 ≠ chunkPos.z then .ok chunk
  else
    .ok (chunk.setBlock air (floorDiv (world.y - 64) 16)
      ((floorMod (world.y - 64) 16 * 16 + floorMod world.z 16) * 16 + floorMod world.x 16).toNat
      block.2)

/-- The blocks that the loops over the part of the structure in a chunk meet. -/
def blocksIn (store : SparseBlockStore Nbt) (chunkPos : ChunkPos) :
    List (Sigma fun _ : BlockPos => RuntimeId) :=
  let minX := max 0 (chunkPos.x * 16 - store.offset.x)
  let maxX := min (store.originalSize.width - 1) (chunkPos.x * 16 + 15 - store.offset.x)
  let minZ := max 0 (chunkPos.z * 16 - store.offset.z)
  let maxZ := min (store.originalSize.length - 1) (chunkPos.z * 16 + 15 - store.offset.z)
  (Int.range minX (maxX + 1)).flatMap fun x =>
    (Int.range 0 store.originalSize.height).flatMap fun y => store.row x y minZ maxZ

/-- The part of the structure in a chunk is not empty. -/
def Meets (store : SparseBlockStore Nbt) (chunkPos : ChunkPos) : Prop :=
  max 0 (chunkPos.x * 16 - store.offset.x) ≤
      min (store.originalSize.width - 1) (chunkPos.x * 16 + 15 - store.offset.x) ∧
    max 0 (chunkPos.z * 16 - store.offset.z) ≤
      min (store.originalSize.length - 1) (chunkPos.z * 16 + 15 - store.offset.z)

instance (store : SparseBlockStore Nbt) (chunkPos : ChunkPos) : Decidable (store.Meets chunkPos) :=
  inferInstanceAs (Decidable (_ ∧ _))

/-- The blocks of one requested chunk. -/
def fillChunk (store : SparseBlockStore Nbt) (air : RuntimeId) (chunkPos : ChunkPos)
    (chunk : ChunkData) : Except String ChunkData :=
  if ¬ store.Meets chunkPos then .ok chunk
  else do
    let chunk ← (store.blocksIn chunkPos).foldlM (storeBlock air store.offset chunkPos) chunk
    if store.includeOutOfBounds then
      store.outOfBoundsBlocks.entries.foldlM (storeOutside air store.offset chunkPos) chunk
    else return chunk

/-- `get_chunks`. -/
def getChunks (store : SparseBlockStore Nbt) (air : RuntimeId) (positions : List ChunkPos) :
    Except String ChunkMap :=
  (ChunkMap.emplaceAll positions).forEachM (store.fillChunk air)

/-- `get_chunk_nbt`. -/
def getChunkNbt (store : SparseBlockStore Nbt) (positions : List ChunkPos) : NbtChunkMap Nbt :=
  (store.entities.entries.map fun entity => (entity.1, entity.2)).foldl
    (NbtChunkMap.place store.offset) (NbtChunkMap.emplaceAll positions)

/-- The block that the store has for a cell. -/
def content (store : SparseBlockStore Nbt) (air : RuntimeId) (cell : BlockPos) : RuntimeId :=
  (store.blocks.lookup cell).getD air

/-- All blocks are inside the declared size, and the count is theirs. -/
structure InBounds (store : SparseBlockStore Nbt) (air : RuntimeId) : Prop where
  inside : ∀ cell ∈ store.blocks, store.originalSize.Contains cell
  outside : store.outOfBoundsBlocks = ∅
  counted : store.nonAirBlocks =
    store.originalSize.cellsYZX.countP fun cell => store.content air cell ≠ air

theorem inBounds_setSize (size : Size) (air : RuntimeId) (enabled : Bool) :
    ((({} : SparseBlockStore Nbt).setSize size).setIncludeOutOfBounds enabled).InBounds air where
  inside := fun cell hcell => absurd hcell (AList.notMem_empty cell)
  outside := rfl
  counted := by
    refine (List.countP_eq_zero.mpr fun cell _ => ?_).symm
    rw [decide_eq_true_iff]
    exact fun hne => hne rfl

theorem content_put (air : RuntimeId) (store : SparseBlockStore Nbt) (cell : BlockPos)
    (id : RuntimeId) :
    (store.put air cell id).content air = Function.update (store.content air) cell id := by
  funext other
  rw [content, put, AssocMap.lookup_insert_eq, Function.update_apply]
  split
  · rfl
  · rfl

/-- Changing one item of a list without repetitions changes a count by what it was and is. -/
theorem countP_update {α β : Type*} [DecidableEq α] (p : β → Bool) (f : α → β) {items : List α}
    (hnodup : items.Nodup) {item : α} (hitem : item ∈ items) (value : β) :
    (items.countP fun other => p (Function.update f item value other)) +
        (if p (f item) then 1 else 0) =
      (items.countP fun other => p (f other)) + if p value then 1 else 0 := by
  have hothers {rest : List α} (hrest : item ∉ rest) :
      (rest.countP fun other => p (Function.update f item value other)) =
        rest.countP fun other => p (f other) := by
    apply List.countP_congr
    intro other hother
    have hne : other ≠ item := fun h => hrest (h ▸ hother)
    rw [Function.update_of_ne hne]
  induction items with
  | nil => cases hitem
  | cons first rest ih =>
    obtain ⟨hfirst, hrest⟩ := List.nodup_cons.mp hnodup
    rw [List.countP_cons, List.countP_cons]
    by_cases hsame : item = first
    · rw [hothers (hsame ▸ hfirst), hsame, Function.update_self]
      omega
    · have hmem : item ∈ rest := (List.mem_cons.mp hitem).resolve_left hsame
      have htail := ih hrest hmem
      rw [Function.update_of_ne (Ne.symm hsame)]
      omega

variable {store : SparseBlockStore Nbt} {air : RuntimeId}
  {block : Sigma fun _ : BlockPos => RuntimeId} {chunkPos : ChunkPos} {offset : BlockPos}
  {chunk : ChunkData}

/-- A block inside the declared size keeps the store in bounds. -/
theorem InBounds.put (h : store.InBounds air) {cell : BlockPos}
    (hcell : store.originalSize.Contains cell) (id : RuntimeId) :
    (store.put air cell id).InBounds air where
  inside := by
    intro other hother
    rcases (AList.mem_insert _).mp hother with rfl | hother
    · exact hcell
    · exact h.inside other hother
  outside := by
    dsimp only [SparseBlockStore.put]
    rw [if_neg fun hout => hout.2 hcell, h.outside]
    rfl
  counted := by
    have hcount := countP_update (fun block => decide (block ≠ air)) (store.content air)
      store.originalSize.nodup_cellsYZX (Size.mem_cellsYZX.mpr hcell) id
    rw [← content_put, ← h.counted] at hcount
    have hothers : (match store.blocks.lookup cell with
        | some previous => if previous ≠ air then store.nonAirBlocks - 1 else store.nonAirBlocks
        | none => store.nonAirBlocks) =
          store.nonAirBlocks - if store.content air cell ≠ air then 1 else 0 := by
      rw [content]
      cases hlookup : store.blocks.lookup cell with
      | none => simp
      | some previous =>
        dsimp only [Option.getD_some]
        split <;> rfl
    have hpositive : (if store.content air cell ≠ air then 1 else 0) ≤ store.nonAirBlocks := by
      split_ifs with hblock
      · rw [h.counted]
        exact List.countP_pos_iff.mpr ⟨cell, Size.mem_cellsYZX.mpr hcell, decide_eq_true hblock⟩
      · exact Nat.zero_le _
    simp only [decide_eq_true_eq] at hcount
    have hput : (store.put air cell id).nonAirBlocks = store.nonAirBlocks -
        (if store.content air cell ≠ air then 1 else 0) + if id ≠ air then 1 else 0 := by
      rw [← hothers]
      dsimp only [SparseBlockStore.put]
      split <;> rfl
    rw [hput]
    change _ = store.originalSize.cellsYZX.countP _
    omega

/-- The offset moves the cells of the structure to `int32` positions, also above the lowest layer. -/
def Moves (store : SparseBlockStore Nbt) : Prop :=
  ∀ cell, store.originalSize.Contains cell → IsInt32 (cell.add store.offset).x ∧
    IsInt32 (cell.add store.offset).y ∧ IsInt32 (cell.add store.offset).z ∧
      IsInt32 ((cell.add store.offset).y - 64)

theorem mem_row {x y minZ maxZ : ℤ} :
    block ∈ store.row x y minZ maxZ ↔ block ∈ store.blocks.entries ∧ block.1.x = x ∧
      block.1.y = y ∧ minZ ≤ block.1.z ∧ block.1.z ≤ maxZ := by
  rw [row, List.mem_filter, decide_eq_true_iff]

theorem InBounds.mem_entries (h : store.InBounds air) (hblock : block ∈ store.blocks.entries) :
    store.originalSize.Contains block.1 :=
  h.inside block.1 (List.mem_map_of_mem hblock)

/-- The loops meet the blocks that are moved into the chunk. -/
theorem InBounds.mem_blocksIn (h : store.InBounds air) :
    block ∈ store.blocksIn chunkPos ↔ block ∈ store.blocks.entries ∧
      blockToChunk (block.1.add store.offset) = chunkPos := by
  obtain ⟨chunkX, chunkZ⟩ := chunkPos
  simp only [blocksIn, List.mem_flatMap, Int.mem_range_iff, mem_row, blockToChunk, BlockPos.add,
    floorDiv_sixteen, ChunkPos.mk.injEq]
  constructor
  · rintro ⟨x, hx, y, hy, hblock, rfl, rfl, hz⟩
    refine ⟨hblock, ?_⟩
    omega
  · rintro ⟨hblock, hx, hz⟩
    obtain ⟨hinX, hinY, hinZ⟩ := h.mem_entries hblock
    exact ⟨block.1.x, by omega, block.1.y, by omega, hblock, rfl, rfl, by omega⟩

/-- A chunk that shows a block has a part of the structure. -/
theorem InBounds.meets (h : store.InBounds air) (hblock : block ∈ store.blocks.entries) :
    store.Meets (blockToChunk (block.1.add store.offset)) := by
  obtain ⟨hinX, -, hinZ⟩ := h.mem_entries hblock
  simp only [Meets, blockToChunk, BlockPos.add, floorDiv_sixteen]
  omega

/-- A block that the loops meet is stored under its position. -/
theorem storeBlock_eq (hchunk : blockToChunk (block.1.add offset) = chunkPos)
    (hworld : IsInt32 (block.1.add offset).x ∧ IsInt32 (block.1.add offset).y ∧
      IsInt32 (block.1.add offset).z ∧ IsInt32 ((block.1.add offset).y - 64)) (chunk : ChunkData) :
    storeBlock air offset chunkPos chunk block = .ok (chunk.setBlock air
      (floorDiv ((block.1.add offset).y - 64) 16)
      (BlockLayerLayout.Internal.index (floorMod (block.1.add offset).x 16)
        ((block.1.add offset).y - (floorDiv ((block.1.add offset).y - 64) 16 * 16 + 64))
        (floorMod (block.1.add offset).z 16)) block.2) := by
  have hlocal {value : ℤ} (hvalue : IsInt32 value) :
      value - toInt32 (floorDiv value 16 * 16) = floorMod value 16 := by
    rw [floorDiv_sixteen, floorMod_sixteen]
    unfold IsInt32 int32Min int32Max at hvalue
    rw [toInt32]
    omega
  subst hchunk
  have hx := hlocal hworld.1
  have hz := hlocal hworld.2.2.1
  have hinside : ¬ (floorMod (block.1.add offset).x 16 < 0 ∨ floorMod (block.1.add offset).x 16 ≥ 16 ∨
      (block.1.add offset).y - (floorDiv ((block.1.add offset).y - 64) 16 * 16 + 64) < 0 ∨
      (block.1.add offset).y - (floorDiv ((block.1.add offset).y - 64) 16 * 16 + 64) ≥ 16 ∨
      floorMod (block.1.add offset).z 16 < 0 ∨ floorMod (block.1.add offset).z 16 ≥ 16) := by
    simp only [floorDiv_sixteen, floorMod_sixteen]
    omega
  rw [storeBlock, if_neg (not_not_intro hworld)]
  simp only [blockToChunk, hx, hz]
  rw [if_neg hinside]
  rfl

/-- A requested chunk shows the blocks of the store, moved by the offset. -/
theorem InBounds.fillChunk_ok (h : store.InBounds air) (hmoves : store.Moves) (chunkPos : ChunkPos) :
    ∃ chunk, store.fillChunk air chunkPos {} = .ok chunk ∧
      ∀ pos, blockToChunk pos = chunkPos →
        chunk.blockAt air pos = store.content air (pos.sub store.offset) := by
  -- A block of the content is an entry of the store.
  have hentry {cell : BlockPos} {id : RuntimeId} (hlookup : store.blocks.lookup cell = some id) :
      (⟨cell, id⟩ : Sigma fun _ : BlockPos => RuntimeId) ∈ store.blocks.entries :=
    AList.mem_lookup_iff.mp hlookup
  have hinside (chunk : ChunkData) : (if store.includeOutOfBounds then
      store.outOfBoundsBlocks.entries.foldlM (storeOutside air store.offset chunkPos) chunk
    else return chunk) = .ok chunk := by
    rw [h.outside]
    split
    · rfl
    · rfl
  rw [fillChunk]
  by_cases hmeets : store.Meets chunkPos
  · rw [if_neg (not_not_intro hmeets), foldlM_ok fun chunk block hblock =>
      storeBlock_eq (h.mem_blocksIn.mp hblock).2
        (hmoves _ (h.mem_entries (h.mem_blocksIn.mp hblock).1)) chunk]
    refine ⟨_, hinside _, fun pos hpos => ?_⟩
    rw [@ChunkData.foldl_eq_sweep _ _ air _ (fun block => block.1.add store.offset)
      (fun block => some block.2) _ fun chunk hlayout block _ => by
        simp only [ChunkData.setAt, hlayout],
      ChunkData.blockAt_sweep _ _ _ _ _ fun block hblock =>
        (h.mem_blocksIn.mp hblock).2.trans hpos.symm]
    apply lastValue_getD_of_agree
    · intro block hblock id hid
      obtain ⟨hplace, hid⟩ := then_of_some hid
      cases hid
      have hlookup : store.blocks.lookup block.1 = some block.2 :=
        AList.mem_lookup_iff.mpr (h.mem_blocksIn.mp hblock).1
      rw [content, ← BlockPos.add_eq_iff.mp hplace, hlookup, Option.getD_some]
    · intro hmissed
      rw [ChunkData.blockAt_empty, content]
      cases hlookup : store.blocks.lookup (pos.sub store.offset) with
      | none => rfl
      | some id =>
        have hmoved : (pos.sub store.offset).add store.offset = pos := BlockPos.add_eq_iff.mpr rfl
        have hnone := hmissed ⟨_, id⟩
          (h.mem_blocksIn.mpr ⟨hentry hlookup, by rw [hmoved, hpos]⟩)
        rw [if_pos hmoved] at hnone
        cases hnone
  · rw [if_pos hmeets]
    refine ⟨_, rfl, fun pos hpos => ?_⟩
    rw [ChunkData.blockAt_empty, content]
    cases hlookup : store.blocks.lookup (pos.sub store.offset) with
    | none => rfl
    | some id =>
      have hmoved : (pos.sub store.offset).add store.offset = pos := BlockPos.add_eq_iff.mpr rfl
      have hmeet := h.meets (hentry hlookup)
      rw [hmoved, hpos] at hmeet
      exact absurd hmeet hmeets

/-- Every request shows the blocks of the store, moved by the offset. -/
theorem InBounds.getChunks_ok (h : store.InBounds air) (hmoves : store.Moves)
    (positions : List ChunkPos) :
    ∃ chunks, store.getChunks air positions = .ok chunks ∧ ∀ pos, chunks.blockAt air pos =
      if blockToChunk pos ∈ positions then some (store.content air (pos.sub store.offset))
      else none :=
  ChunkMap.shows_of_fill (h.fillChunk_ok hmoves) positions

/-- The block that a request shows for a cell: one outside the declared size only together with
some part of the structure. -/
def shown (store : SparseBlockStore Nbt) (air : RuntimeId) (cell : BlockPos) : RuntimeId :=
  if store.Meets (blockToChunk (cell.add store.offset)) then
    ((if store.includeOutOfBounds then store.outOfBoundsBlocks.lookup cell else none).or
      (if store.originalSize.Contains cell then store.blocks.lookup cell else none)).getD air
  else air

/-- The loops meet the blocks of the structure that are moved into the chunk. -/
theorem mem_blocksIn :
    block ∈ store.blocksIn chunkPos ↔ block ∈ store.blocks.entries ∧
      store.originalSize.Contains block.1 ∧ blockToChunk (block.1.add store.offset) = chunkPos := by
  obtain ⟨chunkX, chunkZ⟩ := chunkPos
  simp only [blocksIn, List.mem_flatMap, Int.mem_range_iff, mem_row, blockToChunk, BlockPos.add,
    Size.Contains, floorDiv_sixteen, ChunkPos.mk.injEq]
  constructor
  · rintro ⟨x, hx, y, hy, hblock, rfl, rfl, hz⟩
    refine ⟨hblock, ?_⟩
    omega
  · rintro ⟨hblock, ⟨hinX, hinY, hinZ⟩, hx, hz⟩
    exact ⟨block.1.x, by omega, block.1.y, by omega, hblock, rfl, rfl, by omega⟩

/-- Among entries of a map the one that is moved onto a position is that of its cell. -/
theorem lastValue_entries {map : AList fun _ : BlockPos => RuntimeId}
    {cells : List (Sigma fun _ : BlockPos => RuntimeId)} {inside : BlockPos → Prop}
    [DecidablePred inside] (hcells : ∀ block, block ∈ cells ↔ block ∈ map.entries ∧ inside block.1)
    (offset pos : BlockPos) :
    lastValue (fun block => if block.1.add offset = pos then some block.2 else none) cells =
      if inside (pos.sub offset) then map.lookup (pos.sub offset) else none := by
  have hmoved : (pos.sub offset).add offset = pos := BlockPos.add_eq_iff.mpr rfl
  cases hlookup : (if inside (pos.sub offset) then map.lookup (pos.sub offset) else none) with
  | none =>
    rw [lastValue_eq_none]
    rintro ⟨cell, id⟩ hblock
    refine if_neg fun hplace => ?_
    obtain ⟨hentry, hinside⟩ := (hcells _).mp hblock
    have hcell : cell = pos.sub offset := BlockPos.add_eq_iff.mp hplace
    subst hcell
    rw [if_pos hinside, AList.mem_lookup_iff.mpr hentry] at hlookup
    cases hlookup
  | some id =>
    obtain ⟨hinside, hid⟩ := Option.ite_none_right_eq_some.mp hlookup
    have hmem : ⟨pos.sub offset, id⟩ ∈ cells :=
      (hcells _).mpr ⟨AList.mem_lookup_iff.mp hid, hinside⟩
    rw [lastValue_of_unique hmem fun block hblock hne => ?_, if_pos hmoved]
    refine if_neg fun hplace => hne ?_
    obtain ⟨cell, other⟩ := block
    have hother := AList.mem_lookup_iff.mpr ((hcells _).mp hblock).1
    have hcell : cell = pos.sub offset := BlockPos.add_eq_iff.mp hplace
    subst hcell
    rw [Option.some.inj (hid.symm.trans hother)]

/-- The chunk with a block outside the declared size. -/
def withOutside (air : RuntimeId) (offset : BlockPos) (chunk : ChunkData)
    (block : Sigma fun _ : BlockPos => RuntimeId) : ChunkData :=
  let world := block.1.add offset
  chunk.setBlock air (floorDiv (world.y - 64) 16)
    ((floorMod (world.y - 64) 16 * 16 + floorMod world.z 16) * 16 + floorMod world.x 16).toNat block.2

theorem withOutside_eq (hlayout : chunk.layout = .Internal)
    (block : Sigma fun _ : BlockPos => RuntimeId) :
    withOutside air offset chunk block = chunk.setAt air (block.1.add offset) block.2 := by
  have hrow : floorMod ((block.1.add offset).y - 64) 16 =
      (block.1.add offset).y - (floorDiv ((block.1.add offset).y - 64) 16 * 16 + 64) := by
    rw [floorMod]
    omega
  rw [withOutside, hrow, ChunkData.setAt, hlayout]
  rfl

/-- A block outside the declared size is stored if it belongs to the chunk. -/
theorem storeOutside_eq {next : ChunkData}
    (h : storeOutside air offset chunkPos chunk block = .ok next) :
    next = if decide (blockToChunk (block.1.add offset) = chunkPos) = true then
      withOutside air offset chunk block else chunk := by
  obtain ⟨chunkX, chunkZ⟩ := chunkPos
  simp only [decide_eq_true_eq, blockToChunk, ChunkPos.mk.injEq]
  rw [storeOutside] at h
  obtain ⟨_, h⟩ := else_of_ok h
  split_ifs at h with hchunk
  · cases h
    rw [if_neg fun hsame => hchunk.elim (· hsame.1) (· hsame.2)]
  · cases h
    obtain ⟨hx, hz⟩ := not_or.mp hchunk
    rw [if_pos ⟨not_not.mp hx, not_not.mp hz⟩]
    rfl

/-- A requested chunk shows what the store shows, if the request succeeds. -/
theorem fillChunk_eq (h : store.fillChunk air chunkPos {} = .ok chunk) {pos : BlockPos}
    (hpos : blockToChunk pos = chunkPos) :
    chunk.blockAt air pos = store.shown air (pos.sub store.offset) := by
  have hmoved : (pos.sub store.offset).add store.offset = pos := BlockPos.add_eq_iff.mpr rfl
  rw [shown, hmoved, hpos]
  rw [fillChunk] at h
  by_cases hmeets : store.Meets chunkPos
  · rw [if_neg (not_not_intro hmeets)] at h
    rw [if_pos hmeets]
    obtain ⟨filled, hfilled, h⟩ := exists_of_bind_ok h
    -- The loops over the structure come first.
    have hinner := foldl_of_foldlM_ok (fun state block hblock next hstep => by
      have hworld : IsInt32 (block.1.add store.offset).x ∧ IsInt32 (block.1.add store.offset).y ∧
          IsInt32 (block.1.add store.offset).z ∧ IsInt32 ((block.1.add store.offset).y - 64) := by
        by_contra hover
        rw [storeBlock, if_pos hover] at hstep
        cases hstep
      exact Except.ok.inj (hstep.symm.trans
        (storeBlock_eq (mem_blocksIn.mp hblock).2.2 hworld state))) hfilled
    rw [@ChunkData.foldl_eq_sweep _ _ air _ (fun block => block.1.add store.offset)
      (fun block => some block.2) _ fun chunk hlayout block _ => by
        simp only [ChunkData.setAt, hlayout]] at hinner
    have hlayout : filled.layout = .Internal := by
      rw [hinner, ChunkData.sweep_layout]
    have hfirst : filled.blockAt air pos = (if store.originalSize.Contains (pos.sub store.offset) then
        store.blocks.lookup (pos.sub store.offset) else none).getD air := by
      rw [hinner, ChunkData.blockAt_sweep _ _ _ _ _ fun block hblock =>
        (mem_blocksIn.mp hblock).2.2.trans hpos.symm, ChunkData.blockAt_empty,
        @lastValue_entries store.blocks _ (fun cell => store.originalSize.Contains cell ∧
          blockToChunk (cell.add store.offset) = chunkPos) _ fun _ => mem_blocksIn, hmoved]
      simp only [hpos, and_true]
    -- Those outside the declared size replace them.
    cases hinclude : store.includeOutOfBounds with
    | false =>
      rw [hinclude] at h
      cases h
      exact hfirst
    | true =>
      rw [hinclude, if_pos rfl] at h
      have houter := foldl_of_foldlM_ok (fun state block _ next hstep => storeOutside_eq hstep) h
      rw [← List.foldl_filter, @ChunkData.foldl_eq_sweep _ _ air _
        (fun block => block.1.add store.offset) (fun block => some block.2) _
          fun chunk hchunk block _ => withOutside_eq (hchunk.trans hlayout) block] at houter
      have hmem (block : Sigma fun _ : BlockPos => RuntimeId) :
          block ∈ store.outOfBoundsBlocks.entries.filter (fun block =>
            decide (blockToChunk (block.1.add store.offset) = chunkPos)) ↔
          block ∈ store.outOfBoundsBlocks.entries ∧
            blockToChunk (block.1.add store.offset) = chunkPos := by
        rw [List.mem_filter, decide_eq_true_eq]
      rw [houter, ChunkData.blockAt_sweep _ _ _ _ _ fun block hblock =>
        ((hmem block).mp hblock).2.trans hpos.symm, hfirst,
        @lastValue_entries store.outOfBoundsBlocks _ (fun cell =>
          blockToChunk (cell.add store.offset) = chunkPos) _ hmem, hmoved, if_pos hpos, if_pos rfl,
        Option.getD_or]
  · rw [if_pos hmeets] at h
    cases h
    rw [if_neg hmeets, ChunkData.blockAt_empty]

/-- What a request that succeeds shows. -/
theorem getChunks_shown {positions : List ChunkPos} {chunks : ChunkMap}
    (h : store.getChunks air positions = .ok chunks) {position : ChunkPos}
    (hposition : position ∈ positions) : ∃ chunk, chunks.lookup position = some chunk ∧
      ∀ pos, blockToChunk pos = position →
        chunk.blockAt air pos = store.shown air (pos.sub store.offset) := by
  obtain ⟨found, hfound, hlookup⟩ := @ChunkMap.forEachM_emplaceAll positions (store.fillChunk air)
    fun other hother => ChunkMap.exists_of_forEachM_emplaceAll h hother
  cases hfound.symm.trans h
  obtain ⟨chunk, hchunk⟩ := ChunkMap.exists_of_forEachM_emplaceAll h hposition
  refine ⟨chunk, ?_, fun pos hpos => fillChunk_eq hchunk hpos⟩
  rw [hlookup, if_pos hposition, hchunk]
  rfl

end SparseBlockStore

end WaterStructure
