import WaterStructure.Core.NonAirCount
import WaterStructure.World.WorldChunkSink

/-!
# What lies in the grid of the reported size

A structure is moved by an offset, but reports a size that is grown by the absolute value of the
offset. Its grid starts at the origin, so that it holds every moved cell that is not below zero, and
none that is. Counting goes over that grid once and keeps the result.
-/

namespace WaterStructure

open ChunkStream

variable {Nbt : Type} {air : RuntimeId} {content : BlockPos → RuntimeId} {offset : BlockPos}

/-- The size that is reported under an offset. -/
def Size.grow (size : Size) (offset : BlockPos) : Size :=
  ⟨size.width + |offset.x|, size.height + |offset.y|, size.length + |offset.z|⟩

/-- The offset is small enough: the grown size is an `int32` size, and so is the height of a moved
cell above the lowest layer. -/
def Size.CanGrow (size : Size) (offset : BlockPos) : Prop :=
  size.width + |offset.x| ≤ int32Max ∧ size.height + |offset.y| ≤ int32Max ∧
    size.length + |offset.z| ≤ int32Max ∧ offset.FitsInt32 ∧ int32Min + 64 ≤ offset.y

instance (size : Size) (offset : BlockPos) : Decidable (size.CanGrow offset) :=
  inferInstanceAs (Decidable (_ ∧ _ ∧ _ ∧ _ ∧ _))

/-- Every request gives the requested chunks of the content, moved by the offset. -/
def ShowsMoved (air : RuntimeId) (content : BlockPos → RuntimeId) (offset : BlockPos)
    (getChunks : List ChunkPos → Except String ChunkMap) : Prop :=
  ∀ positions, ∃ chunks, getChunks positions = .ok chunks ∧ ∀ pos, chunks.blockAt air pos =
    if blockToChunk pos ∈ positions then some (content (pos.sub offset)) else none

/-- No block that a request shows lies outside the grid. -/
def GridCovers (size : Size) (air : RuntimeId)
    (getChunks : List ChunkPos → Except String ChunkMap) : Prop :=
  ∀ positions chunks pos id, getChunks positions = .ok chunks →
    chunks.blockAt air pos = some id → id ≠ air → blockToChunk pos ∈ gridPositions size

/-- A conversion writes every block that a request shows. -/
def ConversionWrites (source : ChunkSource Nbt) (air : RuntimeId) : Prop :=
  ∀ formatDefaultBatchSize start options calls,
    ConvertsToWorld source formatDefaultBatchSize start options calls →
      ∀ positions chunks pos id, source.getChunks positions = .ok chunks →
        chunks.blockAt air pos = some id → id ≠ air →
          recordedBlock air calls (pos.add start.origin) = id

/-- No block is moved below zero in x or z. -/
def StaysInGrid (air : RuntimeId) (content : BlockPos → RuntimeId) (offset : BlockPos) : Prop :=
  ∀ cell, content cell ≠ air → 0 ≤ cell.x + offset.x ∧ 0 ≤ cell.z + offset.z

theorem lt_chunkCount {extent value : ℤ} (hvalue : 0 ≤ value) (h : value < extent) :
    floorDiv value 16 < chunkCount extent := by
  rw [chunkCount_eq extent (by omega), floorDiv_sixteen]
  omega

/-- A moved cell of the structure is in the grid exactly when it is not below zero. -/
theorem mem_grid_iff {size : Size} {cell : BlockPos} (h : size.Contains cell) :
    blockToChunk (cell.add offset) ∈ gridPositions (size.grow offset) ↔
      0 ≤ cell.x + offset.x ∧ 0 ≤ cell.z + offset.z := by
  obtain ⟨⟨hx, hx'⟩, -, hz, hz'⟩ := h
  have hleX := le_abs_self offset.x
  have hleZ := le_abs_self offset.z
  rw [mem_gridPositions]
  simp only [blockToChunk, BlockPos.add, Size.grow, Size.chunkXCount, Size.chunkZCount]
  constructor
  · rintro ⟨⟨hxm, -⟩, hzm, -⟩
    rw [floorDiv_sixteen] at hxm hzm
    omega
  · rintro ⟨hxm, hzm⟩
    refine ⟨⟨?_, lt_chunkCount hxm (by omega)⟩, ?_, lt_chunkCount hzm (by omega)⟩
    · rw [floorDiv_sixteen]
      omega
    · rw [floorDiv_sixteen]
      omega

theorem BlockPos.sub_add (pos offset : BlockPos) : (pos.sub offset).add offset = pos :=
  BlockPos.add_eq_iff.mpr rfl

theorem BlockPos.add_sub (pos offset : BlockPos) : (pos.add offset).sub offset = pos := by
  obtain ⟨x, y, z⟩ := pos
  simp only [BlockPos.add, BlockPos.sub, BlockPos.mk.injEq]
  omega

/-- The grid covers the structure exactly when nothing is moved below zero. -/
theorem gridCovers_iff {size : Size} {getChunks : List ChunkPos → Except String ChunkMap}
    (hinside : ∀ cell, content cell ≠ air → size.Contains cell)
    (hshows : ShowsMoved air content offset getChunks) :
    GridCovers (size.grow offset) air getChunks ↔ StaysInGrid air content offset := by
  constructor
  · intro h cell hcell
    obtain ⟨chunks, hchunks, hblocks⟩ := hshows [blockToChunk (cell.add offset)]
    have hblock := hblocks (cell.add offset)
    rw [if_pos List.mem_cons_self, BlockPos.add_sub] at hblock
    exact (mem_grid_iff (hinside cell hcell)).mp (h _ _ _ _ hchunks hblock hcell)
  · intro h positions chunks pos id hchunks hblock hid
    obtain ⟨found, hfound, hblocks⟩ := hshows positions
    cases hchunks.symm.trans hfound
    rw [hblocks] at hblock
    obtain ⟨-, hblock⟩ := NestedLoop.then_of_some hblock
    cases hblock
    have hgrid := (mem_grid_iff (hinside _ hid)).mpr (h _ hid)
    rwa [BlockPos.sub_add] at hgrid

/-- The corner of a chunk lies in it. -/
theorem blockToChunk_corner (position : ChunkPos) :
    blockToChunk ⟨position.x * 16, 0, position.z * 16⟩ = position := by
  obtain ⟨x, z⟩ := position
  simp only [blockToChunk, floorDiv_sixteen, ChunkPos.mk.injEq]
  omega

/-- What the grid covers is recorded. -/
theorem ConvertsToWorld.recordedBlock_of_covers {source : ChunkSource Nbt} {formatDefaultBatchSize : ℕ}
    {start : SubChunkPos} {options : WorldConversionOptions} {calls : List (WorldCall Nbt)}
    (hconverts : ConvertsToWorld source formatDefaultBatchSize start options calls)
    (hshows : ShowsMoved air content offset source.getChunks)
    (hcovers : GridCovers source.size air source.getChunks) (pos : BlockPos) :
    recordedBlock air calls pos = content ((pos.sub start.origin).sub offset) := by
  have hsource : ∀ batch found, source.getChunks batch = .ok found → ∀ position ∈ batch,
      (found.lookup position).isSome = true ∧ ∀ pos, blockToChunk pos = position →
        found.blockAt air pos = some (content (pos.sub offset)) := by
    intro batch found hfound position hposition
    obtain ⟨found', hfound', hblocks⟩ := hshows batch
    cases hfound.symm.trans hfound'
    constructor
    · have hcorner := hblocks ⟨position.x * 16, 0, position.z * 16⟩
      rw [ChunkMap.blockAt, blockToChunk_corner, if_pos hposition] at hcorner
      cases hlookup : found.lookup position with
      | none =>
        rw [hlookup] at hcorner
        cases hcorner
      | some chunk => rfl
    · intro pos hpos
      rw [hblocks, if_pos (hpos ▸ hposition)]
  have houtside : ∀ pos, blockToChunk pos ∉ gridPositions source.size →
      content (pos.sub offset) = air := by
    intro pos hpos
    by_contra hblock
    obtain ⟨found, hfound, hblocks⟩ := hshows [blockToChunk pos]
    have hshown := hblocks pos
    rw [if_pos List.mem_cons_self] at hshown
    exact hpos (hcovers _ _ _ _ hfound hshown hblock)
  exact hconverts.recordedBlock_eq hsource houtside pos

/-- What the grid covers is written. -/
theorem conversionWrites_of_covers {source : ChunkSource Nbt}
    (hshows : ShowsMoved air content offset source.getChunks)
    (hcovers : GridCovers source.size air source.getChunks) : ConversionWrites source air := by
  intro formatDefaultBatchSize start options calls hconverts positions chunks pos id hchunks hblock _
  rw [hconverts.recordedBlock_of_covers hshows hcovers, BlockPos.add_sub]
  obtain ⟨found, hfound, hblocks⟩ := hshows positions
  cases hchunks.symm.trans hfound
  rw [hblocks] at hblock
  obtain ⟨-, hblock⟩ := NestedLoop.then_of_some hblock
  exact Option.some.inj hblock

/-- The number of blocks of the content. -/
def blockCount (air : RuntimeId) (content : BlockPos → RuntimeId) (size : Size) : ℕ :=
  size.cellsYZX.countP fun cell => content cell ≠ air

/-- The number of blocks that are not moved below zero. -/
def gridCount (air : RuntimeId) (content : BlockPos → RuntimeId) (size : Size)
    (offset : BlockPos) : ℕ :=
  size.cellsYZX.countP fun cell =>
    content cell ≠ air ∧ 0 ≤ cell.x + offset.x ∧ 0 ≤ cell.z + offset.z

/-- The grid has all blocks exactly when none is moved below zero. -/
theorem gridCount_eq_iff {size : Size} (hinside : ∀ cell, content cell ≠ air → size.Contains cell) :
    gridCount air content size offset = blockCount air content size ↔
      StaysInGrid air content offset := by
  have hfilter : gridCount air content size offset =
      (size.cellsYZX.filter fun cell => content cell ≠ air).countP fun cell =>
        0 ≤ cell.x + offset.x ∧ 0 ≤ cell.z + offset.z := by
    rw [gridCount, List.countP_filter]
    refine congrArg (List.countP · _) (funext fun cell => ?_)
    rw [Bool.decide_and, Bool.and_comm]
  have hblocks : blockCount air content size =
      (size.cellsYZX.filter fun cell => content cell ≠ air).length :=
    List.countP_eq_length_filter
  rw [hfilter, hblocks, List.countP_eq_length]
  constructor
  · intro h cell hcell
    exact of_decide_eq_true (h cell (List.mem_filter.mpr
      ⟨Size.mem_cellsYZX.mpr (hinside cell hcell), decide_eq_true hcell⟩))
  · intro h cell hcell
    exact decide_eq_true (h cell (of_decide_eq_true (List.mem_filter.mp hcell).2))

/-- The blocks of the content, moved by the offset. -/
def movedBlocks (air : RuntimeId) (content : BlockPos → RuntimeId) (size : Size)
    (offset : BlockPos) : Finset BlockPos :=
  ((size.cellsYZX.filter fun cell => content cell ≠ air).map (·.add offset)).toFinset

theorem add_injective (offset : BlockPos) :
    Function.Injective fun pos : BlockPos => pos.add offset := by
  intro pos other h
  rw [← BlockPos.add_sub pos offset, ← BlockPos.add_sub other offset]
  exact congrArg (fun pos : BlockPos => pos.sub offset) h

theorem mem_movedBlocks {size : Size} (hinside : ∀ cell, content cell ≠ air → size.Contains cell)
    (pos : BlockPos) :
    pos ∈ movedBlocks air content size offset ↔ content (pos.sub offset) ≠ air := by
  rw [movedBlocks, List.mem_toFinset, List.mem_map]
  constructor
  · rintro ⟨cell, hcell, rfl⟩
    rw [BlockPos.add_sub]
    exact of_decide_eq_true (List.mem_filter.mp hcell).2
  · intro h
    exact ⟨pos.sub offset, List.mem_filter.mpr ⟨Size.mem_cellsYZX.mpr (hinside _ h),
      decide_eq_true h⟩, BlockPos.sub_add pos offset⟩

/-- The moved blocks in the grid are those that are not moved below zero. -/
theorem card_movedBlocks {size : Size} :
    ((movedBlocks air content size offset).filter fun pos =>
      blockToChunk pos ∈ gridPositions (size.grow offset)).card = gridCount air content size offset := by
  have hfilter : (movedBlocks air content size offset).filter (fun pos =>
      blockToChunk pos ∈ gridPositions (size.grow offset)) =
        (((size.cellsYZX.filter fun cell => content cell ≠ air).map (·.add offset)).filter fun pos =>
          blockToChunk pos ∈ gridPositions (size.grow offset)).toFinset := by
    ext pos
    rw [movedBlocks, Finset.mem_filter, List.mem_toFinset, List.mem_toFinset, List.mem_filter,
      decide_eq_true_iff]
  rw [hfilter, List.toFinset_card_of_nodup
    (((size.nodup_cellsYZX.filter _).map (add_injective offset)).filter _), List.filter_map, List.length_map, List.filter_filter, gridCount, List.countP_eq_length_filter]
  refine congrArg List.length (List.filter_congr fun cell hcell => ?_)
  have hgrid := @mem_grid_iff offset size cell (Size.mem_cellsYZX.mp hcell)
  simp only [Function.comp_apply, hgrid, Bool.decide_and, Bool.and_comm]

/-- What a caller does with a structure that it has read. -/
inductive OffsetRequest where
  | setOffset (offset : BlockPos)
  | getChunks (positions : List ChunkPos)
  | countNonAirBlocks

/-- The offset after some requests. -/
def offsetAfter : BlockPos → List OffsetRequest → BlockPos
  | offset, [] => offset
  | _, .setOffset offset :: rest => offsetAfter offset rest
  | offset, .getChunks _ :: rest => offsetAfter offset rest
  | offset, .countNonAirBlocks :: rest => offsetAfter offset rest

/-- The offset at the first count. -/
def firstCount : BlockPos → List OffsetRequest → Option BlockPos
  | _, [] => none
  | _, .setOffset offset :: rest => firstCount offset rest
  | offset, .getChunks _ :: rest => firstCount offset rest
  | offset, .countNonAirBlocks :: _ => some offset

/-- The operations of a structure that can be moved. -/
structure OffsetReader (Object : Type) where
  size : Object → Size
  setOffset : Object → BlockPos → Object
  getChunks : Object → List ChunkPos → Except String (ChunkMap × Object)
  countNonAirBlocks : Object → Except String (ℕ × Object)

namespace OffsetReader

variable {Object : Type}

/-- One request; offsets are small enough for the size that is reported. -/
def step (reader : OffsetReader Object) (size : Size) (object : Object) :
    OffsetRequest → Option Object
  | .setOffset offset =>
    if size.CanGrow offset then some (reader.setOffset object offset) else none
  | .getChunks positions =>
    match reader.getChunks object positions with
    | .error _ => some object
    | .ok (_, object) => some object
  | .countNonAirBlocks =>
    match reader.countNonAirBlocks object with
    | .error _ => some object
    | .ok (_, object) => some object

/-- `Inv offset cached` holds of the objects that show the content moved by the offset and keep a
count: a count that is kept is returned, and otherwise the grid is counted and the count is kept. -/
structure Lawful (reader : OffsetReader Object) (air : RuntimeId) (content : BlockPos → RuntimeId)
    (size : Size) (Inv : BlockPos → Option ℕ → Object → Prop) : Prop where
  inside : ∀ cell, content cell ≠ air → size.Contains cell
  size_eq : ∀ {offset cached object}, Inv offset cached object →
    reader.size object = size.grow offset
  setOffset : ∀ {offset cached object}, Inv offset cached object → ∀ {next}, size.CanGrow next →
    Inv next cached (reader.setOffset object next)
  getChunks : ∀ {offset cached object}, Inv offset cached object → ∀ positions, ∃ chunks t,
    reader.getChunks object positions = .ok (chunks, t) ∧ Inv offset cached t ∧
      ∀ pos, chunks.blockAt air pos =
        if blockToChunk pos ∈ positions then some (content (pos.sub offset)) else none
  kept : ∀ {offset count object}, Inv offset (some count) object →
    reader.countNonAirBlocks object = .ok (count, object)
  counted : ∀ {offset object}, Inv offset none object → ∀ {count t}, Inv offset none t →
    countGrid reader.getChunks air (reader.size object) object = .ok (count, t) →
      ∃ u, reader.countNonAirBlocks object = .ok (count, u) ∧ Inv offset (some count) u

variable {reader : OffsetReader Object} {size : Size} {Inv : BlockPos → Option ℕ → Object → Prop}
  {cached : Option ℕ} {object t : Object}

/-- The chunks that are shown. -/
theorem Lawful.showsMoved (h : reader.Lawful air content size Inv)
    (hobject : Inv offset cached object) :
    ShowsMoved air content offset fun positions =>
      (reader.getChunks object positions).map Prod.fst := by
  intro positions
  obtain ⟨chunks, t, hchunks, -, hblocks⟩ := h.getChunks hobject positions
  exact ⟨chunks, congrArg (Except.map Prod.fst) hchunks, hblocks⟩

/-- The first count is that of the grid, and is kept. -/
theorem Lawful.count_first (h : reader.Lawful air content size Inv)
    (hobject : Inv offset none object) :
    ∃ t, reader.countNonAirBlocks object = .ok (gridCount air content size offset, t) ∧
      Inv offset (some (gridCount air content size offset)) t := by
  have hget : ∀ s position, Inv offset none s → ∃ chunks chunk t,
      reader.getChunks s [position] = .ok (chunks, t) ∧ Inv offset none t ∧
        chunks.lookup position = some chunk ∧
          ∀ pos, blockToChunk pos = position → chunk.blockAt air pos = content (pos.sub offset) := by
    intro s position hs
    obtain ⟨chunks, t, hchunks, ht, hblocks⟩ := h.getChunks hs [position]
    have hshown (pos : BlockPos) (hpos : blockToChunk pos = position) :
        (chunks.lookup position).map (fun chunk => chunk.blockAt air pos) =
          some (content (pos.sub offset)) := by
      rw [← hpos]
      exact (hblocks pos).trans (if_pos (hpos ▸ List.mem_cons_self))
    obtain ⟨chunk, hchunk, -⟩ := Option.map_eq_some_iff.mp (hshown _ (blockToChunk_corner position))
    refine ⟨chunks, chunk, t, hchunks, ht, hchunk, fun pos hpos => ?_⟩
    have hblock := hshown pos hpos
    rw [hchunk] at hblock
    exact Option.some.inj hblock
  obtain ⟨t, ht, hcount⟩ := countGrid_eq hget (mem_movedBlocks h.inside) (reader.size object) hobject
  rw [h.size_eq hobject, card_movedBlocks, ← h.size_eq hobject] at hcount
  exact h.counted hobject ht hcount

/-- What the requests leave. -/
theorem Lawful.run (h : reader.Lawful air content size Inv) {requests : List OffsetRequest}
    (hobject : Inv offset cached object)
    (hrun : TransitionSystem.run (reader.step size) object requests = some t) :
    Inv (offsetAfter offset requests)
      (cached.or ((firstCount offset requests).map (gridCount air content size))) t := by
  induction requests generalizing offset cached object with
  | nil =>
    cases hrun
    rw [firstCount, Option.map_none, Option.or_none]
    exact hobject
  | cons request rest ih =>
    obtain ⟨next, hnext, hrest⟩ := Option.bind_eq_some_iff.mp hrun
    cases request with
    | setOffset moved =>
      rw [step] at hnext
      obtain ⟨hgrow, hnext⟩ := NestedLoop.then_of_some hnext
      cases hnext
      exact ih (h.setOffset hobject hgrow) hrest
    | getChunks positions =>
      obtain ⟨chunks, u, hchunks, hu, -⟩ := h.getChunks hobject positions
      rw [step, hchunks] at hnext
      cases hnext
      exact ih hu hrest
    | countNonAirBlocks =>
      cases cached with
      | some count =>
        rw [step, h.kept hobject] at hnext
        cases hnext
        exact ih hobject hrest
      | none =>
        obtain ⟨u, hcount, hu⟩ := h.count_first hobject
        rw [step, hcount] at hnext
        cases hnext
        exact ih hu hrest

/-- The grid covers what is shown, a conversion writes it, and the count is that of all blocks. -/
def Exact (reader : OffsetReader Object) (air : RuntimeId) (content : BlockPos → RuntimeId)
    (size : Size) (object : Object) : Prop :=
  GridCovers (reader.size object) air
      (fun positions => (reader.getChunks object positions).map Prod.fst) ∧
    (∀ (Nbt : Type)
      (getChunkNbt : List ChunkPos → Except String (AList fun _ : ChunkPos => List (BlockEntity Nbt))),
      ConversionWrites ⟨reader.size object,
        fun positions => (reader.getChunks object positions).map Prod.fst, getChunkNbt⟩ air) ∧
    (reader.countNonAirBlocks object).map Prod.fst = .ok (blockCount air content size)

/-- After any requests all of this holds exactly when no block is below zero, neither now nor at
the first count. -/
theorem Lawful.exact_iff (h : reader.Lawful air content size Inv) {requests : List OffsetRequest}
    (hobject : Inv offset cached object)
    (hcached : ∀ count, cached = some count → count = blockCount air content size)
    (hrun : TransitionSystem.run (reader.step size) object requests = some t) :
    reader.Exact air content size t ↔ StaysInGrid air content (offsetAfter offset requests) ∧
      (cached = none → StaysInGrid air content
        ((firstCount offset requests).getD (offsetAfter offset requests))) := by
  have ht := h.run hobject hrun
  have hshows := h.showsMoved ht
  have hcovers := gridCovers_iff h.inside hshows
  rw [← h.size_eq ht] at hcovers
  have hcount : (reader.countNonAirBlocks t).map Prod.fst = .ok (blockCount air content size) ↔
      (cached = none → StaysInGrid air content
        ((firstCount offset requests).getD (offsetAfter offset requests))) := by
    cases cached with
    | some count =>
      rw [h.kept ht, hcached count rfl]
      exact iff_of_true rfl fun hnone => nomatch hnone
    | none =>
      rw [← gridCount_eq_iff h.inside, forall_prop_of_true rfl]
      cases hfirst : firstCount offset requests with
      | none =>
        rw [hfirst] at ht
        obtain ⟨u, hu, -⟩ := h.count_first ht
        rw [hu]
        exact ⟨fun h => Except.ok.inj h, fun h => congrArg Except.ok h⟩
      | some first =>
        rw [hfirst] at ht
        rw [h.kept ht]
        exact ⟨fun h => Except.ok.inj h, fun h => congrArg Except.ok h⟩
  constructor
  · rintro ⟨hgrid, -, hexact⟩
    exact ⟨hcovers.mp hgrid, hcount.mp hexact⟩
  · rintro ⟨hstays, hfirst⟩
    have hgrid := hcovers.mpr hstays
    exact ⟨hgrid, fun Nbt getChunkNbt => conversionWrites_of_covers hshows hgrid,
      hcount.mpr hfirst⟩

end OffsetReader

end WaterStructure
