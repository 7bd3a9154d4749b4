import WaterStructure.Core.SparseBlockStore
import WaterStructure.Formats.CommandRereads
import WaterStructure.World.GridCoverage

/-!
# Structures that are moved after they are read

The sparse block store and the objects of the two command readers are structures with an offset.
The store keeps its count while blocks are put; the readers count the grid of the offset that they
have at the first count.
-/

namespace WaterStructure

theorem CommandList.canGrow_zero (list : CommandList) : list.size.CanGrow ⟨0, 0, 0⟩ := by
  have hwidth := list.width_le
  have hheight := list.height_le
  have hlength := list.length_le
  simp only [Size.CanGrow, abs_zero, add_zero]
  exact ⟨hwidth, hheight, hlength, by decide, by decide⟩

/-- The size that the readers report is the grown one if that fits. -/
theorem Size.CanGrow.expand_eq {size : Size} {offset : BlockPos} (h : size.CanGrow offset) :
    size.expand offset = size.grow offset := by
  have hexpanded {base delta : ℤ} (hbase : base + |delta| ≤ int32Max) :
      expanded base delta = base + |delta| := by
    rw [expanded]
    split_ifs with hneg
    · rw [← abs_of_neg hneg, min_eq_left hbase]
    · rw [abs_of_nonneg (Int.not_lt.mp hneg)] at hbase ⊢
      exact min_eq_left hbase
  rw [Size.expand, Size.grow, hexpanded h.1, hexpanded h.2.1, hexpanded h.2.2.1]

/-- The local block that a list of commands paints on a cell. -/
def CommandList.content (list : CommandList) (air : RuntimeId) (cell : BlockPos) : RuntimeId :=
  (painted list.commands ⟨0, 0, 0⟩ cell).getD air

/-- Moving the commands moves what they paint. -/
theorem painted_sub (commands : List CuboidCommand) (offset pos : BlockPos) :
    painted commands offset pos = painted commands ⟨0, 0, 0⟩ (pos.sub offset) := by
  have hcovers (command : CuboidCommand) :
      command.Covers offset pos ↔ command.Covers ⟨0, 0, 0⟩ (pos.sub offset) := by
    simp only [CuboidCommand.Covers, BlockPos.sub]
    omega
  refine LastValue.lastValue_congr fun command _ => ?_
  rw [CuboidCommand.paints, CuboidCommand.paints]
  exact if_congr (hcovers command) rfl rfl

/-- Commands paint cells of the structure only. -/
theorem CommandList.contains_of_content {list : CommandList} {air : RuntimeId} {cell : BlockPos}
    (h : list.content air cell ≠ air) : list.size.Contains cell := by
  by_contra houtside
  have hnone : painted list.commands ⟨0, 0, 0⟩ cell = none := by
    apply LastValue.lastValue_eq_none.mpr
    intro command hcommand
    apply if_neg
    intro hcovers
    have hinside := list.inside command hcommand
    simp only [CuboidCommand.Covers, CuboidCommand.Inside, Size.Contains] at hcovers hinside houtside
    omega
  rw [CommandList.content, hnone] at h
  exact h rfl

namespace SparseBlockStore

variable {Nbt : Type}

/-- `SparseBlockStore` as a structure that can be moved. -/
def offsetReader (air : RuntimeId) : OffsetReader (SparseBlockStore Nbt) where
  size := SparseBlockStore.size
  setOffset := setOffset
  getChunks store positions := (store.getChunks air positions).map fun chunks => (chunks, store)
  countNonAirBlocks store := .ok (store.nonAirBlocks, store)

/-- The store holds the content under the offset. -/
structure Holds (air : RuntimeId) (content : BlockPos → RuntimeId) (size : Size)
    (offset : BlockPos) (cached : Option ℕ) (store : SparseBlockStore Nbt) : Prop where
  inBounds : store.InBounds air
  content_eq : store.content air = content
  originalSize : store.originalSize = size
  offset_eq : store.offset = offset
  size_eq : store.size = size.grow offset
  canGrow : size.CanGrow offset
  cached_eq : cached = some store.nonAirBlocks

theorem Holds.moves {air : RuntimeId} {content : BlockPos → RuntimeId} {size : Size}
    {offset : BlockPos} {cached : Option ℕ} {store : SparseBlockStore Nbt}
    (h : store.Holds air content size offset cached) : store.Moves := by
  intro cell hcell
  rw [h.originalSize] at hcell
  obtain ⟨hx, hy, hz⟩ := hcell
  obtain ⟨hwidth, hheight, hlength, ⟨hoffsetX, hoffsetY, hoffsetZ⟩, hlow⟩ := h.canGrow
  have hleX := le_abs_self offset.x
  have hleY := le_abs_self offset.y
  have hleZ := le_abs_self offset.z
  rw [h.offset_eq]
  simp only [BlockPos.add, IsInt32, int32Min, int32Max] at *
  omega

theorem lawful (air : RuntimeId) {content : BlockPos → RuntimeId} {size : Size}
    (hinside : ∀ cell, content cell ≠ air → size.Contains cell) :
    (offsetReader air : OffsetReader (SparseBlockStore Nbt)).Lawful air content size
      (Holds air content size) where
  inside := hinside
  size_eq h := h.size_eq
  setOffset h _ hgrow :=
    { inBounds := ⟨h.inBounds.inside, h.inBounds.outside, h.inBounds.counted⟩
      content_eq := h.content_eq
      originalSize := h.originalSize
      offset_eq := rfl
      size_eq := by
        rw [← h.originalSize]
        rfl
      canGrow := hgrow
      cached_eq := h.cached_eq }
  getChunks {offset cached store} h positions := by
    obtain ⟨chunks, hchunks, hblocks⟩ := h.inBounds.getChunks_ok h.moves positions
    refine ⟨chunks, store, congrArg (Except.map _) hchunks, h, fun pos => ?_⟩
    rw [hblocks, h.content_eq, h.offset_eq]
  kept {offset count store} h := by
    have hcount := Option.some.inj h.cached_eq
    rw [hcount]
    rfl
  counted h := nomatch h.cached_eq

/-- A store into which blocks inside the declared size are put. -/
def ofBlocks (air : RuntimeId) (size : Size) (enabled : Bool)
    (blocks : List (BlockPos × RuntimeId)) : SparseBlockStore Nbt :=
  blocks.foldl (fun store block => store.put air block.1 block.2)
    ((({} : SparseBlockStore Nbt).setSize size).setIncludeOutOfBounds enabled)

/-- Putting blocks inside the declared size. -/
theorem inBounds_ofBlocks {air : RuntimeId} {size : Size} {enabled : Bool}
    {blocks : List (BlockPos × RuntimeId)} (h : ∀ block ∈ blocks, size.Contains block.1) :
    (ofBlocks air size enabled blocks : SparseBlockStore Nbt).InBounds air ∧
      (ofBlocks air size enabled blocks : SparseBlockStore Nbt).originalSize = size ∧
      (ofBlocks air size enabled blocks : SparseBlockStore Nbt).size = size ∧
      (ofBlocks air size enabled blocks : SparseBlockStore Nbt).offset = ⟨0, 0, 0⟩ := by
  have hput (store : SparseBlockStore Nbt) (hstore : store.InBounds air)
      (hsize : store.originalSize = size) (blocks : List (BlockPos × RuntimeId))
      (hblocks : ∀ block ∈ blocks, size.Contains block.1) :
      (blocks.foldl (fun store block => store.put air block.1 block.2) store).InBounds air ∧
        (blocks.foldl (fun store block => store.put air block.1 block.2) store).originalSize =
          store.originalSize ∧
        (blocks.foldl (fun store block => store.put air block.1 block.2) store).size = store.size ∧
        (blocks.foldl (fun store block => store.put air block.1 block.2) store).offset =
          store.offset := by
    induction blocks generalizing store with
    | nil => exact ⟨hstore, rfl, rfl, rfl⟩
    | cons first rest ih =>
      exact ih (store.put air first.1 first.2)
        (hstore.put (hsize ▸ hblocks first List.mem_cons_self) first.2) hsize
        fun block hblock => hblocks block (List.mem_cons_of_mem _ hblock)
  exact hput _ (inBounds_setSize size air enabled) rfl blocks h

/-- Blocks are put on cells of the structure only. -/
theorem InBounds.contains_of_content {air : RuntimeId} {store : SparseBlockStore Nbt} (h : store.InBounds air)
    {cell : BlockPos} (hcell : store.content air cell ≠ air) : store.originalSize.Contains cell := by
  apply h.inside
  by_contra hmissing
  exact hcell (congrArg (Option.getD · air) (AList.lookup_eq_none.mpr hmissing))

theorem holds_ofBlocks {air : RuntimeId} {size : Size} {enabled : Bool} {blocks : List (BlockPos × RuntimeId)}
    (h : ∀ block ∈ blocks, size.Contains block.1) (hgrow : size.CanGrow ⟨0, 0, 0⟩) :
    (ofBlocks air size enabled blocks : SparseBlockStore Nbt).Holds air
      ((ofBlocks air size enabled blocks : SparseBlockStore Nbt).content air) size ⟨0, 0, 0⟩
      (some (ofBlocks air size enabled blocks : SparseBlockStore Nbt).nonAirBlocks) := by
  obtain ⟨hinBounds, horiginal, hsize, hoffset⟩ := @inBounds_ofBlocks Nbt air size enabled blocks h
  exact
    { inBounds := hinBounds
      content_eq := rfl
      originalSize := horiginal
      offset_eq := hoffset
      size_eq := by simp [hsize, Size.grow]
      canGrow := hgrow
      cached_eq := rfl }

end SparseBlockStore

namespace McFunctionObject

/-- An MCFunction object as a structure that can be moved. -/
def offsetReader (air : RuntimeId) : OffsetReader McFunctionObject where
  size object := object.size
  setOffset := setOffset
  getChunks object := object.getChunks air
  countNonAirBlocks object := object.countNonAirBlocks air

/-- The object holds the commands under the offset. -/
structure Holds (list : CommandList) (offset : BlockPos) (cached : Option ℕ)
    (object : McFunctionObject) : Prop where
  valid : object.toMcFunctionStructure.Valid list
  offset_eq : object.offset = offset
  size_eq : object.size = list.size.grow offset
  canGrow : list.size.CanGrow offset
  cached_eq : object.nonAirBlocks = cached

theorem holds_ofRead (list : CommandList) :
    Holds list ⟨0, 0, 0⟩ none ⟨.ofRead list.commands list.size, none⟩ where
  valid := ⟨rfl, rfl, zero_fitsInt32, fun _ hindex => nomatch hindex⟩
  offset_eq := rfl
  size_eq := list.canGrow_zero.expand_eq
  canGrow := list.canGrow_zero
  cached_eq := rfl

theorem lawful (list : CommandList) (air : RuntimeId) :
    (offsetReader air).Lawful air (list.content air) list.size (Holds list) where
  inside _ h := CommandList.contains_of_content h
  size_eq h := h.size_eq
  setOffset {offset cached object} h next hgrow :=
    { valid := h.valid.setOffset hgrow.2.2.2.1
      offset_eq := rfl
      size_eq := (congrArg (Size.expand · next) h.valid.originalSize).trans hgrow.expand_eq
      canGrow := hgrow
      cached_eq := h.cached_eq }
  getChunks {offset cached object} h positions := by
    obtain ⟨chunks, index, hchunks, hpaints, hfor⟩ := h.valid.getChunks air positions
    refine ⟨chunks, _, congrArg (Except.map _) hchunks, ⟨⟨h.valid.commands, h.valid.originalSize,
      h.valid.offset, ?_⟩, h.offset_eq, h.size_eq, h.canGrow, h.cached_eq⟩, fun pos => ?_⟩
    · intro found hfound
      cases hfound
      exact hfor
    · rw [hpaints pos, painted_sub, h.offset_eq]
      rfl
  kept {offset count object} h := by
    have hcount := h.cached_eq
    simp only [offsetReader, countNonAirBlocks, hcount]
  counted {offset object} h count t ht hgrid := by
    refine ⟨{ t with nonAirBlocks := some count }, ?_,
      ⟨ht.valid, ht.offset_eq, ht.size_eq, ht.canGrow, rfl⟩⟩
    have hnone := h.cached_eq
    simp only [offsetReader, countNonAirBlocks, hnone]
    exact congrArg (Except.map _) hgrid

end McFunctionObject

namespace IbImportObject

/-- An IBImport object as a structure that can be moved. -/
def offsetReader (air : RuntimeId) : OffsetReader IbImportObject where
  size object := object.size
  setOffset := setOffset
  getChunks object := object.getChunks air
  countNonAirBlocks object := object.countNonAirBlocks air

/-- The object holds the commands under the offset. -/
structure Holds (list : CommandList) (offset : BlockPos) (cached : Option ℕ)
    (object : IbImportObject) : Prop where
  valid : object.toIbImportStructure.Valid list
  originalSize : object.originalSize = list.size
  offset_eq : object.offset = offset
  size_eq : object.size = list.size.grow offset
  canGrow : list.size.CanGrow offset
  cached_eq : object.nonAirBlocks = cached

theorem holds_ofRead (list : CommandList) (nbtBlocks : List IbImport.NbtBlock) :
    Holds list ⟨0, 0, 0⟩ none ⟨.ofRead list.commands list.size, nbtBlocks, none⟩ where
  valid := ⟨rfl, zero_fitsInt32, fun _ hindex => nomatch hindex⟩
  originalSize := rfl
  offset_eq := rfl
  size_eq := list.canGrow_zero.expand_eq
  canGrow := list.canGrow_zero
  cached_eq := rfl

theorem lawful (list : CommandList) (air : RuntimeId) :
    (offsetReader air).Lawful air (list.content air) list.size (Holds list) where
  inside _ h := CommandList.contains_of_content h
  size_eq h := h.size_eq
  setOffset {offset cached object} h next hgrow :=
    { valid := h.valid.setOffset hgrow.2.2.2.1
      originalSize := h.originalSize
      offset_eq := rfl
      size_eq := (congrArg (Size.expand · next) h.originalSize).trans hgrow.expand_eq
      canGrow := hgrow
      cached_eq := h.cached_eq }
  getChunks {offset cached object} h positions := by
    obtain ⟨chunks, hchunks, hpaints⟩ := h.valid.getChunks air positions
    refine ⟨chunks, _, congrArg (Except.map _) hchunks, ⟨⟨h.valid.commands, h.valid.offset, ?_⟩,
      h.originalSize, h.offset_eq, h.size_eq, h.canGrow, h.cached_eq⟩, fun pos => ?_⟩
    · intro found hfound
      cases hfound
      rfl
    · rw [hpaints pos, painted_sub, h.offset_eq]
      rfl
  kept {offset count object} h := by
    have hcount := h.cached_eq
    simp only [offsetReader, countNonAirBlocks, hcount]
  counted {offset object} h count t ht hgrid := by
    refine ⟨{ t with nonAirBlocks := some count }, ?_,
      ⟨ht.valid, ht.originalSize, ht.offset_eq, ht.size_eq, ht.canGrow, rfl⟩⟩
    have hnone := h.cached_eq
    simp only [offsetReader, countNonAirBlocks, hnone]
    exact congrArg (Except.map _) hgrid

end IbImportObject

/-- Whatever was requested before, the grid of a store covers its blocks and a conversion writes
them exactly when none of them is moved below zero; its count is always right. For the command
readers none may be below zero at the first count either. -/
theorem exact_iff_staysInGrid (air : RuntimeId) :
    (∀ (Nbt : Type) size enabled blocks requests (store : SparseBlockStore Nbt),
      (∀ block ∈ blocks, size.Contains block.1) → size.CanGrow ⟨0, 0, 0⟩ →
      TransitionSystem.run ((SparseBlockStore.offsetReader air).step size)
        (SparseBlockStore.ofBlocks air size enabled blocks) requests = some store →
      let content := (SparseBlockStore.ofBlocks air size enabled blocks :
        SparseBlockStore Nbt).content air
      (SparseBlockStore.offsetReader air).Exact air content size store ↔
        StaysInGrid air content (offsetAfter ⟨0, 0, 0⟩ requests)) ∧
    (∀ (list : CommandList) requests object,
      TransitionSystem.run ((McFunctionObject.offsetReader air).step list.size)
        ⟨.ofRead list.commands list.size, none⟩ requests = some object →
      ((McFunctionObject.offsetReader air).Exact air (list.content air) list.size object ↔
        StaysInGrid air (list.content air) (offsetAfter ⟨0, 0, 0⟩ requests) ∧
          StaysInGrid air (list.content air)
            ((firstCount ⟨0, 0, 0⟩ requests).getD (offsetAfter ⟨0, 0, 0⟩ requests)))) ∧
    ∀ (list : CommandList) nbtBlocks requests object,
      TransitionSystem.run ((IbImportObject.offsetReader air).step list.size)
        ⟨.ofRead list.commands list.size, nbtBlocks, none⟩ requests = some object →
      ((IbImportObject.offsetReader air).Exact air (list.content air) list.size object ↔
        StaysInGrid air (list.content air) (offsetAfter ⟨0, 0, 0⟩ requests) ∧
          StaysInGrid air (list.content air)
            ((firstCount ⟨0, 0, 0⟩ requests).getD (offsetAfter ⟨0, 0, 0⟩ requests))) := by
  refine ⟨?_, ?_, ?_⟩
  · intro Nbt size enabled blocks requests store hblocks hgrow hrun content
    have hholds := @SparseBlockStore.holds_ofBlocks Nbt air size enabled blocks hblocks hgrow
    have hinside : ∀ cell, content cell ≠ air → size.Contains cell := fun cell hcell =>
      hholds.originalSize ▸ hholds.inBounds.contains_of_content hcell
    have hcounted := hholds.inBounds.counted
    rw [hholds.originalSize] at hcounted
    rw [(SparseBlockStore.lawful air hinside).exact_iff hholds
      (fun count hcount => (Option.some.inj hcount).symm.trans hcounted) hrun]
    exact and_iff_left fun hnone => absurd hnone (Option.some_ne_none _)
  · intro list requests object hrun
    rw [(McFunctionObject.lawful list air).exact_iff (McFunctionObject.holds_ofRead list)
      (fun count hcount => by cases hcount) hrun]
    exact and_congr_right fun _ => forall_prop_of_true rfl
  · intro list nbtBlocks requests object hrun
    rw [(IbImportObject.lawful list air).exact_iff (IbImportObject.holds_ofRead list nbtBlocks)
      (fun count hcount => by cases hcount) hrun]
    exact and_congr_right fun _ => forall_prop_of_true rfl

/-- A store whose only block is moved to the origin, and both readers moved by a whole chunk. -/
theorem exact_iff_staysInGrid_moved :
    (∃ store : SparseBlockStore Unit,
      TransitionSystem.run ((SparseBlockStore.offsetReader 0).step ⟨2, 1, 1⟩)
        (SparseBlockStore.ofBlocks 0 ⟨2, 1, 1⟩ false [(⟨1, 0, 0⟩, 7)]) [.setOffset ⟨-1, 0, 0⟩] =
          some store ∧
      ((SparseBlockStore.offsetReader 0).Exact 0 ((SparseBlockStore.ofBlocks 0 ⟨2, 1, 1⟩ false
          [(⟨1, 0, 0⟩, 7)] : SparseBlockStore Unit).content 0) ⟨2, 1, 1⟩ store ↔
        StaysInGrid 0 ((SparseBlockStore.ofBlocks 0 ⟨2, 1, 1⟩ false [(⟨1, 0, 0⟩, 7)] :
          SparseBlockStore Unit).content 0) ⟨-1, 0, 0⟩)) ∧
    (∃ object, TransitionSystem.run ((McFunctionObject.offsetReader 0).step rowAndFill.size)
        ⟨.ofRead rowAndFill.commands rowAndFill.size, none⟩ [.setOffset ⟨16, 0, 0⟩] = some object ∧
      (McFunctionObject.offsetReader 0).Exact 0 (rowAndFill.content 0) rowAndFill.size object) ∧
    ∃ object, TransitionSystem.run ((IbImportObject.offsetReader 0).step rowAndFill.size)
        ⟨.ofRead rowAndFill.commands rowAndFill.size, [], none⟩ [.setOffset ⟨16, 0, 0⟩] =
          some object ∧
      (IbImportObject.offsetReader 0).Exact 0 (rowAndFill.content 0) rowAndFill.size object := by
  have hexact := exact_iff_staysInGrid 0
  have hstays : StaysInGrid 0 (rowAndFill.content 0) ⟨16, 0, 0⟩ := by
    intro cell hcell
    obtain ⟨hx, -, hz⟩ := CommandList.contains_of_content hcell
    dsimp only
    omega
  refine ⟨⟨_, rfl, ?_⟩, ⟨_, rfl, ?_⟩, _, rfl, ?_⟩
  · exact hexact.1 Unit _ false [(⟨1, 0, 0⟩, 7)] [.setOffset ⟨-1, 0, 0⟩] _ (by decide) (by decide) rfl
  · exact (hexact.2.1 rowAndFill [.setOffset ⟨16, 0, 0⟩] _ rfl).mpr ⟨hstays, hstays⟩
  · exact (hexact.2.2 rowAndFill [] [.setOffset ⟨16, 0, 0⟩] _ rfl).mpr ⟨hstays, hstays⟩

/-- Moved one block to the west, a row loses its first block. -/
theorem not_exact_west :
    ¬ ∀ (list : CommandList) requests object,
      TransitionSystem.run ((McFunctionObject.offsetReader 0).step list.size)
        ⟨.ofRead list.commands list.size, none⟩ requests = some object →
      (McFunctionObject.offsetReader 0).Exact 0 (list.content 0) list.size object := by
  intro h
  obtain ⟨hcovers, -⟩ := h rowAndFill [.setOffset ⟨-1, 0, 0⟩] _ rfl
  have hshown : ((((McFunctionObject.setOffset ⟨.ofRead rowAndFill.commands rowAndFill.size, none⟩
      ⟨-1, 0, 0⟩).getChunks 0 [⟨-1, 0⟩]).map Prod.fst).toOption.bind fun chunks =>
        chunks.blockAt 0 ⟨-1, 0, 0⟩) = some 7 := by
    decide +kernel
  cases hchunks : ((McFunctionObject.setOffset ⟨.ofRead rowAndFill.commands rowAndFill.size, none⟩
      ⟨-1, 0, 0⟩).getChunks 0 [⟨-1, 0⟩]).map Prod.fst with
  | error error =>
    rw [hchunks] at hshown
    cases hshown
  | ok chunks =>
    rw [hchunks] at hshown
    have hgrid := hcovers [⟨-1, 0⟩] chunks ⟨-1, 0, 0⟩ 7 hchunks hshown (by decide)
    have hnonneg := (ChunkStream.mem_gridPositions.mp hgrid).1.1
    revert hnonneg
    decide

end WaterStructure
