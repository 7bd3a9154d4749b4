import WaterStructure.Formats.GangBanStreamReading

/-!
# What a GangBan stream becomes

Where the blocks of a stream end, and which streams the reader accepts. A structure begins at the minimum
of its blocks and is as large as their bounds.
-/

namespace WaterStructure

namespace GangBan

open FuHong (Bounds BoundsOf Registry addBounds)
open NestedLoop

/-! ## Bounds -/

/-- No two blocks are so far apart that the size would leave the range of an `int32`. -/
def Narrow (blocks : List Block) : Prop :=
  ∀ first ∈ blocks, ∀ second ∈ blocks, first.world.x - second.world.x < int32Max ∧
    first.world.y - second.world.y < int32Max ∧ first.world.z - second.world.z < int32Max

/-- The size of some bounds. -/
def extents (bounds : Bounds) : Size :=
  ⟨bounds.maximum.x - bounds.minimum.x + 1, bounds.maximum.y - bounds.minimum.y + 1,
    bounds.maximum.z - bounds.minimum.z + 1⟩

theorem boundsOf_foldl {cells others : List BlockPos} {bounds : Option Bounds} (h : BoundsOf cells bounds) :
    BoundsOf (cells ++ others) (others.foldl addBounds bounds) := by
  induction others generalizing cells bounds with
  | nil => rwa [List.append_nil]
  | cons pos rest ih =>
    have hrest := ih (h.add pos)
    rwa [List.append_assoc, List.singleton_append] at hrest

theorem boundsSize_ok {cells : List BlockPos} {bounds : Bounds} (h : bounds.Of cells) {size : Size} :
    boundsSize (some bounds) = .ok size ↔ size = extents bounds ∧
      bounds.maximum.x - bounds.minimum.x < int32Max ∧ bounds.maximum.y - bounds.minimum.y < int32Max ∧
      bounds.maximum.z - bounds.minimum.z < int32Max := by
  have hx := h.x.le
  have hy := h.y.le
  have hz := h.z.le
  rw [boundsSize]
  split_ifs with hwide
  · refine iff_of_false (fun hno => by cases hno) fun hnarrow => ?_
    obtain ⟨-, hx', hy', hz'⟩ := hnarrow
    omega
  · constructor
    · intro hsize
      cases hsize
      exact ⟨rfl, by omega, by omega, by omega⟩
    · rintro ⟨rfl, -⟩
      rfl

theorem narrow_iff {blocks : List Block} {bounds : Bounds} (h : bounds.Of (blocks.map Block.world)) :
    Narrow blocks ↔ bounds.maximum.x - bounds.minimum.x < int32Max ∧
      bounds.maximum.y - bounds.minimum.y < int32Max ∧ bounds.maximum.z - bounds.minimum.z < int32Max := by
  have hmem {f : BlockPos → ℤ} {value : ℤ} (hvalue : value ∈ (blocks.map Block.world).map f) :
      ∃ block ∈ blocks, f block.world = value := by
    rw [List.map_map] at hvalue
    exact List.mem_map.mp hvalue
  constructor
  · intro hnarrow
    obtain ⟨lowX, hlowX, hx⟩ := hmem h.x.least
    obtain ⟨highX, hhighX, hx'⟩ := hmem h.x.greatest
    obtain ⟨lowY, hlowY, hy⟩ := hmem h.y.least
    obtain ⟨highY, hhighY, hy'⟩ := hmem h.y.greatest
    obtain ⟨lowZ, hlowZ, hz⟩ := hmem h.z.least
    obtain ⟨highZ, hhighZ, hz'⟩ := hmem h.z.greatest
    rw [← hx, ← hx', ← hy, ← hy', ← hz, ← hz']
    exact ⟨(hnarrow highX hhighX lowX hlowX).1, (hnarrow highY hhighY lowY hlowY).2.1,
      (hnarrow highZ hhighZ lowZ hlowZ).2.2⟩
  · rintro ⟨hx, hy, hz⟩ first hfirst second hsecond
    have hfirst' := List.mem_map_of_mem (f := Block.world) hfirst
    have hsecond' := List.mem_map_of_mem (f := Block.world) hsecond
    have hx₁ := h.x.between _ (List.mem_map_of_mem hfirst')
    have hx₂ := h.x.between _ (List.mem_map_of_mem hsecond')
    have hy₁ := h.y.between _ (List.mem_map_of_mem hfirst')
    have hy₂ := h.y.between _ (List.mem_map_of_mem hsecond')
    have hz₁ := h.z.between _ (List.mem_map_of_mem hfirst')
    have hz₂ := h.z.between _ (List.mem_map_of_mem hsecond')
    omega

/-! ## Positions in range -/

theorem isInt32_of_jsonI32 {value : Json} {field : String} {number : ℤ} (h : jsonI32 value field = .ok number) :
    IsInt32 number := by
  rw [jsonI32] at h
  obtain ⟨found, -, h⟩ := exists_of_bind_ok h
  obtain ⟨hfits, h⟩ := then_of_ok h
  cases h
  exact hfits

theorem FieldStream.fits {entries : List Json} {blocks : List Block} (h : FieldStream entries blocks) :
    ∀ block ∈ blocks, block.world.FitsInt32 := by
  have hfields {fields : List Json} {base : List ℤ} (hbase : fieldNumbers fields = .ok base)
      (payload : Option Json) : (blockOfFields base payload).world.FitsInt32 := by
    have hall : ∀ number ∈ base, IsInt32 number :=
      forall_of_mapM_ok (fun field number hnumber => isInt32_of_jsonI32 hnumber) hbase
    have hget (index : ℕ) : IsInt32 (base.getD index 0) := by
      rw [List.getD_eq_getElem?_getD]
      cases hindex : base[index]? with
      | none => exact (by decide : IsInt32 0)
      | some number => exact hall number (List.mem_of_getElem? hindex)
    exact ⟨hget 1, hget 2, hget 3⟩
  induction h with
  | nil => exact fun block hno => absurd hno List.not_mem_nil
  | bare hbase _ _ ih => exact List.forall_mem_cons.mpr ⟨hfields hbase none, ih⟩
  | payload hbase _ _ _ ih => exact List.forall_mem_cons.mpr ⟨hfields hbase _, ih⟩

theorem DeltaStream.fits {position : BlockPos} {entries : List Json} {blocks : List Block}
    (h : DeltaStream position entries blocks) : ∀ block ∈ blocks, block.world.FitsInt32 := by
  induction h with
  | nil => exact fun block hno => absurd hno List.not_mem_nil
  | text _ _ ih => exact ih
  | block _ _ _ _ hfits _ _ _ ih => exact List.forall_mem_cons.mpr ⟨hfits, ih⟩

theorem Describes.fits {version : StreamVersion} {document : Json} {palette : List (List Char)}
    {blocks : List Block} (h : Describes version document palette blocks) :
    ∀ block ∈ blocks, block.world.FitsInt32 := by
  cases h with
  | fields _ _ _ hblocks => exact hblocks.fits
  | deltas _ _ _ hblocks => exact hblocks.fits

/-! ## Reading -/

section Reading

variable {registry : Registry} {version : StreamVersion} {document : Json} {palette : List (List Char)}
  {blocks : List Block}

/-- A structure that a stream becomes: every block stands at its place without the minimum of all blocks,
and a later block replaces an earlier one. -/
structure ReadFrom (registry : Registry) (palette : List (List Char)) (blocks : List Block)
    (result : GangBanStructure) (bounds : Bounds) : Prop where
  extent : bounds.Of (blocks.map Block.world)
  size : result.store.originalSize = extents bounds
  content : ∀ cell, result.store.content registry.airRuntimeId cell =
    lastPlaced registry.airRuntimeId (blocks.map (Block.placement registry palette bounds.minimum)) cell
  inBounds : result.store.InBounds registry.airRuntimeId
  counted : result.nonAirBlocks = result.store.nonAirBlocks
  fits : ∀ block ∈ blocks, block.world.FitsInt32 ∧ (block.world.sub bounds.minimum).FitsInt32

/-- The distances to the minimum of blocks that are not too far apart. -/
theorem sub_minimum {bounds : Bounds} (hbounds : bounds.Of (blocks.map Block.world)) (hnarrow : Narrow blocks)
    {block : Block} (hblock : block ∈ blocks) : (block.world.sub bounds.minimum).FitsInt32 ∧
      (extents bounds).Contains (block.world.sub bounds.minimum) := by
  obtain ⟨hx, hy, hz⟩ := (narrow_iff hbounds).mp hnarrow
  have hmem := List.mem_map_of_mem (f := Block.world) hblock
  have hx' := hbounds.x.between _ (List.mem_map_of_mem hmem)
  have hy' := hbounds.y.between _ (List.mem_map_of_mem hmem)
  have hz' := hbounds.z.between _ (List.mem_map_of_mem hmem)
  simp only [BlockPos.FitsInt32, Size.Contains, extents, BlockPos.sub, IsInt32, int32Min, int32Max] at hx hy hz ⊢
  omega

/-- The passes over a document with blocks. -/
theorem readBlocks_ok (hblocks : Describes version document palette blocks) {streamEnd : ℕ}
    (hend : readEnd version document = .ok (palette, streamEnd)) (hne : blocks ≠ []) (hnarrow : Narrow blocks)
    (hvalid : ∀ block ∈ blocks, block.Valid palette) :
    ∃ result bounds, readBlocks registry version palette streamEnd document = .ok result ∧
      ReadFrom registry palette blocks result bounds := by
  have hcells : BoundsOf (blocks.map Block.world) ((blocks.map Block.world).foldl addBounds none) := by
    have hstart : BoundsOf [] (none : Option Bounds) := rfl
    exact boundsOf_foldl hstart
  cases hfound : (blocks.map Block.world).foldl addBounds none with
  | none =>
    rw [hfound] at hcells
    exact absurd (List.map_eq_nil_iff.mp hcells) hne
  | some bounds =>
    rw [hfound] at hcells
    have hsize : boundsSize (some bounds) = .ok (extents bounds) :=
      (boundsSize_ok hcells).mpr ⟨rfl, (narrow_iff hcells).mp hnarrow⟩
    have hfirst : processStream registry version palette streamEnd false document {} =
        .ok (blocks.length, { bounds := some bounds }) := by
      refine (processStream_ok hend).mpr ⟨blocks, hblocks, rfl, visit_false_ok.mpr ⟨hvalid, ?_⟩⟩
      rw [hfound]
    obtain ⟨t, hvisit, hholds⟩ := @visit_true_ok registry palette 0 blocks
      { bounds := some bounds, store := SparseBlockStore.setSize {} (extents bounds) } (extents bounds) []
      hvalid (fun block hblock => (sub_minimum hcells hnarrow hblock).1)
      (SparseBlockStore.holdsPlaced_setSize registry.airRuntimeId (extents bounds) false)
    have hsecond : processStream registry version palette streamEnd true document
        { bounds := some bounds, store := SparseBlockStore.setSize {} (extents bounds) } =
          .ok (blocks.length, t) := (processStream_ok hend).mpr ⟨blocks, hblocks, rfl, hvisit⟩
    rw [List.nil_append] at hholds
    refine ⟨⟨t.store, t.store.nonAirBlocks⟩, bounds, ?_, hcells, hholds.originalSize, hholds.content,
      hholds.inBounds ?_, rfl, fun block hblock => ⟨hblocks.fits block hblock,
        (sub_minimum hcells hnarrow hblock).1⟩⟩
    · rw [readBlocks, hfirst, ok_bind, if_neg (List.length_pos_of_ne_nil hne).ne', hsize, ok_bind]
      change (processStream registry version palette streamEnd true document
        { bounds := some bounds, store := SparseBlockStore.setSize {} (extents bounds) } >>= _) = _
      rw [hsecond, ok_bind, if_neg (not_not_intro rfl)]
      rfl
    · intro placement hplacement
      obtain ⟨block, hblock, rfl⟩ := List.mem_map.mp hplacement
      exact (sub_minimum hcells hnarrow hblock).2

/-- What is known of a document that has been read. -/
theorem describes_of_readStream {result : GangBanStructure}
    (h : readStream registry version document = .ok result) : ∃ palette streamEnd blocks,
      Describes version document palette blocks ∧ readEnd version document = .ok (palette, streamEnd) ∧
      readBlocks registry version palette streamEnd document = .ok result ∧ blocks ≠ [] ∧ Narrow blocks ∧
      ∀ block ∈ blocks, block.Valid palette := by
  have hread := mapError_ok.mp h
  obtain ⟨⟨palette, streamEnd⟩, hend, hread⟩ := exists_of_bind_ok hread
  have hresult := hread
  rw [readBlocks] at hread
  obtain ⟨⟨count, t⟩, hfirst, hread⟩ := exists_of_bind_ok hread
  obtain ⟨blocks, hblocks, rfl, hvisit⟩ := (processStream_ok hend).mp hfirst
  obtain ⟨hvalid, rfl⟩ := visit_false_ok.mp hvisit
  obtain ⟨hsome, hread⟩ := else_of_ok hread
  have hne : blocks ≠ [] := fun hnone => hsome (by rw [hnone]; rfl)
  have hcells : BoundsOf (blocks.map Block.world) ((blocks.map Block.world).foldl addBounds none) := by
    have hstart : BoundsOf [] (none : Option Bounds) := rfl
    exact boundsOf_foldl hstart
  obtain ⟨size, hsize, hread⟩ := exists_of_bind_ok hread
  dsimp only at hsize
  cases hfound : (blocks.map Block.world).foldl addBounds none with
  | none =>
    rw [hfound] at hcells
    exact absurd (List.map_eq_nil_iff.mp hcells) hne
  | some bounds =>
    rw [hfound] at hcells hsize
    exact ⟨palette, streamEnd, blocks, hblocks, hend, hresult, hne,
      (narrow_iff hcells).mpr ((boundsSize_ok hcells).mp hsize).2, hvalid⟩

end Reading

/-- Streams of blocks are read exactly. A document is accepted if it has the form of its version with at
least one block, the blocks are valid and they are not too far apart. Both passes go over the blocks in
their order, and the structure holds them without the minimum. -/
theorem readStream_blocks (registry : Registry) (version : StreamVersion) (document : Json) :
    ((∃ result, readStream registry version document = .ok result) ↔ ∃ palette blocks,
      Describes version document palette blocks ∧ blocks ≠ [] ∧ Narrow blocks ∧
        ∀ block ∈ blocks, block.Valid palette) ∧
    ∀ palette blocks, Describes version document palette blocks →
      (∃ streamEnd, readEnd version document = .ok (palette, streamEnd) ∧ ∀ materialize s count t,
        processStream registry version palette streamEnd materialize document s = .ok (count, t) ↔
          count = blocks.length ∧ visit registry palette materialize 0 blocks s = .ok t) ∧
      ∀ result, readStream registry version document = .ok result →
        ∃ bounds, ReadFrom registry palette blocks result bounds := by
  refine ⟨⟨?_, ?_⟩, fun palette blocks hblocks => ⟨?_, ?_⟩⟩
  · rintro ⟨result, hresult⟩
    obtain ⟨palette, streamEnd, blocks, hblocks, -, -, hgood⟩ := describes_of_readStream hresult
    exact ⟨palette, blocks, hblocks, hgood⟩
  · rintro ⟨palette, blocks, hblocks, hne, hnarrow, hvalid⟩
    obtain ⟨streamEnd, hend⟩ := hblocks.readEnd
    obtain ⟨result, bounds, hresult, -⟩ := @readBlocks_ok registry version document palette blocks hblocks
      streamEnd hend hne hnarrow hvalid
    refine ⟨result, mapError_ok.mpr ?_⟩
    rw [hend]
    exact hresult
  · obtain ⟨streamEnd, hend⟩ := hblocks.readEnd
    refine ⟨streamEnd, hend, fun materialize s count t => (processStream_ok hend).trans ?_⟩
    constructor
    · rintro ⟨others, hothers, hvisit⟩
      rw [(hblocks.unique hothers).2] at hvisit
      exact hvisit
    · exact fun hvisit => ⟨blocks, hblocks, hvisit⟩
  · intro result hresult
    obtain ⟨palette', streamEnd, blocks', hblocks', hend, hread, hne, hnarrow, hvalid⟩ :=
      describes_of_readStream hresult
    obtain ⟨rfl, rfl⟩ := hblocks.unique hblocks'
    obtain ⟨other, bounds, hother, hfrom⟩ := @readBlocks_ok registry version document _ _ hblocks'
      streamEnd hend hne hnarrow hvalid
    rw [hread] at hother
    cases hother
    exact ⟨bounds, hfrom⟩

/-- A document of the sixth version with a palette and no block. -/
def emptyStream : Json := .array [.array [.string "minecraft:stone".toList]]

/-- A stream without a block has the form of its version, and is refused. -/
theorem readStream_empty : Describes .V6 emptyStream ["minecraft:stone".toList] [] ∧
    ∀ registry, readStream registry .V6 emptyStream =
      .error "parse GangBanV6 failed: structure has no blocks" :=
  ⟨@Describes.deltas .V6 _ [] (.array [.string "minecraft:stone".toList]) _ _ (by decide) rfl rfl (.nil _),
    fun _ => rfl⟩

end GangBan

end WaterStructure
