import Mathlib.Algebra.Order.Group.Unbundled.Int
import WaterStructure.Formats.FuHongOrder
import WaterStructure.Library.Extremes

/-!
# What the first pass over a FuHong document finds

The chunks, tuples and cells of a document, by the names of its members. The first pass collects the
origins of the chunks and the exact bounds of all cells, and checks that no coordinate leaves the range
of an `int32`.
-/

namespace WaterStructure

namespace FuHong

open Extremes Json NestedLoop ReorderedLoop StatefulRun

/-! ## The cells of a document -/

/-- The items of `FuHongBuild`. -/
def buildChunks (document : Json) : List Json :=
  ((document.member? "FuHongBuild").bind Json.items?).getD []

/-- The tuples of a chunk. -/
def chunkTuples (chunk : Json) : List Json :=
  (((chunk.member? "block").bind Json.items?).getD []).map Json.normal

def startOf (chunk : Json) (name : String) : ℤ :=
  ((chunk.member? name).map fun value => caught (i32 value name)).getD 0

def chunkOrigin (version : Version) (chunk : Json) : BlockPos :=
  if version = .V3 then ⟨startOf chunk "startX", 0, startOf chunk "startZ"⟩ else ⟨0, 0, 0⟩

/-- A tuple that has cells: one that starts with a text is a comment. -/
def tupleOf (value : Json) : Option Tuple :=
  (Tuple.ofJson value).toOption.filter fun tuple => !tuple.paletteIndex.isString

def cellOf (cell : Json × Json × Json) : BlockPos :=
  ⟨caught (i32 cell.1 "xs"), caught (i32 cell.2.1 "ys"), caught (i32 cell.2.2 "zs")⟩

/-- The cells of a tuple, without the origin of its chunk. -/
def Tuple.cells (tuple : Tuple) : List BlockPos := (tuple.coordinates.toOption.getD []).map cellOf

/-- The tuples of a document with the origins of their chunks, in document order. -/
def documentTuples (version : Version) (document : Json) : List (BlockPos × Tuple) :=
  (buildChunks document).flatMap fun chunk =>
    ((chunkTuples chunk).filterMap tupleOf).map fun tuple => (chunkOrigin version chunk, tuple)

/-- The cells of a tuple in the world. -/
def worldCells (entry : BlockPos × Tuple) : List BlockPos :=
  entry.2.cells.map fun cell => cell.add ⟨entry.1.x, 0, entry.1.z⟩

/-! ## Bounds -/

/-- The exact bounds of some cells. -/
structure Bounds.Of (cells : List BlockPos) (bounds : Bounds) : Prop where
  x : Extent (cells.map BlockPos.x) bounds.minimum.x bounds.maximum.x
  y : Extent (cells.map BlockPos.y) bounds.minimum.y bounds.maximum.y
  z : Extent (cells.map BlockPos.z) bounds.minimum.z bounds.maximum.z

/-- What is known of the bounds behind some cells. -/
def BoundsOf (cells : List BlockPos) : Option Bounds → Prop
  | none => cells = []
  | some bounds => bounds.Of cells

variable {cells : List BlockPos} {bounds : Bounds} {value : Json} {m m' : Metadata} {entry : ℕ}
  {palette : List (List Char)} {chunks : List Json}

theorem BoundsOf.add {bounds : Option Bounds} (h : BoundsOf cells bounds) (pos : BlockPos) :
    BoundsOf (cells ++ [pos]) (addBounds bounds pos) := by
  cases bounds with
  | none =>
    rw [show cells = [] from h]
    exact ⟨Extent.singleton _, Extent.singleton _, Extent.singleton _⟩
  | some bounds =>
    constructor
    · rw [List.map_append]
      exact h.x.append (Extent.singleton _)
    · rw [List.map_append]
      exact h.y.append (Extent.singleton _)
    · rw [List.map_append]
      exact h.z.append (Extent.singleton _)

/-- The bounds of a chunk extend the bounds of the chunks before it. -/
theorem BoundsOf.append {others : List BlockPos} {bounds : Option Bounds} (h : BoundsOf cells bounds)
    {other : Bounds} (hother : other.Of others) :
    BoundsOf (cells ++ others) (addBounds (addBounds bounds other.minimum) other.maximum) := by
  cases bounds with
  | none =>
    rw [show cells = [] from h, List.nil_append]
    exact ⟨hother.x.ends, hother.y.ends, hother.z.ends⟩
  | some bounds =>
    constructor
    · rw [List.map_append]
      exact h.x.append_ends hother.x
    · rw [List.map_append]
      exact h.y.append_ends hother.y
    · rw [List.map_append]
      exact h.z.append_ends hother.z

theorem Bounds.Of.shift (h : bounds.Of cells) (x z : ℤ) : Bounds.Of (cells.map fun cell => cell.add ⟨x, 0, z⟩)
      ⟨⟨x + bounds.minimum.x, bounds.minimum.y, z + bounds.minimum.z⟩,
        ⟨x + bounds.maximum.x, bounds.maximum.y, z + bounds.maximum.z⟩⟩ where
  x := by
    have hmap : (cells.map fun cell => cell.add ⟨x, 0, z⟩).map BlockPos.x =
        (cells.map BlockPos.x).map (x + ·) := by
      simp [List.map_map, Function.comp_def, BlockPos.add, add_comm]
    rw [hmap]
    exact h.x.map fun _ _ hle => by omega
  y := by
    have hmap : (cells.map fun cell => cell.add ⟨x, 0, z⟩).map BlockPos.y = cells.map BlockPos.y := by
      simp [List.map_map, Function.comp_def, BlockPos.add]
    rw [hmap]
    exact h.y
  z := by
    have hmap : (cells.map fun cell => cell.add ⟨x, 0, z⟩).map BlockPos.z =
        (cells.map BlockPos.z).map (z + ·) := by
      simp [List.map_map, Function.comp_def, BlockPos.add, add_comm]
    rw [hmap]
    exact h.z.map fun _ _ hle => by omega

/-! ## The cells of a chunk -/

/-- The cells of some tuples, without the origin of their chunk. -/
def cellsOf (tuples : List Json) : List BlockPos := (tuples.filterMap tupleOf).flatMap Tuple.cells

theorem cellsOf_append (first second : List Json) :
    cellsOf (first ++ second) = cellsOf first ++ cellsOf second := by
  rw [cellsOf, List.filterMap_append, List.flatMap_append]
  rfl

variable {field : String} {α : Type} {index : ℕ} {result : Except String α} {a : α} {tuple : Tuple}
  {chunk : Json} {layout : Layout}

theorem of_i32 {number : ℤ} (h : i32 value field = .ok number) :
    IsInt32 number ∧ caught (i32 value field) = number := by
  refine ⟨?_, by rw [h]; rfl⟩
  rw [i32] at h
  obtain ⟨found, _, h⟩ := exists_of_bind_ok h
  obtain ⟨hfits, h⟩ := then_of_ok h
  cases h
  exact hfits

theorem of_checkedAdd {left right sum : ℤ} (h : checkedAdd left right field = .ok sum) :
    sum = left + right ∧ IsInt32 (left + right) := by
  rw [checkedAdd] at h
  obtain ⟨hfits, h⟩ := then_of_ok h
  cases h
  exact ⟨rfl, hfits⟩

theorem of_inEntry (h : inEntry index result = .ok a) : result = .ok a := by
  cases result with
  | error error => cases h
  | ok b => exact h

theorem of_inChunk (h : inChunk index result = .ok a) : result = .ok a := by
  cases result with
  | error error => cases h
  | ok b => exact h

/-- The variables of the first pass behind some cells of a chunk. -/
structure BehindCells (start : Metadata) (cells : List BlockPos) (m : Metadata) : Prop where
  same : m = { start with relative := m.relative }
  bounds : BoundsOf cells m.relative.bounds
  fits : ∀ cell ∈ cells, cell.FitsInt32

theorem Relative.bounds_add (relative : Relative) (position : BlockPos) (entry : ℕ) :
    (relative.add position entry).bounds = addBounds relative.bounds position := by
  rw [Relative.add]
  split
  case h_1 hnone => rw [hnone]
  case h_2 => rfl

theorem BehindCells.addCell {start : Metadata} (h : BehindCells start cells m) {cell : Json × Json × Json}
    (hcell : addCell entry m cell = .ok m') : BehindCells start (cells ++ [cellOf cell]) m' := by
  rw [FuHong.addCell] at hcell
  obtain ⟨x, hx, hcell⟩ := exists_of_bind_ok hcell
  obtain ⟨y, hy, hcell⟩ := exists_of_bind_ok hcell
  obtain ⟨z, hz, hcell⟩ := exists_of_bind_ok hcell
  cases hcell
  have hcell : cellOf cell = ⟨x, y, z⟩ := by rw [cellOf, (of_i32 hx).2, (of_i32 hy).2, (of_i32 hz).2]
  rw [hcell]
  constructor
  · dsimp only
    rw [h.same]
  · dsimp only
    rw [Relative.bounds_add]
    exact h.bounds.add _
  · intro other hother
    rcases List.mem_append.mp hother with hmem | hmem
    · exact h.fits other hmem
    · rw [List.mem_singleton.mp hmem]
      exact ⟨(of_i32 hx).1, (of_i32 hy).1, (of_i32 hz).1⟩

theorem BehindCells.consumeCells {start : Metadata} (h : BehindCells start cells m)
    (htuple : consumeBoundsCells entry tuple m = .ok m') : BehindCells start (cells ++ tuple.cells) m' := by
  rw [consumeBoundsCells] at htuple
  obtain ⟨_, _, htuple⟩ := exists_of_bind_ok htuple
  obtain ⟨_, _, htuple⟩ := exists_of_bind_ok htuple
  obtain ⟨found, hfound, hrun⟩ := exists_of_bind_ok htuple
  have hloop := foldlM_ok_rule (fun done m => BehindCells start (cells ++ done.map cellOf) m)
    (fun done m cell _ next hm hcell => by
      rw [List.map_append, ← List.append_assoc]
      exact hm.addCell hcell) (by rwa [List.map_nil, List.append_nil]) hrun
  rw [Tuple.cells, hfound]
  exact hloop

theorem tupleOf_eq (h : Tuple.ofJson value = .ok tuple) :
    tupleOf value = if tuple.paletteIndex.isString then none else some tuple := by
  rw [tupleOf, h]
  cases hcomment : tuple.paletteIndex.isString <;> simp [Except.toOption, Option.filter, hcomment]

theorem BehindCells.consumeTuple {start : Metadata} (h : BehindCells start cells m)
    (htuple : consumeBoundsTuple entry value m = .ok m') : BehindCells start (cells ++ cellsOf [value]) m' := by
  obtain ⟨tuple, hvalue, htuple⟩ := exists_of_bind_ok (of_inEntry htuple)
  have hof := tupleOf_eq hvalue
  split_ifs at htuple with hblocks
  · cases htuple
    rw [cellsOf, List.filterMap_cons, hof, if_pos hblocks]
    simpa using h
  · rw [cellsOf, List.filterMap_cons, hof, if_neg hblocks]
    simpa using h.consumeCells htuple

/-- The loop over the tuples of a chunk. -/
theorem BehindCells.readTuples {version : Version} {chunkIndex : ℕ} {start : Metadata}
    {s t : ChunkState Metadata} (h : BehindCells start [] s.acc) {tuples : List Json}
    (hrun : tuples.foldlM ((metadataHooks version).readTuple chunkIndex) s = .ok t) :
    BehindCells start (cellsOf (tuples.map Json.normal)) t.acc ∧ t.hasBlockList = s.hasBlockList := by
  have hinit : BehindCells start (cellsOf (([] : List Json).map Json.normal)) s.acc := h
  refine foldlM_ok_rule (fun done t => BehindCells start (cellsOf (done.map Json.normal)) t.acc ∧
    t.hasBlockList = s.hasBlockList) (fun done t tuple _ next ht htuple => ?_) ⟨hinit, rfl⟩ hrun
  obtain ⟨acc, hacc, hnext⟩ := exists_of_bind_ok htuple
  cases hnext
  rw [List.map_append, cellsOf_append]
  exact ⟨ht.1.consumeTuple hacc, ht.2⟩

/-- The variables of the first pass that belong to no chunk. -/
def Metadata.outside (m : Metadata) : List (List Char) × List BlockPos × Option Bounds :=
  (m.palette, m.chunkOrigins, m.bounds)

/-- What the first pass knows of a chunk behind some of its members. -/
structure BehindMembers (version : Version) (start : Metadata) (done : List (List Char × Json))
    (s : ChunkState Metadata) : Prop where
  has : s.hasBlockList = (done.lookup "block".toList).isSome
  outside : s.acc.outside = start.outside
  bounds : BoundsOf (cellsOf (chunkTuples (.object done))) s.acc.relative.bounds
  fits : ∀ cell ∈ cellsOf (chunkTuples (.object done)), cell.FitsInt32
  startX : version = .V3 → s.acc.startX = startOf (.object done) "startX"
  startZ : version = .V3 → s.acc.startZ = startOf (.object done) "startZ"

theorem chunkTuples_object (members : List (List Char × Json)) : chunkTuples (.object members) =
    (((members.lookup "block".toList).bind Json.items?).getD []).map Json.normal := rfl

theorem startOf_object (members : List (List Char × Json)) (name : String) : startOf (.object members) name =
    ((members.lookup name.toList).map fun value => caught (i32 value name)).getD 0 := rfl

theorem block_ne_startX : "block".toList ≠ "startX".toList := by decide

theorem block_ne_startZ : "block".toList ≠ "startZ".toList := by decide

theorem startX_ne_startZ : "startX".toList ≠ "startZ".toList := by decide

section Members

variable {version : Version} {start : Metadata} {done : List (List Char × Json)} {s t : ChunkState Metadata}
  {member : List Char × Json} {chunkIndex : ℕ}

theorem BehindMembers.block (h : BehindMembers version start done s) (hfresh : done.lookup member.1 = none)
    (hblock : member.1 = "block".toList)
    (hread : (metadataHooks version).readMember chunkIndex s member = .ok t) :
    BehindMembers version start (done ++ [member]) t := by
  rw [Hooks.readMember, if_pos hblock] at hread
  split at hread
  case h_2 => cases hread
  case h_1 tuples htuples =>
    have hlookup := lookup_append_fresh hblock hfresh
    have hempty : cellsOf (chunkTuples (.object done)) = [] := by
      rw [chunkTuples_object, ← hblock, hfresh]
      rfl
    have hbehind : BehindCells s.acc [] s.acc := ⟨rfl, hempty ▸ h.bounds, fun _ hcell => absurd hcell List.not_mem_nil⟩
    obtain ⟨hcells, hhas⟩ := @BehindCells.readTuples version chunkIndex s.acc { s with hasBlockList := true } t
      hbehind tuples hread
    have hchunk : chunkTuples (.object (done ++ [member])) = tuples.map Json.normal := by
      rw [chunkTuples_object, hlookup, htuples]
      rfl
    have hother {key : List Char} (hkey : "block".toList ≠ key) :
        (done ++ [member]).lookup key = done.lookup key := lookup_append_other (hblock.trans_ne hkey)
    constructor
    · rw [hhas, hlookup]
      rfl
    · rw [hcells.same, ← h.outside]
      rfl
    · rw [hchunk]
      exact hcells.bounds
    · rw [hchunk]
      exact hcells.fits
    · intro hversion
      rw [startOf_object, hother block_ne_startX, hcells.same]
      exact h.startX hversion
    · intro hversion
      rw [startOf_object, hother block_ne_startZ, hcells.same]
      exact h.startZ hversion

/-- A member that is not the block list leaves the bounds of the chunk as they are. -/
theorem BehindMembers.setAcc (h : BehindMembers version start done s) (hblock : member.1 ≠ "block".toList)
    {acc : Metadata} (houtside : acc.outside = s.acc.outside) (hrelative : acc.relative = s.acc.relative)
    (hx : version = .V3 → acc.startX = startOf (.object (done ++ [member])) "startX")
    (hz : version = .V3 → acc.startZ = startOf (.object (done ++ [member])) "startZ") :
    BehindMembers version start (done ++ [member]) { s with acc } := by
  have hchunk : chunkTuples (.object (done ++ [member])) = chunkTuples (.object done) := by
    rw [chunkTuples_object, lookup_append_other hblock]
    rfl
  constructor
  · rw [lookup_append_other hblock]
    exact h.has
  · exact houtside.trans h.outside
  · rw [hchunk, hrelative]
    exact h.bounds
  · rw [hchunk]
    exact h.fits
  · exact hx
  · exact hz

theorem BehindMembers.other (h : BehindMembers version start done s) (hfresh : done.lookup member.1 = none)
    (hblock : member.1 ≠ "block".toList)
    (hread : (metadataHooks version).readMember chunkIndex s member = .ok t) :
    BehindMembers version start (done ++ [member]) t := by
  rw [Hooks.readMember, if_neg hblock] at hread
  obtain ⟨m, hm, hread⟩ := exists_of_bind_ok hread
  cases hread
  have hkeepX (hne : member.1 ≠ "startX".toList) (hversion : version = .V3) :
      s.acc.startX = startOf (.object (done ++ [member])) "startX" := by
    rw [startOf_object, lookup_append_other hne]
    exact h.startX hversion
  have hkeepZ (hne : member.1 ≠ "startZ".toList) (hversion : version = .V3) :
      s.acc.startZ = startOf (.object (done ++ [member])) "startZ" := by
    rw [startOf_object, lookup_append_other hne]
    exact h.startZ hversion
  change startMember version member.1 (firstEvent member.2) (firstParsed member.2) s.acc = .ok m at hm
  rw [startMember] at hm
  split at hm
  case isFalse hstart =>
    cases hm
    have hne (hversion : version = .V3) := not_or.mp fun hkey => hstart ⟨hversion, hkey⟩
    exact h.setAcc hblock rfl rfl (fun hversion => hkeepX (hne hversion).1 hversion)
      fun hversion => hkeepZ (hne hversion).2 hversion
  case isTrue hstart =>
    obtain ⟨hevent, hm⟩ := else_of_ok hm
    have hparsed : firstParsed member.2 = member.2 := by
      cases hvalue : member.2 with
      | array | object =>
        rw [hvalue] at hevent
        exact absurd (by rintro ⟨⟩) hevent
      | null | boolean | unsigned | integer | float | string => rfl
    rw [hparsed] at hm
    split_ifs at hm with hx
    · obtain ⟨startX, hvalue, hm⟩ := exists_of_bind_ok hm
      cases hm
      refine h.setAcc hblock rfl rfl (fun _ => ?_) (hkeepZ (hx.trans_ne startX_ne_startZ))
      rw [startOf_object, lookup_append_fresh hx hfresh]
      exact (of_i32 hvalue).2.symm
    · obtain ⟨startZ, hvalue, hm⟩ := exists_of_bind_ok hm
      cases hm
      refine h.setAcc hblock rfl rfl (hkeepX hx) fun _ => ?_
      rw [startOf_object, lookup_append_fresh (hstart.2.resolve_left hx) hfresh]
      exact (of_i32 hvalue).2.symm

theorem BehindMembers.step (h : BehindMembers version start done s) (hfresh : done.lookup member.1 = none)
    (hread : (metadataHooks version).readMember chunkIndex s member = .ok t) :
    BehindMembers version start (done ++ [member]) t := by
  by_cases hblock : member.1 = "block".toList
  · exact h.block hfresh hblock hread
  · exact h.other hfresh hblock hread

/-- The loop over the members of a chunk. -/
theorem BehindMembers.all {members : List (List Char × Json)} (hkeys : (members.map Prod.fst).Nodup)
    (h : BehindMembers version start [] s)
    (hrun : members.foldlM ((metadataHooks version).readMember chunkIndex) s = .ok t) :
    BehindMembers version start members t :=
  foldlM_members_rule (BehindMembers version start)
    (fun _ _ _ _ _ hfresh hbehind hread => hbehind.step hfresh hread) hkeys h hrun

end Members

/-! ## The chunks of a document -/

/-- A cell with the origin of its chunk. -/
def moved (origin cell : BlockPos) : BlockPos := cell.add ⟨origin.x, 0, origin.z⟩

theorem between_isInt32 {low high value offset : ℤ} (hlow : IsInt32 (offset + low))
    (hhigh : IsInt32 (offset + high)) (hvalue : low ≤ value ∧ value ≤ high) : IsInt32 (value + offset) := by
  unfold IsInt32 at hlow hhigh ⊢
  omega

/-- The bounds of a chunk with its origin: no cell of the chunk leaves the range of an `int32`. -/
theorem of_worldBounds {origin : BlockPos} {relative : Relative} {world : Bounds} (hof : bounds.Of cells)
    (hfits : ∀ cell ∈ cells, cell.FitsInt32) (h : worldBounds origin relative bounds = .ok world) :
    world.Of (cells.map (moved origin)) ∧
      ∀ pos ∈ cells.map (moved origin), pos.FitsInt32 := by
  rw [worldBounds] at h
  obtain ⟨minimumX, hminimumX, h⟩ := exists_of_bind_ok h
  obtain ⟨maximumX, hmaximumX, h⟩ := exists_of_bind_ok h
  obtain ⟨minimumZ, hminimumZ, h⟩ := exists_of_bind_ok h
  obtain ⟨maximumZ, hmaximumZ, h⟩ := exists_of_bind_ok h
  cases h
  obtain ⟨rfl, hminimumX'⟩ := of_checkedAdd (of_inEntry hminimumX)
  obtain ⟨rfl, hmaximumX'⟩ := of_checkedAdd (of_inEntry hmaximumX)
  obtain ⟨rfl, hminimumZ'⟩ := of_checkedAdd (of_inEntry hminimumZ)
  obtain ⟨rfl, hmaximumZ'⟩ := of_checkedAdd (of_inEntry hmaximumZ)
  refine ⟨hof.shift origin.x origin.z, fun pos hpos => ?_⟩
  obtain ⟨cell, hcell, rfl⟩ := List.mem_map.mp hpos
  refine ⟨?_, ?_, ?_⟩
  · exact between_isInt32 hminimumX' hmaximumX' (hof.x.between _ (List.mem_map_of_mem hcell))
  · change IsInt32 (cell.y + 0)
    rw [add_zero]
    exact (hfits cell hcell).2.1
  · exact between_isInt32 hminimumZ' hmaximumZ' (hof.z.between _ (List.mem_map_of_mem hcell))

/-- The cells of a chunk in the world. -/
def chunkCells (version : Version) (chunk : Json) : List BlockPos :=
  (cellsOf (chunkTuples chunk)).map (moved (chunkOrigin version chunk))

/-- What the first pass knows behind some chunks. -/
structure BehindChunks (version : Version) (palette : List (List Char)) (chunks : List Json)
    (s : ℕ × Metadata) : Prop where
  index : s.1 = chunks.length
  palette : s.2.palette = palette
  origins : s.2.chunkOrigins = chunks.map (chunkOrigin version)
  bounds : BoundsOf (chunks.flatMap (chunkCells version)) s.2.bounds
  fits : ∀ pos ∈ chunks.flatMap (chunkCells version), pos.FitsInt32

theorem BehindChunks.keepOrigin {version : Version} {s : ℕ × Metadata}
    (h : BehindChunks version palette chunks s) (houtside : m.outside = s.2.outside)
    (hbounds : BoundsOf (cellsOf (chunkTuples chunk)) m.relative.bounds)
    (hfits : ∀ cell ∈ cellsOf (chunkTuples chunk), cell.FitsInt32)
    (hkeep : keepOrigin m (chunkOrigin version chunk) = .ok m') :
    BehindChunks version palette (chunks ++ [chunk]) (s.1 + 1, m') := by
  obtain ⟨hpalette, horigins, hfound⟩ : m.palette = s.2.palette ∧ m.chunkOrigins = s.2.chunkOrigins ∧
      m.bounds = s.2.bounds := by
    obtain ⟨hpalette, hrest⟩ := Prod.mk.inj houtside
    exact ⟨hpalette, Prod.mk.inj hrest⟩
  have hmap : (chunks ++ [chunk]).map (chunkOrigin version) =
      m.chunkOrigins ++ [chunkOrigin version chunk] := by
    rw [List.map_append, horigins, h.origins]
    rfl
  have hcells : (chunks ++ [chunk]).flatMap (chunkCells version) =
      chunks.flatMap (chunkCells version) ++ chunkCells version chunk := by
    rw [List.flatMap_append, List.flatMap_singleton]
  have hlength : s.1 + 1 = (chunks ++ [chunk]).length := by
    rw [h.index, List.length_append]
    rfl
  rw [FuHong.keepOrigin] at hkeep
  split at hkeep
  case h_1 hnone =>
    cases hkeep
    have hempty : chunkCells version chunk = [] := by
      rw [hnone] at hbounds
      rw [chunkCells, show cellsOf (chunkTuples chunk) = [] from hbounds]
      rfl
    refine ⟨hlength, hpalette.trans h.palette, hmap.symm, ?_, ?_⟩
    · rw [hcells, hempty, List.append_nil, hfound]
      exact h.bounds
    · rw [hcells, hempty, List.append_nil]
      exact h.fits
  case h_2 bounds hsome =>
    obtain ⟨world, hworld, hkeep⟩ := exists_of_bind_ok hkeep
    cases hkeep
    rw [hsome] at hbounds
    obtain ⟨hof, hmoved⟩ := of_worldBounds hbounds hfits hworld
    refine ⟨hlength, hpalette.trans h.palette, hmap.symm, ?_, ?_⟩
    · rw [hcells, hfound]
      exact h.bounds.append hof
    · intro pos hpos
      rw [hcells] at hpos
      rcases List.mem_append.mp hpos with hmem | hmem
      · exact h.fits pos hmem
      · exact hmoved pos hmem

theorem of_finishChunk {version : Version} {chunkIndex : ℕ} {hasBlockList : Bool}
    (h : finishChunk version chunkIndex hasBlockList m = .ok m') :
    keepOrigin m (if version = .V3 then ⟨m.startX, 0, m.startZ⟩ else ⟨0, 0, 0⟩) = .ok m' := by
  rw [finishChunk] at h
  obtain ⟨_, h⟩ := else_of_ok h
  obtain ⟨_, h⟩ := else_of_ok h
  obtain ⟨-, h⟩ := else_of_ok h
  exact of_inChunk h

theorem BehindChunks.readChunk {version : Version} {s t : ℕ × Metadata}
    (h : BehindChunks version palette chunks s) (hkeys : ChunkKeysDiffer chunk)
    (hread : (metadataHooks version).readChunk s chunk = .ok t) :
    BehindChunks version palette (chunks ++ [chunk]) t := by
  cases chunk with
  | null | boolean | unsigned | integer | float | string | array => cases hread
  | object members =>
    rw [Hooks.readChunk] at hread
    obtain ⟨first, hfirst, hread⟩ := exists_of_bind_ok hread
    obtain ⟨last, hmembers, hread⟩ := exists_of_bind_ok hread
    obtain ⟨m, hfinish, hread⟩ := exists_of_bind_ok hread
    cases hread
    cases hfirst
    have hinit : BehindMembers version s.2 [] ⟨false, 0, { s.2 with
        hasStartX := false, hasStartZ := false, startX := 0, startZ := 0, relative := {} }⟩ :=
      ⟨rfl, rfl, rfl, fun _ hcell => (List.not_mem_nil hcell).elim, fun _ => rfl, fun _ => rfl⟩
    have hall := hinit.all hkeys hmembers
    have hkeep := of_finishChunk hfinish
    have horigin : (if version = .V3 then ⟨last.acc.startX, 0, last.acc.startZ⟩ else ⟨0, 0, 0⟩ : BlockPos) =
        chunkOrigin version (.object members) := by
      rw [chunkOrigin]
      split_ifs with hversion
      · rw [hall.startX hversion, hall.startZ hversion]
      · rfl
    rw [horigin] at hkeep
    exact h.keepOrigin hall.outside hall.bounds hall.fits hkeep

/-- The loop over the chunks of a document. -/
theorem BehindChunks.readChunks {version : Version} {s t : ℕ × Metadata} (h : BehindChunks version palette [] s)
    (hkeys : ∀ chunk ∈ chunks, ChunkKeysDiffer chunk)
    (hrun : chunks.foldlM (metadataHooks version).readChunk s = .ok t) :
    BehindChunks version palette chunks t :=
  foldlM_ok_rule (BehindChunks version palette) (fun _ _ chunk hchunk _ hbehind hread =>
    hbehind.readChunk (hkeys chunk hchunk) hread) h hrun

/-- The names of `BlocksList`. -/
def documentPalette (document : Json) : List (List Char) :=
  ((document.member? "BlocksList").bind paletteNames).getD []

theorem documentPalette_object (members : List (List Char × Json)) : documentPalette (.object members) =
    ((members.lookup "BlocksList".toList).bind paletteNames).getD [] := rfl

theorem buildChunks_object (members : List (List Char × Json)) : buildChunks (.object members) =
    ((members.lookup "FuHongBuild".toList).bind Json.items?).getD [] := rfl

/-- The flags of the first pass are no matter. -/
theorem BehindChunks.congr {version : Version} {i : ℕ} (h : BehindChunks version palette chunks (i, m))
    (houtside : m'.outside = m.outside) : BehindChunks version palette chunks (i, m') := by
  obtain ⟨hpalette, hrest⟩ := Prod.mk.inj houtside
  obtain ⟨horigins, hbounds⟩ := Prod.mk.inj hrest
  exact ⟨h.index, hpalette.trans h.palette, horigins.trans h.origins, hbounds ▸ h.bounds, h.fits⟩

section Root

variable {version : Version} {done : List (List Char × Json)} {s t : ℕ × Metadata}
  {member : List Char × Json}

/-- What the first pass knows behind some members of the root. -/
def BehindRoot (version : Version) (done : List (List Char × Json)) (s : ℕ × Metadata) : Prop :=
  BehindChunks version (documentPalette (.object done)) (buildChunks (.object done)) s

theorem BehindRoot.blocksList (h : BehindRoot version done s) (hfresh : done.lookup member.1 = none)
    (hlist : member.1 = "BlocksList".toList) (hread : readRootMember version s member = .ok t) :
    BehindRoot version (done ++ [member]) t := by
  have hsome : (readRootMember version s member).toOption = some t := by rw [hread]; rfl
  rw [readRootMember_blocksList version hlist] at hsome
  obtain ⟨names, hnames, rfl⟩ := Option.map_eq_some_iff.mp hsome
  have hbefore : documentPalette (.object done) = [] := by
    rw [documentPalette_object, ← hlist, hfresh]
    rfl
  have hafter : documentPalette (.object (done ++ [member])) = names := by
    rw [documentPalette_object, lookup_append_fresh hlist hfresh, Option.bind_some, hnames]
    rfl
  have hbuild : buildChunks (.object (done ++ [member])) = buildChunks (.object done) := by
    rw [buildChunks_object, lookup_append_other (hlist.trans_ne build_ne_blocksList.symm)]
    rfl
  have hpalette : (s.2.addPalette (isArray member.2) names).palette = names := by
    rw [Metadata.addPalette, h.palette, hbefore]
    rfl
  rw [BehindRoot, hafter, hbuild]
  exact ⟨h.index, hpalette, h.origins, h.bounds, h.fits⟩

theorem BehindRoot.build (h : BehindRoot version done s) (hfresh : done.lookup member.1 = none)
    (hbuild : member.1 = "FuHongBuild".toList)
    (hkeys : ∀ chunks, member.2 = .array chunks → ∀ chunk ∈ chunks, ChunkKeysDiffer chunk)
    (hread : readRootMember version s member = .ok t) : BehindRoot version (done ++ [member]) t := by
  obtain ⟨name, value⟩ := member
  have hpalette : documentPalette (.object (done ++ [(name, value)])) = documentPalette (.object done) := by
    rw [documentPalette_object, lookup_append_other (hbuild.trans_ne build_ne_blocksList)]
    rfl
  have hbefore : buildChunks (.object done) = [] := by
    rw [buildChunks_object, ← hbuild, hfresh]
    rfl
  have hafter : buildChunks (.object (done ++ [(name, value)])) = (Json.items? value).getD [] := by
    rw [buildChunks_object, lookup_append_fresh hbuild hfresh]
    rfl
  rw [BehindRoot, hbefore] at h
  rw [BehindRoot, hpalette, hafter]
  cases value with
  | array chunks =>
    rw [readRootMember_build version hbuild] at hread
    obtain ⟨next, hnext, hread⟩ := exists_of_bind_ok hread
    cases hread
    have hinit : BehindChunks version (documentPalette (.object done)) []
        (s.1, { s.2 with buildSeen := true, buildIsArray := true }) := h.congr rfl
    exact (hinit.readChunks (hkeys chunks rfl) hnext).congr rfl
  | null | boolean | unsigned | integer | float | string | object =>
    rw [readRootMember, if_neg (hbuild.trans_ne build_ne_blocksList), if_pos hbuild] at hread
    cases hread
    exact h.congr rfl

theorem BehindRoot.step (h : BehindRoot version done s) (hfresh : done.lookup member.1 = none)
    (hkeys : ∀ chunks, member.2 = .array chunks → ∀ chunk ∈ chunks, ChunkKeysDiffer chunk)
    (hread : readRootMember version s member = .ok t) : BehindRoot version (done ++ [member]) t := by
  by_cases hlist : member.1 = "BlocksList".toList
  · exact h.blocksList hfresh hlist hread
  · by_cases hbuild : member.1 = "FuHongBuild".toList
    · exact h.build hfresh hbuild hkeys hread
    · rw [readRootMember_other version hlist hbuild] at hread
      cases hread
      rw [BehindRoot, documentPalette_object, buildChunks_object, lookup_append_other hlist,
        lookup_append_other hbuild]
      exact h

theorem BehindRoot.all {members : List (List Char × Json)} (hkeys : RootKeysDiffer members)
    (hrun : members.foldlM (readRootMember version) (0, {}) = .ok t) : BehindRoot version members t := by
  have hinit : BehindRoot version [] (0, {}) :=
    ⟨rfl, rfl, rfl, rfl, fun _ hpos => (List.not_mem_nil hpos).elim⟩
  exact foldlM_members_rule (BehindRoot version)
    (fun _ _ member hmember _ hfresh hbehind hread => hbehind.step hfresh (hkeys.2 member hmember) hread)
    hkeys.1 hinit hrun

end Root

/-! ## The layout of a document -/

theorem worldCells_documentTuples (version : Version) (document : Json) :
    (documentTuples version document).flatMap worldCells =
      (buildChunks document).flatMap (chunkCells version) := by
  rw [documentTuples, List.flatMap_assoc]
  refine List.flatMap_congr fun chunk _ => ?_
  rw [chunkCells, cellsOf, List.map_flatMap, List.flatMap_map]
  rfl

/-- The size of some bounds holds their cells, without the minimum. -/
theorem Bounds.Of.contains (h : bounds.Of cells) {size : Size} {format : String}
    (hsize : bounds.size format = .ok size) {pos : BlockPos} (hpos : pos ∈ cells) :
    size.Contains (pos.sub bounds.minimum) := by
  have hx := h.x.between _ (List.mem_map_of_mem hpos)
  have hy := h.y.between _ (List.mem_map_of_mem hpos)
  have hz := h.z.between _ (List.mem_map_of_mem hpos)
  rw [Bounds.size] at hsize
  obtain ⟨_, hsize⟩ := else_of_ok hsize
  cases hsize
  simp only [Size.Contains, BlockPos.sub]
  omega

/-- What the first pass has found when it succeeds. -/
structure Found (version : Version) (document : Json) (layout : Layout) : Prop where
  palette : layout.palette = documentPalette document
  origins : layout.chunkOrigins = (buildChunks document).map (chunkOrigin version)
  bounds : ∃ bounds : Bounds, bounds.Of ((documentTuples version document).flatMap worldCells) ∧
    bounds.minimum = layout.minimum ∧ bounds.size version.name = .ok layout.size
  fits : ∀ entry ∈ documentTuples version document, ∀ pos ∈ worldCells entry, pos.FitsInt32
  inside : ∀ entry ∈ documentTuples version document, ∀ pos ∈ worldCells entry,
    layout.size.Contains (pos.sub layout.minimum)

theorem found_of_layoutOf {version : Version} {members : List (List Char × Json)} {s : ℕ × Metadata}
    (h : BehindRoot version members s) (hlayout : layoutOf version true s.2 = .ok layout) :
    Found version (.object members) layout := by
  have hcells := worldCells_documentTuples version (.object members)
  have hbounds := h.bounds
  rw [layoutOf] at hlayout
  obtain ⟨_, hlayout⟩ := else_of_ok hlayout
  obtain ⟨_, hlayout⟩ := else_of_ok hlayout
  split at hlayout
  case h_1 => cases hlayout
  case h_2 bounds hsome =>
    obtain ⟨size, hsize, hlayout⟩ := exists_of_bind_ok hlayout
    cases hlayout
    rw [hsome] at hbounds
    have hof : bounds.Of ((documentTuples version (.object members)).flatMap worldCells) := by
      rw [hcells]
      exact hbounds
    refine ⟨h.palette, h.origins, ⟨bounds, hof, rfl, hsize⟩, fun entry hentry pos hpos => ?_,
      fun entry hentry pos hpos => ?_⟩
    · exact h.fits pos (hcells ▸ List.mem_flatMap_of_mem hentry hpos)
    · exact hof.contains hsize (List.mem_flatMap_of_mem hentry hpos)

/-- The first pass over a document whose names are not repeated. -/
theorem readMetadata_found {version : Version} {document : Json} (hkeys : KeysDiffer document)
    (h : readMetadata version document = .ok layout) : Found version document layout ∧
      ∃ c, parseWith (metadataCallback version) document { acc := {} } = .ok c ∧
        c.chunkIndex = (buildChunks document).length := by
  cases document with
  | object members =>
    rw [readMetadata_object] at h
    obtain ⟨s, hs, hlayout⟩ := exists_of_bind_ok h
    have hbehind := BehindRoot.all hkeys hs
    refine ⟨found_of_layoutOf hbehind hlayout, ?_⟩
    have hparse := parseMetadata version members
    rw [hs] at hparse
    generalize parseWith (metadataCallback version) (.object members) { acc := {} } = result at hparse
    cases hparse with
    | ok hat => exact ⟨_, rfl, hat.index.trans hbehind.index⟩
  | null | boolean | unsigned | integer | float | string | array =>
    rw [readMetadata, (roots_metadataCallback version).parseOther rfl (by exact nofun)] at h
    cases h

end FuHong

end WaterStructure
