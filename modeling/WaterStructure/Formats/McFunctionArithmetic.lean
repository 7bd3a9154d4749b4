import WaterStructure.Formats.BatchPartition
import WaterStructure.Formats.McFunctionWriter

/-!
# The 32-bit arithmetic of the MCFunction writer

The loops over the strips of a box go on with `v += kFillEdge` in 32-bit integers, and the bounds of a
batch are products by 16. Here every such expression is checked; a loop in which one overflows has no
result. Up to an extent of 2147483616 nothing overflows, and the loops do what they do on exact integers.
Beyond, the last step of a loop over the whole box leaves the range.
-/

namespace WaterStructure.McFunction

open Strips

/-- `for (v = low; v <= high; v += kFillEdge)`, with the body for the strip from `v` to
`std::min(high, v + kFillEdge - 1)`. -/
def stripLoop (body : ℤ × ℤ → Option (List Command)) (high v : ℤ) : Option (List Command) :=
  if _h : v ≤ high then
    if IsInt32 (v + kFillEdge) then do
      let commands ← body (v, min high (v + kFillEdge - 1))
      let rest ← stripLoop body high (v + kFillEdge)
      return commands ++ rest
    else none
  else some []
termination_by (high + 1 - v).toNat
decreasing_by
  rw [kFillEdge]
  omega

/-- The loops that clear the box of a structure; `v < extent` is `v <= extent - 1`. -/
def clearAirLoops (size : Size) : Option (List Command) :=
  stripLoop (fun y =>
    stripLoop (fun z =>
      stripLoop (fun x => some [.fill ⟨⟨x.1, y.1, z.1⟩, ⟨x.2, y.2, z.2⟩⟩ airText]) (size.width - 1) 0)
      (size.length - 1) 0)
    (size.height - 1) 0

/-- The loops of `write_cuboid`. -/
def writeCuboidLoops (cuboid : Cuboid) (state : List Char) : Option (List Command) :=
  stripLoop (fun y =>
    stripLoop (fun z =>
      stripLoop (fun x =>
        some [if x.1 = x.2 ∧ y.1 = y.2 ∧ z.1 = z.2 then .setblock ⟨x.1, y.1, z.1⟩ state
          else .fill ⟨⟨x.1, y.1, z.1⟩, ⟨x.2, y.2, z.2⟩⟩ state]) cuboid.x2 cuboid.x1)
      cuboid.z2 cuboid.z1)
    cuboid.y2 cuboid.y1

/-- The bounds of a batch, when no product or sum overflows. -/
def batchBoundsInt32 (size : Size) (batchSize : BatchSize) (start : ℤ × ℤ) : Option BatchBounds :=
  if IsInt32 (start.2 + batchSize.1) ∧ IsInt32 (start.2 * 16) ∧
      IsInt32 (min size.chunkXCount (start.2 + batchSize.1) * 16) ∧ IsInt32 (start.1 * 16) ∧
      IsInt32 (start.1 * 16 + 16) then
    some (batchBounds size batchSize start)
  else none

/-- Without an overflow the loop goes over the strips. -/
theorem stripLoop_eq_some {body : ℤ × ℤ → Option (List Command)} {commands : ℤ × ℤ → List Command}
    {low high : ℤ} (h : ∀ strip ∈ strips kFillEdge kFillEdge_pos low high,
      IsInt32 (strip.1 + kFillEdge) ∧ body strip = some (commands strip)) :
    stripLoop body high low = some ((strips kFillEdge kFillEdge_pos low high).flatMap commands) := by
  induction low using stripLoop.induct high with
  | case1 low hle hfits ih =>
    rw [strips, if_pos hle] at h ⊢
    rw [stripLoop, dif_pos hle, if_pos hfits, (h _ List.mem_cons_self).2,
      ih fun strip hstrip => h strip (List.mem_cons_of_mem _ hstrip)]
    rfl
  | case2 low hle hoverflow =>
    rw [strips, if_pos hle] at h
    exact absurd (h _ List.mem_cons_self).1 hoverflow
  | case3 low hdone =>
    rw [stripLoop, dif_neg hdone, strips, if_neg hdone]
    rfl

variable {body : ℤ × ℤ → Option (List Command)} {low high : ℤ} {commands : List Command} {extent : ℤ}
  {size : Size}

/-- A loop with a result has had no overflow, and its bodies have had results. -/
theorem of_stripLoop (h : stripLoop body high low = some commands) :
    ∀ strip ∈ strips kFillEdge kFillEdge_pos low high,
      IsInt32 (strip.1 + kFillEdge) ∧ ∃ part, body strip = some part := by
  induction low using stripLoop.induct high generalizing commands with
  | case1 low hle hfits ih =>
    rw [stripLoop, dif_pos hle, if_pos hfits] at h
    obtain ⟨first, hfirst, h⟩ := Option.bind_eq_some_iff.mp h
    obtain ⟨rest, hrest, -⟩ := Option.bind_eq_some_iff.mp h
    intro strip hstrip
    rw [strips, if_pos hle] at hstrip
    rcases List.mem_cons.mp hstrip with rfl | hlater
    · exact ⟨hfits, first, hfirst⟩
    · exact ih hrest strip hlater
  | case2 low hle hoverflow =>
    rw [stripLoop, dif_pos hle, if_neg hoverflow] at h
    cases h
  | case3 low hdone =>
    intro strip hstrip
    rw [strips, if_neg hdone] at hstrip
    cases hstrip

/-- The strip of the last value. -/
theorem exists_last_strip (h : 0 < extent) :
    ∃ strip ∈ strips kFillEdge kFillEdge_pos 0 (extent - 1),
      32 ∣ strip.1 ∧ extent - 1 < strip.1 + kFillEdge := by
  have hcount := countP_strips kFillEdge kFillEdge_pos 0 (extent - 1) (extent - 1)
  rw [if_pos (by omega)] at hcount
  obtain ⟨strip, hmem, hlast⟩ := List.countP_pos_iff.mp (by rw [hcount]; exact Nat.one_pos)
  have hbounds := strips_bounds hmem
  have hmultiple : 32 ∣ strip.1 := by
    rw [strips_eq_map] at hmem
    obtain ⟨k, -, rfl⟩ := List.mem_map.mp hmem
    exact ⟨k, by dsimp only [kFillEdge]; omega⟩
  rw [decide_eq_true_iff] at hlast
  exact ⟨strip, hmem, hmultiple, by omega⟩

/-- A loop over a whole extent has a result only up to the largest extent. -/
theorem extent_le_of_stripLoop (hpos : 0 < extent) (h : stripLoop body (extent - 1) 0 = some commands) :
    extent ≤ 2147483616 ∧ ∃ strip part, body strip = some part := by
  obtain ⟨strip, hmem, hmultiple, hlast⟩ := exists_last_strip hpos
  obtain ⟨⟨-, hfits⟩, part, hpart⟩ := of_stripLoop h strip hmem
  rw [kFillEdge, int32Max] at *
  exact ⟨by omega, strip, part, hpart⟩

theorem extents_le_of_clearAirLoops {fills : List Command} (hwidth : 0 < size.width)
    (hheight : 0 < size.height) (hlength : 0 < size.length) (h : clearAirLoops size = some fills) :
    size.width ≤ 2147483616 ∧ size.height ≤ 2147483616 ∧ size.length ≤ 2147483616 := by
  obtain ⟨hy, y, layer, hlayer⟩ := extent_le_of_stripLoop hheight h
  obtain ⟨hz, z, row, hrow⟩ := extent_le_of_stripLoop hlength hlayer
  exact ⟨(extent_le_of_stripLoop hwidth hrow).1, hy, hz⟩

/-- The steps of a loop inside the box do not overflow. -/
theorem isInt32_of_mem_strips (hlow : 0 ≤ low) (hhigh : high < 2147483616) {strip : ℤ × ℤ}
    (h : strip ∈ strips kFillEdge kFillEdge_pos low high) : IsInt32 (strip.1 + kFillEdge) := by
  have hbounds := strips_bounds h
  rw [IsInt32, kFillEdge, int32Min, int32Max]
  omega

theorem clearAirLoops_eq (hwidth : size.width ≤ 2147483616) (hheight : size.height ≤ 2147483616)
    (hlength : size.length ≤ 2147483616) : clearAirLoops size = some (clearAirFills size) := by
  have hrow (y z : ℤ × ℤ) := @stripLoop_eq_some
    (fun x => some [Command.fill ⟨⟨x.1, y.1, z.1⟩, ⟨x.2, y.2, z.2⟩⟩ airText]) _ 0 (size.width - 1)
    fun strip hstrip => ⟨isInt32_of_mem_strips (Int.le_refl 0) (by omega) hstrip, rfl⟩
  have hlayer (y : ℤ × ℤ) := @stripLoop_eq_some (fun z => stripLoop
    (fun x => some [Command.fill ⟨⟨x.1, y.1, z.1⟩, ⟨x.2, y.2, z.2⟩⟩ airText]) (size.width - 1) 0) _ 0
    (size.length - 1)
    fun strip hstrip => ⟨isInt32_of_mem_strips (Int.le_refl 0) (by omega) hstrip, hrow y strip⟩
  refine (stripLoop_eq_some fun strip hstrip =>
    ⟨isInt32_of_mem_strips (Int.le_refl 0) (by omega) hstrip, hlayer strip⟩).trans (congrArg some ?_)
  simp only [clearAirFills, Box.pieces, List.map_flatMap, List.map_map, ← List.map_eq_flatMap,
    Function.comp_def]

theorem writeCuboidLoops_eq {cuboid : Cuboid} (state : List Char)
    (hlow : 0 ≤ cuboid.x1 ∧ 0 ≤ cuboid.y1 ∧ 0 ≤ cuboid.z1)
    (hhigh : cuboid.x2 < 2147483616 ∧ cuboid.y2 < 2147483616 ∧ cuboid.z2 < 2147483616) :
    writeCuboidLoops cuboid state = some (writeCuboid cuboid state) := by
  have hrow (y z : ℤ × ℤ) := @stripLoop_eq_some
    (fun x => some [if x.1 = x.2 ∧ y.1 = y.2 ∧ z.1 = z.2 then Command.setblock ⟨x.1, y.1, z.1⟩ state
      else Command.fill ⟨⟨x.1, y.1, z.1⟩, ⟨x.2, y.2, z.2⟩⟩ state]) _ cuboid.x1 cuboid.x2
    fun strip hstrip => ⟨isInt32_of_mem_strips hlow.1 hhigh.1 hstrip, rfl⟩
  have hlayer (y : ℤ × ℤ) := @stripLoop_eq_some (fun z => stripLoop
    (fun x => some [if x.1 = x.2 ∧ y.1 = y.2 ∧ z.1 = z.2 then Command.setblock ⟨x.1, y.1, z.1⟩ state
      else Command.fill ⟨⟨x.1, y.1, z.1⟩, ⟨x.2, y.2, z.2⟩⟩ state]) cuboid.x2 cuboid.x1) _ cuboid.z1 cuboid.z2
    fun strip hstrip => ⟨isInt32_of_mem_strips hlow.2.2 hhigh.2.2 hstrip, hrow y strip⟩
  refine (stripLoop_eq_some fun strip hstrip =>
    ⟨isInt32_of_mem_strips hlow.2.1 hhigh.2.1 hstrip, hlayer strip⟩).trans (congrArg some ?_)
  simp only [writeCuboid, Box.pieces, List.map_flatMap, List.map_map, ← List.map_eq_flatMap,
    Function.comp_def]

/-- The bounds of the batches do not overflow. -/
theorem batchBoundsInt32_eq {batchSize : BatchSize} {start : ℤ × ℤ} (hwidth : 0 < size.width)
    (hlength : 0 < size.length) (hsmall : size.width ≤ 2147483616 ∧ size.length ≤ 2147483616)
    (hbatch : batchSize.1 ≤ 32) (hstart : start ∈ batchStarts size batchSize) :
    batchBoundsInt32 size batchSize start = some (batchBounds size batchSize start) := by
  obtain ⟨chunkZ, hchunkZ, hstrip⟩ := List.mem_flatMap.mp hstart
  obtain ⟨strip, hmem, rfl⟩ := List.mem_map.mp hstrip
  rw [Int.mem_range_iff, Size.chunkZCount, chunkCount_eq _ hlength] at hchunkZ
  have hbounds := strips_bounds hmem
  rw [Size.chunkXCount, chunkCount_eq _ hwidth] at hbounds
  refine if_pos ?_
  simp only [IsInt32, int32Min, int32Max, Size.chunkXCount, chunkCount_eq _ hwidth]
  omega

/-- The loops of the writer terminate without an overflow, the air fills tile the box with few enough
cells each, and the cuboids and the bounds of the batches are what they are on exact integers. -/
structure TilesSafely (size : Size) : Prop where
  clears : ∃ fills, clearAirLoops size = some fills ∧
    (∀ pos, fills.countP (fun fill => fill.box.Contains pos) = if size.Contains pos then 1 else 0) ∧
    ∀ fill ∈ fills, ∃ box : Box, fill = .fill box airText ∧ box.volume ≤ 32768
  cuboids : ∀ (cuboid : Cuboid) (state : List Char),
    (0 ≤ cuboid.x1 ∧ cuboid.x1 ≤ cuboid.x2 ∧ cuboid.x2 < size.width) →
    (0 ≤ cuboid.y1 ∧ cuboid.y1 ≤ cuboid.y2 ∧ cuboid.y2 < size.height) →
    (0 ≤ cuboid.z1 ∧ cuboid.z1 ≤ cuboid.z2 ∧ cuboid.z2 < size.length) →
    writeCuboidLoops cuboid state = some (writeCuboid cuboid state)
  batches : ∀ batchSize : BatchSize, batchSize.1 ≤ kChunkBatchSize →
    ∀ start ∈ batchStarts size batchSize,
      batchBoundsInt32 size batchSize start = some (batchBounds size batchSize start)

/-- Each block of the box lies in exactly one air fill. -/
theorem countP_clearAirFills (size : Size) (pos : BlockPos) :
    (clearAirFills size).countP (fun fill => fill.box.Contains pos) =
      if size.Contains pos then 1 else 0 := by
  rw [clearAirFills, List.countP_map]
  refine (Box.countP_pieces kFillEdge kFillEdge_pos _ pos).trans (if_congr ?_ rfl rfl)
  simp only [Box.Contains, Size.Contains]
  omega

/-- A piece of a box has few enough cells. -/
theorem volume_le_of_mem_pieces {box piece : Box} (h : piece ∈ box.pieces kFillEdge kFillEdge_pos) :
    piece.volume ≤ 32768 := by
  obtain ⟨-, ⟨hx, hy, hz⟩, hxe, hye, hze⟩ := Box.mem_pieces_bounds h
  rw [kFillEdge] at *
  have hx' : piece.last.x - piece.first.x + 1 ≤ 32 := by omega
  have hy' : piece.last.y - piece.first.y + 1 ≤ 32 := by omega
  have hz' : piece.last.z - piece.first.z + 1 ≤ 32 := by omega
  calc piece.volume ≤ 32 * 32 * 32 :=
        Int.mul_le_mul (Int.mul_le_mul hx' hy' (by omega) (by omega)) hz' (by omega) (by omega)
    _ = 32768 := by decide

/-- The writer is safe exactly up to the largest extent. -/
theorem tilesSafely_iff (size : Size) (hwidth : 0 < size.width) (hheight : 0 < size.height)
    (hlength : 0 < size.length) :
    TilesSafely size ↔
      size.width ≤ 2147483616 ∧ size.height ≤ 2147483616 ∧ size.length ≤ 2147483616 := by
  constructor
  · intro h
    obtain ⟨fills, hfills, -⟩ := h.clears
    exact extents_le_of_clearAirLoops hwidth hheight hlength hfills
  · rintro ⟨hw, hh, hl⟩
    refine ⟨⟨clearAirFills size, clearAirLoops_eq hw hh hl, countP_clearAirFills size, fun fill hfill => ?_⟩,
      fun cuboid state hx hy hz => ?_, fun batchSize hbatch start hstart => ?_⟩
    · obtain ⟨piece, hpiece, rfl⟩ := List.mem_map.mp hfill
      exact ⟨piece, rfl, volume_le_of_mem_pieces hpiece⟩
    · exact writeCuboidLoops_eq state ⟨hx.1, hy.1, hz.1⟩ ⟨by omega, by omega, by omega⟩
    · exact batchBoundsInt32_eq hwidth hlength ⟨hw, hl⟩ hbatch hstart

theorem tilesSafely_iff_slab : TilesSafely ⟨2147483616, 1, 1⟩ ↔
    (2147483616 : ℤ) ≤ 2147483616 ∧ (1 : ℤ) ≤ 2147483616 ∧ (1 : ℤ) ≤ 2147483616 :=
  tilesSafely_iff ⟨2147483616, 1, 1⟩ (by decide) (by decide) (by decide)

/-- The largest width of 32 bits overflows. -/
theorem not_tilesSafely_largest : ¬ TilesSafely ⟨2147483647, 1, 1⟩ := by
  intro h
  obtain ⟨fills, hfills, -⟩ := h.clears
  exact absurd (extents_le_of_clearAirLoops (by decide) (by decide) (by decide) hfills).1 (by decide)

end WaterStructure.McFunction
