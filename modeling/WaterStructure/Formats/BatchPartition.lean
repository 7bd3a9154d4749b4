import WaterStructure.Formats.BatchEncoder
import WaterStructure.Library.SpanSweep

/-!
# The batch encoder is an exact partition

The runs of a row cover exactly its non-air blocks. Joining runs over the rows of a layer, and
rectangles over the layers, are two instances of the same sweep, so the emitted cuboids cover
each non-air block of the batch once and nothing else; cutting cuboids into commands keeps that.
-/

namespace WaterStructure.McFunction

open NestedLoop SpanSweep

/-- The run holds the block column. -/
def BlockRun.Holds (run : BlockRun) (x : ℤ) : Prop := run.x1 ≤ x ∧ x ≤ run.x2

instance (run : BlockRun) (x : ℤ) : Decidable (run.Holds x) := inferInstanceAs (Decidable (_ ∧ _))

/-- What the scan knows before it looks at column `x`. -/
structure RunScan.Inv (air : RuntimeId) (xBegin : ℤ) (idAt : ℤ → RuntimeId) (x : ℤ)
    (scan : RunScan) : Prop where
  begins : xBegin ≤ scan.runBegin ∧ scan.runBegin ≤ x
  current : ∀ c, scan.runBegin ≤ c → c < x → idAt c = scan.runRuntime
  covered : ∀ c, (scan.runs.filter fun run => run.Holds c).map BlockRun.runtime =
    if (xBegin ≤ c ∧ c < scan.runBegin) ∧ idAt c ≠ air then [idAt c] else []

/-- The runs after the run in progress is finished at `x`. -/
theorem RunScan.Inv.finish {air : RuntimeId} {xBegin x : ℤ} {idAt : ℤ → RuntimeId}
    {scan : RunScan} (h : scan.Inv air xBegin idAt x) (c : ℤ) :
    ((if scan.runRuntime ≠ air then scan.runs ++ [⟨scan.runRuntime, scan.runBegin, x - 1⟩]
      else scan.runs).filter fun run => run.Holds c).map BlockRun.runtime =
    if (xBegin ≤ c ∧ c < x) ∧ idAt c ≠ air then [idAt c] else [] := by
  have hbegins := h.begins
  have hcovered := h.covered c
  by_cases hin : scan.runBegin ≤ c ∧ c < x
  · have hid := h.current c hin.1 hin.2
    have hholds : BlockRun.Holds ⟨scan.runRuntime, scan.runBegin, x - 1⟩ c :=
      ⟨hin.1, show c ≤ x - 1 by omega⟩
    have hbefore : ¬ ((xBegin ≤ c ∧ c < scan.runBegin) ∧ idAt c ≠ air) := by omega
    rw [if_neg hbefore] at hcovered
    have hwithin : xBegin ≤ c ∧ c < x := by omega
    split
    case isTrue hair =>
      rw [List.filter_append, List.map_append, hcovered, if_pos ⟨hwithin, by rw [hid]; exact hair⟩]
      simp [hholds, hid]
    case isFalse hair =>
      rw [hcovered, if_neg fun hnot => hair (hid ▸ hnot.2)]
  · have hmiss : ¬ BlockRun.Holds ⟨scan.runRuntime, scan.runBegin, x - 1⟩ c := by
      unfold BlockRun.Holds
      simp only
      omega
    have hsame : (xBegin ≤ c ∧ c < scan.runBegin) ↔ (xBegin ≤ c ∧ c < x) := by omega
    simp only [hsame] at hcovered
    split
    · simpa [List.filter_append, hmiss] using hcovered
    · exact hcovered

variable {air : RuntimeId} {emitState : RuntimeId → BlockPos → Except String (List Char)}
  {out : List Emitted}

/-- One column. -/
theorem RunScan.Inv.step {xBegin x : ℤ} {idAt : ℤ → RuntimeId} {scan : RunScan}
    (h : scan.Inv air xBegin idAt x) : (scan.step air idAt x).Inv air xBegin idAt (x + 1) := by
  have hbegins := h.begins
  unfold RunScan.step
  simp only
  split
  case isTrue hsame =>
    refine ⟨by omega, fun c hc hx => ?_, h.covered⟩
    rcases Int.lt_or_eq_of_le (Int.lt_add_one_iff.mp hx) with hlt | rfl
    · exact h.current c hc hlt
    · exact hsame
  case isFalse =>
    refine ⟨by simp only; omega, fun c hc hx => ?_, h.finish⟩
    obtain rfl : c = x := by simp only at hc; omega
    rfl

/-- The runs of a row hold each of its non-air blocks once, under the right id. -/
theorem scanRow_spec (air : RuntimeId) (xBegin xEnd : ℤ) (idAt : ℤ → RuntimeId) (c : ℤ) :
    ((scanRow air xBegin xEnd idAt).filter fun run => run.Holds c).map BlockRun.runtime =
      if (xBegin ≤ c ∧ c < xEnd) ∧ idAt c ≠ air then [idAt c] else [] := by
  rcases le_or_gt xBegin xEnd with hle | hgt
  · have hinit : (RunScan.mk [] air xBegin).Inv air xBegin idAt xBegin :=
      ⟨⟨le_rfl, le_rfl⟩, fun c hc hx => absurd hx (by simp only at hc; omega), fun c => by
        simp only
        rw [if_neg (by omega)]
        rfl⟩
    have hscan := foldl_range (RunScan.step air idAt)
      (fun x scan => scan.Inv air xBegin idAt x) hle hinit fun x scan _ _ hs => hs.step
    exact hscan.finish c
  · have hout : ¬ ((xBegin ≤ c ∧ c < xEnd) ∧ idAt c ≠ air) := by omega
    rw [if_neg hout, scanRow, range_eq_nil hgt.le]
    simp

/-- A rectangle is a run repeated over rows. -/
def Rectangle.toSpan (rectangle : Rectangle) : Span BlockRun :=
  ⟨⟨rectangle.runtime, rectangle.x1, rectangle.x2⟩, rectangle.z1, rectangle.z2⟩

/-- A cuboid is a rectangle repeated over layers. -/
def Cuboid.toSpan (cuboid : Cuboid) : Span Rectangle := ⟨cuboid.key, cuboid.y1, cuboid.y2⟩

/-- Closing splits the open rectangles in order. -/
theorem closeBefore_append (run : BlockRun) (opened : List Rectangle) :
    (closeBefore run opened).1 ++ (closeBefore run opened).2 = opened := by
  induction opened with
  | nil => rfl
  | cons rectangle rest ih =>
    rw [closeBefore]
    split
    · rw [List.cons_append, ih]
    · rfl

/-- Equal runs extend the rectangle; all other runs open one. -/
theorem mergeRow_grown (z : ℤ) (opened : List Rectangle) (runs : List BlockRun) :
    Grown z (opened.map Rectangle.toSpan : Multiset (Span BlockRun)) (runs : Multiset BlockRun)
      ((mergeRow z opened runs).1.map Rectangle.toSpan)
      ((mergeRow z opened runs).2.map Rectangle.toSpan) := by
  induction runs generalizing opened with
  | nil => exact Grown.closeAll z _
  | cons run runs ih =>
    have hsplit := closeBefore_append run opened
    rw [mergeRow]
    generalize closeBefore run opened = parts at hsplit
    obtain ⟨closed, remaining⟩ := parts
    subst hsplit
    have hstart : Rectangle.toSpan ⟨run.runtime, run.x1, run.x2, z, z⟩ = Span.start z run := rfl
    cases remaining with
    | nil =>
      simp only [List.map_append, ← Multiset.coe_add, List.map_cons, hstart, ← Multiset.cons_coe]
      exact ((ih []).start run).close _
    | cons rectangle rest =>
      by_cases hsame : sameRun ⟨rectangle.runtime, rectangle.x1, rectangle.x2⟩ run
      · obtain rfl : (⟨rectangle.runtime, rectangle.x1, rectangle.x2⟩ : BlockRun) = run := by
          obtain ⟨hruntime, hx1, hx2⟩ := hsame
          cases run
          simp_all
        simp only [if_pos hsame, List.map_append, ← Multiset.coe_add, List.map_cons,
          ← Multiset.cons_coe]
        exact ((ih rest).extend rectangle.toSpan).close _
      · simp only [if_neg hsame, List.map_append, ← Multiset.coe_add, List.map_cons, hstart,
          ← Multiset.cons_coe]
        exact ((ih (rectangle :: rest)).start run).close _

/-- Keys that are ordered neither way are equal. -/
theorem Rectangle.eq_of_not_keyLt {a b : Rectangle} (hab : ¬ a.keyLt b) (hba : ¬ b.keyLt a) :
    a = b := by
  obtain ⟨ar, ax1, ax2, az1, az2⟩ := a
  obtain ⟨br, bx1, bx2, bz1, bz2⟩ := b
  simp only [Rectangle.keyLt, UInt32.lt_iff_toNat_lt, ← UInt32.toNat_inj] at hab hba
  simp only [Rectangle.mk.injEq, ← UInt32.toNat_inj]
  omega

/-- Equal rectangles extend the cuboid; all other rectangles open one. -/
theorem mergeLayer_grown (y : ℤ) (active : List Cuboid) (rectangles : List Rectangle) :
    Grown y (active.map Cuboid.toSpan : Multiset (Span Rectangle))
      (rectangles : Multiset Rectangle)
      ((mergeLayer y active rectangles).1.map Cuboid.toSpan)
      ((mergeLayer y active rectangles).2.map Cuboid.toSpan) := by
  have hstart (rectangle : Rectangle) :
      (rectangle.toCuboid y).toSpan = Span.start y rectangle := rfl
  fun_induction mergeLayer y active rectangles with
  | case1 active => exact Grown.closeAll y _
  | case2 rectangle rectangles emitted next heq ih =>
    rw [heq] at ih
    exact ih.start rectangle
  | case3 cuboid active rectangle rectangles hlt emitted next heq ih =>
    rw [heq] at ih
    exact ih.close {cuboid.toSpan}
  | case4 cuboid active rectangle rectangles hlt hgt emitted next heq ih =>
    rw [heq] at ih
    exact ih.start rectangle
  | case5 cuboid active rectangle rectangles hlt hgt emitted next heq ih =>
    rw [heq] at ih
    rw [← Rectangle.eq_of_not_keyLt hlt hgt]
    exact ih.extend cuboid.toSpan

/-- The rectangle holds the block column at `(x, z)`. -/
def Rectangle.Holds (rectangle : Rectangle) (cell : ℤ × ℤ) : Prop :=
  (rectangle.x1 ≤ cell.1 ∧ cell.1 ≤ rectangle.x2) ∧ rectangle.z1 ≤ cell.2 ∧ cell.2 ≤ rectangle.z2

instance (rectangle : Rectangle) (cell : ℤ × ℤ) : Decidable (rectangle.Holds cell) :=
  inferInstanceAs (Decidable ((_ ∧ _) ∧ _ ∧ _))

/-- The rectangles of a layer hold each block that the runs of its row hold. -/
theorem layerRectangles_spec (zBegin zEnd : ℤ) (runsOf : ℤ → List BlockRun) (x z : ℤ) :
    (((layerRectangles zBegin zEnd runsOf : Multiset Rectangle).filter
        fun rectangle => rectangle.Holds (x, z)).map fun rectangle => rectangle.toSpan.key) =
      if zBegin ≤ z ∧ z < zEnd then (runsOf z : Multiset BlockRun).filter (·.Holds x) else 0 := by
  let step (state : List Rectangle × List Rectangle) (z : ℤ) : List Rectangle × List Rectangle :=
    (state.1 ++ (mergeRow z state.2 (runsOf z)).1, (mergeRow z state.2 (runsOf z)).2)
  let Inv (z : ℤ) (state : List Rectangle × List Rectangle) : Prop :=
    Swept BlockRun.Holds (fun z => (runsOf z : Multiset BlockRun)) zBegin z
      (state.1.map Rectangle.toSpan : Multiset (Span BlockRun)) (state.2.map Rectangle.toSpan)
  have hinit : Inv zBegin ([], []) := Swept.initial _ _ _
  have hstep (z : ℤ) (state : List Rectangle × List Rectangle) (hlow : zBegin ≤ z)
      (_ : z < zEnd) (hs : Inv z state) : Inv (z + 1) (step state z) := by
    have hgrown := hs.step hlow (mergeRow_grown z state.2 (runsOf z))
    simpa only [Inv, step, List.map_append, ← Multiset.coe_add] using hgrown
  have hcover (final : List Rectangle × List Rectangle) (t : ℤ) (hs : Inv t final) (u : ℤ) :
      ((((final.1 ++ final.2).mergeSort fun left right => !decide (right.keyLt left) :
          List Rectangle) : Multiset Rectangle).filter fun rectangle => rectangle.Holds (x, u)).map
            (fun rectangle => rectangle.toSpan.key) =
        if zBegin ≤ u ∧ u < t then (runsOf u : Multiset BlockRun).filter (·.Holds x) else 0 := by
    rw [Multiset.coe_eq_coe.mpr (List.mergeSort_perm _ _), ← hs.cover x u, Multiset.coe_add,
      ← List.map_append, ← Multiset.map_coe, keysAt_map]
    rfl
  rcases le_or_gt zBegin zEnd with hle | hgt
  · exact hcover _ zEnd (foldl_range step Inv hle hinit hstep) z
  · have hcover := hcover ([], []) zBegin hinit z
    rw [if_neg (by omega)] at hcover ⊢
    rw [layerRectangles, range_eq_nil hgt.le]
    exact hcover

/-- The cuboids that the layer loop emits, in order. -/
def sweepLayers (rectanglesOf : ℤ → List Rectangle) : List ℤ → List Cuboid → List Cuboid
  | [], active => active
  | y :: ys, active =>
    (mergeLayer y active (rectanglesOf y)).1 ++
      sweepLayers rectanglesOf ys (mergeLayer y active (rectanglesOf y)).2

/-- Emitting in two goes. -/
theorem emitCuboids_append (emitState : RuntimeId → BlockPos → Except String (List Char))
    (first second : List Cuboid) (output : List Emitted) :
    emitCuboids emitState (first ++ second) output =
      match emitCuboids emitState first output with
      | .error error => .error error
      | .ok output => emitCuboids emitState second output := by
  induction first generalizing output with
  | nil => rfl
  | cons cuboid rest ih =>
    rw [List.cons_append, emitCuboids, emitCuboids]
    cases emitState cuboid.runtime ⟨cuboid.x1, cuboid.y1, cuboid.z1⟩ with
    | error error => rfl
    | ok state => exact ih _

/-- The layer loop emits the swept cuboids. -/
theorem encodeLayers_eq (emitState : RuntimeId → BlockPos → Except String (List Char))
    (rectanglesOf : ℤ → List Rectangle) (ys : List ℤ) (active : List Cuboid)
    (output : List Emitted) :
    encodeLayers emitState rectanglesOf ys active output =
      emitCuboids emitState (sweepLayers rectanglesOf ys active) output := by
  induction ys generalizing active output with
  | nil => rfl
  | cons y ys ih =>
    rw [encodeLayers, sweepLayers, emitCuboids_append]
    obtain ⟨emitted, next⟩ := mergeLayer y active (rectanglesOf y)
    simp only
    cases emitCuboids emitState emitted output with
    | error error => rfl
    | ok output => exact ih next output

/-- The swept cuboids hold each block that the rectangles of its layer hold. -/
theorem sweepLayers_spec {rectanglesOf : ℤ → List Rectangle} {low y high : ℤ}
    {done active : List Cuboid} (hlow : low ≤ y) (hhigh : y ≤ high)
    (hs : Swept Rectangle.Holds (fun y => (rectanglesOf y : Multiset Rectangle)) low y
      (done.map Cuboid.toSpan : Multiset (Span Rectangle)) (active.map Cuboid.toSpan))
    (cell : ℤ × ℤ) (u : ℤ) :
    keysAt Rectangle.Holds
        ((done ++ sweepLayers rectanglesOf (Int.range y high) active).map Cuboid.toSpan :
          Multiset (Span Rectangle)) cell u =
      if low ≤ u ∧ u < high then
        (rectanglesOf u : Multiset Rectangle).filter (·.Holds cell) else 0 := by
  obtain ⟨n, hn⟩ := Int.eq_ofNat_of_zero_le (show 0 ≤ high - y by omega)
  induction n generalizing y done active with
  | zero =>
    obtain rfl : y = high := by omega
    rw [range_eq_nil le_rfl, sweepLayers, ← hs.cover cell u, Multiset.coe_add, List.map_append]
  | succ n ih =>
    have hgrown := hs.step hlow (mergeLayer_grown y active (rectanglesOf y))
    rw [Multiset.coe_add, ← List.map_append] at hgrown
    rw [range_cons (by omega), sweepLayers, ← List.append_assoc]
    exact ih (by omega) (by omega) hgrown (by omega)

/-- The block belongs to the batch. -/
def BatchBounds.Contains (bounds : BatchBounds) (size : Size) (pos : BlockPos) : Prop :=
  (bounds.xBegin ≤ pos.x ∧ pos.x < bounds.xEnd) ∧ (0 ≤ pos.y ∧ pos.y < size.height) ∧
    (bounds.zBegin ≤ pos.z ∧ pos.z < bounds.zEnd)

instance (bounds : BatchBounds) (size : Size) (pos : BlockPos) :
    Decidable (bounds.Contains size pos) :=
  inferInstanceAs (Decidable ((_ ∧ _) ∧ (_ ∧ _) ∧ (_ ∧ _)))

def Cuboid.box (cuboid : Cuboid) : Box :=
  ⟨⟨cuboid.x1, cuboid.y1, cuboid.z1⟩, ⟨cuboid.x2, cuboid.y2, cuboid.z2⟩⟩

/-- The cuboids of a batch. -/
def batchCuboids (air : RuntimeId) (size : Size) (bounds : BatchBounds)
    (layerFor : ℕ → ℤ → BlockLayerView) : List Cuboid :=
  sweepLayers (fun y => layerRectangles bounds.zBegin bounds.zEnd fun z =>
      scanRow air bounds.xBegin bounds.xEnd fun x => blockAt air bounds layerFor ⟨x, y, z⟩)
    (Int.range 0 size.height) []

/-- A batch emits its cuboids. -/
theorem encodeBatch_eq (air : RuntimeId) (size : Size) (bounds : BatchBounds)
    (layerFor : ℕ → ℤ → BlockLayerView)
    (emitState : RuntimeId → BlockPos → Except String (List Char)) :
    encodeBatch air size bounds layerFor emitState =
      emitCuboids emitState (batchCuboids air size bounds layerFor) [] :=
  encodeLayers_eq _ _ _ _ _

/-- A rectangle's columns, seen through the runs it repeats. -/
theorem map_runtime_filter_layerRectangles (air : RuntimeId) (bounds : BatchBounds)
    (idAt : ℤ → ℤ → RuntimeId) (x z : ℤ) :
    ((layerRectangles bounds.zBegin bounds.zEnd (fun z =>
        scanRow air bounds.xBegin bounds.xEnd (idAt z)) : Multiset Rectangle).filter
          (·.Holds (x, z))).map Rectangle.runtime =
      if ((bounds.xBegin ≤ x ∧ x < bounds.xEnd) ∧ bounds.zBegin ≤ z ∧ z < bounds.zEnd) ∧
        idAt z x ≠ air then {idAt z x} else 0 := by
  have hrects := congrArg (Multiset.map BlockRun.runtime) (layerRectangles_spec bounds.zBegin
    bounds.zEnd (fun z => scanRow air bounds.xBegin bounds.xEnd (idAt z)) x z)
  rw [Multiset.map_map] at hrects
  refine hrects.trans ?_
  by_cases hz : bounds.zBegin ≤ z ∧ z < bounds.zEnd
  · rw [if_pos hz, Multiset.filter_coe, Multiset.map_coe, scanRow_spec]
    simp only [hz, and_true]
    split <;> rfl
  · rw [if_neg hz, if_neg fun h => hz h.1.2]
    rfl

/-- The cuboids of a batch hold each of its non-air blocks once, under the right id. -/
theorem batchCuboids_spec (air : RuntimeId) (size : Size) (bounds : BatchBounds)
    (layerFor : ℕ → ℤ → BlockLayerView) (pos : BlockPos) :
    ((batchCuboids air size bounds layerFor).filter fun cuboid => cuboid.box.Contains pos).map
        Cuboid.runtime =
      if bounds.Contains size pos ∧ blockAt air bounds layerFor pos ≠ air then
        [blockAt air bounds layerFor pos] else [] := by
  let idAt (y z x : ℤ) : RuntimeId := blockAt air bounds layerFor ⟨x, y, z⟩
  let rectanglesOf (y : ℤ) : List Rectangle :=
    layerRectangles bounds.zBegin bounds.zEnd fun z =>
      scanRow air bounds.xBegin bounds.xEnd (idAt y z)
  have hkeys : keysAt Rectangle.Holds
      ((batchCuboids air size bounds layerFor).map Cuboid.toSpan : Multiset (Span Rectangle))
        (pos.x, pos.z) pos.y =
      if 0 ≤ pos.y ∧ pos.y < size.height then
        (rectanglesOf pos.y : Multiset Rectangle).filter (·.Holds (pos.x, pos.z)) else 0 := by
    rcases le_or_gt 0 size.height with hle | hgt
    · have hinit : Swept Rectangle.Holds (fun y => (rectanglesOf y : Multiset Rectangle)) 0 0
          (([] : List Cuboid).map Cuboid.toSpan : Multiset (Span Rectangle))
          (([] : List Cuboid).map Cuboid.toSpan) := Swept.initial _ _ _
      exact sweepLayers_spec le_rfl hle hinit (pos.x, pos.z) pos.y
    · rw [batchCuboids, range_eq_nil hgt.le, if_neg (by omega)]
      rfl
  have hmultiset : (((batchCuboids air size bounds layerFor).filter
      fun cuboid => cuboid.box.Contains pos).map Cuboid.runtime : Multiset RuntimeId) =
      if bounds.Contains size pos ∧ blockAt air bounds layerFor pos ≠ air then
        {blockAt air bounds layerFor pos} else 0 := by
    have hruntimes := congrArg (Multiset.map Rectangle.runtime) hkeys
    rw [← Multiset.map_coe, keysAt_map, Multiset.map_map] at hruntimes
    rw [← Multiset.map_coe, ← Multiset.filter_coe]
    refine Eq.trans ?_ (hruntimes.trans ?_)
    · congr 1
      refine Multiset.filter_congr fun cuboid _ => ?_
      simp only [Box.Contains, Cuboid.box, Rectangle.Holds, Cuboid.toSpan, Cuboid.key]
      omega
    · by_cases hy : 0 ≤ pos.y ∧ pos.y < size.height
      · rw [if_pos hy]
        refine (map_runtime_filter_layerRectangles air bounds (idAt pos.y) pos.x pos.z).trans ?_
        refine if_congr ?_ rfl rfl
        simp only [BatchBounds.Contains, hy, true_and, idAt]
      · rw [if_neg hy, if_neg fun h => hy h.1.2.1]
        rfl
  split_ifs with h
  · rw [if_pos h] at hmultiset; exact Multiset.coe_eq_singleton.mp hmultiset
  · rw [if_neg h] at hmultiset; exact (Multiset.coe_eq_zero _).mp hmultiset

/-- The commands of a cuboid write its pieces. -/
theorem map_box_writeCuboid (cuboid : Cuboid) (state : List Char) :
    (writeCuboid cuboid state).map Command.box = cuboid.box.pieces kFillEdge kFillEdge_pos := by
  rw [writeCuboid, List.map_map]
  refine (List.map_congr_left fun piece _ => ?_).trans (List.map_id _)
  obtain ⟨⟨x1, y1, z1⟩, ⟨x2, y2, z2⟩⟩ := piece
  simp only [Function.comp_apply]
  split_ifs with hsingle
  · obtain ⟨rfl, rfl, rfl⟩ := hsingle
    rfl
  · rfl

/-- A command stays within the fill limit, and is a `setblock` exactly for a single block. -/
def Command.WithinLimit (command : Command) : Prop :=
  command.box.volume ≤ 32768 ∧
    ((∃ pos state, command = .setblock pos state) ↔ command.box.volume = 1)

/-- Pieces have at most 32 blocks along each edge. -/
theorem withinLimit_of_mem_writeCuboid {cuboid : Cuboid} {state : List Char} {command : Command}
    (h : command ∈ writeCuboid cuboid state) : command.WithinLimit := by
  obtain ⟨piece, hpiece, rfl⟩ := List.mem_map.mp h
  obtain ⟨-, ⟨hx, hy, hz⟩, hxe, hye, hze⟩ := Box.mem_pieces_bounds hpiece
  obtain ⟨⟨x1, y1, z1⟩, ⟨x2, y2, z2⟩⟩ := piece
  simp only [kFillEdge] at hx hy hz hxe hye hze
  simp only
  split_ifs with hmany
  · exact ⟨by simp [Command.box, Box.volume], by simp [Command.box, Box.volume]⟩
  · obtain ⟨dx, hdx⟩ := Int.eq_ofNat_of_zero_le (show 0 ≤ x2 - x1 by omega)
    obtain ⟨dy, hdy⟩ := Int.eq_ofNat_of_zero_le (show 0 ≤ y2 - y1 by omega)
    obtain ⟨dz, hdz⟩ := Int.eq_ofNat_of_zero_le (show 0 ≤ z2 - z1 by omega)
    have hvolume : (Box.mk ⟨x1, y1, z1⟩ ⟨x2, y2, z2⟩).volume =
        (((dx + 1) * (dy + 1) * (dz + 1) : ℕ) : ℤ) := by
      simp only [Box.volume, hdx, hdy, hdz]
      push_cast
      ring
    have hle : (dx + 1) * (dy + 1) * (dz + 1) ≤ 32 * 32 * 32 :=
      Nat.mul_le_mul (Nat.mul_le_mul (by omega) (by omega)) (by omega)
    refine ⟨by simp only [Command.box, hvolume]; omega, ⟨fun ⟨_, _, h⟩ => (by cases h), fun h => ?_⟩⟩
    simp only [Command.box, hvolume] at h
    have hone : (dx + 1) * (dy + 1) * (dz + 1) = 1 := by exact_mod_cast h
    have hz1 := Nat.dvd_one.mp (Dvd.intro_left _ hone)
    have hxy := Nat.dvd_one.mp (Dvd.intro _ hone)
    have hx1 := Nat.dvd_one.mp (Dvd.intro _ hxy)
    have hy1 := Nat.dvd_one.mp (Dvd.intro_left _ hxy)
    exact absurd ⟨by omega, by omega, by omega⟩ hmany

/-- What a successful emission writes: the pieces of the cuboids in order, each under the id of
its cuboid and within the limit. -/
theorem emitCuboids_ok {cuboids : List Cuboid} {output : List Emitted}
    (h : emitCuboids emitState cuboids output = .ok out) :
    ∃ more, out = output ++ more ∧ (∀ e ∈ more, e.command.WithinLimit) ∧
      more.map (fun e => (e.runtime, e.command.box)) = cuboids.flatMap fun cuboid =>
        (cuboid.box.pieces kFillEdge kFillEdge_pos).map (cuboid.runtime, ·) := by
  induction cuboids generalizing output with
  | nil =>
    cases h
    exact ⟨[], by simp, by simp, rfl⟩
  | cons cuboid rest ih =>
    rw [emitCuboids] at h
    cases hstate : emitState cuboid.runtime ⟨cuboid.x1, cuboid.y1, cuboid.z1⟩ with
    | error error => rw [hstate] at h; cases h
    | ok state =>
      rw [hstate] at h
      obtain ⟨more, rfl, hlimit, hmore⟩ := ih h
      refine ⟨_, List.append_assoc _ _ _, fun e he => ?_, ?_⟩
      · rcases List.mem_append.mp he with hnow | hlater
        · obtain ⟨command, hcommand, rfl⟩ := List.mem_map.mp hnow
          exact withinLimit_of_mem_writeCuboid hcommand
        · exact hlimit e hlater
      · rw [List.map_append, hmore, List.flatMap_cons, List.map_map,
          ← map_box_writeCuboid cuboid state, List.map_map]
        rfl

/-- If every id has a text, emission succeeds. -/
theorem exists_emitCuboids (htotal : ∀ id pos, ∃ state, emitState id pos = .ok state)
    (cuboids : List Cuboid) (output : List Emitted) :
    ∃ out, emitCuboids emitState cuboids output = .ok out := by
  induction cuboids generalizing output with
  | nil => exact ⟨output, rfl⟩
  | cons cuboid rest ih =>
    obtain ⟨state, hstate⟩ := htotal cuboid.runtime ⟨cuboid.x1, cuboid.y1, cuboid.z1⟩
    rw [emitCuboids, hstate]
    exact ih _

/-- The ids of the pieces that hold a block are the ids of the cuboids that hold it. -/
theorem map_fst_filter_pieces (cuboids : List Cuboid) (pos : BlockPos) :
    ((cuboids.flatMap fun cuboid =>
        (cuboid.box.pieces kFillEdge kFillEdge_pos).map (cuboid.runtime, ·)).filter
          fun piece => piece.2.Contains pos).map Prod.fst =
      (cuboids.filter fun cuboid => cuboid.box.Contains pos).map Cuboid.runtime := by
  induction cuboids with
  | nil => rfl
  | cons cuboid rest ih =>
    have hpieces : (((cuboid.box.pieces kFillEdge kFillEdge_pos).map (cuboid.runtime, ·)).filter
        fun piece => piece.2.Contains pos).map Prod.fst =
        List.replicate (if cuboid.box.Contains pos then 1 else 0) cuboid.runtime := by
      rw [← Box.countP_pieces kFillEdge kFillEdge_pos,
        List.countP_eq_length_filter, List.filter_map, List.map_map]
      exact List.map_const'
    rw [List.flatMap_cons, List.filter_append, List.map_append, ih, hpieces, List.filter_cons]
    split
    case isTrue h => rw [if_pos (decide_eq_true h)]; rfl
    case isFalse h => rw [if_neg (by simpa using h)]; rfl

variable {size : Size} {bounds : BatchBounds} {layerFor : ℕ → ℤ → BlockLayerView}

/-- The ids of the commands that write a block. -/
theorem encodeBatch_runtimes (h : encodeBatch air size bounds layerFor emitState = .ok out)
    (pos : BlockPos) :
    (out.filter fun e => e.command.box.Contains pos).map Emitted.runtime =
      if bounds.Contains size pos ∧ blockAt air bounds layerFor pos ≠ air then
        [blockAt air bounds layerFor pos] else [] := by
  rw [encodeBatch_eq] at h
  obtain ⟨more, rfl, -, hmore⟩ := emitCuboids_ok h
  have hpieces := map_fst_filter_pieces (batchCuboids air size bounds layerFor) pos
  rw [batchCuboids_spec] at hpieces
  rw [← hpieces, ← hmore, List.filter_map, List.map_map]
  rfl

/-- A command writes only blocks of its batch that have its id. -/
theorem mem_encodeBatch (h : encodeBatch air size bounds layerFor emitState = .ok out) {e : Emitted}
    (he : e ∈ out) {pos : BlockPos} (hpos : e.command.box.Contains pos) :
    bounds.Contains size pos ∧ blockAt air bounds layerFor pos = e.runtime ∧ e.runtime ≠ air := by
  have hmem : e.runtime ∈ (out.filter fun e => e.command.box.Contains pos).map Emitted.runtime :=
    List.mem_map_of_mem (List.mem_filter.mpr ⟨he, decide_eq_true hpos⟩)
  rw [encodeBatch_runtimes h] at hmem
  split_ifs at hmem with hcell
  · have hid := List.mem_singleton.mp hmem
    exact ⟨hcell.1, hid.symm, hid ▸ hcell.2⟩
  · cases hmem

/-- The emitted commands partition the non-air blocks of the batch. -/
theorem encodeBatch_partition (air : RuntimeId) (size : Size) (bounds : BatchBounds)
    (layerFor : ℕ → ℤ → BlockLayerView)
    (emitState : RuntimeId → BlockPos → Except String (List Char)) (out : List Emitted)
    (h : encodeBatch air size bounds layerFor emitState = .ok out) :
    (out.Pairwise fun a b => a.command.box.Disjoint b.command.box) ∧
      (∀ e ∈ out, ∀ pos, e.command.box.Contains pos → bounds.Contains size pos ∧
        blockAt air bounds layerFor pos = e.runtime ∧ e.runtime ≠ air) ∧
      (∀ pos, bounds.Contains size pos → blockAt air bounds layerFor pos ≠ air →
        (out.countP fun e => e.command.box.Contains pos) = 1) ∧
      ∀ e ∈ out, e.command.WithinLimit := by
  have hcount (pos : BlockPos) : (out.countP fun e => e.command.box.Contains pos) =
      if bounds.Contains size pos ∧ blockAt air bounds layerFor pos ≠ air then 1 else 0 := by
    rw [List.countP_eq_length_filter, ← List.length_map (f := Emitted.runtime),
      encodeBatch_runtimes h pos]
    split <;> rfl
  refine ⟨Box.pairwise_disjoint fun pos => ?_, fun e he pos hpos => mem_encodeBatch h he hpos,
    fun pos hin hair => ?_, ?_⟩
  · rw [hcount]
    split <;> decide
  · rw [hcount, if_pos ⟨hin, hair⟩]
  · rw [encodeBatch_eq] at h
    obtain ⟨more, rfl, hlimit, -⟩ := emitCuboids_ok h
    exact hlimit

/-- A batch whose ids all have texts is encoded. -/
theorem exists_encodeBatch (air : RuntimeId) (size : Size) (bounds : BatchBounds)
    (layerFor : ℕ → ℤ → BlockLayerView)
    (emitState : RuntimeId → BlockPos → Except String (List Char))
    (htotal : ∀ id pos, ∃ state, emitState id pos = .ok state) :
    ∃ out, encodeBatch air size bounds layerFor emitState = .ok out := by
  rw [encodeBatch_eq]
  exact exists_emitCuboids htotal _ _

/-- Two neighbouring blocks of one chunk, and nothing above them. -/
theorem encodeBatch_partition_pair :
    ∃ out, encodeBatch 0 ⟨2, 1, 1⟩ ⟨0, 0, 1, 0, 2, 0, 1⟩ (fun _ _ => .data false fun _ => 5)
        (fun _ _ => .ok ['s']) = .ok out ∧
      (out.countP fun e => e.command.box.Contains ⟨1, 0, 0⟩) = 1 ∧
      ∀ e ∈ out, ¬ e.command.box.Contains ⟨0, 1, 0⟩ := by
  obtain ⟨out, hout⟩ := exists_encodeBatch 0 ⟨2, 1, 1⟩ ⟨0, 0, 1, 0, 2, 0, 1⟩
    (fun _ _ => .data false fun _ => 5) (fun _ _ => .ok ['s']) fun _ _ => ⟨_, rfl⟩
  obtain ⟨-, hcells, hcover, -⟩ := encodeBatch_partition 0 ⟨2, 1, 1⟩ ⟨0, 0, 1, 0, 2, 0, 1⟩
    (fun _ _ => .data false fun _ => 5) (fun _ _ => .ok ['s']) out hout
  exact ⟨out, hout, hcover ⟨1, 0, 0⟩ (by decide) (by decide),
    fun e he hpos => absurd (hcells e he ⟨0, 1, 0⟩ hpos).1 (by decide)⟩

end WaterStructure.McFunction
