import Mathlib.Data.Int.Range
import WaterStructure.Core.Box

/-!
# The batch encoder of the MCFunction writer

A batch is a row of neighbouring chunks. The encoder scans it layer by layer: equal blocks of a
row become runs, equal runs of consecutive rows become rectangles, and equal rectangles of
consecutive layers become cuboids, which are cut into commands of at most 32 blocks an edge.

The text buffer is the list of commands written to it, each with the runtime id it was emitted
for. Coordinates are exact integers, as they are in the source as long as `x + 31` fits 32 bits.
-/

namespace WaterStructure.McFunction

def kFillEdge : ℤ := 32

theorem kFillEdge_pos : 0 < kFillEdge := by decide

/-- One command line; the state is the text after the coordinates. -/
inductive Command where
  | setblock (pos : BlockPos) (state : List Char)
  | fill (box : Box) (state : List Char)
  deriving DecidableEq

/-- The blocks a command writes. -/
def Command.box : Command → Box
  | .setblock pos _ => ⟨pos, pos⟩
  | .fill box _ => box

/-- A command together with the runtime id it was emitted for. -/
structure Emitted where
  runtime : RuntimeId
  command : Command

structure BlockRun where
  runtime : RuntimeId
  x1 : ℤ
  x2 : ℤ
  deriving DecidableEq

structure Rectangle where
  runtime : RuntimeId
  x1 : ℤ
  x2 : ℤ
  z1 : ℤ
  z2 : ℤ
  deriving DecidableEq

structure Cuboid where
  runtime : RuntimeId
  x1 : ℤ
  x2 : ℤ
  y1 : ℤ
  y2 : ℤ
  z1 : ℤ
  z2 : ℤ
  deriving DecidableEq

/-- `cuboid_key` of a cuboid; of a rectangle it is the rectangle itself. -/
def Cuboid.key (cuboid : Cuboid) : Rectangle :=
  ⟨cuboid.runtime, cuboid.x1, cuboid.x2, cuboid.z1, cuboid.z2⟩

/-- The defaulted comparison of keys: field by field. -/
def Rectangle.keyLt (a b : Rectangle) : Prop :=
  a.runtime < b.runtime ∨ a.runtime = b.runtime ∧ (a.x1 < b.x1 ∨ a.x1 = b.x1 ∧
    (a.x2 < b.x2 ∨ a.x2 = b.x2 ∧ (a.z1 < b.z1 ∨ a.z1 = b.z1 ∧ a.z2 < b.z2)))

instance (a b : Rectangle) : Decidable (a.keyLt b) :=
  inferInstanceAs (Decidable (_ ∨ _ ∧ (_ ∨ _ ∧ (_ ∨ _ ∧ (_ ∨ _ ∧ _)))))

def sameRun (left right : BlockRun) : Prop :=
  left.runtime = right.runtime ∧ left.x1 = right.x1 ∧ left.x2 = right.x2

instance (left right : BlockRun) : Decidable (sameRun left right) :=
  inferInstanceAs (Decidable (_ ∧ _ ∧ _))

/-- `write_cuboid`: a single block becomes a `setblock`, every other piece a `fill`. -/
def writeCuboid (cuboid : Cuboid) (state : List Char) : List Command :=
  (Box.pieces kFillEdge kFillEdge_pos
      ⟨⟨cuboid.x1, cuboid.y1, cuboid.z1⟩, ⟨cuboid.x2, cuboid.y2, cuboid.z2⟩⟩).map fun piece =>
    if piece.first.x = piece.last.x ∧ piece.first.y = piece.last.y ∧ piece.first.z = piece.last.z
    then .setblock piece.first state
    else .fill piece state

/-- One layer of a subchunk: absent, ids in either order, or a palette with indices in native
order. -/
inductive BlockLayerView where
  | absent
  | data (nativeLayout : Bool) (layer : BlockLayer)
  | indexed (paletteHandles : ℕ → RuntimeId) (indices : ℕ → ℕ)

/-- The id of a local cell; an absent layer is air. -/
def BlockLayerView.at (view : BlockLayerView) (air : RuntimeId) (localX localY localZ : ℤ) :
    RuntimeId :=
  match view with
  | .absent => air
  | .data nativeLayout layer =>
    layer (if nativeLayout then (localX * 256 + localY * 16 + localZ).toNat
      else ((localY * 16 + localZ) * 16 + localX).toNat)
  | .indexed paletteHandles indices =>
    paletteHandles (indices (localX * 256 + localY * 16 + localZ).toNat)

structure BatchBounds where
  chunkZ : ℤ
  batchX : ℤ
  batchEnd : ℤ
  xBegin : ℤ
  xEnd : ℤ
  zBegin : ℤ
  zEnd : ℤ

/-- The id the encoder sees at a block; `layerFor` answers for a chunk of the batch and a
subchunk row. -/
def blockAt (air : RuntimeId) (bounds : BatchBounds) (layerFor : ℕ → ℤ → BlockLayerView)
    (pos : BlockPos) : RuntimeId :=
  let subY := floorDiv (pos.y - 64) 16
  (layerFor (pos.x.tdiv 16 - bounds.batchX).toNat subY).at air
    (floorMod pos.x 16) (pos.y - (subY * 16 + 64)) (floorMod pos.z 16)

/-- The scan of one row: finished runs, and the run in progress. -/
structure RunScan where
  runs : List BlockRun
  runRuntime : RuntimeId
  runBegin : ℤ

/-- One block of the row. -/
def RunScan.step (air : RuntimeId) (idAt : ℤ → RuntimeId) (scan : RunScan) (x : ℤ) : RunScan :=
  let runtimeId := idAt x
  if runtimeId = scan.runRuntime then scan
  else
    { runs := if scan.runRuntime ≠ air then scan.runs ++ [⟨scan.runRuntime, scan.runBegin, x - 1⟩]
        else scan.runs
      runRuntime := runtimeId
      runBegin := x }

/-- The runs of one row, from left to right. -/
def scanRow (air : RuntimeId) (xBegin xEnd : ℤ) (idAt : ℤ → RuntimeId) : List BlockRun :=
  let scan := (Int.range xBegin xEnd).foldl (RunScan.step air idAt) ⟨[], air, xBegin⟩
  if scan.runRuntime ≠ air then scan.runs ++ [⟨scan.runRuntime, scan.runBegin, xEnd - 1⟩]
  else scan.runs

/-- An open rectangle that no later run of this row can continue. -/
def Rectangle.before (rectangle : Rectangle) (run : BlockRun) : Prop :=
  rectangle.x1 < run.x1 ∨ rectangle.x1 = run.x1 ∧ (rectangle.x2 < run.x2 ∨
    rectangle.x2 = run.x2 ∧ rectangle.runtime < run.runtime)

instance (rectangle : Rectangle) (run : BlockRun) : Decidable (rectangle.before run) :=
  inferInstanceAs (Decidable (_ ∨ _ ∧ (_ ∨ _ ∧ _)))

/-- `while (open_index < …) rectangles.push_back(…)`: the closed rectangles and the rest. -/
def closeBefore (run : BlockRun) : List Rectangle → List Rectangle × List Rectangle
  | [] => ([], [])
  | rectangle :: rest =>
    if rectangle.before run then
      let (closed, remaining) := closeBefore run rest
      (rectangle :: closed, remaining)
    else ([], rectangle :: rest)

/-- One row: the rectangles it closes, and the open ones after it. -/
def mergeRow (z : ℤ) : List Rectangle → List BlockRun → List Rectangle × List Rectangle
  | opened, [] => (opened, [])
  | opened, run :: runs =>
    let (closed, remaining) := closeBefore run opened
    match remaining with
    | rectangle :: rest =>
      if sameRun ⟨rectangle.runtime, rectangle.x1, rectangle.x2⟩ run then
        let (closedLater, next) := mergeRow z rest runs
        (closed ++ closedLater, { rectangle with z2 := z } :: next)
      else
        let (closedLater, next) := mergeRow z (rectangle :: rest) runs
        (closed ++ closedLater, ⟨run.runtime, run.x1, run.x2, z, z⟩ :: next)
    | [] =>
      let (closedLater, next) := mergeRow z [] runs
      (closed ++ closedLater, ⟨run.runtime, run.x1, run.x2, z, z⟩ :: next)

/-- The rectangles of one layer, sorted by key. -/
def layerRectangles (zBegin zEnd : ℤ) (runsOf : ℤ → List BlockRun) : List Rectangle :=
  let (rectangles, opened) := (Int.range zBegin zEnd).foldl
    (fun (rectangles, opened) z =>
      let (closed, next) := mergeRow z opened (runsOf z)
      (rectangles ++ closed, next)) ([], [])
  (rectangles ++ opened).mergeSort fun left right => !decide (right.keyLt left)

/-- A rectangle that becomes a cuboid of one layer. -/
def Rectangle.toCuboid (y : ℤ) (rectangle : Rectangle) : Cuboid :=
  ⟨rectangle.runtime, rectangle.x1, rectangle.x2, y, y, rectangle.z1, rectangle.z2⟩

/-- One layer: the cuboids it emits, and the active ones after it. -/
def mergeLayer (y : ℤ) : List Cuboid → List Rectangle → List Cuboid × List Cuboid
  | active, [] => (active, [])
  | [], rectangle :: rectangles =>
    let (emitted, next) := mergeLayer y [] rectangles
    (emitted, rectangle.toCuboid y :: next)
  | cuboid :: active, rectangle :: rectangles =>
    if cuboid.key.keyLt rectangle then
      let (emitted, next) := mergeLayer y active (rectangle :: rectangles)
      (cuboid :: emitted, next)
    else if rectangle.keyLt cuboid.key then
      let (emitted, next) := mergeLayer y (cuboid :: active) rectangles
      (emitted, rectangle.toCuboid y :: next)
    else
      let (emitted, next) := mergeLayer y active rectangles
      (emitted, { cuboid with y2 := y } :: next)
  termination_by active rectangles => active.length + rectangles.length

/-- `emit_cuboid` for one cuboid after the other, up to the first state without a text. -/
def emitCuboids (emitState : RuntimeId → BlockPos → Except String (List Char)) :
    List Cuboid → List Emitted → Except String (List Emitted)
  | [], output => .ok output
  | cuboid :: rest, output =>
    match emitState cuboid.runtime ⟨cuboid.x1, cuboid.y1, cuboid.z1⟩ with
    | .error error => .error error
    | .ok state =>
      emitCuboids emitState rest
        (output ++ (writeCuboid cuboid state).map fun command => ⟨cuboid.runtime, command⟩)

/-- The loop over the layers, with the active cuboids and the output so far. -/
def encodeLayers (emitState : RuntimeId → BlockPos → Except String (List Char))
    (rectanglesOf : ℤ → List Rectangle) :
    List ℤ → List Cuboid → List Emitted → Except String (List Emitted)
  | [], active, output => emitCuboids emitState active output
  | y :: ys, active, output =>
    let (emitted, next) := mergeLayer y active (rectanglesOf y)
    match emitCuboids emitState emitted output with
    | .error error => .error error
    | .ok output => encodeLayers emitState rectanglesOf ys next output

/-- `encode_batch_impl`: the commands of one batch. -/
def encodeBatch (air : RuntimeId) (size : Size) (bounds : BatchBounds)
    (layerFor : ℕ → ℤ → BlockLayerView)
    (emitState : RuntimeId → BlockPos → Except String (List Char)) :
    Except String (List Emitted) :=
  encodeLayers emitState
    (fun y => layerRectangles bounds.zBegin bounds.zEnd fun z =>
      scanRow air bounds.xBegin bounds.xEnd fun x => blockAt air bounds layerFor ⟨x, y, z⟩)
    (Int.range 0 size.height) [] []

end WaterStructure.McFunction
