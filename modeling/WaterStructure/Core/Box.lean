import WaterStructure.Core.Types
import WaterStructure.Library.NestedLoop
import WaterStructure.Library.Strips

/-!
# Boxes of blocks

Command formats describe blocks by boxes with inclusive corners. A box is cut into pieces whose
edges respect a command limit by three nested strip loops, y outermost; each block of the box
lies in exactly one piece.
-/

namespace WaterStructure

open Strips NestedLoop

structure Box where
  first : BlockPos
  last : BlockPos
  deriving DecidableEq, Repr

/-- The block lies between the corners, both included. -/
def Box.Contains (box : Box) (pos : BlockPos) : Prop :=
  (box.first.x ≤ pos.x ∧ pos.x ≤ box.last.x) ∧ (box.first.y ≤ pos.y ∧ pos.y ≤ box.last.y) ∧
    (box.first.z ≤ pos.z ∧ pos.z ≤ box.last.z)

instance (box : Box) (pos : BlockPos) : Decidable (box.Contains pos) :=
  inferInstanceAs (Decidable ((_ ∧ _) ∧ (_ ∧ _) ∧ (_ ∧ _)))

/-- The number of blocks of a box whose corners are in order. -/
def Box.volume (box : Box) : ℤ :=
  (box.last.x - box.first.x + 1) * (box.last.y - box.first.y + 1) * (box.last.z - box.first.z + 1)

/-- No block lies in both boxes. -/
def Box.Disjoint (box other : Box) : Prop := ∀ pos, ¬ (box.Contains pos ∧ other.Contains pos)

/-- Cut a box into pieces with edges of at most `edge` blocks. -/
def Box.pieces (edge : ℤ) (hedge : 0 < edge) (box : Box) : List Box :=
  (strips edge hedge box.first.y box.last.y).flatMap fun y =>
    (strips edge hedge box.first.z box.last.z).flatMap fun z =>
      (strips edge hedge box.first.x box.last.x).map fun x => ⟨⟨x.1, y.1, z.1⟩, ⟨x.2, y.2, z.2⟩⟩

variable {edge : ℤ} {hedge : 0 < edge}

/-- A piece lies inside the box, has ordered corners and short edges. -/
theorem Box.mem_pieces_bounds {box piece : Box} (h : piece ∈ box.pieces edge hedge) :
    (∀ pos, piece.Contains pos → box.Contains pos) ∧ piece.Contains piece.first ∧
      piece.last.x < piece.first.x + edge ∧ piece.last.y < piece.first.y + edge ∧
      piece.last.z < piece.first.z + edge := by
  simp only [Box.pieces, List.mem_flatMap, List.mem_map] at h
  obtain ⟨y, hy, z, hz, x, hx, rfl⟩ := h
  have hby := strips_bounds hy
  have hbz := strips_bounds hz
  have hbx := strips_bounds hx
  simp only [Box.Contains]
  refine ⟨fun pos hpos => ?_, ?_, ?_, ?_, ?_⟩ <;> omega

/-- Each block of the box lies in exactly one piece. -/
theorem Box.countP_pieces (edge : ℤ) (hedge : 0 < edge) (box : Box) (pos : BlockPos) :
    (box.pieces edge hedge).countP (fun piece => piece.Contains pos) =
      if box.Contains pos then 1 else 0 := by
  have hrow (y z : ℤ × ℤ) :
      ((strips edge hedge box.first.x box.last.x).map fun x =>
        (⟨⟨x.1, y.1, z.1⟩, ⟨x.2, y.2, z.2⟩⟩ : Box)).countP (fun piece => piece.Contains pos) =
      if decide (z.1 ≤ pos.z ∧ pos.z ≤ z.2) then
        (if decide (y.1 ≤ pos.y ∧ pos.y ≤ y.2) then
          if box.first.x ≤ pos.x ∧ pos.x ≤ box.last.x then 1 else 0 else 0) else 0 := by
    rw [List.countP_map, ← countP_strips edge hedge]
    by_cases hz : z.1 ≤ pos.z ∧ pos.z ≤ z.2
    · by_cases hy : y.1 ≤ pos.y ∧ pos.y ≤ y.2
      · simp [hy, hz, Box.Contains, Function.comp_def]
      · simp [hy, Box.Contains, Function.comp_def]
    · simp [hz, Box.Contains, Function.comp_def]
  have hlayer (y : ℤ × ℤ) :
      ((strips edge hedge box.first.z box.last.z).flatMap fun z =>
        (strips edge hedge box.first.x box.last.x).map fun x =>
          (⟨⟨x.1, y.1, z.1⟩, ⟨x.2, y.2, z.2⟩⟩ : Box)).countP (fun piece => piece.Contains pos) =
      if decide (y.1 ≤ pos.y ∧ pos.y ≤ y.2) then
        (if box.first.z ≤ pos.z ∧ pos.z ≤ box.last.z then 1 else 0) *
          (if box.first.x ≤ pos.x ∧ pos.x ≤ box.last.x then 1 else 0) else 0 := by
    rw [countP_flatMap fun z _ => hrow y z, countP_strips]
    by_cases hy : y.1 ≤ pos.y ∧ pos.y ≤ y.2 <;> simp [hy]
  rw [Box.pieces, countP_flatMap fun y _ => hlayer y, countP_strips]
  unfold Box.Contains
  by_cases hx : box.first.x ≤ pos.x ∧ pos.x ≤ box.last.x
  · by_cases hz : box.first.z ≤ pos.z ∧ pos.z ≤ box.last.z
    · simp [hx, hz]
    · simp [hz]
  · simp [hx]

/-- Boxes of which no two hold a common block. -/
theorem Box.pairwise_disjoint {α : Type*} {items : List α} {box : α → Box}
    (h : ∀ pos, items.countP (fun item => (box item).Contains pos) ≤ 1) :
    items.Pairwise fun a b => (box a).Disjoint (box b) := by
  induction items with
  | nil => exact List.Pairwise.nil
  | cons item rest ih =>
    refine List.Pairwise.cons (fun other hother pos hpos => ?_) (ih fun pos => ?_)
    · have hcount := h pos
      rw [List.countP_cons, if_pos (decide_eq_true hpos.1)] at hcount
      have hzero : rest.countP (fun item => (box item).Contains pos) = 0 := by omega
      exact List.countP_eq_zero.mp hzero other hother (decide_eq_true hpos.2)
    · have hcount := h pos
      rw [List.countP_cons] at hcount
      omega

end WaterStructure
