import WaterStructure.Core.Box
import WaterStructure.Core.Decimal
import WaterStructure.Core.Grid

/-!
# Merging the blocks of a chunk into boxes

The writer of IBImport files scans the cells of a chunk area, x fastest. At a cell that is neither air nor
used it grows a box, first along x, then along z and then along y as long as the volume stays small, over
cells of the same id that no box has used, and writes one command for it. The boxes are a partition of the
cells that are not air.
-/

namespace WaterStructure.IbImport

/-- The dense array of a chunk area, in `(y, z, x)` order; depth is the extent along z. -/
structure DenseBlocks where
  width : ℤ
  depth : ℤ
  height : ℤ
  blocks : ℕ → RuntimeId
  air : RuntimeId

/-- A box of cells of one id, with the area's own coordinates. -/
structure DenseBox where
  runtime : RuntimeId
  box : Box

/-- The used cells and the boxes so far. -/
structure DenseScan where
  used : ℕ → Bool := fun _ => false
  boxes : List DenseBox := []

/-- `while (v + 1 < limit && free(v + 1)) ++v` -/
def growWhile (limit : ℤ) (free : ℤ → Bool) (v : ℤ) : ℤ :=
  if _h : v + 1 < limit ∧ free (v + 1) then growWhile limit free (v + 1) else v
termination_by (limit - v).toNat

namespace DenseBlocks

variable (area : DenseBlocks)

def size : Size := ⟨area.width, area.height, area.depth⟩

/-- The id of a cell. -/
def runtimeAt (pos : BlockPos) : RuntimeId := area.blocks (area.size.cellIndex pos)

def sameFree (scan : DenseScan) (runtime : RuntimeId) (pos : BlockPos) : Bool :=
  !scan.used (area.size.cellIndex pos) && area.runtimeAt pos = runtime

/-- The cells of a box. -/
def cellsOf (first last : BlockPos) : List BlockPos :=
  (Int.range first.y (last.y + 1)).flatMap fun y =>
    (Int.range first.z (last.z + 1)).flatMap fun z =>
      (Int.range first.x (last.x + 1)).map fun x => ⟨x, y, z⟩

/-- Grow a box from its first cell. -/
def growBox (scan : DenseScan) (runtime : RuntimeId) (pos : BlockPos) : Box :=
  let free := area.sameFree scan runtime
  let x2 := growWhile area.width (fun x => free ⟨x, pos.y, pos.z⟩) pos.x
  let z2 := growWhile area.depth (fun z =>
    (Int.range pos.x (x2 + 1)).all fun xx => free ⟨xx, pos.y, z⟩) pos.z
  let y2 := growWhile area.height (fun y =>
    (x2 - pos.x + 1) * (z2 - pos.z + 1) * (y - pos.y + 1) ≤ 32768 &&
      (Int.range pos.z (z2 + 1)).all fun zz => (Int.range pos.x (x2 + 1)).all fun xx => free ⟨xx, y, zz⟩) pos.y
  ⟨pos, ⟨x2, y2, z2⟩⟩

/-- One turn of the scan. -/
def visit (scan : DenseScan) (pos : BlockPos) : DenseScan :=
  let runtime := area.runtimeAt pos
  if runtime = area.air ∨ scan.used (area.size.cellIndex pos) then scan
  else
    let box := area.growBox scan runtime pos
    { used := (cellsOf box.first box.last).foldl
        (fun used cell => Function.update used (area.size.cellIndex cell) true) scan.used
      boxes := scan.boxes ++ [⟨runtime, box⟩] }

/-- The boxes of the area, in the order of the scan. -/
def boxes : List DenseBox := (area.size.cellsYZX.foldl area.visit {}).boxes

end DenseBlocks

/-- A command of the script. -/
inductive DenseCommand where
  | setblock (pos : BlockPos) (state : List Char)
  | fill (box : Box) (state : List Char)

/-- The cells of a command. -/
def DenseCommand.box : DenseCommand → Box
  | .setblock pos _ => ⟨pos, pos⟩
  | .fill box _ => box

/-- The command for a box, moved to the place of the area. -/
def DenseBox.command (xBegin zBegin : ℤ) (stateFor : RuntimeId → List Char) (dense : DenseBox) :
    DenseCommand :=
  let first := dense.box.first.add ⟨xBegin, 0, zBegin⟩
  let last := dense.box.last.add ⟨xBegin, 0, zBegin⟩
  if dense.box.volume = 1 then .setblock first (stateFor dense.runtime)
  else .fill ⟨first, last⟩ (stateFor dense.runtime)

/-- `write_dense_commands`: what is written to the script, a command for each box. -/
def writeDenseCommands (area : DenseBlocks) (xBegin zBegin : ℤ) (stateFor : RuntimeId → List Char) :
    List DenseCommand :=
  area.boxes.map (DenseBox.command xBegin zBegin stateFor)

theorem growWhile_spec {limit : ℤ} {free : ℤ → Bool} (v : ℤ) :
    v ≤ growWhile limit free v ∧ (v < limit → growWhile limit free v < limit) ∧
      ∀ t, v < t → t ≤ growWhile limit free v → free t = true := by
  induction v using growWhile.induct limit free with
  | case1 v h ih =>
    rw [growWhile, dif_pos h]
    refine ⟨by omega, fun _ => ih.2.1 h.1, fun t hlow hhigh => ?_⟩
    by_cases hnext : t = v + 1
    · exact hnext ▸ h.2
    · exact ih.2.2 t (by omega) hhigh
  | case2 v h =>
    rw [growWhile, dif_neg h]
    exact ⟨Int.le_refl v, id, fun t hlow hhigh => absurd hlow (Int.not_lt.mpr hhigh)⟩

namespace DenseBlocks

variable {area : DenseBlocks} {pos : BlockPos} {scan : DenseScan} {done : List BlockPos}

theorem mem_cellsOf {first last : BlockPos} : pos ∈ cellsOf first last ↔ (Box.mk first last).Contains pos := by
  simp only [cellsOf, List.mem_flatMap, List.mem_map, Int.mem_range_iff, Box.Contains]
  constructor
  · rintro ⟨y, hy, z, hz, x, hx, rfl⟩
    dsimp only
    omega
  · intro h
    exact ⟨pos.y, by omega, pos.z, by omega, pos.x, by omega, rfl⟩

/-- Different cells of the area have different places in the array. -/
theorem cellIndex_inj {size : Size} {other : BlockPos} (hpos : size.Contains pos) (hother : size.Contains other)
    (h : size.cellIndex pos = size.cellIndex other) : pos = other := by
  have hfirst := Size.getElem?_cellsYZX hpos
  rw [h, Size.getElem?_cellsYZX hother] at hfirst
  exact (Option.some.inj hfirst).symm

/-- A box of cells of one id, inside the area, within the limit of the volume. -/
structure Uniform (area : DenseBlocks) (dense : DenseBox) : Prop where
  block : dense.runtime ≠ area.air
  ordered : dense.box.Contains dense.box.first ∧ dense.box.Contains dense.box.last
  inside : ∀ pos, dense.box.Contains pos → area.size.Contains pos ∧ area.runtimeAt pos = dense.runtime
  small : area.width * area.depth ≤ 32768 → dense.box.volume ≤ 32768

theorem eq_true_of_sameFree {runtime : RuntimeId} (h : area.sameFree scan runtime pos = true) :
    scan.used (area.size.cellIndex pos) = false ∧ area.runtimeAt pos = runtime := by
  rw [sameFree, Bool.and_eq_true, decide_eq_true_iff, Bool.not_eq_true'] at h
  exact h

/-- A grown box has only free cells of its id, and is small. -/
theorem growBox_spec (hpos : area.size.Contains pos) (hblock : area.runtimeAt pos ≠ area.air)
    (hfree : scan.used (area.size.cellIndex pos) = false) :
    Uniform area ⟨area.runtimeAt pos, area.growBox scan (area.runtimeAt pos) pos⟩ ∧
      (area.growBox scan (area.runtimeAt pos) pos).Contains pos ∧
      ∀ cell, (area.growBox scan (area.runtimeAt pos) pos).Contains cell →
        scan.used (area.size.cellIndex cell) = false := by
  obtain ⟨⟨hx, hxw⟩, ⟨hy, hyh⟩, hz, hzd⟩ := hpos
  rw [growBox]
  obtain ⟨hx2, hx2w, hrow⟩ := @growWhile_spec area.width
    (fun x => area.sameFree scan (area.runtimeAt pos) ⟨x, pos.y, pos.z⟩) pos.x
  generalize growWhile area.width (fun x => area.sameFree scan (area.runtimeAt pos) ⟨x, pos.y, pos.z⟩) pos.x = x2 at *
  obtain ⟨hz2, hz2d, hlayer⟩ := @growWhile_spec area.depth (fun z =>
    (Int.range pos.x (x2 + 1)).all fun xx => area.sameFree scan (area.runtimeAt pos) ⟨xx, pos.y, z⟩) pos.z
  generalize growWhile area.depth (fun z =>
    (Int.range pos.x (x2 + 1)).all fun xx => area.sameFree scan (area.runtimeAt pos) ⟨xx, pos.y, z⟩) pos.z = z2 at *
  obtain ⟨hy2, hy2h, hcolumn⟩ := @growWhile_spec area.height (fun y =>
    (x2 - pos.x + 1) * (z2 - pos.z + 1) * (y - pos.y + 1) ≤ 32768 &&
      (Int.range pos.z (z2 + 1)).all fun zz => (Int.range pos.x (x2 + 1)).all fun xx =>
        area.sameFree scan (area.runtimeAt pos) ⟨xx, y, zz⟩) pos.y
  generalize growWhile area.height (fun y =>
    (x2 - pos.x + 1) * (z2 - pos.z + 1) * (y - pos.y + 1) ≤ 32768 &&
      (Int.range pos.z (z2 + 1)).all fun zz => (Int.range pos.x (x2 + 1)).all fun xx =>
        area.sameFree scan (area.runtimeAt pos) ⟨xx, y, zz⟩) pos.y = y2 at *
  have hx2w := hx2w hxw
  have hz2d := hz2d hzd
  have hy2h := hy2h hyh
  -- The first cell is free, then those of its row, of its layer and of the layers above.
  have hcell : ∀ cell, (Box.mk pos ⟨x2, y2, z2⟩).Contains cell →
      scan.used (area.size.cellIndex cell) = false ∧ area.runtimeAt cell = area.runtimeAt pos := by
    rintro ⟨x, y, z⟩ ⟨⟨hlx, hux⟩, ⟨hly, huy⟩, hlz, huz⟩
    dsimp only at *
    have hmemX : x ∈ Int.range pos.x (x2 + 1) := Int.mem_range_iff.mpr (by omega)
    have hmemZ : z ∈ Int.range pos.z (z2 + 1) := Int.mem_range_iff.mpr (by omega)
    by_cases habove : pos.y < y
    · have hall := hcolumn y habove huy
      rw [Bool.and_eq_true, List.all_eq_true] at hall
      exact eq_true_of_sameFree (List.all_eq_true.mp (hall.2 z hmemZ) x hmemX)
    · obtain rfl : y = pos.y := by omega
      by_cases hbehind : pos.z < z
      · exact eq_true_of_sameFree (List.all_eq_true.mp (hlayer z hbehind huz) x hmemX)
      · obtain rfl : z = pos.z := by omega
        by_cases hright : pos.x < x
        · exact eq_true_of_sameFree (hrow x hright hux)
        · obtain rfl : x = pos.x := by omega
          exact ⟨hfree, rfl⟩
  have hcontains : ∀ cell, (Box.mk pos ⟨x2, y2, z2⟩).Contains cell → area.size.Contains cell := by
    intro cell hcell
    simp only [Box.Contains] at hcell
    simp only [Size.Contains, DenseBlocks.size] at *
    omega
  refine ⟨⟨hblock, ?_, fun cell h => ⟨hcontains cell h, (hcell cell h).2⟩, fun hsmall => ?_⟩, ?_,
    fun cell h => (hcell cell h).1⟩
  · simp only [Box.Contains]
    omega
  · by_cases hflat : y2 = pos.y
    · subst hflat
      simp only [Box.volume, sub_self, zero_add, mul_one]
      calc (x2 - pos.x + 1) * (z2 - pos.z + 1) ≤ area.width * area.depth :=
            Int.mul_le_mul (by omega) (by omega) (by omega) (by omega)
        _ ≤ 32768 := hsmall
    · have hall := hcolumn y2 (by omega) (Int.le_refl y2)
      rw [Bool.and_eq_true, decide_eq_true_iff] at hall
      refine le_of_eq_of_le ?_ hall.1
      simp only [Box.volume]
      ring
  · simp only [Box.Contains]
    omega

/-- Marking some cells as used. -/
theorem foldl_update_used (cells : List BlockPos) (used : ℕ → Bool) (index : ℕ) :
    (cells.foldl (fun used cell => Function.update used (area.size.cellIndex cell) true) used) index = true ↔
      used index = true ∨ ∃ cell ∈ cells, area.size.cellIndex cell = index := by
  induction cells generalizing used with
  | nil => simp
  | cons cell rest ih =>
    rw [List.foldl_cons, ih, Function.update_apply]
    by_cases hindex : index = area.size.cellIndex cell
    · simp [hindex]
    · rw [if_neg hindex, List.exists_mem_cons_iff, or_iff_right (Ne.symm hindex)]

/-- After some cells: the boxes are disjoint, the used cells are those of the boxes, and the boxes have
all blocks so far. -/
structure Tiles (area : DenseBlocks) (done : List BlockPos) (scan : DenseScan) : Prop where
  uniform : ∀ dense ∈ scan.boxes, Uniform area dense
  used : ∀ pos, area.size.Contains pos →
    (scan.used (area.size.cellIndex pos) = true ↔ ∃ dense ∈ scan.boxes, dense.box.Contains pos)
  once : ∀ pos, scan.boxes.countP (fun dense => dense.box.Contains pos) ≤ 1
  covered : ∀ pos ∈ done, area.runtimeAt pos ≠ area.air → ∃ dense ∈ scan.boxes, dense.box.Contains pos

theorem tiles_start : Tiles area [] {} where
  uniform := nofun
  used _ _ := by simp
  once _ := Nat.zero_le _
  covered := nofun

/-- A cell that is air or used. -/
theorem Tiles.skip (h : Tiles area done scan)
    (hcovered : area.runtimeAt pos ≠ area.air → ∃ dense ∈ scan.boxes, dense.box.Contains pos) :
    Tiles area (done ++ [pos]) scan where
  uniform := h.uniform
  used := h.used
  once := h.once
  covered cell hcell := by
    rcases List.mem_append.mp hcell with hdone | hthis
    · exact h.covered cell hdone
    · exact List.mem_singleton.mp hthis ▸ hcovered

/-- A box of cells that are free. -/
theorem Tiles.push (h : Tiles area done scan) {dense : DenseBox} (huniform : Uniform area dense)
    (hpos : dense.box.Contains pos)
    (hfree : ∀ cell, dense.box.Contains cell → scan.used (area.size.cellIndex cell) = false) :
    Tiles area (done ++ [pos])
      { used := (cellsOf dense.box.first dense.box.last).foldl
          (fun used cell => Function.update used (area.size.cellIndex cell) true) scan.used
        boxes := scan.boxes ++ [dense] } where
  uniform other hother := by
    rcases List.mem_append.mp hother with hold | hnew
    · exact h.uniform other hold
    · exact List.mem_singleton.mp hnew ▸ huniform
  used cell hcell := by
    rw [foldl_update_used, h.used cell hcell]
    simp only [List.mem_append, List.mem_singleton, or_and_right, exists_or, exists_eq_left]
    refine or_congr_right ⟨?_, fun hbox => ⟨cell, mem_cellsOf.mpr hbox, rfl⟩⟩
    rintro ⟨other, hother, hindex⟩
    have hbox := mem_cellsOf.mp hother
    exact cellIndex_inj (huniform.inside other hbox).1 hcell hindex ▸ hbox
  once cell := by
    rw [List.countP_append, List.countP_singleton]
    split_ifs with hbox
    · rw [decide_eq_true_iff] at hbox
      have hunused := hfree cell hbox
      have hnone : scan.boxes.countP (fun dense => dense.box.Contains cell) = 0 := by
        refine List.countP_eq_zero.mpr fun other hother hcontains => ?_
        have hused := (h.used cell (huniform.inside cell hbox).1).mpr ⟨other, hother, of_decide_eq_true hcontains⟩
        rw [hunused] at hused
        cases hused
      rw [hnone]
    · exact h.once cell
  covered cell hcell hblock := by
    rcases List.mem_append.mp hcell with hdone | hthis
    · obtain ⟨other, hother, hcontains⟩ := h.covered cell hdone hblock
      exact ⟨other, List.mem_append_left _ hother, hcontains⟩
    · cases List.mem_singleton.mp hthis
      exact ⟨dense, List.mem_append_right _ List.mem_cons_self, hpos⟩

theorem Tiles.visit (h : Tiles area done scan) (hpos : area.size.Contains pos) :
    Tiles area (done ++ [pos]) (area.visit scan pos) := by
  rw [DenseBlocks.visit]
  split_ifs with hskip
  · exact h.skip fun hblock => (h.used pos hpos).mp (hskip.resolve_left hblock)
  · rw [not_or, Bool.not_eq_true] at hskip
    obtain ⟨huniform, hcontains, hfree⟩ := growBox_spec hpos hskip.1 hskip.2
    exact h.push huniform hcontains hfree

/-- The boxes of the whole scan. -/
theorem tiles_boxes (area : DenseBlocks) :
    Tiles area area.size.cellsYZX (area.size.cellsYZX.foldl area.visit {}) := by
  have hrun (cells done : List BlockPos) (scan : DenseScan) (h : Tiles area done scan)
      (hcells : ∀ pos ∈ cells, area.size.Contains pos) : Tiles area (done ++ cells) (cells.foldl area.visit scan) := by
    induction cells generalizing done scan with
    | nil => rwa [List.append_nil]
    | cons pos rest ih =>
      have hnext := ih (done ++ [pos]) (area.visit scan pos) (h.visit (hcells pos List.mem_cons_self))
        fun other hother => hcells other (List.mem_cons_of_mem pos hother)
      rwa [List.append_assoc, List.singleton_append] at hnext
  exact hrun _ [] {} tiles_start fun pos hpos => Size.mem_cellsYZX.mp hpos

/-- Each cell that is not air lies in exactly one box, and no other cell in any. -/
theorem countP_boxes (area : DenseBlocks) (pos : BlockPos) :
    area.boxes.countP (fun dense => dense.box.Contains pos) =
      if area.size.Contains pos ∧ area.runtimeAt pos ≠ area.air then 1 else 0 := by
  have htiles := tiles_boxes area
  split_ifs with hnone
  · obtain ⟨dense, hdense, hcontains⟩ := htiles.covered pos (Size.mem_cellsYZX.mpr hnone.1) hnone.2
    exact Nat.le_antisymm (htiles.once pos)
      (List.countP_pos_iff.mpr ⟨dense, hdense, decide_eq_true hcontains⟩)
  · refine List.countP_eq_zero.mpr fun dense hdense hcontains => hnone ?_
    have huniform := htiles.uniform dense hdense
    obtain ⟨hinside, hruntime⟩ := huniform.inside pos (of_decide_eq_true hcontains)
    exact ⟨hinside, hruntime ▸ huniform.block⟩

end DenseBlocks

theorem contains_add_iff {box : Box} {pos offset : BlockPos} :
    (Box.mk (box.first.add offset) (box.last.add offset)).Contains (pos.add offset) ↔ box.Contains pos := by
  simp only [Box.Contains, BlockPos.add]
  omega

/-- The cells of a command are those of its box. -/
theorem box_command {dense : DenseBox} (hordered : dense.box.Contains dense.box.last) (xBegin zBegin : ℤ)
    (stateFor : RuntimeId → List Char) : (dense.command xBegin zBegin stateFor).box =
      ⟨dense.box.first.add ⟨xBegin, 0, zBegin⟩, dense.box.last.add ⟨xBegin, 0, zBegin⟩⟩ := by
  rw [DenseBox.command]
  split_ifs with hone
  · obtain ⟨⟨hx, -⟩, ⟨hy, -⟩, hz, -⟩ := hordered
    obtain ⟨runtime, ⟨⟨x1, y1, z1⟩, ⟨x2, y2, z2⟩⟩⟩ := dense
    dsimp only at *
    obtain ⟨dx, hdx⟩ := Int.eq_ofNat_of_zero_le (Int.sub_nonneg_of_le hx)
    obtain ⟨dy, hdy⟩ := Int.eq_ofNat_of_zero_le (Int.sub_nonneg_of_le hy)
    obtain ⟨dz, hdz⟩ := Int.eq_ofNat_of_zero_le (Int.sub_nonneg_of_le hz)
    simp only [Box.volume, hdx, hdy, hdz] at hone
    have hproduct : (dx + 1) * (dy + 1) * (dz + 1) = 1 := by exact_mod_cast hone
    have hz1 := Nat.dvd_one.mp (Dvd.intro_left _ hproduct)
    have hxy := Nat.dvd_one.mp (Dvd.intro _ hproduct)
    have hx1 := Nat.dvd_one.mp (Dvd.intro _ hxy)
    have hy1 := Nat.dvd_one.mp (Dvd.intro_left _ hxy)
    obtain rfl : x2 = x1 := by omega
    obtain rfl : y2 = y1 := by omega
    obtain rfl : z2 = z1 := by omega
    rfl
  · rfl

/-- The commands of an area are a partition of its blocks: each block lies in one of them and no other
cell in any, no two have a common cell, and each is of one id, inside the area, small enough when a layer
is, and a `setblock` exactly when it has one cell. -/
theorem writeDenseCommands_partition (area : DenseBlocks) (xBegin zBegin : ℤ)
    (stateFor : RuntimeId → List Char) :
    (∀ pos, (writeDenseCommands area xBegin zBegin stateFor).countP
        (fun command => command.box.Contains (pos.add ⟨xBegin, 0, zBegin⟩)) =
      if area.size.Contains pos ∧ area.runtimeAt pos ≠ area.air then 1 else 0) ∧
    (writeDenseCommands area xBegin zBegin stateFor).Pairwise
      (fun command other => command.box.Disjoint other.box) ∧
    ∀ command ∈ writeDenseCommands area xBegin zBegin stateFor, ∃ runtime ≠ area.air,
      (∀ pos, command.box.Contains (pos.add ⟨xBegin, 0, zBegin⟩) →
        area.size.Contains pos ∧ area.runtimeAt pos = runtime) ∧
      (area.width * area.depth ≤ 32768 → command.box.volume ≤ 32768) ∧
      ((∃ pos, command = .setblock pos (stateFor runtime)) ↔ command.box.volume = 1) ∧
      ((∃ box, command = .fill box (stateFor runtime)) ↔ command.box.volume ≠ 1) := by
  have htiles := DenseBlocks.tiles_boxes area
  have hbox : ∀ dense ∈ area.boxes, (dense.command xBegin zBegin stateFor).box =
      ⟨dense.box.first.add ⟨xBegin, 0, zBegin⟩, dense.box.last.add ⟨xBegin, 0, zBegin⟩⟩ :=
    fun dense hdense => box_command (htiles.uniform dense hdense).ordered.2 xBegin zBegin stateFor
  have hcount : ∀ pos, (writeDenseCommands area xBegin zBegin stateFor).countP
      (fun command => command.box.Contains (pos.add ⟨xBegin, 0, zBegin⟩)) =
        if area.size.Contains pos ∧ area.runtimeAt pos ≠ area.air then 1 else 0 := by
    intro pos
    rw [writeDenseCommands, List.countP_map, ← DenseBlocks.countP_boxes]
    refine List.countP_congr fun dense hdense => ?_
    rw [Function.comp_apply, decide_eq_true_iff, decide_eq_true_iff, hbox dense hdense, contains_add_iff]
  refine ⟨hcount, Box.pairwise_disjoint fun pos => ?_, fun command hcommand => ?_⟩
  · have hpos := hcount (pos.sub ⟨xBegin, 0, zBegin⟩)
    have hback : (pos.sub ⟨xBegin, 0, zBegin⟩).add ⟨xBegin, 0, zBegin⟩ = pos := by
      simp [BlockPos.sub, BlockPos.add]
    rw [hback] at hpos
    rw [hpos]
    split
    · exact Nat.le_refl 1
    · exact Nat.zero_le 1
  · obtain ⟨dense, hdense, rfl⟩ := List.mem_map.mp hcommand
    have huniform := htiles.uniform dense hdense
    have hvolume : (dense.command xBegin zBegin stateFor).box.volume = dense.box.volume := by
      rw [hbox dense hdense]
      simp only [Box.volume, BlockPos.add]
      ring
    refine ⟨dense.runtime, huniform.block, fun pos hpos => ?_, fun hsmall => ?_, ?_, ?_⟩
    · rw [hbox dense hdense, contains_add_iff] at hpos
      exact huniform.inside pos hpos
    · rw [hvolume]
      exact huniform.small hsmall
    · rw [hvolume, DenseBox.command]
      split
      case isTrue hone => exact ⟨fun _ => hone, fun _ => ⟨_, rfl⟩⟩
      case isFalse hmany =>
        refine ⟨?_, fun hone => absurd hone hmany⟩
        rintro ⟨pos, heq⟩
        cases heq
    · rw [hvolume, DenseBox.command]
      split
      case isTrue hone =>
        refine ⟨?_, fun hmany => absurd hone hmany⟩
        rintro ⟨box, heq⟩
        cases heq
      case isFalse hmany => exact ⟨fun _ => hmany, fun _ => ⟨_, rfl⟩⟩

end WaterStructure.IbImport
