import WaterStructure.Formats.BdxWriter

/-!
# Cursors of the writer and the reader

The commands with which the writer moves its cursor bring the cursor of the reader to the same place,
whatever their widths. A stream whose cursor stays in a box, and whose commands come without errors, is
decoded, also where the decoder takes pairs of a placement and a step at once, and the bounds that the
decoder finds lie in the box.
-/

namespace WaterStructure.Bdx

open ByteReader NestedLoop

section Encoding

variable {readBlockNbt : Reader Unit} {registry : MappingRegistry}

/-- The bytes are read as these commands, and leave these tables. -/
structure Encodes (readBlockNbt : Reader Unit) (registry : MappingRegistry) (tables : Tables)
    (bytes : Input) (commands : List Command) (tables' : Tables) : Prop where
  length_le : commands.length ≤ bytes.length
  reads : ∀ fuel rest,
    readCommands readBlockNbt registry (fuel + commands.length) tables (bytes ++ rest) =
      (readCommands readBlockNbt registry fuel tables' rest).map (commands ++ ·)

theorem Encodes.nil (tables : Tables) : Encodes readBlockNbt registry tables [] [] tables where
  length_le := Nat.le_refl _
  reads fuel rest := by
    rw [List.length_nil, Nat.add_zero, List.nil_append]
    cases readCommands readBlockNbt registry fuel tables rest <;> rfl

variable {tables tables' : Tables}

theorem Encodes.append {tables'' : Tables} {first second : Input} {commands more : List Command}
    (h : Encodes readBlockNbt registry tables first commands tables')
    (h' : Encodes readBlockNbt registry tables' second more tables'') :
    Encodes readBlockNbt registry tables (first ++ second) (commands ++ more) tables'' where
  length_le := by
    rw [List.length_append, List.length_append]
    exact Nat.add_le_add h.length_le h'.length_le
  reads fuel rest := by
    have hlength : fuel + (commands ++ more).length = fuel + more.length + commands.length := by
      rw [List.length_append]
      omega
    rw [hlength, List.append_assoc, h.reads, h'.reads]
    cases readCommands readBlockNbt registry fuel tables'' rest with
    | error error => rfl
    | ok found => exact congrArg Except.ok (List.append_assoc commands more found).symm

/-- One command with its operands. -/
theorem Encodes.single {id : UInt8} {operands : Input} {command : Command}
    (h : Reads (readCommand readBlockNbt registry tables id.toNat) operands (command, tables'))
    (hne : command ≠ .terminate) : Encodes readBlockNbt registry tables (id :: operands) [command] tables' where
  length_le := Nat.succ_le_succ (Nat.zero_le _)
  reads fuel rest := by
    rw [List.length_singleton, List.cons_append, readCommands, h]
    split
    case h_1 hread => cases hread
    case h_2 hread =>
      cases hread
      exact absurd rfl hne
    case h_3 hread =>
      cases hread
      rfl

end Encoding

section Travelling

/-- The position lies in the box between two corners. -/
def Inside (low high pos : BlockPos) : Prop :=
  (low.x ≤ pos.x ∧ pos.x ≤ high.x) ∧ (low.y ≤ pos.y ∧ pos.y ≤ high.y) ∧ low.z ≤ pos.z ∧ pos.z ≤ high.z

variable {low high pos : BlockPos} {allowed : BlockPos → Prop} {first : List Command} {axis : Axis} {second : ℤ}

theorem Inside.fitsInt32 (h : Inside low high pos) (hlow : low.FitsInt32) (hhigh : high.FitsInt32) :
    pos.FitsInt32 :=
  ⟨⟨Int.le_trans hlow.1.1 h.1.1, Int.le_trans h.1.2 hhigh.1.2⟩,
    ⟨Int.le_trans hlow.2.1.1 h.2.1.1, Int.le_trans h.2.1.2 hhigh.2.1.2⟩,
    Int.le_trans hlow.2.2.1 h.2.2.1, Int.le_trans h.2.2.2 hhigh.2.2.2⟩

/-- No error comes with the command, and it does not end the stream. -/
def Command.Succeeds : Command → Prop
  | .metadata result => result = .ok ()
  | .stay result => result = .ok ()
  | .placeConstant runtime => ∃ id, runtime = .ok id
  | .place runtime => ∃ id, runtime = .ok id
  | .terminate => False
  | _ => True

/-- The cursor after some commands. -/
def cursorAfter (pos : BlockPos) (commands : List Command) : BlockPos :=
  commands.foldl (fun pos command => pos.add command.delta) pos

/-- The commands succeed, and the cursor is at allowed positions after each of them. -/
def Visits (allowed : BlockPos → Prop) : BlockPos → List Command → Prop
  | _, [] => True
  | pos, command :: rest =>
    command.Succeeds ∧ allowed (pos.add command.delta) ∧ Visits allowed (pos.add command.delta) rest

theorem visits_append {second : List Command} :
    Visits allowed pos (first ++ second) ↔
      Visits allowed pos first ∧ Visits allowed (cursorAfter pos first) second := by
  induction first generalizing pos with
  | nil => exact ⟨fun h => ⟨trivial, h⟩, And.right⟩
  | cons command rest ih =>
    rw [List.cons_append, Visits, Visits, ih, and_assoc, and_assoc]
    rfl

theorem cursorAfter_append (pos : BlockPos) (first second : List Command) :
    cursorAfter pos (first ++ second) = cursorAfter (cursorAfter pos first) second :=
  List.foldl_append

/-- The placements of commands are those of the first ones and then those of the others. -/
theorem placementsFrom_append (h : Visits allowed pos first) (second : List Command) :
    placementsFrom pos (first ++ second) =
      placementsFrom pos first ++ placementsFrom (cursorAfter pos first) second := by
  induction first generalizing pos with
  | nil => rfl
  | cons command rest ih =>
    have hterminate : command ≠ .terminate := fun heq => (heq ▸ h.1 : Command.Succeeds .terminate)
    rw [List.cons_append, placementsFrom_cons hterminate, placementsFrom_cons hterminate, ih h.2.2,
      List.append_assoc]
    rfl

/-- A distance along an axis. -/
def along (axis : Axis) (difference : ℤ) : BlockPos := (Command.move axis difference).delta

/-- The commands bring the cursor along an axis, without leaving a box that has both ends. -/
structure Travels (axis : Axis) (commands : List Command) (difference : ℤ) : Prop where
  silent : ∀ command ∈ commands, command.placed = none
  visits : ∀ low high pos, Inside low high pos → Inside low high (pos.add (along axis difference)) →
    Visits (Inside low high) pos commands
  cursor : ∀ pos, cursorAfter pos commands = pos.add (along axis difference)

theorem Travels.nil (axis : Axis) : Travels axis [] 0 where
  silent := nofun
  visits _ _ _ _ _ := trivial
  cursor pos := by cases axis <;> simp [cursorAfter, along, Command.delta, BlockPos.add]

theorem Travels.single {command : Command} {difference : ℤ} (hdelta : command.delta = along axis difference)
    (hsucceeds : command.Succeeds) (hplaced : command.placed = none) : Travels axis [command] difference where
  silent _ hother := List.mem_singleton.mp hother ▸ hplaced
  visits _ _ _ _ hend := ⟨hsucceeds, hdelta ▸ hend, trivial⟩
  cursor pos := congrArg pos.add hdelta

theorem add_along (pos : BlockPos) (axis : Axis) (first second : ℤ) :
    (pos.add (along axis first)).add (along axis second) = pos.add (along axis (first + second)) := by
  cases axis <;> simp [along, Command.delta, BlockPos.add, Int.add_assoc]

/-- A position between two others of a box along an axis. -/
theorem inside_between {first : ℤ} (hpos : Inside low high pos)
    (hend : Inside low high (pos.add (along axis (first + second))))
    (h : (0 ≤ first ∧ 0 ≤ second) ∨ (first ≤ 0 ∧ second ≤ 0)) :
    Inside low high (pos.add (along axis first)) := by
  cases axis <;> simp only [Inside, along, Command.delta, BlockPos.add] at * <;> omega

/-- Two ways in one direction. -/
theorem Travels.append {commands more : List Command} {first : ℤ} (h : Travels axis commands first)
    (h' : Travels axis more second) (hsigns : (0 ≤ first ∧ 0 ≤ second) ∨ (first ≤ 0 ∧ second ≤ 0)) :
    Travels axis (commands ++ more) (first + second) where
  silent command hcommand := (List.mem_append.mp hcommand).elim (h.silent command) (h'.silent command)
  visits low high pos hpos hend := by
    have hmiddle := inside_between hpos hend hsigns
    refine visits_append.mpr ⟨h.visits low high pos hpos hmiddle, ?_⟩
    rw [h.cursor]
    exact h'.visits low high _ hmiddle (add_along pos axis first second ▸ hend)
  cursor pos := by rw [cursorAfter_append, h.cursor, h'.cursor, add_along]

end Travelling

section Moving

variable {readBlockNbt : Reader Unit} {registry : MappingRegistry}

/-- What the reader does with the five commands of an axis. -/
structure AxisCommands (readBlockNbt : Reader Unit) (registry : MappingRegistry) (axis : Axis)
    (increment decrement int8Command int16Command int32Command : UInt8) : Prop where
  increment : ∃ command, command.delta = along axis 1 ∧ command.Succeeds ∧ command.placed = none ∧
    ∀ tables, readCommand readBlockNbt registry tables increment.toNat = pure (command, tables)
  decrement : ∀ tables, readCommand readBlockNbt registry tables decrement.toNat =
    pure (.move axis (-1), tables)
  int8 : ∃ field, ∀ tables, readCommand readBlockNbt registry tables int8Command.toNat =
    readMove tables axis (i8 field)
  int16 : ∃ field, ∀ tables, readCommand readBlockNbt registry tables int16Command.toNat =
    readMove tables axis (i16 field)
  int32 : ∃ field, ∀ tables, readCommand readBlockNbt registry tables int32Command.toNat =
    readMove tables axis (i32 field)

theorem axisCommands_x : AxisCommands readBlockNbt registry .X 14 15 28 20 21 :=
  ⟨⟨.move .X 1, rfl, trivial, rfl, fun _ => rfl⟩, fun _ => rfl, ⟨_, fun _ => rfl⟩, ⟨_, fun _ => rfl⟩,
    ⟨_, fun _ => rfl⟩⟩

theorem axisCommands_y : AxisCommands readBlockNbt registry .Y 16 17 29 22 23 :=
  ⟨⟨.move .Y 1, rfl, trivial, rfl, fun _ => rfl⟩, fun _ => rfl, ⟨_, fun _ => rfl⟩, ⟨_, fun _ => rfl⟩,
    ⟨_, fun _ => rfl⟩⟩

theorem axisCommands_z : AxisCommands readBlockNbt registry .Z 18 19 30 24 25 :=
  ⟨⟨.nextZ, rfl, trivial, rfl, fun _ => rfl⟩, fun _ => rfl, ⟨_, fun _ => rfl⟩, ⟨_, fun _ => rfl⟩,
    ⟨_, fun _ => rfl⟩⟩

/-- The bytes move the cursor along an axis. -/
def MovesBy (readBlockNbt : Reader Unit) (registry : MappingRegistry) (axis : Axis) (bytes : Input)
    (difference : ℤ) : Prop :=
  ∃ commands, (∀ tables, Encodes readBlockNbt registry tables bytes commands tables) ∧
    Travels axis commands difference

theorem MovesBy.nil (axis : Axis) : MovesBy readBlockNbt registry axis [] 0 :=
  ⟨[], fun tables => .nil tables, .nil axis⟩

variable {first second : Input} {difference : ℤ} {cursor target : BlockPos}

theorem MovesBy.append {axis : Axis} {more : ℤ} (h : MovesBy readBlockNbt registry axis first difference)
    (h' : MovesBy readBlockNbt registry axis second more)
    (hsigns : (0 ≤ difference ∧ 0 ≤ more) ∨ (difference ≤ 0 ∧ more ≤ 0)) :
    MovesBy readBlockNbt registry axis (first ++ second) (difference + more) := by
  obtain ⟨commands, hencodes, htravels⟩ := h
  obtain ⟨others, hencodes', htravels'⟩ := h'
  exact ⟨commands ++ others, fun tables => (hencodes tables).append (hencodes' tables),
    htravels.append htravels' hsigns⟩

/-- A command with a distance as its operand. -/
theorem movesBy_readMove {axis : Axis} {id : UInt8} {distance : Reader ℤ} {operands : Input}
    (hcommand : ∀ tables, readCommand readBlockNbt registry tables id.toNat = readMove tables axis distance)
    (h : Reads distance operands difference) :
    MovesBy readBlockNbt registry axis (id :: operands) difference := by
  refine ⟨[.move axis difference], fun tables => .single ?_ nofun, .single rfl trivial rfl⟩
  rw [hcommand]
  exact h.map

variable {axis : Axis} {increment decrement int8Command int16Command int32Command : UInt8}

/-- The command for a distance of 32 bits. -/
theorem AxisCommands.movesBy_near
    (h : AxisCommands readBlockNbt registry axis increment decrement int8Command int16Command int32Command)
    (hfits : IsInt32 difference) :
    MovesBy readBlockNbt registry axis
      (appendNear difference increment decrement int8Command int16Command int32Command) difference := by
  rw [appendNear]
  split_ifs with hone hminus hbyte hshort
  · obtain ⟨command, hdelta, hsucceeds, hplaced, hread⟩ := h.increment
    rw [hone]
    refine ⟨[command], fun tables => .single ?_ ?_, .single hdelta hsucceeds hplaced⟩
    · rw [hread]
      exact .pure _
    · rintro rfl
      exact hsucceeds
  · rw [hminus]
    refine ⟨[.move axis (-1)], fun tables => .single ?_ nofun, .single rfl trivial rfl⟩
    rw [h.decrement]
    exact .pure _
  · obtain ⟨field, hread⟩ := h.int8
    exact movesBy_readMove hread (reads_i8 field hbyte.1 hbyte.2)
  · obtain ⟨field, hread⟩ := h.int16
    exact movesBy_readMove hread (reads_i16 field hshort.1 hshort.2)
  · obtain ⟨field, hread⟩ := h.int32
    exact movesBy_readMove hread (reads_i32 field hfits.1 hfits.2)

/-- The moves by the largest distance leave a distance of 32 bits. -/
theorem AxisCommands.movesBy_farUp (h : AxisCommands readBlockNbt registry axis increment decrement
    int8Command int16Command int32Command) (difference : ℤ) :
    MovesBy readBlockNbt registry axis (appendFarUp int32Command difference).1
      (difference - (appendFarUp int32Command difference).2) ∧
    (appendFarUp int32Command difference).2 ≤ int32Max ∧
    (appendFarUp int32Command difference).2 ≤ difference ∧
    (0 ≤ difference → 0 ≤ (appendFarUp int32Command difference).2) ∧
    (difference ≤ 0 → (appendFarUp int32Command difference).2 = difference) := by
  induction difference using appendFarUp.induct int32Command with
  | case1 difference hfar ih =>
    obtain ⟨hmoves, hmax, hle, hnonneg, -⟩ := ih
    obtain ⟨field, hread⟩ := h.int32
    have hfirst : MovesBy readBlockNbt registry axis (int32Command :: be32 int32Max) int32Max :=
      movesBy_readMove hread (reads_i32 field (by decide) (by decide))
    rw [appendFarUp, dif_pos hfar]
    rw [int32Max] at *
    refine ⟨?_, hmax, by dsimp only; omega, fun _ => hnonneg (by omega), fun _ => by omega⟩
    have hboth := hfirst.append hmoves (.inl ⟨by decide, by omega⟩)
    have hsum : 2147483647 + (difference - 2147483647 - (appendFarUp int32Command (difference - 2147483647)).2) =
        difference - (appendFarUp int32Command (difference - 2147483647)).2 := by omega
    rwa [hsum] at hboth
  | case2 difference hnear =>
    rw [appendFarUp, dif_neg hnear]
    refine ⟨?_, Int.not_lt.mp hnear, Int.le_refl _, id, fun _ => rfl⟩
    rw [Int.sub_self]
    exact .nil axis

theorem AxisCommands.movesBy_farDown (h : AxisCommands readBlockNbt registry axis increment decrement
    int8Command int16Command int32Command) (difference : ℤ) :
    MovesBy readBlockNbt registry axis (appendFarDown int32Command difference).1
      (difference - (appendFarDown int32Command difference).2) ∧
    int32Min ≤ (appendFarDown int32Command difference).2 ∧
    difference ≤ (appendFarDown int32Command difference).2 ∧
    (difference ≤ 0 → (appendFarDown int32Command difference).2 ≤ 0) ∧
    (0 ≤ difference → (appendFarDown int32Command difference).2 = difference) := by
  induction difference using appendFarDown.induct int32Command with
  | case1 difference hfar ih =>
    obtain ⟨hmoves, hmin, hle, hneg, -⟩ := ih
    obtain ⟨field, hread⟩ := h.int32
    have hfirst : MovesBy readBlockNbt registry axis (int32Command :: be32 int32Min) int32Min :=
      movesBy_readMove hread (reads_i32 field (by decide) (by decide))
    rw [appendFarDown, dif_pos hfar]
    rw [int32Min] at *
    refine ⟨?_, hmin, by dsimp only; omega, fun _ => hneg (by omega), fun _ => by omega⟩
    have hboth := hfirst.append hmoves (.inr ⟨by decide, by omega⟩)
    have hsum : -2147483648 + (difference - -2147483648 - (appendFarDown int32Command (difference - -2147483648)).2) =
        difference - (appendFarDown int32Command (difference - -2147483648)).2 := by omega
    rwa [hsum] at hboth
  | case2 difference hnear =>
    rw [appendFarDown, dif_neg hnear]
    refine ⟨?_, Int.not_lt.mp hnear, Int.le_refl _, id, fun _ => rfl⟩
    rw [Int.sub_self]
    exact .nil axis

/-- The moves along an axis cover the distance, whatever it is. -/
theorem AxisCommands.movesBy (h : AxisCommands readBlockNbt registry axis increment decrement
    int8Command int16Command int32Command) (difference : ℤ) :
    MovesBy readBlockNbt registry axis
      (appendMoveAxis difference increment decrement int8Command int16Command int32Command) difference := by
  rw [appendMoveAxis]
  split_ifs with hzero
  · rw [hzero]
    exact .nil axis
  · obtain ⟨hup, hmax, hle, hnonneg, hsmall⟩ := h.movesBy_farUp difference
    obtain ⟨hdown, hmin, hle', hneg, hlarge⟩ :=
      h.movesBy_farDown (appendFarUp int32Command difference).2
    dsimp only
    generalize appendFarUp int32Command difference = up at *
    generalize appendFarDown int32Command up.2 = down at *
    have hnear := h.movesBy_near (show IsInt32 down.2 from ⟨hmin, by rw [int32Max] at *; omega⟩)
    have hboth := (hup.append hdown (by omega)).append hnear (by omega)
    have hsum : difference - up.2 + (up.2 - down.2) + down.2 = difference := by omega
    rwa [hsum] at hboth

/-- The bytes bring the cursor from one position to another, without leaving a box that has both. -/
def Reaches (readBlockNbt : Reader Unit) (registry : MappingRegistry) (bytes : Input)
    (cursor target : BlockPos) : Prop :=
  ∃ commands, (∀ tables, Encodes readBlockNbt registry tables bytes commands tables) ∧
    (∀ command ∈ commands, command.placed = none) ∧ cursorAfter cursor commands = target ∧
    ∀ low high, Inside low high cursor → Inside low high target →
      Visits (Inside low high) cursor commands

omit axis increment decrement int8Command int16Command int32Command in
theorem Reaches.append {middle : BlockPos} (h : Reaches readBlockNbt registry first cursor middle)
    (h' : Reaches readBlockNbt registry second middle target)
    (hmiddle : ∀ low high, Inside low high cursor → Inside low high target → Inside low high middle) :
    Reaches readBlockNbt registry (first ++ second) cursor target := by
  obtain ⟨commands, hencodes, hsilent, hcursor, hvisits⟩ := h
  obtain ⟨more, hencodes', hsilent', hcursor', hvisits'⟩ := h'
  refine ⟨commands ++ more, fun tables => (hencodes tables).append (hencodes' tables),
    fun command hcommand => (List.mem_append.mp hcommand).elim (hsilent command) (hsilent' command), ?_,
    fun low high hstart hend => visits_append.mpr ?_⟩
  · rw [cursorAfter_append, hcursor, hcursor']
  · rw [hcursor]
    have hinside := hmiddle low high hstart hend
    exact ⟨hvisits low high hstart hinside, hvisits' low high hinside hend⟩

theorem MovesBy.reaches {bytes : Input} (h : MovesBy readBlockNbt registry axis bytes difference)
    (htarget : cursor.add (along axis difference) = target) :
    Reaches readBlockNbt registry bytes cursor target := by
  subst htarget
  obtain ⟨commands, hencodes, htravels⟩ := h
  exact ⟨commands, hencodes, htravels.silent, htravels.cursor cursor,
    fun low high hstart hend => htravels.visits low high cursor hstart hend⟩

omit axis increment decrement int8Command int16Command int32Command in
/-- The moves along the three axes bring the cursor to its target. -/
theorem reaches_appendMove (cursor target : BlockPos) :
    Reaches readBlockNbt registry (appendMove cursor target) cursor target := by
  have hx : Reaches readBlockNbt registry (appendMoveAxis (target.x - cursor.x) 14 15 28 20 21) cursor
      ⟨target.x, cursor.y, cursor.z⟩ :=
    (axisCommands_x.movesBy _).reaches (by simp [along, Command.delta, BlockPos.add])
  have hy : Reaches readBlockNbt registry (appendMoveAxis (target.y - cursor.y) 16 17 29 22 23)
      ⟨target.x, cursor.y, cursor.z⟩ ⟨target.x, target.y, cursor.z⟩ :=
    (axisCommands_y.movesBy _).reaches (by simp [along, Command.delta, BlockPos.add])
  have hz : Reaches readBlockNbt registry (appendMoveAxis (target.z - cursor.z) 18 19 30 24 25)
      ⟨target.x, target.y, cursor.z⟩ target :=
    (axisCommands_z.movesBy _).reaches (by simp [along, Command.delta, BlockPos.add])
  refine (hx.append hy fun low high hstart hend => ?_).append hz fun low high hstart hend => ?_
  · exact ⟨hend.1, hstart.2⟩
  · exact ⟨hend.1, hend.2.1, hstart.2.2⟩

end Moving

section Decoding

/-- The cursor and the bounds are in a box. -/
structure DecodeState.Within (low high : BlockPos) (s : DecodeState) : Prop where
  cursor : Inside low high s.cursor
  minimum : Inside low high s.minimum
  maximum : Inside low high s.maximum

theorem DecodeState.Within.updateBounds {low high : BlockPos} {s : DecodeState} (h : s.Within low high) :
    s.updateBounds.Within low high := by
  obtain ⟨⟨⟨hx, hx'⟩, ⟨hy, hy'⟩, hz, hz'⟩, ⟨⟨hlx, hlx'⟩, ⟨hly, hly'⟩, hlz, hlz'⟩,
    ⟨⟨hhx, hhx'⟩, ⟨hhy, hhy'⟩, hhz, hhz'⟩⟩ := h
  exact ⟨⟨⟨hx, hx'⟩, ⟨hy, hy'⟩, hz, hz'⟩,
    ⟨⟨le_min hlx hx, min_le_of_right_le hx'⟩, ⟨le_min hly hy, min_le_of_right_le hy'⟩, le_min hlz hz,
      min_le_of_right_le hz'⟩,
    ⟨⟨le_max_of_le_right hx, max_le hhx' hx'⟩, ⟨le_max_of_le_right hy, max_le hhy' hy'⟩,
      le_max_of_le_right hz, max_le hhz' hz'⟩⟩

variable {low high : BlockPos}

theorem DecodeState.Within.move {s : DecodeState} {axis : Axis} {delta : ℤ} (h : s.Within low high)
    (hlow : low.FitsInt32) (hhigh : high.FitsInt32)
    (hend : Inside low high (s.cursor.add (along axis delta))) :
    ∃ t, s.move axis delta = .ok t ∧ t.Within low high ∧ t.cursor = s.cursor.add (along axis delta) := by
  have hfits := hend.fitsInt32 hlow hhigh
  refine ⟨{ s with cursor := s.cursor.add (along axis delta) }, ?_, ⟨hend, h.minimum, h.maximum⟩, rfl⟩
  cases axis with
  | X =>
    rw [DecodeState.move, moveCursor, addCoordinate, if_pos (show IsInt32 (s.cursor.x + delta) from hfits.1)]
    simp [along, Command.delta, BlockPos.add, Except.map]
  | Y =>
    rw [DecodeState.move, moveCursor, addCoordinate, if_pos (show IsInt32 (s.cursor.y + delta) from hfits.2.1)]
    simp [along, Command.delta, BlockPos.add, Except.map]
  | Z =>
    rw [DecodeState.move, moveCursor, addCoordinate, if_pos (show IsInt32 (s.cursor.z + delta) from hfits.2.2)]
    simp [along, Command.delta, BlockPos.add, Except.map]

variable {s : DecodeState}

/-- A command that stays in the box is decoded. -/
theorem DecodeState.Within.step {command : Command} (h : s.Within low high) (hlow : low.FitsInt32)
    (hhigh : high.FitsInt32) (hsucceeds : command.Succeeds)
    (hend : Inside low high (s.cursor.add command.delta)) :
    ∃ t, s.step false command = .ok t ∧ t.Within low high ∧ t.cursor = s.cursor.add command.delta := by
  have hstays : s.cursor = s.cursor.add ⟨0, 0, 0⟩ := (DecodeState.add_zero _).symm
  cases command with
  | metadata result =>
    cases (show result = .ok () from hsucceeds)
    exact ⟨s, rfl, h, hstays⟩
  | stay result =>
    cases (show result = .ok () from hsucceeds)
    exact ⟨s.updateBounds, rfl, h.updateBounds, hstays⟩
  | move axis delta =>
    obtain ⟨t, hmove, hwithin, hcursor⟩ := h.move hlow hhigh hend
    refine ⟨t.updateBounds, ?_, hwithin.updateBounds, hcursor⟩
    rw [DecodeState.step, hmove]
    rfl
  | nextZ =>
    obtain ⟨t, hmove, hwithin, hcursor⟩ := @DecodeState.Within.move low high s .Z 1 h hlow hhigh hend
    refine ⟨t.updateBounds, ?_, hwithin.updateBounds, hcursor⟩
    rw [DecodeState.step, hmove]
    rfl
  | placeConstant runtime | place runtime =>
    obtain ⟨id, rfl⟩ := hsucceeds
    exact ⟨_, rfl, DecodeState.Within.updateBounds ⟨h.cursor, h.minimum, h.maximum⟩, hstays⟩
  | terminate => cases hsucceeds

/-- What the pairs at the front place is known, and they keep the cursor in the box. -/
theorem Visits.leadingPairs {allowed : BlockPos → Prop} {pos : BlockPos} {commands : List Command}
    (h : Visits allowed pos commands) (hpos : allowed pos) (count : ℕ) :
    ∃ runtimes, ((leadingPairs commands).take count).mapM id = .ok runtimes ∧
      allowed (pos.add ⟨0, 0, runtimes.length⟩) ∧
      Visits allowed (pos.add ⟨0, 0, runtimes.length⟩) (commands.drop (2 * runtimes.length)) := by
  induction commands using leadingPairs.induct generalizing pos count with
  | case1 runtime rest ih =>
    cases count with
    | zero => exact ⟨[], rfl, (DecodeState.add_zero pos).symm ▸ hpos, (DecodeState.add_zero pos).symm ▸ h⟩
    | succ count =>
      obtain ⟨⟨id, rfl⟩, -, -, hnext, hrest⟩ := h
      obtain ⟨runtimes, hruntimes, hallowed, hvisits⟩ := ih hrest hnext count
      have hcursor : ((pos.add (Command.placeConstant (.ok id)).delta).add Command.nextZ.delta).add
          ⟨0, 0, runtimes.length⟩ = pos.add ⟨0, 0, (runtimes.length + 1 : ℕ)⟩ := by
        simp [Command.delta, BlockPos.add]
        omega
      have hcount : 2 * (runtimes.length + 1) = 2 * runtimes.length + 1 + 1 := by omega
      rw [hcursor] at hallowed hvisits
      refine ⟨id :: runtimes, ?_, hallowed, ?_⟩
      · rw [Bdx.leadingPairs, List.take_succ_cons, List.mapM_cons, hruntimes]
        rfl
      · rw [List.length_cons, hcount, List.drop_succ_cons, List.drop_succ_cons]
        exact hvisits
  | case2 commands hpairs =>
    have hempty : Bdx.leadingPairs commands = [] := by
      rw [Bdx.leadingPairs]
      exact hpairs
    rw [hempty, List.take_nil]
    exact ⟨[], rfl, (DecodeState.add_zero pos).symm ▸ hpos, (DecodeState.add_zero pos).symm ▸ h⟩

theorem leadingPairs_append_terminate (commands : List Command) :
    leadingPairs (commands ++ [.terminate]) = leadingPairs commands := by
  induction commands using leadingPairs.induct with
  | case1 runtime rest ih => exact congrArg (runtime :: ·) ih
  | case2 commands hpairs =>
    have hempty : leadingPairs commands = [] := by
      rw [leadingPairs]
      exact hpairs
    rw [hempty, leadingPairs]
    intro runtime rest happend
    cases commands with
    | nil => cases happend
    | cons first commands =>
      cases commands with
      | nil => cases happend
      | cons second commands =>
        cases happend
        exact hpairs _ _ rfl

theorem length_leadingPairs_le (commands : List Command) :
    2 * (leadingPairs commands).length ≤ commands.length := by
  induction commands using leadingPairs.induct with
  | case1 runtime rest ih =>
    rw [leadingPairs, List.length_cons, List.length_cons, List.length_cons]
    omega
  | case2 commands hpairs =>
    have hempty : leadingPairs commands = [] := by
      rw [leadingPairs]
      exact hpairs
    rw [hempty]
    exact Nat.zero_le _

/-- Pairs that stay in the box are taken at once. -/
theorem DecodeState.Within.takeRun {pairs : List (Except String RuntimeId)} {runtimes : List RuntimeId}
    (h : s.Within low high) (hlow : low.FitsInt32) (hhigh : high.FitsInt32) (hspan : high.z - low.z ≤ int32Max)
    (hne : 0 < runtimes.length) (hpairs : pairs.mapM id = .ok runtimes)
    (hend : Inside low high (s.cursor.add ⟨0, 0, runtimes.length⟩)) :
    ∃ t, s.takeRun pairs = .ok t ∧ t.Within low high ∧
      t.cursor = s.cursor.add ⟨0, 0, runtimes.length⟩ := by
  have hlast : IsInt32 (s.cursor.z + runtimes.length - 1) := by
    obtain ⟨⟨-, -, hmin, -⟩, -, -, -, hmax⟩ := And.intro (h.cursor.fitsInt32 hlow hhigh)
      (hend.fitsInt32 hlow hhigh)
    dsimp only [BlockPos.add] at hmax
    exact ⟨by omega, by omega⟩
  have hcount : ¬ (runtimes.length : ℤ) > int32Max := by
    have hstart := h.cursor.2.2.1
    have hstop := hend.2.2.2
    dsimp only [BlockPos.add] at hstop
    omega
  have hdelivered : DecodeState.Within low high
      { s with deliveries := s.deliveries ++ [Delivery.run s.cursor runtimes] } :=
    ⟨h.cursor, h.minimum, h.maximum⟩
  obtain ⟨t, hmove, hwithin, hcursor⟩ :=
    @DecodeState.Within.move low high _ .Z runtimes.length hdelivered.updateBounds hlow hhigh hend
  refine ⟨t.updateBounds, ?_, hwithin.updateBounds, hcursor⟩
  rw [DecodeState.takeRun, hpairs, ok_bind, if_neg (not_not_intro hlast)]
  dsimp only
  rw [if_neg hcount, hmove]
  rfl

/-- Commands that stay in a box are decoded, whatever is in the buffer. -/
theorem decodeFull_succeeds {window : ℕ → ℕ} {s : DecodeState} {commands : List Command} {fuel : ℕ}
    (hlow : low.FitsInt32) (hhigh : high.FitsInt32) (hspan : high.z - low.z ≤ int32Max)
    (h : s.Within low high) (hvisits : Visits (Inside low high) s.cursor commands)
    (hfuel : commands.length < fuel) :
    ∃ t, decodeFull window fuel s (commands ++ [.terminate]) = .ok t ∧ t.Within low high := by
  induction fuel generalizing s commands with
  | zero => exact absurd hfuel (Nat.not_lt_zero _)
  | succ fuel ih =>
    unfold decodeFull
    rw [leadingPairs_append_terminate]
    obtain ⟨runtimes, hruntimes, hend, hrest⟩ := hvisits.leadingPairs h.cursor
      (window (commands ++ [Command.terminate]).length)
    have hlength := (forall₂_of_mapM_ok hruntimes).length_eq
    generalize hpairs : (leadingPairs commands).take (window (commands ++ [Command.terminate]).length) =
      pairs at *
    dsimp only
    split_ifs with hmany
    · have hcount : 2 * pairs.length ≤ commands.length := by
        rw [← hpairs]
        exact Nat.le_trans (Nat.mul_le_mul_left 2 (List.length_take_le' _ _)) (length_leadingPairs_le _)
      obtain ⟨next, htake, hwithin, hcursor⟩ := h.takeRun hlow hhigh hspan (by omega) hruntimes hend
      rw [htake, List.drop_append_of_le_length hcount]
      refine ih hwithin ?_ (by rw [List.length_drop]; omega)
      rw [hcursor, hlength]
      exact hrest
    · cases commands with
      | nil => exact ⟨s.updateBounds, rfl, h.updateBounds⟩
      | cons command rest =>
        obtain ⟨hsucceeds, hnext, hmore⟩ := hvisits
        obtain ⟨next, hstep, hwithin, hcursor⟩ := h.step hlow hhigh hsucceeds hnext
        have hrec := ih hwithin (by rwa [hcursor]) (Nat.lt_of_succ_lt_succ hfuel)
        rw [List.cons_append]
        split
        case h_1 heq => cases heq
        case h_2 heq =>
          cases heq
          cases hsucceeds
        case h_3 heq =>
          cases heq
          rw [hstep]
          exact hrec

end Decoding

end WaterStructure.Bdx
