import WaterStructure.Core.Grid

/-!
# The command stream of a BDX file

A cursor starts at the origin and moves; commands place blocks at the cursor. Every command but a
few takes the cursor into the box around the structure. The decoder hands all placements, air
included, to a consumer. A decoder for bounds only does not resolve blocks. The other one takes four
or more pairs of a placement and a step along z at once, as far as they are in its buffer.
-/

namespace WaterStructure.Bdx

open NestedLoop

inductive Axis where
  | X
  | Y
  | Z

/-- A command with its operands; a block comes with its runtime id, or with the error of finding
it. -/
inductive Command where
  | metadata (result : Except String Unit)
  | stay (result : Except String Unit)
  | move (axis : Axis) (delta : ℤ)
  | nextZ
  | placeConstant (runtime : Except String RuntimeId)
  | place (runtime : Except String RuntimeId)
  | terminate

/-- What the consumer receives. -/
inductive Delivery where
  | single (pos : BlockPos) (runtime : RuntimeId)
  | run (start : BlockPos) (runtimes : List RuntimeId)

structure DecodeState where
  cursor : BlockPos := ⟨0, 0, 0⟩
  minimum : BlockPos := ⟨0, 0, 0⟩
  maximum : BlockPos := ⟨0, 0, 0⟩
  deliveries : List Delivery := []

def addCoordinate (axis : String) (coordinate delta : ℤ) : Except String ℤ :=
  if IsInt32 (coordinate + delta) then .ok (coordinate + delta)
  else .error ("BDX " ++ axis ++ " 游标超出 int32 范围")

def moveCursor (pos : BlockPos) (axis : Axis) (delta : ℤ) : Except String BlockPos :=
  match axis with
  | .X => (addCoordinate "X" pos.x delta).map fun x => { pos with x }
  | .Y => (addCoordinate "Y" pos.y delta).map fun y => { pos with y }
  | .Z => (addCoordinate "Z" pos.z delta).map fun z => { pos with z }

namespace DecodeState

def updateBounds (state : DecodeState) : DecodeState :=
  { state with
    minimum := ⟨min state.minimum.x state.cursor.x, min state.minimum.y state.cursor.y,
      min state.minimum.z state.cursor.z⟩
    maximum := ⟨max state.maximum.x state.cursor.x, max state.maximum.y state.cursor.y,
      max state.maximum.z state.cursor.z⟩ }

def move (state : DecodeState) (axis : Axis) (delta : ℤ) : Except String DecodeState :=
  (moveCursor state.cursor axis delta).map fun cursor => { state with cursor }

/-- Place a block at the cursor; for bounds only the block is skipped. -/
def place (boundsOnly : Bool) (state : DecodeState) (runtime : Except String RuntimeId) :
    Except String DecodeState :=
  if boundsOnly then .ok state
  else runtime.map fun id =>
    { state with deliveries := state.deliveries ++ [.single state.cursor id] }

/-- One command other than the last. -/
def step (boundsOnly : Bool) (state : DecodeState) : Command → Except String DecodeState
  | .metadata result => if boundsOnly then .ok state else result.map fun _ => state
  | .stay result =>
    if boundsOnly then .ok state.updateBounds else result.map fun _ => state.updateBounds
  | .move axis delta => (state.move axis delta).map updateBounds
  | .nextZ => (state.move .Z 1).map updateBounds
  | .placeConstant runtime => (state.place boundsOnly runtime).map updateBounds
  | .place runtime => (state.place boundsOnly runtime).map updateBounds
  | .terminate => .ok state.updateBounds

end DecodeState

/-- Decode command after command up to the terminator. -/
def decodeSingle (boundsOnly : Bool) : DecodeState → List Command → Except String DecodeState
  | _, [] => .error "缺少 terminate command"
  | state, .terminate :: _ => .ok state.updateBounds
  | state, command :: rest =>
    match state.step boundsOnly command with
    | .error error => .error error
    | .ok next => decodeSingle boundsOnly next rest

/-- The blocks of the leading pairs of a placement and a step along z. -/
def leadingPairs : List Command → List (Except String RuntimeId)
  | .placeConstant runtime :: .nextZ :: rest => runtime :: leadingPairs rest
  | _ => []

/-- Take pairs at once. -/
def DecodeState.takeRun (state : DecodeState) (pairs : List (Except String RuntimeId)) :
    Except String DecodeState := do
  let runtimes ← pairs.mapM id
  if ¬ IsInt32 (state.cursor.z + runtimes.length - 1) then .error "BDX Z run 游标超出 int32 范围"
  else
    let delivered : DecodeState :=
      { state with deliveries := state.deliveries ++ [Delivery.run state.cursor runtimes] }
    if (runtimes.length : ℤ) > int32Max then .error "BDX Z run 长度超过 int32 范围"
    else
      let moved ← delivered.updateBounds.move .Z runtimes.length
      return moved.updateBounds

/-- Decode everything; `window` says how many pairs are in the buffer when so many commands are
left. The fuel is their number. -/
def decodeFull (window : ℕ → ℕ) : ℕ → DecodeState → List Command → Except String DecodeState
  | 0, _, _ => .error "缺少 terminate command"
  | fuel + 1, state, commands =>
    let pairs := (leadingPairs commands).take (window commands.length)
    if 4 ≤ pairs.length then
      match state.takeRun pairs with
      | .error error => .error error
      | .ok next => decodeFull window fuel next (commands.drop (2 * pairs.length))
    else
      match commands with
      | [] => .error "缺少 terminate command"
      | .terminate :: _ => .ok state.updateBounds
      | command :: rest =>
        match state.step false command with
        | .error error => .error error
        | .ok next => decodeFull window fuel next rest

/-- The placements that a delivery stands for. -/
def Delivery.placements : Delivery → List (BlockPos × RuntimeId)
  | .single pos runtime => [(pos, runtime)]
  | .run start runtimes =>
    runtimes.zipIdx.map fun entry => (⟨start.x, start.y, start.z + entry.2⟩, entry.1)

def DecodeState.placements (state : DecodeState) : List (BlockPos × RuntimeId) :=
  state.deliveries.flatMap Delivery.placements

/-- How far a command moves the cursor. -/
def Command.delta : Command → BlockPos
  | .move .X delta => ⟨delta, 0, 0⟩
  | .move .Y delta => ⟨0, delta, 0⟩
  | .move .Z delta => ⟨0, 0, delta⟩
  | .nextZ => ⟨0, 0, 1⟩
  | _ => ⟨0, 0, 0⟩

/-- The block that a command places. -/
def Command.placed : Command → Option RuntimeId
  | .placeConstant runtime => runtime.toOption
  | .place runtime => runtime.toOption
  | _ => none

/-- The placements of a stream, in stream order. -/
def placementsFrom : BlockPos → List Command → List (BlockPos × RuntimeId)
  | _, [] => []
  | _, .terminate :: _ => []
  | cursor, command :: rest =>
    command.placed.toList.map (fun runtime => (cursor, runtime)) ++
      placementsFrom (cursor.add command.delta) rest

def dimension (axis : String) (minimum maximum : ℤ) : Except String ℤ :=
  let span := maximum - minimum + 1
  if span ≤ 0 ∨ span > int32Max then .error ("BDX " ++ axis ++ " 尺寸超出 int32 范围")
  else .ok span

variable {delta : ℤ} {commands : List Command} {s t : DecodeState} {command : Command}
  {boundsOnly : Bool}

theorem addCoordinate_eq_ok {axis : String} {coordinate next : ℤ}
    (h : addCoordinate axis coordinate delta = .ok next) : next = coordinate + delta := by
  rw [addCoordinate] at h
  obtain ⟨-, h⟩ := then_of_ok h
  exact (Except.ok.inj h).symm

theorem moveCursor_eq_ok {pos next : BlockPos} {axis : Axis} (h : moveCursor pos axis delta = .ok next) :
    next = pos.add (Command.move axis delta).delta := by
  have hadd {axis : String} {coordinate : ℤ} {f : ℤ → BlockPos}
      (h : (addCoordinate axis coordinate delta).map f = .ok next) : next = f (coordinate + delta) := by
    cases hresult : addCoordinate axis coordinate delta with
    | error error =>
      rw [hresult] at h
      cases h
    | ok value =>
      rw [hresult] at h
      rw [← addCoordinate_eq_ok hresult]
      exact (Except.ok.inj h).symm
  cases axis with
  | X | Y | Z => rw [hadd h]; simp [BlockPos.add, Command.delta]

namespace DecodeState

/-- The position is inside the box so far. -/
def InBox (state : DecodeState) (pos : BlockPos) : Prop :=
  (state.minimum.x ≤ pos.x ∧ pos.x ≤ state.maximum.x) ∧
    (state.minimum.y ≤ pos.y ∧ pos.y ≤ state.maximum.y) ∧
    state.minimum.z ≤ pos.z ∧ pos.z ≤ state.maximum.z

theorem inBox_updateBounds (state : DecodeState) : state.updateBounds.InBox state.cursor :=
  ⟨⟨min_le_right _ _, le_max_right _ _⟩, ⟨min_le_right _ _, le_max_right _ _⟩, min_le_right _ _,
    le_max_right _ _⟩

theorem InBox.updateBounds {state : DecodeState} {pos : BlockPos} (h : state.InBox pos) :
    state.updateBounds.InBox pos :=
  ⟨⟨min_le_of_left_le h.1.1, le_max_of_le_left h.1.2⟩,
    ⟨min_le_of_left_le h.2.1.1, le_max_of_le_left h.2.1.2⟩,
    min_le_of_left_le h.2.2.1, le_max_of_le_left h.2.2.2⟩

/-- What a turn of the decoder does: the cursor is moved, the box has it and all it had, and the
placements are appended. -/
structure Advances (s t : DecodeState) (delta : BlockPos)
    (placements : Option (List (BlockPos × RuntimeId))) : Prop where
  cursor : t.cursor = s.cursor.add delta
  inBox : t.InBox t.cursor
  keeps : ∀ pos, s.InBox pos → t.InBox pos
  placements_eq : ∀ placed, placements = some placed → t.placements = s.placements ++ placed

theorem add_zero (pos : BlockPos) : pos.add ⟨0, 0, 0⟩ = pos := by simp [BlockPos.add]

/-- A command that only takes the cursor into the box. -/
theorem advances_updateBounds (state : DecodeState) :
    Advances state state.updateBounds ⟨0, 0, 0⟩ (some []) where
  cursor := (add_zero _).symm
  inBox := state.inBox_updateBounds
  keeps _ h := h.updateBounds
  placements_eq placed h := by
    cases h
    exact (List.append_nil _).symm

variable {state : DecodeState} {boundsOnly : Bool}

theorem advances_move {moved : DecodeState} {axis : Axis} {delta : ℤ}
    (h : state.move axis delta = .ok moved) :
    Advances state moved.updateBounds (Command.move axis delta).delta (some []) := by
  rw [DecodeState.move] at h
  cases hcursor : moveCursor state.cursor axis delta with
  | error error =>
    rw [hcursor] at h
    cases h
  | ok cursor =>
    rw [hcursor] at h
    cases h
    exact
      { cursor := moveCursor_eq_ok hcursor
        inBox := inBox_updateBounds _
        keeps := fun pos hpos => @InBox.updateBounds { state with cursor } pos hpos
        placements_eq := fun placed hplaced => by
          cases hplaced
          exact (List.append_nil _).symm }

theorem advances_place {placed : DecodeState} {runtime : Except String RuntimeId}
    (h : state.place boundsOnly runtime = .ok placed) :
    Advances state placed.updateBounds ⟨0, 0, 0⟩
      (if boundsOnly then none
      else some (runtime.toOption.toList.map fun id => (state.cursor, id))) := by
  rw [DecodeState.place] at h
  split_ifs at h with hfull
  · cases h
    rw [if_pos hfull]
    exact ⟨(add_zero _).symm, inBox_updateBounds _, fun _ hpos => hpos.updateBounds,
      fun _ hnone => nomatch hnone⟩
  · rw [if_neg hfull]
    cases runtime with
    | error error => cases h
    | ok id =>
      cases h
      refine ⟨(add_zero _).symm, inBox_updateBounds _, fun _ hpos => InBox.updateBounds hpos,
        fun found hfound => ?_⟩
      cases hfound
      exact List.flatMap_append

theorem map_eq_ok {α β : Type} {f : α → β} {result : Except String α} {b : β}
    (h : result.map f = .ok b) : ∃ a, result = .ok a ∧ f a = b := by
  cases result with
  | error error => cases h
  | ok a => exact ⟨a, rfl, Except.ok.inj h⟩

/-- Every command advances. -/
theorem advances_step {s t : DecodeState} {command : Command} (hcursor : s.InBox s.cursor)
    (h : s.step boundsOnly command = .ok t) :
    Advances s t command.delta (if boundsOnly then none
      else some (command.placed.toList.map fun runtime => (s.cursor, runtime))) := by
  -- A command that places nothing.
  have hnothing {delta : BlockPos} (hadvances : Advances s t delta (some [])) :
      Advances s t delta (if boundsOnly then none else some []) := by
    refine ⟨hadvances.cursor, hadvances.inBox, hadvances.keeps, fun placed hplaced => ?_⟩
    obtain ⟨-, hplaced⟩ := else_of_some hplaced
    exact hadvances.placements_eq placed hplaced
  cases command with
  | metadata result =>
    have ht : t = s := by
      rw [DecodeState.step] at h
      split at h
      · exact (Except.ok.inj h).symm
      · obtain ⟨_, -, ht⟩ := map_eq_ok h
        exact ht.symm
    subst ht
    exact hnothing ⟨(add_zero _).symm, hcursor, fun _ hpos => hpos, fun placed hplaced => by
      cases hplaced
      exact (List.append_nil _).symm⟩
  | stay result =>
    have ht : t = s.updateBounds := by
      rw [DecodeState.step] at h
      split at h
      · exact (Except.ok.inj h).symm
      · obtain ⟨_, -, ht⟩ := map_eq_ok h
        exact ht.symm
    subst ht
    exact hnothing s.advances_updateBounds
  | move axis delta =>
    obtain ⟨moved, hmoved, rfl⟩ := map_eq_ok h
    exact hnothing (advances_move hmoved)
  | nextZ =>
    obtain ⟨moved, hmoved, rfl⟩ := map_eq_ok h
    exact hnothing (advances_move hmoved)
  | placeConstant runtime =>
    obtain ⟨placed, hplaced, rfl⟩ := map_eq_ok h
    exact advances_place hplaced
  | place runtime =>
    obtain ⟨placed, hplaced, rfl⟩ := map_eq_ok h
    exact advances_place hplaced
  | terminate =>
    cases h
    exact hnothing s.advances_updateBounds

end DecodeState

/-- The blocks of a run, from its start on. -/
theorem placements_run_cons (start : BlockPos) (runtime : RuntimeId) (rest : List RuntimeId) :
    (Delivery.run start (runtime :: rest)).placements =
      (start, runtime) :: (Delivery.run ⟨start.x, start.y, start.z + 1⟩ rest).placements := by
  have hshift (index : ℕ) : start.z + (index + 1 : ℕ) = start.z + 1 + index := by omega
  simp [Delivery.placements, List.zipIdx_cons, List.zipIdx_succ, List.map_map, Function.comp_def,
    ← hshift]

/-- What takes pairs at once is what their commands place, one after the other. -/
theorem placementsFrom_leadingPairs {count : ℕ} {runtimes : List RuntimeId} (cursor : BlockPos)
    (h : ((leadingPairs commands).take count).mapM id = .ok runtimes) :
    placementsFrom cursor commands =
      (Delivery.run cursor runtimes).placements ++
        placementsFrom ⟨cursor.x, cursor.y, cursor.z + runtimes.length⟩
          (commands.drop (2 * runtimes.length)) := by
  have hnone {start : BlockPos} {commands : List Command} : placementsFrom start commands =
      (Delivery.run start []).placements ++
        placementsFrom ⟨start.x, start.y, start.z + ([] : List RuntimeId).length⟩
          (commands.drop (2 * ([] : List RuntimeId).length)) := by
    simp [Delivery.placements]
  induction commands using leadingPairs.induct generalizing cursor count runtimes with
  | case1 runtime rest ih =>
    cases count with
    | zero =>
      cases h
      exact hnone
    | succ count =>
      rw [leadingPairs, List.take_succ_cons, List.mapM_cons] at h
      obtain ⟨id, hid, h⟩ := exists_of_bind_ok h
      obtain ⟨others, hothers, h⟩ := exists_of_bind_ok h
      cases h
      cases (show runtime = .ok id from hid)
      have hrest := ih ⟨cursor.x, cursor.y, cursor.z + 1⟩ hothers
      have hcount : 2 * (others.length + 1) = 2 * others.length + 1 + 1 := by omega
      have hcursor : cursor.z + ((others.length : ℤ) + 1) = cursor.z + 1 + others.length := by omega
      have hstep : placementsFrom cursor (.placeConstant (.ok id) :: .nextZ :: rest) =
          (cursor, id) :: placementsFrom ⟨cursor.x, cursor.y, cursor.z + 1⟩ rest := by
        simp [placementsFrom, Command.placed, Command.delta, BlockPos.add, Except.toOption]
      rw [hstep, hrest, placements_run_cons, List.length_cons, hcount, List.drop_succ_cons,
        List.drop_succ_cons, Nat.cast_add, Nat.cast_one, hcursor, List.cons_append]
  | case2 commands hpairs =>
    have hempty : leadingPairs commands = [] := by
      rw [leadingPairs]
      exact hpairs
    rw [hempty, List.take_nil] at h
    cases h
    exact hnone

/-- Pairs that are taken at once end up in the box. -/
theorem DecodeState.advances_takeRun {pairs : List (Except String RuntimeId)}
    (h : s.takeRun pairs = .ok t) : ∃ runtimes, pairs.mapM id = .ok runtimes ∧
      Advances s t ⟨0, 0, runtimes.length⟩ (some (Delivery.run s.cursor runtimes).placements) ∧
      ∀ placed ∈ (Delivery.run s.cursor runtimes).placements, t.InBox placed.1 := by
  rw [takeRun] at h
  obtain ⟨runtimes, hruntimes, h⟩ := exists_of_bind_ok h
  refine ⟨runtimes, hruntimes, ?_⟩
  obtain ⟨_, h⟩ := else_of_ok h
  obtain ⟨_, h⟩ := else_of_ok h
  obtain ⟨moved, hmoved, h⟩ := exists_of_bind_ok h
  cases h
  have hadvances := advances_move hmoved
  have hstart : moved.updateBounds.InBox s.cursor := hadvances.keeps s.cursor (inBox_updateBounds _)
  have hend : moved.updateBounds.InBox (s.cursor.add ⟨0, 0, runtimes.length⟩) := by
    have hcursor : moved.updateBounds.cursor = s.cursor.add ⟨0, 0, runtimes.length⟩ :=
      hadvances.cursor
    rw [← hcursor]
    exact hadvances.inBox
  refine ⟨⟨hadvances.cursor, hadvances.inBox, fun pos hpos => ?_, fun placed hplaced => ?_⟩,
    fun placed hplaced => ?_⟩
  · exact hadvances.keeps pos (InBox.updateBounds hpos)
  · cases hplaced
    refine (hadvances.placements_eq [] rfl).trans ?_
    rw [List.append_nil]
    exact List.flatMap_append.trans (congrArg _ (List.flatMap_singleton ..))
  · -- The cells of the run lie between its two ends.
    obtain ⟨⟨runtime, index⟩, hentry, rfl⟩ := List.mem_map.mp hplaced
    have hindex : index < runtimes.length := by simpa using (List.mem_zipIdx hentry).2.1
    have hlow := hstart.2.2.1
    have hhigh : s.cursor.z + runtimes.length ≤ moved.updateBounds.maximum.z := hend.2.2.2
    exact ⟨hstart.1, hstart.2.1, by dsimp only; omega, by dsimp only; omega⟩

/-- The box only grows, and has all that the commands place. -/
structure Covers (s t : DecodeState) (commands : List Command) : Prop where
  keeps : ∀ pos, s.InBox pos → t.InBox pos
  placed : ∀ placed ∈ placementsFrom s.cursor commands, t.InBox placed.1

theorem placementsFrom_cons (h : command ≠ .terminate) (cursor : BlockPos) (rest : List Command) :
    placementsFrom cursor (command :: rest) =
      (command.placed.toList.map fun runtime => (cursor, runtime)) ++
        placementsFrom (cursor.add command.delta) rest := by
  rw [placementsFrom]
  exact h

theorem covers_terminate (s : DecodeState) (rest : List Command) :
    Covers s s.updateBounds (.terminate :: rest) where
  keeps _ h := h.updateBounds
  placed placed h := by
    rw [placementsFrom] at h
    cases h

theorem Covers.step {next : DecodeState} {rest : List Command} (hterminate : command ≠ .terminate)
    (hcursor : s.InBox s.cursor) (hstep : s.step boundsOnly command = .ok next) (h : Covers next t rest) :
    Covers s t (command :: rest) := by
  have hadvances := s.advances_step hcursor hstep
  refine ⟨fun pos hpos => h.keeps pos (hadvances.keeps pos hpos), fun placed hplaced => ?_⟩
  rw [placementsFrom_cons hterminate, ← hadvances.cursor] at hplaced
  rcases List.mem_append.mp hplaced with hfirst | hrest
  · obtain ⟨runtime, -, rfl⟩ := List.mem_map.mp hfirst
    exact h.keeps _ (hadvances.keeps _ hcursor)
  · exact h.placed placed hrest

/-- Whatever the decoder for bounds finds contains all placements. -/
theorem covers_of_decodeSingle (hcursor : s.InBox s.cursor)
    (h : decodeSingle boundsOnly s commands = .ok t) : Covers s t commands := by
  induction s, commands using decodeSingle.induct boundsOnly with
  | case1 s => cases h
  | case2 s rest =>
    cases h
    exact covers_terminate s rest
  | case3 s command rest hterminate error hstep =>
    rw [decodeSingle, hstep] at h
    · cases h
    · exact hterminate
  | case4 s command rest hterminate next hstep ih =>
    rw [decodeSingle, hstep] at h
    · exact (ih (s.advances_step hcursor hstep).inBox h).step hterminate hcursor hstep
    · exact hterminate

/-- The decoder hands over all placements, in stream order, and finds a box around them. -/
theorem decodeFull_ok {window : ℕ → ℕ} {fuel : ℕ} (hcursor : s.InBox s.cursor)
    (h : decodeFull window fuel s commands = .ok t) :
    Covers s t commands ∧ t.placements = s.placements ++ placementsFrom s.cursor commands := by
  induction fuel generalizing s commands with
  | zero => cases h
  | succ fuel ih =>
    by_cases hpairs : 4 ≤ ((leadingPairs commands).take (window commands.length)).length
    · simp only [decodeFull, if_pos hpairs] at h
      split at h
      case h_1 => cases h
      case h_2 next hrun =>
        obtain ⟨runtimes, hruntimes, hadvances, hplaced⟩ := DecodeState.advances_takeRun hrun
        obtain ⟨hcovers, hplacements⟩ := ih hadvances.inBox h
        have hlength := (forall₂_of_mapM_ok hruntimes).length_eq
        have hsplit := placementsFrom_leadingPairs s.cursor hruntimes
        have hnext : next.cursor = ⟨s.cursor.x, s.cursor.y, s.cursor.z + runtimes.length⟩ := by
          rw [hadvances.cursor]
          simp [BlockPos.add]
        rw [hlength, hnext] at hplacements
        refine ⟨⟨fun pos hpos => hcovers.keeps pos (hadvances.keeps pos hpos), fun placed h => ?_⟩, ?_⟩
        · rw [hsplit] at h
          rcases List.mem_append.mp h with hfirst | hrest
          · exact hcovers.keeps _ (hplaced placed hfirst)
          · rw [← hnext, ← hlength] at hrest
            exact hcovers.placed placed hrest
        · rw [hplacements, hadvances.placements_eq _ rfl, hsplit, List.append_assoc]
    · simp only [decodeFull, if_neg hpairs] at h
      split at h
      case h_1 => cases h
      case h_2 rest =>
        cases h
        refine ⟨covers_terminate s rest, ?_⟩
        rw [placementsFrom, List.append_nil]
        rfl
      case h_3 command rest hterminate =>
        split at h
        case h_1 => cases h
        case h_2 next hstep =>
          have hadvances := s.advances_step hcursor hstep
          obtain ⟨hcovers, hplacements⟩ := ih hadvances.inBox h
          refine ⟨hcovers.step hterminate hcursor hstep, ?_⟩
          rw [hplacements, hadvances.placements_eq _ rfl, placementsFrom_cons hterminate,
            hadvances.cursor, List.append_assoc]

end WaterStructure.Bdx
