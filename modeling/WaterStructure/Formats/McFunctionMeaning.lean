import WaterStructure.Formats.McFunctionRead

/-!
# What an MCFunction text means

Every line is an error, a command or nothing, whatever the caches of the readers hold. The
sequential reader succeeds exactly when no line is an error, there are commands, not too many of
them, and the box around them has extents that fit an `int32`.
-/

namespace WaterStructure.McFunction

open NestedLoop

/-- `count` coordinates, if they are all there. -/
def coordinatesOf : ℕ → List Char → Option (List ℤ × List Char)
  | 0, rest => some ([], rest)
  | count + 1, line =>
    (nextField line).bind fun (token, rest) =>
      (coordinate token).bind fun value =>
        (coordinatesOf count rest).map fun (values, rest) => (value :: values, rest)

/-- What a line means: `none` is an error, and most lines are no command. -/
def lineCommand (registry : BlockRegistry) (lineLimit : ℕ) (line : List Char) :
    Option (Option CuboidCommand) :=
  if line.length > lineLimit then none
  else
    match commandFields line with
    | none => some none
    | some (fill, rest) =>
      match coordinatesOf (if fill then 6 else 3) rest with
      | none => none
      | some (coordinates, rest) =>
        match parseTarget rest with
        | .error _ => none
        | .ok (name, stateText) =>
          (resolve registry name stateText).map fun runtime =>
            some (cuboidOf fill coordinates runtime)

/-- The commands of some lines, if none of them is an error. -/
def commandsOf (registry : BlockRegistry) (lineLimit : ℕ) :
    List (List Char) → Option (List CuboidCommand)
  | [] => some []
  | line :: rest =>
    match lineCommand registry lineLimit line with
    | none => none
    | some none => commandsOf registry lineLimit rest
    | some (some command) => (commandsOf registry lineLimit rest).map (command :: ·)

theorem toOption_map {α β : Type} (f : α → β) (result : Except String α) :
    (result.map f).toOption = result.toOption.map f := by
  cases result <;> rfl

/-- The parallel reader finds the coordinates of a line. -/
theorem toOption_parseCoordinates (lineNumber count : ℕ) (line : List Char) :
    (parseCoordinates lineNumber count line).toOption = coordinatesOf count line := by
  induction count generalizing line with
  | zero => rfl
  | succ count ih =>
    rw [parseCoordinates, coordinatesOf]
    cases nextField line with
    | none => rfl
    | some field =>
      rw [Option.bind_some]
      dsimp only
      cases coordinate field.1 with
      | none => rfl
      | some value =>
        rw [Option.bind_some, ← ih]
        exact toOption_map _ _

/-- So does the sequential one. -/
theorem toOption_readCoordinates (lineNumber count : ℕ) (line : List Char) :
    (readCoordinates lineNumber count line).toOption = coordinatesOf count line := by
  have hfields : (readCoordinates lineNumber count line).toOption =
      (coordinateFields count line).bind fun fields =>
        (fields.1.mapM id).map fun values => (values, fields.2) := by
    rw [readCoordinates]
    cases coordinateFields count line with
    | none => rfl
    | some fields =>
      rw [Option.bind_some]
      dsimp only
      cases fields.1.mapM id <;> rfl
  rw [hfields]
  clear hfields
  induction count generalizing line with
  | zero => rfl
  | succ count ih =>
    rw [coordinateFields, coordinatesOf]
    cases nextField line with
    | none => rfl
    | some field =>
      obtain ⟨token, rest⟩ := field
      rw [Option.bind_some]
      dsimp only
      rw [← ih]
      cases coordinateFields count rest with
      | none => cases coordinate token <;> rfl
      | some fields =>
        simp only [Option.map_some, Option.bind_some, List.mapM_cons]
        cases coordinate token with
        | none => rfl
        | some value => cases fields.1.mapM id <;> rfl

/-- What a line adds to the commands so far, up to the limit. -/
def addMeaning (batch : Batch) : Option (Option CuboidCommand) → Option Batch
  | none => none
  | some none => some batch
  | some (some command) =>
    if batch.commands.length ≥ kMaxCommands then none else some (batch.push command)

/-- What some commands add to the commands so far, up to the limit. -/
def addAll (batch : Batch) (commands : List CuboidCommand) : Option Batch :=
  if batch.commands.length + commands.length ≤ kMaxCommands then
    some (commands.foldl Batch.push batch)
  else none

/-- A line of the sequential reader. -/
theorem readLine_eq {registry : BlockRegistry} {lineLimit : ℕ} {state : ReadState}
    (hcache : CacheSound registry state.cache) (line : List Char) :
    (readLine registry lineLimit state line).toOption.map ReadState.batch =
        addMeaning state.batch (lineCommand registry lineLimit line) ∧
      ∀ next, readLine registry lineLimit state line = .ok next → CacheSound registry next.cache := by
  rw [lineCommand, readLine]
  dsimp only
  by_cases hlimit : line.length > lineLimit
  · rw [if_pos hlimit, if_pos hlimit]
    exact ⟨rfl, fun _ h => nomatch h⟩
  · rw [if_neg hlimit, if_neg hlimit]
    cases commandFields line with
    | none =>
      refine ⟨rfl, ?_⟩
      intro next h
      cases h
      exact hcache
    | some fields =>
      obtain ⟨fill, rest⟩ := fields
      dsimp only
      rw [← toOption_readCoordinates (state.lineNumber + 1)]
      cases readCoordinates (state.lineNumber + 1) (if fill then 6 else 3) rest with
      | error error => exact ⟨rfl, fun _ h => nomatch h⟩
      | ok found =>
        obtain ⟨coordinates, rest⟩ := found
        dsimp only [Except.toOption]
        cases htarget : parseTarget rest with
        | error error => exact ⟨rfl, fun _ h => nomatch h⟩
        | ok target =>
          obtain ⟨name, stateText⟩ := target
          dsimp only
          obtain ⟨hresolve, hsound⟩ := hcache.resolveCached (isTarget_of_parseTarget htarget)
          rw [addCommand]
          dsimp only
          cases hcached : resolveCached registry state.cache name stateText with
          | mk cache runtime =>
            rw [hcached] at hresolve hsound
            dsimp only at hresolve hsound
            rw [← hresolve]
            by_cases hcount : state.batch.commands.length ≥ kMaxCommands
            · rw [if_pos hcount]
              refine ⟨?_, fun _ h => nomatch h⟩
              cases runtime with
              | none => rfl
              | some runtime => exact (if_pos hcount).symm
            · rw [if_neg hcount]
              cases runtime with
              | none => exact ⟨rfl, fun _ h => nomatch h⟩
              | some runtime =>
                refine ⟨(if_neg hcount).symm, ?_⟩
                intro next h
                cases h
                exact hsound

variable {registry : BlockRegistry} {lineLimit : ℕ} {batch : Batch} {bounds : Bounds}

/-- A line of the parallel reader. -/
theorem parseLine_eq {cache : RuntimeCache} (hcache : CacheSound registry cache) (line : List Char)
    (lineNumber : ℕ) (batch : Batch) :
    (parseLine registry lineLimit line lineNumber cache batch).2.toOption =
        addMeaning batch (lineCommand registry lineLimit line) ∧
      CacheSound registry (parseLine registry lineLimit line lineNumber cache batch).1 := by
  rw [lineCommand, parseLine]
  by_cases hlimit : line.length > lineLimit
  · rw [if_pos hlimit, if_pos hlimit]
    exact ⟨rfl, hcache⟩
  · rw [if_neg hlimit, if_neg hlimit]
    cases commandFields line with
    | none => exact ⟨rfl, hcache⟩
    | some fields =>
      obtain ⟨fill, rest⟩ := fields
      dsimp only
      rw [← toOption_parseCoordinates lineNumber]
      cases parseCoordinates lineNumber (if fill then 6 else 3) rest with
      | error error => exact ⟨rfl, hcache⟩
      | ok found =>
        obtain ⟨coordinates, rest⟩ := found
        dsimp only [Except.toOption]
        cases htarget : parseTarget rest with
        | error error => exact ⟨rfl, hcache⟩
        | ok target =>
          obtain ⟨name, stateText⟩ := target
          dsimp only
          obtain ⟨hresolve, hsound⟩ := hcache.resolveCached (isTarget_of_parseTarget htarget)
          cases hcached : resolveCached registry cache name stateText with
          | mk cache runtime =>
            rw [hcached] at hresolve hsound
            dsimp only at hresolve hsound
            rw [← hresolve]
            cases runtime with
            | none => exact ⟨rfl, hsound⟩
            | some runtime =>
              dsimp only
              rw [Option.map_some, addMeaning]
              by_cases hcount : batch.commands.length ≥ kMaxCommands
              · rw [if_pos hcount, if_pos hcount]
                exact ⟨rfl, hsound⟩
              · rw [if_neg hcount, if_neg hcount]
                exact ⟨rfl, hsound⟩

/-- One line more. -/
theorem addMeaning_bind (hcount : batch.commands.length ≤ kMaxCommands) (line : List Char)
    (rest : List (List Char)) :
    ((addMeaning batch (lineCommand registry lineLimit line)).bind fun batch =>
        (commandsOf registry lineLimit rest).bind (addAll batch)) =
      (commandsOf registry lineLimit (line :: rest)).bind (addAll batch) := by
  rw [commandsOf]
  cases lineCommand registry lineLimit line with
  | none => rfl
  | some meaning =>
    cases meaning with
    | none => rfl
    | some command =>
      dsimp only [addMeaning]
      cases commandsOf registry lineLimit rest with
      | none => split <;> rfl
      | some commands =>
        rw [Option.map_some, Option.bind_some, addAll, List.length_cons]
        by_cases hfull : batch.commands.length ≥ kMaxCommands
        · rw [if_pos hfull, if_neg (by omega), Option.bind_none]
        · rw [if_neg hfull, Option.bind_some, Option.bind_some, addAll, Batch.push,
            List.length_append, List.length_singleton]
          apply if_congr _ rfl rfl
          omega

theorem length_of_addMeaning {next : Batch} {meaning : Option (Option CuboidCommand)}
    (hcount : batch.commands.length ≤ kMaxCommands) (h : addMeaning batch meaning = some next) :
    next.commands.length ≤ kMaxCommands := by
  cases meaning with
  | none => cases h
  | some meaning =>
    cases meaning with
    | none =>
      cases h
      exact hcount
    | some command =>
      rw [addMeaning] at h
      obtain ⟨_, h⟩ := else_of_some h
      cases h
      rw [Batch.push, List.length_append, List.length_singleton]
      omega

/-- The sequential reader collects the commands of the lines. -/
theorem foldlM_readLine {registry : BlockRegistry} {lineLimit : ℕ} {state : ReadState}
    (hcache : CacheSound registry state.cache)
    (hcount : state.batch.commands.length ≤ kMaxCommands) (lines : List (List Char)) :
    (lines.foldlM (readLine registry lineLimit) state).toOption.map ReadState.batch =
      (commandsOf registry lineLimit lines).bind (addAll state.batch) := by
  induction lines generalizing state with
  | nil =>
    rw [List.foldlM_nil, commandsOf, Option.bind_some, addAll, List.length_nil, if_pos (by omega)]
    rfl
  | cons line rest ih =>
    obtain ⟨hline, hsound⟩ := @readLine_eq registry lineLimit state hcache line
    rw [← addMeaning_bind hcount, ← hline, List.foldlM_cons]
    cases hnext : readLine registry lineLimit state line with
    | error error => rfl
    | ok next =>
      rw [hnext] at hline
      exact ih (hsound next hnext) (length_of_addMeaning hcount hline.symm)

/-- So does a worker, and its cache stays sound. -/
theorem parseLines_eq {cache : RuntimeCache} (hcache : CacheSound registry cache)
    (hcount : batch.commands.length ≤ kMaxCommands) (lines : List (List Char)) (lineNumber : ℕ) :
    (parseLines registry lineLimit lines lineNumber cache batch).2.toOption =
        (commandsOf registry lineLimit lines).bind (addAll batch) ∧
      CacheSound registry (parseLines registry lineLimit lines lineNumber cache batch).1 := by
  induction lines generalizing cache batch lineNumber with
  | nil =>
    rw [parseLines, commandsOf, Option.bind_some, addAll, List.length_nil, if_pos (by omega)]
    exact ⟨rfl, hcache⟩
  | cons line rest ih =>
    obtain ⟨hline, hsound⟩ := parseLine_eq hcache line lineNumber batch
    rw [← addMeaning_bind hcount, ← hline, parseLines]
    cases hnext : parseLine registry lineLimit line lineNumber cache batch with
    | mk nextCache result =>
      rw [hnext] at hline hsound
      cases result with
      | error error => exact ⟨rfl, hsound⟩
      | ok next => exact ih hsound (length_of_addMeaning hcount hline.symm) (lineNumber + 1)

/-- The commands of lines in two parts. -/
theorem commandsOf_append (registry : BlockRegistry) (lineLimit : ℕ)
    (first second : List (List Char)) :
    commandsOf registry lineLimit (first ++ second) =
      (commandsOf registry lineLimit first).bind fun commands =>
        (commandsOf registry lineLimit second).map (commands ++ ·) := by
  induction first with
  | nil =>
    rw [List.nil_append, commandsOf, Option.bind_some]
    cases commandsOf registry lineLimit second <;> rfl
  | cons line rest ih =>
    rw [List.cons_append, commandsOf, commandsOf]
    cases lineCommand registry lineLimit line with
    | none => rfl
    | some meaning =>
      cases meaning with
      | none => exact ih
      | some command =>
        dsimp only
        rw [ih]
        cases commandsOf registry lineLimit rest with
        | none => rfl
        | some commands => cases commandsOf registry lineLimit second <;> rfl

/-- A line that is too long is an error of every text that has it. -/
theorem commandsOf_of_long {lines : List (List Char)} {line : List Char} (hline : line ∈ lines)
    (hlong : line.length > lineLimit) : commandsOf registry lineLimit lines = none := by
  induction lines with
  | nil => cases hline
  | cons first rest ih =>
    rw [commandsOf]
    rcases List.mem_cons.mp hline with rfl | hrest
    · rw [lineCommand, if_pos hlong]
    · rw [ih hrest]
      cases lineCommand registry lineLimit first with
      | none => rfl
      | some meaning => cases meaning <;> rfl

/-- The box around some commands. -/
def boundsOf (commands : List CuboidCommand) : Bounds := commands.foldl Bounds.include {}

theorem foldl_push (batch : Batch) (commands : List CuboidCommand) :
    commands.foldl Batch.push batch =
      ⟨batch.commands ++ commands, commands.foldl Bounds.include batch.bounds⟩ := by
  induction commands generalizing batch with
  | nil => rw [List.append_nil, List.foldl_nil, List.foldl_nil]
  | cons command rest ih =>
    rw [List.foldl_cons, ih, Batch.push, List.append_assoc, List.foldl_cons]
    rfl

/-- Every extent of the box is positive and an `int32`. -/
def Bounds.Fits (bounds : Bounds) : Prop :=
  (0 < bounds.maxX - bounds.minX + 1 ∧ bounds.maxX - bounds.minX + 1 ≤ int32Max) ∧
    (0 < bounds.maxY - bounds.minY + 1 ∧ bounds.maxY - bounds.minY + 1 ≤ int32Max) ∧
    (0 < bounds.maxZ - bounds.minZ + 1 ∧ bounds.maxZ - bounds.minZ + 1 ≤ int32Max)

instance (bounds : Bounds) : Decidable bounds.Fits :=
  inferInstanceAs (Decidable ((_ ∧ _) ∧ (_ ∧ _) ∧ (_ ∧ _)))

/-- What both readers make of commands and a box. -/
def finished (commands : List CuboidCommand) (bounds : Bounds) : Option McFunctionStructure :=
  if commands ≠ [] ∧ bounds.Fits then
    some (McFunctionStructure.ofRead (commands.map (normalize bounds))
      ⟨bounds.maxX - bounds.minX + 1, bounds.maxY - bounds.minY + 1, bounds.maxZ - bounds.minZ + 1⟩)
  else none

theorem toOption_dimension (axis : String) (minimum maximum : ℤ) :
    (dimension axis minimum maximum).toOption =
      if 0 < maximum - minimum + 1 ∧ maximum - minimum + 1 ≤ int32Max then
        some (maximum - minimum + 1)
      else none := by
  rw [dimension]
  split
  case isTrue h => rw [if_neg (by omega)]; rfl
  case isFalse h => rw [if_pos (by omega)]; rfl

theorem toOption_finishRead (batch : Batch) :
    (finishRead batch).toOption = finished batch.commands batch.bounds := by
  rw [finishRead, finished]
  by_cases hempty : batch.commands = []
  · rw [if_pos (List.isEmpty_iff.mpr hempty), if_neg fun h => h.1 hempty]
    rfl
  · rw [if_neg (by rwa [List.isEmpty_iff])]
    have hx := toOption_dimension "X" batch.bounds.minX batch.bounds.maxX
    have hy := toOption_dimension "Y" batch.bounds.minY batch.bounds.maxY
    have hz := toOption_dimension "Z" batch.bounds.minZ batch.bounds.maxZ
    by_cases hfits : batch.bounds.Fits
    · obtain ⟨hfitX, hfitY, hfitZ⟩ := hfits
      rw [if_pos hfitX] at hx
      rw [if_pos hfitY] at hy
      rw [if_pos hfitZ] at hz
      rw [if_pos ⟨hempty, hfitX, hfitY, hfitZ⟩]
      cases hwidth : dimension "X" batch.bounds.minX batch.bounds.maxX with
      | error error => rw [hwidth] at hx; cases hx
      | ok width =>
        cases hheight : dimension "Y" batch.bounds.minY batch.bounds.maxY with
        | error error => rw [hheight] at hy; cases hy
        | ok height =>
          cases hlength : dimension "Z" batch.bounds.minZ batch.bounds.maxZ with
          | error error => rw [hlength] at hz; cases hz
          | ok length =>
            rw [hwidth] at hx
            rw [hheight] at hy
            rw [hlength] at hz
            cases hx
            cases hy
            cases hz
            rfl
    · rw [if_neg fun h => hfits h.2]
      cases hwidth : dimension "X" batch.bounds.minX batch.bounds.maxX with
      | error error => rfl
      | ok width =>
        cases hheight : dimension "Y" batch.bounds.minY batch.bounds.maxY with
        | error error => rfl
        | ok height =>
          cases hlength : dimension "Z" batch.bounds.minZ batch.bounds.maxZ with
          | error error => rfl
          | ok length =>
            rw [hwidth] at hx
            rw [hheight] at hy
            rw [hlength] at hz
            refine absurd ⟨?_, ?_, ?_⟩ hfits
            · by_contra hnot
              rw [if_neg hnot] at hx
              cases hx
            · by_contra hnot
              rw [if_neg hnot] at hy
              cases hy
            · by_contra hnot
              rw [if_neg hnot] at hz
              cases hz

/-- The sequential reader. -/
theorem toOption_read (registry : BlockRegistry) (lineLimit : ℕ) (text : List Char) :
    (read registry lineLimit text).toOption =
      (commandsOf registry lineLimit (lines text)).bind fun commands =>
        if commands.length ≤ kMaxCommands then finished commands (boundsOf commands) else none := by
  have hrun := @foldlM_readLine registry lineLimit {} (Memo.sound_empty _) (Nat.zero_le _)
    (lines text)
  have hread : (read registry lineLimit text).toOption =
      (((lines text).foldlM (readLine registry lineLimit) {}).toOption.map ReadState.batch).bind
        fun batch => (finishRead batch).toOption := by
    rw [read]
    cases (lines text).foldlM (readLine registry lineLimit) {} <;> rfl
  rw [hread, hrun]
  cases commandsOf registry lineLimit (lines text) with
  | none => rfl
  | some commands =>
    rw [Option.bind_some, Option.bind_some, addAll, foldl_push]
    dsimp only
    rw [List.length_nil, Nat.zero_add, List.nil_append]
    split
    · exact toOption_finishRead _
    · rfl

/-- Bounds that are no emptier than those of no commands. -/
structure Bounds.Valid (bounds : Bounds) : Prop where
  minX : bounds.minX ≤ int32Max
  minY : bounds.minY ≤ int32Max
  minZ : bounds.minZ ≤ int32Max
  maxX : int32Min ≤ bounds.maxX
  maxY : int32Min ≤ bounds.maxY
  maxZ : int32Min ≤ bounds.maxZ

theorem Bounds.valid_empty : Bounds.Valid {} := ⟨le_rfl, le_rfl, le_rfl, le_rfl, le_rfl, le_rfl⟩

theorem Bounds.Valid.merge_empty (h : bounds.Valid) : bounds.merge {} = bounds := by
  rw [Bounds.merge, min_eq_left h.minX, min_eq_left h.minY, min_eq_left h.minZ,
    max_eq_left h.maxX, max_eq_left h.maxY, max_eq_left h.maxZ]

theorem Bounds.merge_include (bounds other : Bounds) (command : CuboidCommand) :
    bounds.merge (other.include command) = (bounds.merge other).include command := by
  simp only [Bounds.merge, Bounds.include, min_assoc, max_assoc]

theorem Bounds.Valid.include (h : bounds.Valid) (command : CuboidCommand) :
    (bounds.include command).Valid where
  minX := min_le_of_left_le h.minX
  minY := min_le_of_left_le h.minY
  minZ := min_le_of_left_le h.minZ
  maxX := le_max_of_le_left h.maxX
  maxY := le_max_of_le_left h.maxY
  maxZ := le_max_of_le_left h.maxZ

theorem Bounds.Valid.foldl_include (h : bounds.Valid) (commands : List CuboidCommand) :
    (commands.foldl Bounds.include bounds).Valid := by
  induction commands generalizing bounds with
  | nil => exact h
  | cons command rest ih => exact ih (h.include command)

/-- The box around more commands is the box around two boxes. -/
theorem Bounds.Valid.merge_boundsOf (h : bounds.Valid) (commands : List CuboidCommand) :
    bounds.merge (boundsOf commands) = commands.foldl Bounds.include bounds := by
  have hrun (other : Bounds) : bounds.merge (commands.foldl Bounds.include other) =
      commands.foldl Bounds.include (bounds.merge other) := by
    induction commands generalizing other with
    | nil => rfl
    | cons command rest ih =>
      rw [List.foldl_cons, List.foldl_cons, ih, Bounds.merge_include]
  rw [boundsOf, hrun, h.merge_empty]

theorem Bounds.merge_comm (bounds other : Bounds) : bounds.merge other = other.merge bounds := by
  simp only [Bounds.merge, min_comm, max_comm]

theorem valid_boundsOf (commands : List CuboidCommand) : (boundsOf commands).Valid :=
  Bounds.valid_empty.foldl_include commands

/-- The command lies inside the box. -/
structure Bounds.Covers (bounds : Bounds) (command : CuboidCommand) : Prop where
  minX : bounds.minX ≤ command.x1
  minY : bounds.minY ≤ command.y1
  minZ : bounds.minZ ≤ command.z1
  maxX : command.x2 ≤ bounds.maxX
  maxY : command.y2 ≤ bounds.maxY
  maxZ : command.z2 ≤ bounds.maxZ

/-- A command is inside the box exactly when it leaves the box as it is. -/
theorem Bounds.covers_iff (bounds : Bounds) (command : CuboidCommand) :
    bounds.Covers command ↔ bounds.include command = bounds := by
  rw [Bounds.include, Bounds.mk.injEq, min_eq_left_iff, min_eq_left_iff, min_eq_left_iff,
    max_eq_left_iff, max_eq_left_iff, max_eq_left_iff]
  constructor
  · intro h
    exact ⟨h.minX, h.minY, h.minZ, h.maxX, h.maxY, h.maxZ⟩
  · rintro ⟨hminX, hminY, hminZ, hmaxX, hmaxY, hmaxZ⟩
    exact ⟨hminX, hminY, hminZ, hmaxX, hmaxY, hmaxZ⟩

theorem Bounds.Covers.include {command : CuboidCommand} (h : bounds.Covers command)
    (other : CuboidCommand) : (bounds.include other).Covers command where
  minX := min_le_of_left_le h.minX
  minY := min_le_of_left_le h.minY
  minZ := min_le_of_left_le h.minZ
  maxX := le_max_of_le_left h.maxX
  maxY := le_max_of_le_left h.maxY
  maxZ := le_max_of_le_left h.maxZ

theorem Bounds.covers_include (bounds : Bounds) (command : CuboidCommand) :
    (bounds.include command).Covers command where
  minX := min_le_right _ _
  minY := min_le_right _ _
  minZ := min_le_right _ _
  maxX := le_max_right _ _
  maxY := le_max_right _ _
  maxZ := le_max_right _ _

/-- The box around some commands covers them. -/
theorem covers_foldl_include {commands : List CuboidCommand} (bounds : Bounds) :
    ∀ command ∈ commands, (commands.foldl Bounds.include bounds).Covers command := by
  have hkeep {bounds : Bounds} {command : CuboidCommand} (h : bounds.Covers command)
      (commands : List CuboidCommand) : (commands.foldl Bounds.include bounds).Covers command := by
    induction commands generalizing bounds with
    | nil => exact h
    | cons other rest ih => exact ih (h.include other)
  induction commands generalizing bounds with
  | nil =>
    intro command h
    cases h
  | cons first rest ih =>
    intro command hcommand
    rcases List.mem_cons.mp hcommand with rfl | hrest
    · exact hkeep (bounds.covers_include _) rest
    · exact ih _ command hrest

/-- Commands inside the box leave it as it is. -/
theorem foldl_include_of_covers {commands : List CuboidCommand}
    (h : ∀ command ∈ commands, bounds.Covers command) :
    commands.foldl Bounds.include bounds = bounds := by
  induction commands with
  | nil => rfl
  | cons first rest ih =>
    rw [List.foldl_cons, (bounds.covers_iff first).mp (h first List.mem_cons_self)]
    exact ih fun command hcommand => h command (List.mem_cons_of_mem _ hcommand)

end WaterStructure.McFunction
