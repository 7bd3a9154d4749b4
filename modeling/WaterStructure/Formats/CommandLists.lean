import WaterStructure.Formats.CommandObjects
import WaterStructure.Formats.CommandPainting

/-!
# What the command readers leave is a valid list of commands

Commands that are read have their corners in order and lie in the box that is kept with them, so
that after the move to the origin they lie inside the size that is derived from the box.
-/

namespace WaterStructure

/-- The corners are in order. -/
def CuboidCommand.Ordered (command : CuboidCommand) : Prop :=
  command.x1 ≤ command.x2 ∧ command.y1 ≤ command.y2 ∧ command.z1 ≤ command.z2

theorem McFunction.ordered_cuboidOf (fill : Bool) (coordinates : List ℤ) (runtimeId : RuntimeId) :
    (cuboidOf fill coordinates runtimeId).Ordered := by
  have hcorner (x1 y1 z1 x2 y2 z2 : ℤ) : (cornerCuboid x1 y1 z1 x2 y2 z2 runtimeId).Ordered :=
    ⟨min_le_max, min_le_max, min_le_max⟩
  rw [cuboidOf]
  split
  · exact hcorner _ _ _ _ _ _
  · exact hcorner _ _ _ _ _ _

/-- No commands, as before any read. -/
def CommandList.empty : CommandList where
  size := ⟨0, 0, 0⟩
  commands := []
  width_le := by decide
  height_le := by decide
  length_le := by decide
  inside := fun _ hcommand => nomatch hcommand
  count_le := by decide

/-- The size of a box. -/
def McFunction.Bounds.size (bounds : McFunction.Bounds) : Size :=
  ⟨bounds.maxX - bounds.minX + 1, bounds.maxY - bounds.minY + 1, bounds.maxZ - bounds.minZ + 1⟩

theorem CuboidCommand.Ordered.inside_normalize {bounds : McFunction.Bounds} {command : CuboidCommand}
    (hordered : command.Ordered) (hcovers : bounds.Covers command) :
    (McFunction.normalize bounds command).Inside bounds.size := by
  obtain ⟨hx, hy, hz⟩ := hordered
  obtain ⟨hminX, hminY, hminZ, hmaxX, hmaxY, hmaxZ⟩ := hcovers
  simp only [CuboidCommand.Inside, McFunction.normalize, McFunction.Bounds.size]
  omega

/-- Few ordered commands in a box with extents that fit, moved to its corner. -/
def CommandList.ofBounds (commands : List CuboidCommand) (bounds : McFunction.Bounds)
    (hordered : ∀ command ∈ commands, command.Ordered)
    (hcovers : ∀ command ∈ commands, bounds.Covers command) (hfits : bounds.Fits)
    (hcount : commands.length ≤ McFunction.kMaxCommands) : CommandList where
  size := bounds.size
  commands := commands.map (McFunction.normalize bounds)
  width_le := hfits.1.2
  height_le := hfits.2.1.2
  length_le := hfits.2.2.2
  inside := by
    intro command hcommand
    obtain ⟨source, hsource, rfl⟩ := List.mem_map.mp hcommand
    exact (hordered source hsource).inside_normalize (hcovers source hsource)
  count_le := by
    rw [List.length_map]
    exact hcount.trans (by decide)

namespace McFunction

variable {registry : BlockRegistry} {lineLimit : ℕ}

theorem ordered_of_lineCommand {line : List Char} {command : CuboidCommand}
    (h : lineCommand registry lineLimit line = some (some command)) : command.Ordered := by
  rw [lineCommand] at h
  split at h
  · cases h
  · split at h
    case h_1 => cases h
    case h_2 =>
      split at h
      case h_1 => cases h
      case h_2 =>
        split at h
        case h_1 => cases h
        case h_2 =>
          obtain ⟨runtime, -, hcommand⟩ := Option.map_eq_some_iff.mp h
          cases hcommand
          exact ordered_cuboidOf _ _ _

variable {lines : List (List Char)} {commands : List CuboidCommand}

/-- All commands of a text have their corners in order. -/
theorem ordered_of_commandsOf (h : commandsOf registry lineLimit lines = some commands) :
    ∀ command ∈ commands, command.Ordered := by
  induction lines generalizing commands with
  | nil =>
    cases h
    intro command hcommand
    cases hcommand
  | cons line rest ih =>
    rw [commandsOf] at h
    split at h
    case h_1 => cases h
    case h_2 => exact ih h
    case h_3 first hfirst =>
      obtain ⟨others, hothers, rfl⟩ := Option.map_eq_some_iff.mp h
      intro command hcommand
      rcases List.mem_cons.mp hcommand with rfl | hrest
      · exact ordered_of_lineCommand hfirst
      · exact ih hothers command hrest

/-- The commands that the loop over the lines collects. -/
theorem commandsOf_of_readLines {state : ReadState}
    (h : lines.foldlM (readLine registry lineLimit) {} = .ok state) :
    ∃ commands, commandsOf registry lineLimit lines = some commands ∧
      commands.length ≤ kMaxCommands ∧ state.batch = ⟨commands, boundsOf commands⟩ := by
  have hrun := @foldlM_readLine registry lineLimit {} (Memo.sound_empty _) (Nat.zero_le _) lines
  rw [h] at hrun
  obtain ⟨commands, hcommands, hadd⟩ := Option.bind_eq_some_iff.mp hrun.symm
  rw [addAll, foldl_push] at hadd
  split at hadd
  case isTrue hcount =>
    exact ⟨commands, hcommands, by simpa using hcount, (Option.some.inj hadd).symm⟩
  case isFalse => cases hadd

/-- What a reader makes of few ordered commands in a box is a valid list. -/
theorem exists_list_of_finished {bounds : Bounds} {s : McFunctionStructure}
    (h : finished commands bounds = some s) (hordered : ∀ command ∈ commands, command.Ordered)
    (hcovers : ∀ command ∈ commands, bounds.Covers command) (hcount : commands.length ≤ kMaxCommands) :
    ∃ list : CommandList, s = .ofRead list.commands list.size := by
  rw [finished] at h
  split at h
  case isFalse => cases h
  case isTrue hfits =>
    cases h
    exact ⟨.ofBounds commands bounds hordered hcovers hfits.2 hcount, rfl⟩

/-- The parallel reader accepts the text, and no command lies outside the box that it keeps: each
batch with commands has one that starts below the largest x, or its commands lie in the box around
those of the other batches. -/
def ParallelFits (registry : BlockRegistry) (lineLimit blockSize : ℕ) (text : List Char) : Prop :=
  ∃ batches parts, textBatches lineLimit blockSize text = .ok batches ∧
    batchCommands registry lineLimit batches = some parts ∧ parts.flatten ≠ [] ∧
    parts.flatten.length ≤ kMaxCommands ∧ (boundsOf (keptCommands parts)).Fits ∧
    ∀ command ∈ parts.flatten, (boundsOf (keptCommands parts)).Covers command

/-- The parallel reader leaves a valid list of such a text. -/
theorem exists_list_of_readParallel {blockSize : ℕ} (hblock : 0 < blockSize)
    {schedule : List (ℕ × ℕ)} {text : List Char}
    (hschedule : Schedules schedule lineLimit blockSize text)
    (hfits : ParallelFits registry lineLimit blockSize text) :
    ∃ list : CommandList, readParallel registry lineLimit blockSize schedule text =
      .ok (.ofRead list.commands list.size) := by
  obtain ⟨batches, parts, hbatches, hparts, hne, hcount, hbox, hcovers⟩ := hfits
  have hread := toOption_readParallel registry hschedule
  have hcommands := @commandsOf_textBatches registry lineLimit blockSize hblock text
  rw [hbatches] at hread hcommands
  dsimp only [Except.toOption, Option.bind_some] at hread hcommands
  rw [hparts, Option.map_some] at hcommands
  rw [hparts, Option.bind_some, if_pos hcount] at hread
  have hfinished : finished parts.flatten (boundsOf (keptCommands parts)) =
      some (.ofRead (parts.flatten.map (normalize (boundsOf (keptCommands parts))))
        (boundsOf (keptCommands parts)).size) := if_pos ⟨hne, hbox⟩
  refine ⟨.ofBounds parts.flatten _ (ordered_of_commandsOf hcommands) hcovers hbox hcount, ?_⟩
  rw [hfinished] at hread
  cases hresult : readParallel registry lineLimit blockSize schedule text with
  | error error =>
    rw [hresult] at hread
    cases hread
  | ok s =>
    rw [hresult] at hread
    exact congrArg Except.ok (Option.some.inj hread)

end McFunction

namespace IbImport

open NestedLoop

/-- The commands of the script so far: in order, with `int32` coordinates, inside the box that is
kept with them, and not too many. -/
structure ScriptState.Inv (script : ScriptState) : Prop where
  bounds : script.batch.bounds = McFunction.boundsOf script.batch.commands
  ordered : ∀ command ∈ script.batch.commands, command.Ordered
  minimum : ∀ command ∈ script.batch.commands,
    int32Min ≤ command.x1 ∧ int32Min ≤ command.y1 ∧ int32Min ≤ command.z1
  count : script.batch.commands.length ≤ kMaxCommands

variable {value : ℤ} {coordinates : List ℤ} {text : List Char}
  {commands shifted : List CuboidCommand}

theorem isInt32_of_relative {token : List Char} (h : relative token = some value) :
    IsInt32 value := by
  have hvalue {number : List Char}
      (hnumber : (if number.isEmpty then some 0 else fromChars number) = some value) :
      IsInt32 value := by
    split at hnumber
    · cases hnumber
      decide
    · exact isInt32_of_fromChars hnumber
  unfold relative at h
  exact hvalue h

theorem isInt32_of_readCoordinates {lineNumber : ℕ} {tokens : List (List Char × String)}
    (h : readCoordinates lineNumber tokens = .ok coordinates) :
    ∀ value ∈ coordinates, IsInt32 value := by
  refine forall_of_mapM_ok (P := IsInt32) (fun token value hvalue => ?_) h
  split at hvalue
  case h_1 result hresult =>
    cases hvalue
    exact isInt32_of_relative hresult
  case h_2 => cases hvalue

/-- Two corners with `int32` coordinates. -/
theorem minimum_cuboidOf (h : ∀ value ∈ coordinates, IsInt32 value) (runtimeId : RuntimeId) :
    int32Min ≤ (McFunction.cuboidOf true coordinates runtimeId).x1 ∧
      int32Min ≤ (McFunction.cuboidOf true coordinates runtimeId).y1 ∧
      int32Min ≤ (McFunction.cuboidOf true coordinates runtimeId).z1 := by
  have hvalue (index : ℕ) : int32Min ≤ (coordinates[index]?).getD 0 := by
    cases hget : coordinates[index]? with
    | none => decide
    | some value => exact (h value (List.mem_of_getElem? hget)).1
  exact ⟨le_min (hvalue 0) (hvalue 3), le_min (hvalue 1) (hvalue 4), le_min (hvalue 2) (hvalue 5)⟩

variable {json : JsonLibrary} {script next : ScriptState} {file : FileState}
  {bounds : McFunction.Bounds}

/-- Resolving a state leaves the commands as they are. -/
theorem batch_of_resolveRuntime {name state : List Char} {runtime : RuntimeId}
    (h : resolveRuntime json script name state = .ok (runtime, next)) :
    next.batch = script.batch := by
  rw [resolveRuntime] at h
  split at h
  case h_1 => cases h; rfl
  case h_2 =>
    split at h
    case h_1 => cases h
    case h_2 => cases h; rfl

theorem ScriptState.Inv.readCommand {fill : Bool} {rest : List Char} (hinv : script.Inv)
    (h : readCommand json script fill rest = .ok next) : next.Inv := by
  rw [IbImport.readCommand] at h
  split at h
  case h_1 => cases h
  case h_2 =>
    split at h
    case h_1 => cases h
    case h_2 =>
      dsimp only at h
      split at h
      case h_1 => cases h
      case h_2 coordinates hcoordinates =>
        split at h
        case h_1 => cases h
        case h_2 runtime resolved hresolved =>
          have hbatch := batch_of_resolveRuntime hresolved
          obtain ⟨hcount, h⟩ := else_of_ok h
          cases h
          have hint := isInt32_of_readCoordinates hcoordinates
          rw [hbatch] at hcount ⊢
          refine ⟨?_, ?_, ?_, ?_⟩
          · dsimp only [McFunction.Batch.push]
            rw [hinv.bounds, McFunction.boundsOf, McFunction.boundsOf, List.foldl_append]
            rfl
          · intro command hcommand
            rcases List.mem_append.mp hcommand with hold | hnew
            · exact hinv.ordered command hold
            · exact List.mem_singleton.mp hnew ▸ McFunction.ordered_cuboidOf _ _ _
          · intro command hcommand
            rcases List.mem_append.mp hcommand with hold | hnew
            · exact hinv.minimum command hold
            · exact List.mem_singleton.mp hnew ▸ minimum_cuboidOf hint runtime
          · dsimp only [McFunction.Batch.push]
            rw [List.length_append, List.length_singleton]
            omega

theorem ScriptState.Inv.readLine {line : List Char} (hinv : script.Inv)
    (h : readLine json script line = .ok next) : next.Inv := by
  have hnumbered : ScriptState.Inv { script with lineNumber := script.lineNumber + 1 } :=
    ⟨hinv.bounds, hinv.ordered, hinv.minimum, hinv.count⟩
  rw [IbImport.readLine] at h
  obtain ⟨_, h⟩ := else_of_ok h
  split at h
  case h_1 => cases h; exact hnumbered
  case h_2 =>
    split_ifs at h
    · exact hnumbered.readCommand h
    · exact hnumbered.readCommand h
    · cases h; exact hnumbered

theorem ScriptState.Inv.readScript (hinv : script.Inv) (h : readScript json script text = .ok next) :
    next.Inv := by
  rw [IbImport.readScript] at h
  generalize McFunction.lines text = lines at h
  induction lines generalizing script with
  | nil => cases h; exact hinv
  | cons line rest ih =>
    rw [List.foldlM_cons] at h
    obtain ⟨middle, hmiddle, hrest⟩ := exists_of_bind_ok h
    exact ih (hinv.readLine hmiddle) hrest

theorem ScriptState.Inv.readSegment {next : FileState} (hinv : file.script.Inv)
    (h : readSegment json file text = .ok next) : next.script.Inv := by
  rw [IbImport.readSegment] at h
  split_ifs at h
  · obtain ⟨script, hscript, h⟩ := exists_of_bind_ok h
    cases h
    exact hinv.readScript hscript
  · obtain ⟨nbtBlocks, -, h⟩ := exists_of_bind_ok h
    cases h
    exact hinv
  · cases h; exact hinv

theorem ScriptState.Inv.readSegments {fuel : ℕ} {next : FileState} {input : List UInt8}
    (hinv : file.script.Inv) (h : readSegments json fuel file input = .ok next) :
    next.script.Inv := by
  induction fuel generalizing file input with
  | zero => cases h; exact hinv
  | succ fuel ih =>
    rw [IbImport.readSegments] at h
    obtain ⟨found, -, h⟩ := exists_of_bind_ok h
    split at h
    case h_1 => cases h; exact hinv
    case h_2 => cases h
    case h_3 =>
      obtain ⟨_, h⟩ := else_of_ok h
      obtain ⟨-, h⟩ := else_of_ok h
      obtain ⟨middle, hmiddle, hrest⟩ := exists_of_bind_ok h
      exact ih (hinv.readSegment hmiddle) hrest

/-- What is read of a file satisfies the invariant, and there are commands. -/
theorem inv_of_readFile {registry : StateRegistry} {bytes : List UInt8}
    (h : readFile json registry bytes = .ok file) :
    file.script.Inv ∧ file.script.batch.commands ≠ [] := by
  rw [readFile] at h
  obtain ⟨_, h⟩ := else_of_ok h
  obtain ⟨_, h⟩ := else_of_ok h
  split at h
  case h_1 => cases h
  case h_2 state hstate =>
    have hempty : ScriptState.Inv { registry } :=
      ⟨rfl, fun _ hmem => (nomatch hmem), fun _ hmem => (nomatch hmem), Nat.zero_le _⟩
    have hinv := ScriptState.Inv.readSegments hempty hstate
    obtain ⟨_, h⟩ := else_of_ok h
    obtain ⟨hsome, h⟩ := else_of_ok h
    cases h
    exact ⟨hinv, fun hnil => hsome (List.isEmpty_iff.mpr hnil)⟩

/-- Commands up to a corner leave the box up to that corner. -/
theorem maximum_foldl_include {x y z : ℤ}
    (hbounds : bounds.maxX ≤ x ∧ bounds.maxY ≤ y ∧ bounds.maxZ ≤ z)
    (hcommands : ∀ command ∈ commands, command.x2 ≤ x ∧ command.y2 ≤ y ∧ command.z2 ≤ z) :
    (commands.foldl McFunction.Bounds.include bounds).maxX ≤ x ∧
      (commands.foldl McFunction.Bounds.include bounds).maxY ≤ y ∧
      (commands.foldl McFunction.Bounds.include bounds).maxZ ≤ z := by
  induction commands generalizing bounds with
  | nil => exact hbounds
  | cons first rest ih =>
    obtain ⟨hx, hy, hz⟩ := hcommands first List.mem_cons_self
    exact ih ⟨max_le hbounds.1 hx, max_le hbounds.2.1 hy, max_le hbounds.2.2 hz⟩
      fun command hcommand => hcommands command (List.mem_cons_of_mem _ hcommand)

theorem shift_eq_ok {origin : ℤ} {axis : String} {shifted : ℤ}
    (h : shift origin axis value = .ok shifted) :
    shifted = value - origin ∧ value - origin ≤ int32Max := by
  rw [shift] at h
  obtain ⟨hrange, h⟩ := else_of_ok h
  cases h
  exact ⟨rfl, by omega⟩

/-- A shifted command is the one relative to the corner, and its far corner is within reach. -/
theorem shiftCommand_eq_ok {command shifted : CuboidCommand}
    (h : shiftCommand bounds command = .ok shifted) :
    shifted = McFunction.normalize bounds command ∧ command.x2 ≤ bounds.minX + int32Max ∧
      command.y2 ≤ bounds.minY + int32Max ∧ command.z2 ≤ bounds.minZ + int32Max := by
  rw [shiftCommand] at h
  obtain ⟨x1, hx1, h⟩ := exists_of_bind_ok h
  obtain ⟨x2, hx2, h⟩ := exists_of_bind_ok h
  obtain ⟨y1, hy1, h⟩ := exists_of_bind_ok h
  obtain ⟨y2, hy2, h⟩ := exists_of_bind_ok h
  obtain ⟨z1, hz1, h⟩ := exists_of_bind_ok h
  obtain ⟨z2, hz2, h⟩ := exists_of_bind_ok h
  cases h
  obtain ⟨rfl, -⟩ := shift_eq_ok hx1
  obtain ⟨rfl, hx⟩ := shift_eq_ok hx2
  obtain ⟨rfl, -⟩ := shift_eq_ok hy1
  obtain ⟨rfl, hy⟩ := shift_eq_ok hy2
  obtain ⟨rfl, -⟩ := shift_eq_ok hz1
  obtain ⟨rfl, hz⟩ := shift_eq_ok hz2
  exact ⟨rfl, by omega, by omega, by omega⟩

/-- Shifted commands are those relative to the corner, with their far corners within reach. -/
theorem mapM_shiftCommand_eq_ok (h : commands.mapM (shiftCommand bounds) = .ok shifted) :
    shifted = commands.map (McFunction.normalize bounds) ∧
      ∀ command ∈ commands, command.x2 ≤ bounds.minX + int32Max ∧
        command.y2 ≤ bounds.minY + int32Max ∧ command.z2 ≤ bounds.minZ + int32Max := by
  have hall := forall₂_of_mapM_ok h
  clear h
  induction hall with
  | nil => exact ⟨rfl, fun _ hmem => nomatch hmem⟩
  | cons hfirst _ ih =>
    obtain ⟨rfl, hreach⟩ := shiftCommand_eq_ok hfirst
    obtain ⟨rfl, hrest⟩ := ih
    refine ⟨rfl, fun command hcommand => ?_⟩
    rcases List.mem_cons.mp hcommand with rfl | hmem
    · exact hreach
    · exact hrest command hmem

/-- The shift accepts the far corner of the box: no extent is more than one above an `int32`. -/
def Extents (bounds : McFunction.Bounds) : Prop :=
  bounds.maxX - bounds.minX ≤ int32Max ∧ bounds.maxY - bounds.minY ≤ int32Max ∧
    bounds.maxZ - bounds.minZ ≤ int32Max

theorem extents_of_shift (hinv : script.Inv) (hne : script.batch.commands ≠ [])
    (h : script.batch.commands.mapM (shiftCommand script.batch.bounds) = .ok shifted) :
    Extents script.batch.bounds := by
  obtain ⟨-, hreach⟩ := mapM_shiftCommand_eq_ok h
  obtain ⟨first, hfirst⟩ := List.exists_mem_of_ne_nil _ hne
  obtain ⟨hx, hy, hz⟩ := hreach first hfirst
  obtain ⟨hminX, hminY, hminZ⟩ := hinv.minimum first hfirst
  obtain ⟨hox, hoy, hoz⟩ := hinv.ordered first hfirst
  have hstart : ({} : McFunction.Bounds).maxX ≤ script.batch.bounds.minX + int32Max ∧
      ({} : McFunction.Bounds).maxY ≤ script.batch.bounds.minY + int32Max ∧
      ({} : McFunction.Bounds).maxZ ≤ script.batch.bounds.minZ + int32Max := by
    dsimp only
    omega
  have hmax := maximum_foldl_include hstart hreach
  rw [← McFunction.boundsOf, ← hinv.bounds] at hmax
  rw [Extents]
  omega

/-- Extents that fit are accepted. -/
theorem dimensions_of_fits (h : bounds.Fits) : dimensions bounds = .ok bounds.size := by
  have hdimension {axis : String} {minimum maximum : ℤ}
      (hrange : 0 < maximum - minimum + 1 ∧ maximum - minimum + 1 ≤ int32Max) :
      dimension axis minimum maximum = .ok (maximum - minimum + 1) :=
    if_neg (by omega)
  rw [dimensions, hdimension h.1, hdimension h.2.1, hdimension h.2.2]
  rfl

end IbImport

namespace IbImportObject

open IbImport

/-- The end of `read` leaves a valid list, or fails without a change, provided that extents within
reach of the shift are accepted. -/
theorem replaceCommands_cases {object : IbImportObject} {file : FileState}
    (hinv : file.script.Inv) (hne : file.script.batch.commands ≠ [])
    (hfits : Extents file.script.batch.bounds → file.script.batch.bounds.Fits) :
    (∃ (list : CommandList) (nbtBlocks : List NbtBlock), object.replaceCommands file =
        (.ok (), ⟨.ofRead list.commands list.size, nbtBlocks, none⟩)) ∨
      ∃ error, object.replaceCommands file = (.error error, object) := by
  rw [replaceCommands]
  split
  case h_1 error _ => exact .inr ⟨error, rfl⟩
  case h_2 commands hcommands =>
    split
    case h_1 error _ => exact .inr ⟨error, rfl⟩
    case h_2 nbtBlocks _ =>
      have hbox := hfits (extents_of_shift hinv hne hcommands)
      obtain ⟨rfl, -⟩ := mapM_shiftCommand_eq_ok hcommands
      rw [dimensions_of_fits hbox]
      have hcovers : ∀ command ∈ file.script.batch.commands,
          file.script.batch.bounds.Covers command := by
        rw [hinv.bounds]
        exact McFunction.covers_foldl_include {}
      exact .inl ⟨.ofBounds file.script.batch.commands file.script.batch.bounds hinv.ordered
        hcovers hbox hinv.count, nbtBlocks, rfl⟩

end IbImportObject

end WaterStructure
