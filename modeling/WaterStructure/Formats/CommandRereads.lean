import WaterStructure.Formats.CommandLists
import WaterStructure.Library.TransitionSystem

/-!
# Failing to read a command reader object again

An object is read, moved, asked for chunks and counted in any order. A read that fails leaves the
object as it was, unless it fails after it has replaced the commands: in the extents of the box, or
anywhere in a parallel read. Every object that was reached without such a read holds a valid list
of commands, so that its index stays inside the offset table.
-/

namespace WaterStructure

namespace McFunctionObject

open McFunction

/-- What can be called on an object; the blocks may change from one read to the next. -/
inductive Call where
  | read (registry : BlockRegistry) (file : McFunctionFile)
  | setOffset (offset : BlockPos)
  | getChunks (positions : List ChunkPos)
  | countNonAirBlocks

/-- The object after a call; offsets are `std::int32_t`. -/
def step (air : RuntimeId) (lineLimit blockSize : ℕ) (object : McFunctionObject) :
    Call → Option McFunctionObject
  | .read registry file => some (object.read registry lineLimit blockSize file).2
  | .setOffset offset => if offset.FitsInt32 then some (object.setOffset offset) else none
  | .getChunks positions =>
    match object.getChunks air positions with
    | .error _ => some object
    | .ok (_, object) => some object
  | .countNonAirBlocks =>
    match object.countNonAirBlocks air with
    | .error _ => some object
    | .ok (_, object) => some object

/-- Two objects answer alike. -/
def SameResults (air : RuntimeId) (object other : McFunctionObject) : Prop :=
  object.size = other.size ∧
    (∀ positions, (object.getChunks air positions).map Prod.fst =
      (other.getChunks air positions).map Prod.fst) ∧
    (object.countNonAirBlocks air).map Prod.fst = (other.countNonAirBlocks air).map Prod.fst

/-- A missing file, a text that is parsed sequentially and has a box with `int32` extents if it has
commands, or a text that the parallel reader accepts with a box that holds all commands. -/
def SafeFile (registry : BlockRegistry) (lineLimit blockSize : ℕ) (file : McFunctionFile) : Prop :=
  match file.text, file.parallel with
  | none, _ => True
  | some text, none => ∀ commands, commandsOf registry lineLimit (lines text) = some commands →
      commands.length ≤ kMaxCommands → commands ≠ [] → (boundsOf commands).Fits
  | some text, some run => Schedules run.schedule lineLimit blockSize text ∧
      ParallelFits registry lineLimit blockSize text

/-- Only reads can go wrong. -/
def Call.Safe (lineLimit blockSize : ℕ) : Call → Prop
  | .read registry file => SafeFile registry lineLimit blockSize file
  | _ => True

variable {lineLimit : ℕ} {object t : McFunctionObject} {air : RuntimeId}

/-- The sequential reader leaves a valid list, or fails without a change. -/
theorem readLines_cases {registry : BlockRegistry} {text : List Char}
    (hsafe : ∀ commands, commandsOf registry lineLimit (lines text) = some commands →
      commands.length ≤ kMaxCommands → commands ≠ [] → (boundsOf commands).Fits) :
    (∃ list : CommandList, object.readLines registry lineLimit text =
        (.ok (), ⟨.ofRead list.commands list.size, none⟩)) ∨
      ∃ error, object.readLines registry lineLimit text = (.error error, object) := by
  rw [readLines]
  split
  case h_1 error _ => exact .inr ⟨error, rfl⟩
  case h_2 state hstate =>
    obtain ⟨commands, hcommands, hcount, hbatch⟩ := commandsOf_of_readLines hstate
    rw [hbatch, replaceCommands]
    split
    case h_1 s hs =>
      have hfinished := toOption_finishRead ⟨commands, boundsOf commands⟩
      rw [hs] at hfinished
      obtain ⟨list, rfl⟩ := exists_list_of_finished hfinished.symm
        (ordered_of_commandsOf hcommands) (covers_foldl_include {}) hcount
      exact .inl ⟨list, rfl⟩
    case h_2 error herror =>
      right
      refine ⟨error, ?_⟩
      split_ifs with hne
      · rfl
      · have hnil : commands ≠ [] := fun hnil => hne (List.isEmpty_iff.mpr hnil)
        have hfinished := toOption_finishRead ⟨commands, boundsOf commands⟩
        rw [herror, finished, if_pos ⟨hnil, hsafe commands hcommands hcount hnil⟩] at hfinished
        cases hfinished

/-- A safe read leaves a valid list, or fails without a change. -/
theorem read_cases {registry : BlockRegistry} {lineLimit blockSize : ℕ} (hblock : 0 < blockSize)
    {object : McFunctionObject} {file : McFunctionFile}
    (hsafe : SafeFile registry lineLimit blockSize file) :
    (∃ list : CommandList, object.read registry lineLimit blockSize file =
        (.ok (), ⟨.ofRead list.commands list.size, none⟩)) ∨
      ∃ error, object.read registry lineLimit blockSize file = (.error error, object) := by
  obtain ⟨text, parallel⟩ := file
  cases text with
  | none => exact .inr ⟨_, rfl⟩
  | some text =>
    cases parallel with
    | none => exact readLines_cases hsafe
    | some run =>
      obtain ⟨list, hlist⟩ := exists_list_of_readParallel hblock hsafe.1 hsafe.2
      left
      refine ⟨list, ?_⟩
      simp only [McFunctionObject.read, McFunctionObject.readParallel, hlist]

/-- The object holds a valid list of commands. -/
def Inv (object : McFunctionObject) : Prop :=
  ∃ list : CommandList, object.toMcFunctionStructure.Valid list

theorem inv_ofRead (list : CommandList) (nonAirBlocks : Option ℕ) :
    Inv ⟨.ofRead list.commands list.size, nonAirBlocks⟩ :=
  ⟨list, rfl, rfl, zero_fitsInt32, fun _ hindex => nomatch hindex⟩

theorem inv_fresh : fresh.Inv :=
  inv_ofRead .empty none

theorem Inv.getChunks {object t : McFunctionObject} {air : RuntimeId} {positions : List ChunkPos}
    {chunks : ChunkMap} (hinv : object.Inv) (h : object.getChunks air positions = .ok (chunks, t)) :
    t.Inv := by
  obtain ⟨list, hvalid⟩ := hinv
  obtain ⟨found, index, hfound, -, hfor⟩ := hvalid.getChunks air positions
  rw [McFunctionObject.getChunks, hfound] at h
  cases h
  exact ⟨list, hvalid.commands, hvalid.originalSize, hvalid.offset, fun _ h => by
    cases h
    exact hfor⟩

theorem Inv.countNonAirBlocks {count : ℕ} (hinv : object.Inv)
    (h : object.countNonAirBlocks air = .ok (count, t)) : t.Inv := by
  rw [McFunctionObject.countNonAirBlocks] at h
  split at h
  case h_1 =>
    cases h
    exact hinv
  case h_2 =>
    cases hcount : countGrid (fun object => object.getChunks air) air object.size object with
    | error error =>
      rw [hcount] at h
      cases h
    | ok counted =>
      rw [hcount] at h
      cases h
      have hkept : counted.2.Inv :=
        countGrid_invariant (fun _ _ _ _ hs hchunks => Inv.getChunks hs hchunks) hinv hcount
      exact hkept

/-- Safe calls keep the invariant. -/
theorem Inv.step {blockSize : ℕ} (hblock : 0 < blockSize) {call : Call} (hinv : object.Inv)
    (hsafe : call.Safe lineLimit blockSize) (h : object.step air lineLimit blockSize call = some t) :
    t.Inv := by
  cases call with
  | read registry file =>
    rw [McFunctionObject.step] at h
    cases h
    rcases @read_cases registry lineLimit blockSize hblock object file hsafe with ⟨list, hread⟩ | ⟨error, hread⟩
    · rw [hread]
      exact inv_ofRead list none
    · rw [hread]
      exact hinv
  | setOffset offset =>
    rw [McFunctionObject.step] at h
    obtain ⟨hoffset, h⟩ := NestedLoop.then_of_some h
    cases h
    obtain ⟨list, hvalid⟩ := hinv
    exact ⟨list, hvalid.setOffset hoffset⟩
  | getChunks positions =>
    rw [McFunctionObject.step] at h
    split at h
    case h_1 => cases h; exact hinv
    case h_2 hchunks => cases h; exact hinv.getChunks hchunks
  | countNonAirBlocks =>
    rw [McFunctionObject.step] at h
    split at h
    case h_1 => cases h; exact hinv
    case h_2 hcount => cases h; exact hinv.countNonAirBlocks hcount

/-- An index that was built or is built has all its cells inside the offset table. -/
theorem Inv.ensureIndex (hinv : object.Inv) :
    ∃ index, object.ensureIndex = .ok index ∧ (∀ pos, index.slice pos ≠ none) ∧
      ∀ entry ∈ cellEntries index.range object.offset object.commands,
        entry.1 < index.range.cellCount := by
  obtain ⟨list, hvalid⟩ := hinv
  obtain ⟨index, hindex, hfor⟩ := hvalid.ensureIndex
  refine ⟨index, hindex, fun pos hnone => ?_, ?_⟩
  · rw [hfor.slice pos] at hnone
    cases hnone
  · rw [hvalid.commands]
    exact hfor.cells

end McFunctionObject

namespace IbImportObject

open IbImport

/-- What can be called on an object; every read brings the registry of its time. -/
inductive Call where
  | read (file : IbImportFile)
  | setOffset (offset : BlockPos)
  | getChunks (positions : List ChunkPos)
  | countNonAirBlocks

/-- The object after a call; offsets are `std::int32_t`. -/
def step (json : JsonLibrary) (air : RuntimeId) (object : IbImportObject) :
    Call → Option IbImportObject
  | .read file => some (object.read json file).2
  | .setOffset offset => if offset.FitsInt32 then some (object.setOffset offset) else none
  | .getChunks positions =>
    match object.getChunks air positions with
    | .error _ => some object
    | .ok (_, object) => some object
  | .countNonAirBlocks =>
    match object.countNonAirBlocks air with
    | .error _ => some object
    | .ok (_, object) => some object

/-- Two objects answer alike. -/
def SameResults (air : RuntimeId) (object other : IbImportObject) : Prop :=
  object.size = other.size ∧
    (∀ positions, (object.getChunks air positions).map Prod.fst =
      (other.getChunks air positions).map Prod.fst) ∧
    (object.countNonAirBlocks air).map Prod.fst = (other.countNonAirBlocks air).map Prod.fst

/-- If the file can be read and no extent of the box is above 2^31, then none is 2^31. -/
def SafeFile (json : JsonLibrary) (file : IbImportFile) : Prop :=
  ∀ bytes state, file.bytes = some bytes → readFile json file.registry bytes = .ok state →
    Extents state.script.batch.bounds → state.script.batch.bounds.Fits

/-- Only reads can go wrong. -/
def Call.Safe (json : JsonLibrary) : Call → Prop
  | .read file => SafeFile json file
  | _ => True

/-- A safe read leaves a valid list, or fails without a change. -/
theorem read_cases {json : JsonLibrary} {object : IbImportObject} {file : IbImportFile}
    (hsafe : SafeFile json file) :
    (∃ (list : CommandList) (nbtBlocks : List NbtBlock), object.read json file =
        (.ok (), ⟨.ofRead list.commands list.size, nbtBlocks, none⟩)) ∨
      ∃ error, object.read json file = (.error error, object) := by
  rw [read]
  split
  case h_1 => exact .inr ⟨_, rfl⟩
  case h_2 bytes hbytes =>
    split
    case h_1 error _ => exact .inr ⟨error, rfl⟩
    case h_2 state hstate =>
      obtain ⟨hinv, hne⟩ := inv_of_readFile hstate
      exact replaceCommands_cases hinv hne (hsafe bytes state hbytes hstate)

end IbImportObject

/-- In every object that safe calls lead to, a safe read that fails changes no result, and all cells
of the index of an MCFunction object are inside its offset table. -/
theorem failing_reread_harmless (json : IbImport.JsonLibrary) (air : RuntimeId)
    {lineLimit blockSize : ℕ} (hblock : 0 < blockSize) :
    (∀ calls object, (∀ call ∈ calls, McFunctionObject.Call.Safe lineLimit blockSize call) →
      TransitionSystem.run (McFunctionObject.step air lineLimit blockSize) .fresh calls =
        some object →
      (∀ registry file error, McFunctionObject.SafeFile registry lineLimit blockSize file →
        (object.read registry lineLimit blockSize file).1 = .error error →
          (object.read registry lineLimit blockSize file).2.SameResults air object) ∧
      ∃ index, object.ensureIndex = .ok index ∧ (∀ pos, index.slice pos ≠ none) ∧
        ∀ entry ∈ McFunction.cellEntries index.range object.offset object.commands,
          entry.1 < index.range.cellCount) ∧
    ∀ calls object, (∀ call ∈ calls, IbImportObject.Call.Safe json call) →
      TransitionSystem.run (IbImportObject.step json air) .fresh calls = some object →
      ∀ file error, IbImportObject.SafeFile json file → (object.read json file).1 = .error error →
        (object.read json file).2.SameResults air object := by
  constructor
  · intro calls object hcalls hrun
    have hinv : object.Inv := TransitionSystem.run_invariant
      (fun _ _ _ hinv hsafe hstep => McFunctionObject.Inv.step hblock hinv hsafe hstep)
      McFunctionObject.inv_fresh hcalls hrun
    refine ⟨fun registry file error hsafe hfails => ?_, hinv.ensureIndex⟩
    rcases @McFunctionObject.read_cases registry lineLimit blockSize hblock object file hsafe with
      ⟨list, hread⟩ | ⟨_, hread⟩
    · rw [hread] at hfails
      cases hfails
    · rw [hread]
      exact ⟨rfl, fun _ => rfl, rfl⟩
  · intro calls object hcalls hrun file error hsafe hfails
    rcases @IbImportObject.read_cases json object file hsafe with ⟨list, nbtBlocks, hread⟩ | ⟨_, hread⟩
    · rw [hread] at hfails
      cases hfails
    · rw [hread]
      exact ⟨rfl, fun _ => rfl, rfl⟩

/-- One block at the origin. -/
def stoneFile : McFunctionFile :=
  ⟨some "setblock 0 0 0 minecraft:stone".toList, none⟩

/-- A block at each end of the column. -/
def tallFile : McFunctionFile :=
  ⟨some "setblock 0 -2147483648 0 minecraft:stone\nsetblock 0 2147483647 0 minecraft:stone".toList,
    none⟩

/-- A stone that was read and moved, and then read again from a text with a broken line; and a fresh
IBImport object that is read from a file without its header. -/
theorem failing_reread_harmless_stone :
    (∃ object error,
      TransitionSystem.run (McFunctionObject.step 0 McFunction.kMaxLineBytes
          McFunction.kReadBlockSize) .fresh
        [.read McFunction.stoneRegistry stoneFile, .setOffset ⟨-1, 0, 0⟩] = some object ∧
      (object.read McFunction.stoneRegistry McFunction.kMaxLineBytes McFunction.kReadBlockSize
        ⟨some "fill 0 0 0".toList, none⟩).1 = .error error ∧
      (object.read McFunction.stoneRegistry McFunction.kMaxLineBytes McFunction.kReadBlockSize
        ⟨some "fill 0 0 0".toList, none⟩).2.SameResults 0 object) ∧
    (IbImportObject.fresh.read ⟨fun _ => none, fun _ => [.parseError ""]⟩
      ⟨.initial, some (List.replicate 9 0)⟩).2.SameResults 0 .fresh := by
  have hharmless := @failing_reread_harmless ⟨fun _ => none, fun _ => [.parseError ""]⟩ 0
    McFunction.kMaxLineBytes McFunction.kReadBlockSize (by decide)
  constructor
  · have hstone : McFunctionObject.SafeFile McFunction.stoneRegistry McFunction.kMaxLineBytes
        McFunction.kReadBlockSize stoneFile := by
      intro commands hcommands _ _
      have hparsed : McFunction.commandsOf McFunction.stoneRegistry McFunction.kMaxLineBytes
          (McFunction.lines "setblock 0 0 0 minecraft:stone".toList) =
            some [⟨0, 0, 0, 0, 0, 0, 1⟩] := rfl
      cases hparsed.symm.trans hcommands
      decide
    have hbroken : McFunctionObject.SafeFile McFunction.stoneRegistry McFunction.kMaxLineBytes
        McFunction.kReadBlockSize ⟨some "fill 0 0 0".toList, none⟩ := by
      intro commands hcommands
      have hparsed : McFunction.commandsOf McFunction.stoneRegistry McFunction.kMaxLineBytes
          (McFunction.lines "fill 0 0 0".toList) = none := by decide +kernel
      cases hparsed.symm.trans hcommands
    refine ⟨_, _, rfl, rfl, ?_⟩
    refine (hharmless.1 [.read McFunction.stoneRegistry stoneFile, .setOffset ⟨-1, 0, 0⟩] _ ?_
      rfl).1 _ _ _ hbroken rfl
    intro call hcall
    simp only [List.mem_cons, List.not_mem_nil, or_false] at hcall
    rcases hcall with rfl | rfl
    · exact hstone
    · trivial
  · refine hharmless.2 [] _ (fun _ hcall => nomatch hcall) rfl _ "IBImport 文件头无效" ?_ rfl
    intro bytes state hbytes hstate
    cases hbytes
    cases hstate

/-- After a read that fails in the extents of the column, the block at the origin is gone. -/
theorem failing_reread_loses_stone :
    ¬ ∀ calls object registry file error,
      TransitionSystem.run (McFunctionObject.step 0 McFunction.kMaxLineBytes
        McFunction.kReadBlockSize) .fresh calls = some object →
      (object.read registry McFunction.kMaxLineBytes McFunction.kReadBlockSize file).1 =
        .error error →
      (object.read registry McFunction.kMaxLineBytes McFunction.kReadBlockSize file).2.SameResults 0
        object := by
  intro h
  have hsame := h [.read McFunction.stoneRegistry stoneFile] _ McFunction.stoneRegistry tallFile
    "MCFunction Y 尺寸超出 int32 范围" rfl rfl
  have hchunks := congrArg (fun result => result.toOption.map fun chunks =>
    ChunkMap.blockAt chunks 0 ⟨0, 0, 0⟩) (hsame.2.1 [⟨0, 0⟩])
  revert hchunks
  decide +kernel

end WaterStructure
