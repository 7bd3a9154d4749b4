import WaterStructure.Core.NonAirCount
import WaterStructure.Formats.IbImportRead
import WaterStructure.Formats.McFunctionAgreement

/-!
# The two command readers as objects

An object can be read again at any time. `read` of an MCFunction object replaces the commands before
it checks the extents of their box, `read_parallel` clears the commands before it parses anything,
and `read` of an IBImport object replaces commands and block entities before it checks the extents.
The count of blocks is kept until the next successful read; moving the structure does not drop it.
-/

namespace WaterStructure

/-- How a file is read in parallel: which worker parses which batch, and how many batches have been
taken should the reading fail. -/
structure ParallelRun where
  schedule : List (ℕ × ℕ)
  taken : ℕ

/-- What a call of `read` meets: a file that may be missing, and whether it is read in parallel. -/
structure McFunctionFile where
  text : Option (List Char)
  parallel : Option ParallelRun

/-- A reader object: a structure and the count that it keeps. -/
structure McFunctionObject extends McFunctionStructure where
  nonAirBlocks : Option ℕ

namespace McFunctionObject

open McFunction

/-- An object that has not been read. -/
def fresh : McFunctionObject :=
  ⟨⟨[], ⟨0, 0, 0⟩, ⟨0, 0, 0⟩, ⟨0, 0, 0⟩, none⟩, none⟩

def setOffset (object : McFunctionObject) (offset : BlockPos) : McFunctionObject :=
  { object with toMcFunctionStructure := object.toMcFunctionStructure.setOffset offset }

def getChunks (object : McFunctionObject) (air : RuntimeId) (positions : List ChunkPos) :
    Except String (ChunkMap × McFunctionObject) :=
  (object.toMcFunctionStructure.getChunks air positions).map fun found =>
    (found.1, { object with toMcFunctionStructure := found.2 })

def countNonAirBlocks (object : McFunctionObject) (air : RuntimeId) :
    Except String (ℕ × McFunctionObject) :=
  match object.nonAirBlocks with
  | some count => .ok (count, object)
  | none =>
    (countGrid (fun object => object.getChunks air) air object.size object).map fun counted =>
      (counted.1, { counted.2 with nonAirBlocks := some counted.1 })

/-- The end of `read`: commands that are there replace the old ones before their box is checked. -/
def replaceCommands (object : McFunctionObject) (batch : Batch) :
    Except String Unit × McFunctionObject :=
  match finishRead batch with
  | .ok s => (.ok (), ⟨s, none⟩)
  | .error error =>
    (.error error,
      if batch.commands.isEmpty then object
      else { object with commands := batch.commands, index := none })

/-- `read`, below the size from which it reads in parallel. -/
def readLines (registry : BlockRegistry) (lineLimit : ℕ) (object : McFunctionObject)
    (text : List Char) : Except String Unit × McFunctionObject :=
  match (lines text).foldlM (readLine registry lineLimit) {} with
  | .error error => (.error error, object)
  | .ok state => object.replaceCommands state.batch

/-- The batches that the read loop submits, up to a line buffer that is too long. -/
def submittedBatches (lineLimit : ℕ) :
    List (List Char) → List Char → ℕ → List (List Char × ℕ)
  | [], carry, nextLine => if carry.isEmpty then [] else [(carry, nextLine)]
  | block :: rest, carry, nextLine =>
    if carry.length > lineLimit then []
    else
      let data := carry ++ block
      let complete := data.rdropWhile (· ≠ '\n')
      let tail := data.rtakeWhile (· ≠ '\n')
      if complete.isEmpty then
        if data.length > lineLimit then [] else submittedBatches lineLimit rest data nextLine
      else if tail.length > lineLimit then []
      else
        (complete, nextLine) ::
          submittedBatches lineLimit rest tail (nextLine + complete.count '\n')

/-- The commands of the batches that were taken. -/
def takenCommands (registry : BlockRegistry) (lineLimit blockSize : ℕ) (run : ParallelRun)
    (text : List Char) : List CuboidCommand :=
  let batches :=
    (submittedBatches lineLimit (readBlocks blockSize text.length text) [] 1).take run.taken
  let result := Workers.perform (parseBatch registry lineLimit) batches run.schedule (fun _ => ∅)
    fun _ => none
  (List.range batches.length).flatMap fun index =>
    match result index with
    | some (.ok batch) => batch.commands
    | _ => []

/-- `read_parallel`. -/
def readParallel (registry : BlockRegistry) (lineLimit blockSize : ℕ) (object : McFunctionObject)
    (run : ParallelRun) (text : List Char) : Except String Unit × McFunctionObject :=
  match McFunction.readParallel registry lineLimit blockSize run.schedule text with
  | .ok s => (.ok (), ⟨s, none⟩)
  | .error error =>
    (.error error,
      { object with commands := takenCommands registry lineLimit blockSize run text })

/-- `read`. -/
def read (registry : BlockRegistry) (lineLimit blockSize : ℕ) (object : McFunctionObject)
    (file : McFunctionFile) : Except String Unit × McFunctionObject :=
  match file.text, file.parallel with
  | none, _ => (.error "无法打开 MCFunction 文件", object)
  | some text, none => object.readLines registry lineLimit text
  | some text, some run => object.readParallel registry lineLimit blockSize run text

end McFunctionObject

/-- What a call of `read` of an IBImport object meets: a file that may be missing, and the registry
at that time. -/
structure IbImportFile where
  registry : StateRegistry
  bytes : Option (List UInt8)

/-- A reader object: a structure, its block entities, and the count that it keeps. -/
structure IbImportObject extends IbImportStructure where
  nbtBlocks : List IbImport.NbtBlock
  nonAirBlocks : Option ℕ

namespace IbImportObject

open IbImport

/-- An object that has not been read. -/
def fresh : IbImportObject :=
  ⟨⟨[], ⟨0, 0, 0⟩, ⟨0, 0, 0⟩, ⟨0, 0, 0⟩, none⟩, [], none⟩

def setOffset (object : IbImportObject) (offset : BlockPos) : IbImportObject :=
  { object with toIbImportStructure := object.toIbImportStructure.setOffset offset }

def getChunks (object : IbImportObject) (air : RuntimeId) (positions : List ChunkPos) :
    Except String (ChunkMap × IbImportObject) :=
  (object.toIbImportStructure.getChunks air positions).map fun found =>
    (found.1, { object with toIbImportStructure := found.2 })

def countNonAirBlocks (object : IbImportObject) (air : RuntimeId) :
    Except String (ℕ × IbImportObject) :=
  match object.nonAirBlocks with
  | some count => .ok (count, object)
  | none =>
    (countGrid (fun object => object.getChunks air) air object.size object).map fun counted =>
      (counted.1, { counted.2 with nonAirBlocks := some counted.1 })

/-- The end of `read`: what was read replaces the old before its box is checked. -/
def replaceCommands (object : IbImportObject) (file : FileState) :
    Except String Unit × IbImportObject :=
  let bounds := file.script.batch.bounds
  match file.script.batch.commands.mapM (shiftCommand bounds) with
  | .error error => (.error error, object)
  | .ok commands =>
    match file.nbtBlocks.mapM (shiftBlock bounds) with
    | .error error => (.error error, object)
    | .ok nbtBlocks =>
      match dimensions bounds with
      | .error error => (.error error, { object with commands, nbtBlocks })
      | .ok size => (.ok (), ⟨.ofRead commands size, nbtBlocks, none⟩)

/-- `read`. -/
def read (json : JsonLibrary) (object : IbImportObject) (file : IbImportFile) :
    Except String Unit × IbImportObject :=
  match file.bytes with
  | none => (.error "无法打开 IBImport 文件", object)
  | some bytes =>
    match readFile json file.registry bytes with
    | .error error => (.error error, object)
    | .ok state => object.replaceCommands state

end IbImportObject

end WaterStructure
