import WaterStructure.Formats.CommandReaders
import WaterStructure.Formats.McFunctionText
import WaterStructure.Library.Lines
import WaterStructure.Library.Workers

/-!
# The two MCFunction readers

`read` parses a file line by line. `read_parallel` reads blocks of bytes, cuts them behind their
last newline, and has workers parse the batches of lines, each worker with its own cache; the
results are taken in the order of the batches. Which of several errors is reported first depends
on how far reading has got before a result is taken; here a line buffer that is too long comes
first.
-/

namespace WaterStructure.McFunction

def kMaxCommands : ℕ := 8000000

def kMaxLineBytes : ℕ := 16 * 1024 * 1024

def kReadBlockSize : ℕ := 16 * 1024 * 1024

/-- The box around the commands so far; empty at first. -/
structure Bounds where
  minX : ℤ := int32Max
  minY : ℤ := int32Max
  minZ : ℤ := int32Max
  maxX : ℤ := int32Min
  maxY : ℤ := int32Min
  maxZ : ℤ := int32Min
  deriving DecidableEq

def Bounds.include (bounds : Bounds) (command : CuboidCommand) : Bounds where
  minX := min bounds.minX command.x1
  minY := min bounds.minY command.y1
  minZ := min bounds.minZ command.z1
  maxX := max bounds.maxX command.x2
  maxY := max bounds.maxY command.y2
  maxZ := max bounds.maxZ command.z2

/-- The box around two boxes. -/
def Bounds.merge (bounds other : Bounds) : Bounds where
  minX := min bounds.minX other.minX
  minY := min bounds.minY other.minY
  minZ := min bounds.minZ other.minZ
  maxX := max bounds.maxX other.maxX
  maxY := max bounds.maxY other.maxY
  maxZ := max bounds.maxZ other.maxZ

/-- `include` of the bounds of a batch, with its test for a batch without commands. -/
def Bounds.includeBounds (bounds other : Bounds) : Bounds :=
  if other.minX = int32Max then bounds else bounds.merge other

/-- An error of a line. -/
def lineError (lineNumber : ℕ) (text : String) : String :=
  "第 " ++ toString lineNumber ++ " 行: " ++ text

def lineTooLong (lineLimit lineNumber : ℕ) : String :=
  "第 " ++ toString lineNumber ++ " 行超过 " ++ toString lineLimit ++ " bytes 限制"

def tooManyCommands : String := "MCFunction 命令数量超过限制 " ++ toString kMaxCommands

/-- The lines of a text, as `std::getline` gives them. -/
def lines (text : List Char) : List (List Char) := Lines.split '\n' text

/-- `count` fields, each read as a coordinate; `none` when there are too few. -/
def coordinateFields : ℕ → List Char → Option (List (Option ℤ) × List Char)
  | 0, rest => some ([], rest)
  | count + 1, line =>
    match nextField line with
    | none => none
    | some (token, rest) =>
      (coordinateFields count rest).map fun (values, rest) => (coordinate token :: values, rest)

/-- The coordinates of a line in `read`: all fields first, then their values. -/
def readCoordinates (lineNumber count : ℕ) (rest : List Char) :
    Except String (List ℤ × List Char) :=
  match coordinateFields count rest with
  | none => .error (lineError lineNumber "命令参数不完整")
  | some (values, rest) =>
    match values.mapM id with
    | none => .error (lineError lineNumber "坐标无效")
    | some values => .ok (values, rest)

/-- The coordinates of a line in `parse_line`: field by field. -/
def parseCoordinates (lineNumber : ℕ) : ℕ → List Char → Except String (List ℤ × List Char)
  | 0, rest => .ok ([], rest)
  | count + 1, line =>
    match nextField line with
    | none => .error (lineError lineNumber "命令参数不完整")
    | some (token, rest) =>
      match coordinate token with
      | none => .error (lineError lineNumber "坐标无效")
      | some value =>
        (parseCoordinates lineNumber count rest).map fun (values, rest) => (value :: values, rest)

/-- The cuboid of two corners, in order. -/
def cornerCuboid (x1 y1 z1 x2 y2 z2 : ℤ) (runtimeId : RuntimeId) : CuboidCommand :=
  ⟨min x1 x2, max x1 x2, min y1 y2, max y1 y2, min z1 z2, max z1 z2, runtimeId⟩

/-- The cuboid of a line: two corners of a `fill`, one of a `setblock`. -/
def cuboidOf (fill : Bool) (coordinates : List ℤ) (runtimeId : RuntimeId) : CuboidCommand :=
  let value (index : ℕ) : ℤ := (coordinates[index]?).getD 0
  if fill then
    cornerCuboid (value 0) (value 1) (value 2) (value 3) (value 4) (value 5) runtimeId
  else cornerCuboid (value 0) (value 1) (value 2) (value 0) (value 1) (value 2) runtimeId

/-- The commands so far and the box around them. -/
structure Batch where
  commands : List CuboidCommand := []
  bounds : Bounds := {}

def Batch.push (batch : Batch) (command : CuboidCommand) : Batch where
  commands := batch.commands ++ [command]
  bounds := batch.bounds.include command

/-- The variables of `read`. -/
structure ReadState where
  batch : Batch := {}
  lineNumber : ℕ := 0
  cache : RuntimeCache := ∅

/-- `add` of `read`. -/
def addCommand (registry : BlockRegistry) (state : ReadState) (fill : Bool)
    (coordinates : List ℤ) (name stateText : List Char) : Except String ReadState :=
  if state.batch.commands.length ≥ kMaxCommands then .error tooManyCommands
  else
    match resolveCached registry state.cache name stateText with
    | (_, none) => .error (lineError state.lineNumber "状态格式无效")
    | (cache, some runtime) =>
      .ok { state with cache, batch := state.batch.push (cuboidOf fill coordinates runtime) }

/-- One turn of the loop of `read`. -/
def readLine (registry : BlockRegistry) (lineLimit : ℕ) (state : ReadState) (line : List Char) :
    Except String ReadState :=
  let state := { state with lineNumber := state.lineNumber + 1 }
  if line.length > lineLimit then .error (lineTooLong lineLimit state.lineNumber)
  else
    match commandFields line with
    | none => .ok state
    | some (fill, rest) =>
      match readCoordinates state.lineNumber (if fill then 6 else 3) rest with
      | .error error => .error error
      | .ok (coordinates, rest) =>
        match parseTarget rest with
        | .error error => .error (lineError state.lineNumber error)
        | .ok (name, stateText) => addCommand registry state fill coordinates name stateText

/-- The extent of an axis. -/
def dimension (axis : String) (minimum maximum : ℤ) : Except String ℤ :=
  let span := maximum - minimum + 1
  if span ≤ 0 ∨ span > int32Max then .error ("MCFunction " ++ axis ++ " 尺寸超出 int32 范围")
  else .ok span

/-- The command moved to the local origin. -/
def normalize (bounds : Bounds) (command : CuboidCommand) : CuboidCommand :=
  { command with
    x1 := command.x1 - bounds.minX
    x2 := command.x2 - bounds.minX
    y1 := command.y1 - bounds.minY
    y2 := command.y2 - bounds.minY
    z1 := command.z1 - bounds.minZ
    z2 := command.z2 - bounds.minZ }

/-- The end of both readers. -/
def finishRead (batch : Batch) : Except String McFunctionStructure :=
  if batch.commands.isEmpty then .error "MCFunction 不包含 setblock 或 fill 命令"
  else do
    let width ← dimension "X" batch.bounds.minX batch.bounds.maxX
    let height ← dimension "Y" batch.bounds.minY batch.bounds.maxY
    let length ← dimension "Z" batch.bounds.minZ batch.bounds.maxZ
    return McFunctionStructure.ofRead (batch.commands.map (normalize batch.bounds))
      ⟨width, height, length⟩

/-- `read`, below the size from which it reads in parallel. -/
def read (registry : BlockRegistry) (lineLimit : ℕ) (text : List Char) :
    Except String McFunctionStructure := do
  let state ← (lines text).foldlM (readLine registry lineLimit) {}
  finishRead state.batch

/-- `parse_line`, with the cache that it leaves. -/
def parseLine (registry : BlockRegistry) (lineLimit : ℕ) (line : List Char) (lineNumber : ℕ)
    (cache : RuntimeCache) (batch : Batch) : RuntimeCache × Except String Batch :=
  if line.length > lineLimit then (cache, .error (lineTooLong lineLimit lineNumber))
  else
    match commandFields line with
    | none => (cache, .ok batch)
    | some (fill, rest) =>
      match parseCoordinates lineNumber (if fill then 6 else 3) rest with
      | .error error => (cache, .error error)
      | .ok (coordinates, rest) =>
        match parseTarget rest with
        | .error error => (cache, .error (lineError lineNumber error))
        | .ok (name, stateText) =>
          match resolveCached registry cache name stateText with
          | (cache, none) => (cache, .error (lineError lineNumber "状态格式无效"))
          | (cache, some runtime) =>
            if batch.commands.length ≥ kMaxCommands then
              (cache, .error ("MCFunction 单批命令数量超过限制 " ++ toString kMaxCommands))
            else (cache, .ok (batch.push (cuboidOf fill coordinates runtime)))

/-- The loop of `parse_batch`, up to the first error. -/
def parseLines (registry : BlockRegistry) (lineLimit : ℕ) :
    List (List Char) → ℕ → RuntimeCache → Batch → RuntimeCache × Except String Batch
  | [], _, cache, batch => (cache, .ok batch)
  | line :: rest, lineNumber, cache, batch =>
    match parseLine registry lineLimit line lineNumber cache batch with
    | (cache, .error error) => (cache, .error error)
    | (cache, .ok batch) => parseLines registry lineLimit rest (lineNumber + 1) cache batch

/-- `parse_batch`: the task of a worker, given the bytes and the number of their first line. -/
def parseBatch (registry : BlockRegistry) (lineLimit : ℕ) (data : List Char × ℕ)
    (cache : RuntimeCache) : RuntimeCache × Except String Batch :=
  parseLines registry lineLimit (lines data.1) data.2 cache {}

/-- The blocks that `input.read` gives; `fuel` bounds their number. -/
def readBlocks (blockSize : ℕ) : ℕ → List Char → List (List Char)
  | 0, _ => []
  | fuel + 1, text =>
    if text.isEmpty then [] else text.take blockSize :: readBlocks blockSize fuel (text.drop blockSize)

def lineBufferTooLong (lineLimit : ℕ) : String :=
  "MCFunction 行缓冲超过 " ++ toString lineLimit ++ " bytes 限制"

/-- The read loop: the batches that are submitted, each with the number of its first line. -/
def splitBatches (lineLimit : ℕ) :
    List (List Char) → List Char → ℕ → Except String (List (List Char × ℕ))
  | [], carry, nextLine => .ok (if carry.isEmpty then [] else [(carry, nextLine)])
  | block :: rest, carry, nextLine =>
    if carry.length > lineLimit then .error (lineBufferTooLong lineLimit)
    else
      let data := carry ++ block
      let complete := data.rdropWhile (· ≠ '\n')
      let tail := data.rtakeWhile (· ≠ '\n')
      if complete.isEmpty then
        if data.length > lineLimit then .error (lineBufferTooLong lineLimit)
        else splitBatches lineLimit rest data nextLine
      else if tail.length > lineLimit then .error (lineBufferTooLong lineLimit)
      else
        (splitBatches lineLimit rest tail (nextLine + complete.count '\n')).map
          ((complete, nextLine) :: ·)

/-- `consume_front`: append the commands of the next batch. -/
def consumeFront (result : ℕ → Option (Except String Batch)) (total : Batch) (index : ℕ) :
    Except String Batch :=
  match result index with
  | none => .error "broken promise"
  | some (.error error) => .error error
  | some (.ok batch) =>
    if total.commands.length > kMaxCommands - batch.commands.length then .error tooManyCommands
    else
      .ok { commands := total.commands ++ batch.commands
            bounds := total.bounds.includeBounds batch.bounds }

/-- The batches of a text. -/
def textBatches (lineLimit blockSize : ℕ) (text : List Char) :
    Except String (List (List Char × ℕ)) :=
  splitBatches lineLimit (readBlocks blockSize text.length text) [] 1

/-- `read_parallel`, under a schedule that says which worker parses which batch, and when. -/
def readParallel (registry : BlockRegistry) (lineLimit blockSize : ℕ) (schedule : List (ℕ × ℕ))
    (text : List Char) : Except String McFunctionStructure := do
  let batches ← textBatches lineLimit blockSize text
  let result := Workers.perform (parseBatch registry lineLimit) batches schedule (fun _ => ∅)
    fun _ => none
  let total ← (List.range batches.length).foldlM (consumeFront result) {}
  finishRead total

end WaterStructure.McFunction
