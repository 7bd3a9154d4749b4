import WaterStructure.Formats.IbImportText

/-!
# The segments of an IBImport file

Behind its header a file is a list of segments: a length, a key, and bytes that are combined with
the key. The first segment is the script, the second a JSON text with the command blocks, and all
others are skipped. Nothing of the structure changes before everything has been read.
-/

namespace WaterStructure.IbImport

def kMaxNbtBlocks : ℕ := 1000000

def kMaxSegments : ℕ := 4096

def kMaxJsonStringBytes : ℕ := 16 * 1024 * 1024

def kMaxJsonDepth : ℕ := 128

def kMaxJsonMembersPerCommand : ℕ := 4096

/-- The longest string that NBT can hold. -/
def kMaxNbtString : ℕ := 65535

/-- The bytes of a number from a place on; `shift` is that of the first byte. -/
def varintFrom : ℕ → ℕ → ℕ → List UInt8 → Except String (ℕ × List UInt8)
  | 0, _, _, _ => .error "IBImport 变长整数过长"
  | _ + 1, _, _, [] => .error "IBImport varint truncated"
  | bytes + 1, shift, value, byte :: rest =>
    if shift = 63 ∧ byte &&& 0x7e ≠ 0 then .error "IBImport 变长整数溢出"
    else
      let value := value ||| (byte &&& 0x7f).toNat <<< shift
      if byte &&& 0x80 = 0 then .ok (value, rest) else varintFrom bytes (shift + 7) value rest

/-- `varint`: nothing at the end of the file. -/
def varint (input : List UInt8) : Except String (Option (ℕ × List UInt8)) :=
  if input.isEmpty then .ok none else (varintFrom 10 0 0 input).map some

/-- The payload of the NBT compound that `command_nbt` writes. -/
structure CommandNbt where
  command : List Char
  customName : List Char
  conditionalMode : Bool
  auto : Bool
  tickDelay : ℤ
  deriving DecidableEq

structure NbtBlock where
  pos : BlockPos
  nbt : CommandNbt
  deriving DecidableEq

/-- The value of a base64 digit. -/
def base64Value (c : Char) : Option ℕ :=
  if 'A' ≤ c ∧ c ≤ 'Z' then some (c.toNat - 'A'.toNat)
  else if 'a' ≤ c ∧ c ≤ 'z' then some (c.toNat - 'a'.toNat + 26)
  else if '0' ≤ c ∧ c ≤ '9' then some (c.toNat - '0'.toNat + 52)
  else if c = '+' then some 62
  else if c = '/' then some 63
  else none

/-- The bytes of four digits; padding is only at the end, and over bits that are zero. -/
def decodeQuantum (a b c d : Char) (last : Bool) : Option (List Char) := do
  let first ← base64Value a
  let second ← base64Value b
  let third ← if c = '=' then some 0 else base64Value c
  let fourth ← if d = '=' then some 0 else base64Value d
  if (c = '=' ∧ d ≠ '=') ∨ (last = false ∧ (c = '=' ∨ d = '=')) then none
  else if (c = '=' ∧ second % 16 ≠ 0) ∨ (d = '=' ∧ third % 4 ≠ 0) then none
  else
    let bits := first <<< 18 ||| second <<< 12 ||| third <<< 6 ||| fourth
    let byte (shift : ℕ) : Char := Char.ofNat (bits >>> shift % 256)
    some (byte 16 :: (if c = '=' then [] else [byte 8]) ++ if d = '=' then [] else [byte 0])

def decodeQuanta : List Char → Option (List Char)
  | [] => some []
  | a :: b :: c :: d :: rest => do
    return (← decodeQuantum a b c d rest.isEmpty) ++ (← decodeQuanta rest)
  | _ => none

def decodeBase64 (encoded : List Char) : Option (List Char) :=
  if encoded.isEmpty then none else decodeQuanta encoded

/-- A member read as a string; an absent one is empty. -/
def textOr (command : Json) (name : String) : Except String (List Char) :=
  match command.member? name with
  | none => .ok []
  | some member => member.toText

def boolish (value : Json) : Bool :=
  match value with
  | .boolean value => value
  | .unsigned value => value % 18446744073709551616 ≠ 0
  | .integer value => value ≠ 0
  | .string text => text = "true".toList || text = ['1']
  | _ => false

/-- A string that NBT can hold. -/
def nbtString (text : List Char) : Except String (List Char) :=
  if text.length > kMaxNbtString then .error "String is too long for NBT" else .ok text

/-- `command_nbt`, with the decoded message. -/
def commandNbt (command : Json) (message : List Char) : Except String CommandNbt := do
  let customName ← textOr command "Commandtitle"
  let tickDelay ← command.integerOr "isTime" 0
  let message ← nbtString message
  let customName ← nbtString customName
  return {
    command := message
    customName
    conditionalMode := boolish ((command.member? "Conditional").getD .null)
    auto := !boolish ((command.member? "isRedstone").getD .null)
    tickDelay := toInt32 tickDelay }

/-- The coordinate of a command block. -/
def blockCoordinate (command : Json) (key : String) (axis : String) : Except String ℤ := do
  let token ← textOr command key
  match relative token with
  | some value => return value
  | none => .error ("IBImport 方块实体 " ++ axis ++ " 坐标无效: " ++ String.ofList token)

/-- The block lies in the cuboid of a command. -/
def coversBlock (pos : BlockPos) (command : CuboidCommand) : Bool :=
  decide (command.Covers ⟨0, 0, 0⟩ pos)

/-- One command block of the JSON text; it counts when some command of the script reaches it. -/
def consumeBlock (commands : List CuboidCommand) (nbtBlocks : List NbtBlock) (command : Json) :
    Except String (List NbtBlock) := do
  if nbtBlocks.length ≥ kMaxNbtBlocks then
    .error ("IBImport 方块实体数量超过限制 " ++ toString kMaxNbtBlocks)
  else
    let x ← blockCoordinate command "posX" "X"
    let y ← blockCoordinate command "posY" "Y"
    let z ← blockCoordinate command "posZ" "Z"
    if commands.any (coversBlock ⟨x, y, z⟩) = false then return nbtBlocks
    else
      let message ← textOr command "CommandMessage"
      let nbt ← commandNbt command ((decodeBase64 message).getD message)
      return nbtBlocks ++ [⟨⟨x, y, z⟩, nbt⟩]

/-- `CommandJsonSax`: the open command, the key that waits for its value, and the depth. -/
structure SaxState where
  nbtBlocks : List NbtBlock
  current : List (List Char × Json) := []
  key : List Char := []
  depth : ℕ := 0
  inCommand : Bool := false
  members : ℕ := 0

/-- Store a value of the open command under the key that waits. -/
def SaxState.value (sax : SaxState) (value : Json) : SaxState :=
  if sax.inCommand ∧ sax.depth = 2 ∧ sax.key ≠ [] then
    { sax with
      current := sax.current.filter (fun member => member.1 ≠ sax.key) ++ [(sax.key, value)]
      key := [] }
  else sax

/-- `is_string` and too long. -/
def tooLongString : Json → Bool
  | .string text => text.length > kMaxJsonStringBytes
  | _ => false

/-- Handle one event. -/
def SaxState.handle (commands : List CuboidCommand) (sax : SaxState) :
    SaxEvent → Except String SaxState
  | .scalar value =>
    if tooLongString value then .error "IBImport 命令方块 JSON 无效: IBImport JSON 字符串超过大小限制"
    else .ok (sax.value value)
  | .startObject =>
    if sax.depth ≥ kMaxJsonDepth then
      .error "IBImport 命令方块 JSON 无效: IBImport JSON nesting exceeds limit"
    else if sax.depth = 1 then
      .ok { sax with current := [], inCommand := true, members := 0, depth := sax.depth + 1 }
    else .ok { sax with depth := sax.depth + 1 }
  | .key name =>
    if sax.inCommand ∧ sax.depth = 2 then
      if sax.members + 1 > kMaxJsonMembersPerCommand then
        .error "IBImport 命令方块 JSON 无效: IBImport JSON command has too many members"
      else .ok { sax with members := sax.members + 1, key := name }
    else .ok sax
  | .endObject =>
    if sax.inCommand ∧ sax.depth = 2 then
      (consumeBlock commands sax.nbtBlocks (.object sax.current)).map fun nbtBlocks =>
        { sax with
          nbtBlocks, current := [], inCommand := false, key := [], members := 0
          depth := sax.depth - 1 }
    else .ok { sax with depth := sax.depth - 1 }
  | .startArray =>
    if sax.depth ≥ kMaxJsonDepth then
      .error "IBImport 命令方块 JSON 无效: IBImport JSON nesting exceeds limit"
    else .ok { sax with depth := sax.depth + 1 }
  | .endArray => .ok { sax with depth := sax.depth - 1 }
  | .parseError what => .error ("IBImport 命令方块 JSON 无效: " ++ what)

/-- The command blocks of the second segment. -/
def readBlocks (json : JsonLibrary) (commands : List CuboidCommand) (nbtBlocks : List NbtBlock)
    (text : List Char) : Except String (List NbtBlock) := do
  let sax ← (json.events text).foldlM (SaxState.handle commands) { nbtBlocks }
  return sax.nbtBlocks

/-- What has been read of a file. -/
structure FileState where
  script : ScriptState
  nbtBlocks : List NbtBlock := []
  segmentIndex : ℕ := 0

/-- The bytes of a segment as text. -/
def segmentText (key : UInt8) (payload : List UInt8) : List Char :=
  payload.map fun byte => Char.ofNat (byte ^^^ key).toNat

/-- Read one segment. -/
def readSegment (json : JsonLibrary) (file : FileState) (text : List Char) :
    Except String FileState := do
  if file.segmentIndex = 0 then
    let script ← readScript json file.script text
    return { file with script, segmentIndex := file.segmentIndex + 1 }
  else if file.segmentIndex = 1 then
    let nbtBlocks ← readBlocks json file.script.batch.commands file.nbtBlocks text
    return { file with nbtBlocks, segmentIndex := file.segmentIndex + 1 }
  else return { file with segmentIndex := file.segmentIndex + 1 }

/-- The loop over the segments; each takes at least two bytes, which bounds their number. -/
def readSegments (json : JsonLibrary) : ℕ → FileState → List UInt8 → Except String FileState
  | 0, file, _ => .ok file
  | fuel + 1, file, input => do
    match ← varint input with
    | none => return file
    | some (_, []) => .error "IBImport 段密钥截断"
    | some (length, key :: rest) =>
      if file.segmentIndex ≥ kMaxSegments then
        .error ("IBImport 数据段数量超过限制 " ++ toString kMaxSegments)
      else if length > rest.length then
        .error ("IBImport 段数据截断: 段长度超过文件剩余数据 (segment " ++
          toString file.segmentIndex ++ ")")
      else
        let file ← readSegment json file (segmentText key (rest.take length))
        readSegments json fuel file (rest.drop length)

/-- `IBImport ` with a space. -/
def fileHeader : List UInt8 := "IBImport ".toList.map fun c => UInt8.ofNat c.toNat

/-- Everything up to the last segment, with the registry that it leaves. -/
def readFile (json : JsonLibrary) (registry : StateRegistry) (bytes : List UInt8) :
    Except String FileState :=
  if bytes.length < 9 then .error "无法确定 IBImport 文件大小: 文件过短"
  else if bytes.take 9 ≠ fileHeader then .error "IBImport 文件头无效"
  else
    match readSegments json bytes.length { script := { registry } } (bytes.drop 9) with
    | .error error => .error ("解析 IBImport 失败: " ++ error)
    | .ok file =>
      if file.segmentIndex = 0 then .error "IBImport 没有数据段"
      else if file.script.batch.commands.isEmpty then
        .error "IBImport 脚本没有有效 setblock 或 fill"
      else .ok file

/-- A coordinate relative to the smallest one. -/
def shift (origin : ℤ) (axis : String) (value : ℤ) : Except String ℤ :=
  if value - origin < 0 ∨ value - origin > int32Max then
    .error ("解析 IBImport 失败: IBImport " ++ axis ++ " 坐标范围超出 int32")
  else .ok (value - origin)

def shiftCommand (bounds : McFunction.Bounds) (command : CuboidCommand) :
    Except String CuboidCommand := do
  let x1 ← shift bounds.minX "X" command.x1
  let x2 ← shift bounds.minX "X" command.x2
  let y1 ← shift bounds.minY "Y" command.y1
  let y2 ← shift bounds.minY "Y" command.y2
  let z1 ← shift bounds.minZ "Z" command.z1
  let z2 ← shift bounds.minZ "Z" command.z2
  return { command with x1, x2, y1, y2, z1, z2 }

def shiftBlock (bounds : McFunction.Bounds) (block : NbtBlock) : Except String NbtBlock := do
  let x ← shift bounds.minX "X" block.pos.x
  let y ← shift bounds.minY "Y" block.pos.y
  let z ← shift bounds.minZ "Z" block.pos.z
  return { block with pos := ⟨x, y, z⟩ }

/-- The extent of an axis. -/
def dimension (axis : String) (minimum maximum : ℤ) : Except String ℤ :=
  let span := maximum - minimum + 1
  if span ≤ 0 ∨ span > int32Max then
    .error ("解析 IBImport 失败: IBImport " ++ axis ++ " 尺寸超出 int32 范围")
  else .ok span

def dimensions (bounds : McFunction.Bounds) : Except String Size := do
  let width ← dimension "X" bounds.minX bounds.maxX
  let height ← dimension "Y" bounds.minY bounds.maxY
  let length ← dimension "Z" bounds.minZ bounds.maxZ
  return ⟨width, height, length⟩

end WaterStructure.IbImport
