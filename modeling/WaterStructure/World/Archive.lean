import WaterStructure.Library.EffectLog
import WaterStructure.Library.FsPath

/-!
# Reading a ZIP archive

`extract_zip` looks for the end record at the end of the file, and then goes through the central
directory entry by entry: it checks the name, creates the directories that lead to it, and decodes the
payload into a new file. It stops at the first error, and what has been created by then remains.
-/

namespace WaterStructure

open EffectLog FsPath

abbrev Bytes : Type := List UInt8

/-- What extracting does to the disk. -/
inductive DiskEvent where
  | createdDirectory (place : Location)
  | createdFile (place : Location)
  | wrote (place : Location) (bytes : Bytes)
  | removedFile (place : Location)
  deriving DecidableEq

/-- The disk: the directories it has at the start, and whether the next operation on it fails. -/
structure Disk where
  isDirectory : Location → Bool
  fault : List DiskEvent → Option String

/-- `Z_OK`, `Z_STREAM_END`, and anything else. -/
inductive ZStatus where
  | ok
  | streamEnd
  | failure
  deriving DecidableEq

/-- What a call of `inflate` does: how much it takes of its input, and what it puts out. -/
structure InflateResult (Stream : Type) where
  status : ZStatus
  consumed : ℕ
  produced : Bytes
  stream : Stream

/-- What the code uses of zlib. `inflate` is given the input window, the room for output, and whether
it is to finish. -/
structure Zlib where
  Stream : Type
  inflateInit : Option Stream
  inflate : Stream → Bytes → ℕ → Bool → InflateResult Stream
  crcByte : UInt32 → UInt8 → UInt32

namespace Archive

def uint16Max : ℕ := 65535

def uint32Max : ℕ := 4294967295

/-- The size of the transfer buffers. -/
def bufferSize : ℕ := 65536

def crc32 (zlib : Zlib) (crc : UInt32) (bytes : Bytes) : UInt32 := bytes.foldl zlib.crcByte crc

def readLe16 (value : Bytes) (offset : ℕ) : ℕ :=
  (value.getD offset 0).toNat + (value.getD (offset + 1) 0).toNat * 256

def readLe32 (value : Bytes) (offset : ℕ) : ℕ :=
  (value.getD offset 0).toNat + (value.getD (offset + 1) 0).toNat * 256 +
    (value.getD (offset + 2) 0).toNat * 65536 + (value.getD (offset + 3) 0).toNat * 16777216

/-- Bytes as they appear in a message. -/
def text (bytes : Bytes) : String := String.ofList (bytes.map fun byte => Char.ofNat byte.toNat)

def writeLe16 (value : ℕ) : Bytes := [UInt8.ofNat value, UInt8.ofNat (value / 256)]

def writeLe32 (value : ℕ) : Bytes :=
  [UInt8.ofNat value, UInt8.ofNat (value / 256), UInt8.ofNat (value / 65536),
    UInt8.ofNat (value / 16777216)]

def isSeparator (byte : UInt8) : Bool := byte = 47 ∨ byte = 92

def safeRelativePath (name : Bytes) : Bool :=
  if name = [] ∨ (0 : UInt8) ∈ name then false
  else if name.head?.any isSeparator then false
  else if name.length ≥ 2 ∧ name[1]? = some 58 then false
  else (name.splitOnP isSeparator).all (· ≠ dotDot)

/-- `read_exact` at a position of the file. -/
def readExact (input : Bytes) (position size : ℕ) : Option Bytes :=
  if size = 0 then some []
  else if position + size ≤ input.length then some ((input.drop position).take size)
  else none

def readOr (message : String) (input : Bytes) (position size : ℕ) : Except String Bytes :=
  match readExact input position size with
  | none => .error message
  | some bytes => .ok bytes

/-- A record that starts with a signature. -/
def readHeader (message : String) (signature : ℕ) (input : Bytes) (position size : ℕ) :
    Except String Bytes :=
  match readExact input position size with
  | none => .error message
  | some header => if readLe32 header 0 ≠ signature then .error message else .ok header

/-- An operation that fails, or has an effect. -/
def attempt (disk : Disk) (message : String → String) (event : DiskEvent) : Program DiskEvent Unit :=
  observe fun log =>
    match disk.fault log with
    | some reason => fail (message reason)
    | none => emit event

/-- Writing to an open file, which may have been written to when it fails. -/
def write (disk : Disk) (place : Location) (outputName : String) (bytes : Bytes) :
    Program DiskEvent Unit := do
  emit (.wrote place bytes)
  observe fun log => failIf (disk.fault log).isSome ("写入 ZIP entry 失败: " ++ outputName)

/-- `std::filesystem::remove`, whose error is ignored. -/
def remove (disk : Disk) (place : Location) : Program DiskEvent Unit := observe fun log =>
  match disk.fault log with
  | some _ => pure ()
  | none => emit (.removedFile place)

/-- There is a directory. -/
def isDirectory (disk : Disk) (log : List DiskEvent) (place : Location) : Bool :=
  disk.isDirectory place || decide (.createdDirectory place ∈ log)

/-- The last element is a name, so there is something to create. -/
def namesDirectory (path : FsPath) : Bool :=
  path.parts.getLast?.any fun part => decide (Named part ∧ part ≠ dotDot)

/-- Create one directory if it is missing. -/
def createMissing (disk : Disk) (message : String) (path : FsPath) : Program DiskEvent Unit :=
  observe fun log =>
    if namesDirectory path ∧ isDirectory disk log path.location = false then
      attempt disk (message ++ ·) (.createdDirectory path.location)
    else pure ()

/-- `create_directories`: what is missing on the way to a path, and the path itself. -/
def createDirectories (disk : Disk) (message : String) (path : FsPath) : Program DiskEvent Unit := do
  failIf (path.rooted = false ∧ path.parts = []) (message ++ "Invalid argument")
  forEach (createMissing disk message) path.prefixes

section Payload

variable (zlib : Zlib) (disk : Disk) (input : Bytes) (place : Location) (entryName outputName : String)

/-- The loop of `copy_stored_entry`. -/
def copyLoop (remaining position : ℕ) (crc : UInt32) : Program DiskEvent (UInt32 × ℕ) :=
  if _h : remaining = 0 then pure (crc, position)
  else do
    let count := min remaining bufferSize
    let chunk ← lift (readOr "读取 ZIP entry 数据失败" input position count)
    write disk place outputName chunk
    copyLoop (remaining - count) (position + count) (crc32 zlib crc chunk)
termination_by remaining
decreasing_by
  have : 0 < bufferSize := by decide
  omega

/-- `copy_stored_entry`; the result is the position behind the data. -/
def copyStoredEntry (position compressedSize expectedSize expectedCrc : ℕ) : Program DiskEvent ℕ := do
  failIf (compressedSize ≠ expectedSize) "ZIP stored entry 长度不匹配"
  let (crc, position) ← copyLoop zlib disk input place outputName compressedSize position 0
  failIf (crc.toNat ≠ expectedCrc) ("ZIP entry CRC32 不匹配: " ++ entryName)
  pure position

/-- The variables of `inflate_entry`. -/
structure InflateState where
  stream : zlib.Stream
  outputSize : ℕ
  crc : UInt32
  streamEnd : Bool

/-- What has been put out is checked against the declared size and written. -/
def acceptProduced (expectedSize outputSize : ℕ) (produced : Bytes) : Program DiskEvent Unit :=
  if produced = [] then pure ()
  else do
    failIf (outputSize + produced.length > expectedSize) ("ZIP entry 解压长度超过声明值: " ++ entryName)
    write disk place outputName produced

/-- The inner loop: the bytes of one window. -/
def inflateWindow (compressedRemaining expectedSize : ℕ) (window : Bytes) (state : InflateState zlib) :
    Program DiskEvent (InflateState zlib) :=
  if window = [] then pure state
  else
    let result := zlib.inflate state.stream window bufferSize false
    let rest := window.drop result.consumed
    let next : InflateState zlib :=
      { stream := result.stream
        outputSize := state.outputSize + result.produced.length
        crc := crc32 zlib state.crc result.produced
        streamEnd := false }
    do
      acceptProduced disk place entryName outputName expectedSize state.outputSize result.produced
      match result.status with
      | .streamEnd => do
        failIf (rest ≠ [] ∨ compressedRemaining ≠ 0) ("ZIP entry deflate 压缩长度不匹配: " ++ entryName)
        pure { next with streamEnd := true }
      | .failure => fail ("ZIP entry deflate 数据无效: " ++ entryName)
      | .ok =>
        if _hstuck : rest.length = window.length ∧ result.produced = [] then
          fail ("ZIP entry deflate 数据无进展: " ++ entryName)
        else if _hover : result.produced ≠ [] ∧ next.outputSize > expectedSize then
          -- `acceptProduced` has failed already.
          fail ("ZIP entry 解压长度超过声明值: " ++ entryName)
        else inflateWindow compressedRemaining expectedSize rest next
termination_by window.length + (expectedSize - state.outputSize)
decreasing_by
  have hdrop : rest.length ≤ window.length := by
    simp only [rest, List.length_drop]
    omega
  change rest.length + (expectedSize - (state.outputSize + result.produced.length)) < _
  have hover : result.produced = [] ∨ state.outputSize + result.produced.length ≤ expectedSize := by
    rwa [not_and_or, not_not, Nat.not_lt] at _hover
  rcases hover with hnone | hle
  · have : rest.length ≠ window.length := fun heq => _hstuck ⟨heq, hnone⟩
    rw [hnone, List.length_nil]
    omega
  · rcases Nat.eq_zero_or_pos result.produced.length with hzero | hpos
    · have : rest.length ≠ window.length := fun heq => _hstuck ⟨heq, List.length_eq_zero_iff.mp hzero⟩
      omega
    · omega

/-- The outer loop: one window after the other. -/
def inflateLoop (compressedRemaining position expectedSize : ℕ) (state : InflateState zlib) :
    Program DiskEvent (InflateState zlib × ℕ) :=
  if _h : compressedRemaining = 0 then pure (state, position)
  else do
    let count := min compressedRemaining bufferSize
    let window ← lift (readOr "读取 ZIP entry 数据失败" input position count)
    let state ← inflateWindow zlib disk place entryName outputName (compressedRemaining - count)
      expectedSize window state
    if state.streamEnd then pure (state, position + count)
    else inflateLoop (compressedRemaining - count) (position + count) expectedSize state
termination_by compressedRemaining
decreasing_by
  have : 0 < bufferSize := by decide
  omega

/-- The call without input that asks for what is still to come, unless the stream has ended. -/
def inflateFinish (expectedSize : ℕ) (state : InflateState zlib) :
    Program DiskEvent (InflateState zlib) :=
  if state.streamEnd then pure state
  else do
    let result := zlib.inflate state.stream [] bufferSize true
    acceptProduced disk place entryName outputName expectedSize state.outputSize result.produced
    failIf (result.status ≠ .streamEnd) ("ZIP entry deflate 数据截断: " ++ entryName)
    pure
      { stream := result.stream
        outputSize := state.outputSize + result.produced.length
        crc := crc32 zlib state.crc result.produced
        streamEnd := true }

/-- `inflate_entry`; the result is the position behind the data. -/
def inflateEntry (position compressedSize expectedSize expectedCrc : ℕ) : Program DiskEvent ℕ :=
  match zlib.inflateInit with
  | none => fail "初始化 raw deflate 解压失败"
  | some stream => do
    let (state, position) ← inflateLoop zlib disk input place entryName outputName compressedSize position
      expectedSize ⟨stream, 0, 0, false⟩
    let state ← inflateFinish zlib disk place entryName outputName expectedSize state
    failIf (state.outputSize ≠ expectedSize) ("ZIP entry 解压长度不匹配: " ++ entryName)
    failIf (state.crc.toNat ≠ expectedCrc) ("ZIP entry CRC32 不匹配: " ++ entryName)
    pure position

end Payload

def rejectIf (condition : Bool) (message : String) : Except String Unit :=
  if condition then .error message else .ok ()

/-- `validate_data_descriptor` -/
def validateDataDescriptor (input : Bytes) (position dataRegionEnd expectedCrc expectedCompressedSize
    expectedUncompressedSize : ℕ) (entryName : String) : Except String Unit := do
  let first ← readOr ("ZIP entry data descriptor 截断: " ++ entryName) input position 4
  let signed := readLe32 first 0 = 0x08074b50
  let size := if signed then 12 else 8
  let rest ← readOr ("ZIP entry data descriptor 截断: " ++ entryName) input (position + 4) size
  let fields := if signed then rest else first ++ rest
  rejectIf (position + 4 + size > dataRegionEnd) ("ZIP entry data descriptor 越界: " ++ entryName)
  rejectIf (readLe32 fields 0 ≠ expectedCrc ∨ readLe32 fields 4 ≠ expectedCompressedSize ∨
    readLe32 fields 8 ≠ expectedUncompressedSize) ("ZIP entry data descriptor 不匹配: " ++ entryName)

/-- What the end record says about the central directory. -/
structure EndRecord where
  entryCount : ℕ
  centralSize : ℕ
  centralOffset : ℕ
  deriving DecidableEq

/-- The last end record of the tail whose comment goes up to the end. -/
def findEndRecord (tail : Bytes) : Option ℕ :=
  (List.range (tail.length - 22 + 1)).reverse.find? fun i =>
    readLe32 (tail.drop i) 0 = 0x06054b50 ∧ i + 22 + readLe16 (tail.drop i) 20 = tail.length

/-- The beginning of `extract_zip`, up to the checks of the end record. -/
def readEndRecord (input : Bytes) : Except String EndRecord :=
  if input.length < 22 then .error "ZIP 文件过短"
  else
    let tailSize := min input.length (0x10000 + 22)
    let tail := input.drop (input.length - tailSize)
    match findEndRecord tail with
    | none => .error "ZIP 缺少 EOCD"
    | some eocdPosition =>
      let eocd := tail.drop eocdPosition
      let diskEntryCount := readLe16 eocd 8
      let entryCount := readLe16 eocd 10
      let centralSize := readLe32 eocd 12
      let centralOffset := readLe32 eocd 16
      if readLe16 eocd 4 ≠ 0 ∨ readLe16 eocd 6 ≠ 0 ∨ diskEntryCount ≠ entryCount then
        .error "不支持分卷 ZIP"
      else if diskEntryCount = uint16Max ∨ entryCount = uint16Max ∨ centralSize = uint32Max ∨
          centralOffset = uint32Max then .error "不支持 ZIP64"
      else if centralOffset + centralSize > input.length - tailSize + eocdPosition then
        .error "ZIP central directory 越界"
      else .ok ⟨entryCount, centralSize, centralOffset⟩

/-- What an entry of the central directory says. -/
structure CentralHeader where
  flags : ℕ
  method : ℕ
  crc : ℕ
  compressedSize : ℕ
  uncompressedSize : ℕ
  nameLength : ℕ
  extraLength : ℕ
  commentLength : ℕ
  localOffset : ℕ

def readCentralHeader (input : Bytes) (position : ℕ) : Except String CentralHeader := do
  let header ← readHeader "ZIP central directory entry 无效" 0x02014b50 input position 46
  pure
    { flags := readLe16 header 8
      method := readLe16 header 10
      crc := readLe32 header 16
      compressedSize := readLe32 header 20
      uncompressedSize := readLe32 header 24
      nameLength := readLe16 header 28
      extraLength := readLe16 header 30
      commentLength := readLe16 header 32
      localOffset := readLe32 header 42 }

/-- The checks of a local header; the result is the position of the data. -/
def readLocalHeader (input : Bytes) (centralOffset : ℕ) (central : CentralHeader) (entryName : Bytes) :
    Except String ℕ := do
  rejectIf (central.localOffset + 30 > input.length) "ZIP local header 越界"
  let header ← readHeader "ZIP local header 无效" 0x04034b50 input central.localOffset 30
  rejectIf (readLe16 header 6 % 2 ≠ 0 ∨ readLe16 header 8 ≠ central.method)
    "ZIP local header 与 central directory 不匹配"
  rejectIf (central.flags / 8 % 2 = 0 ∧ (readLe32 header 14 ≠ central.crc ∨
    readLe32 header 18 ≠ central.compressedSize ∨ readLe32 header 22 ≠ central.uncompressedSize))
    "ZIP local header 长度或 CRC 不匹配"
  let dataOffset := central.localOffset + 30 + readLe16 header 26 + readLe16 header 28
  rejectIf (readLe16 header 26 ≠ entryName.length) "ZIP local header 名称不匹配"
  let name ← readOr "ZIP local header 名称不匹配" input (central.localOffset + 30) entryName.length
  rejectIf (name ≠ entryName) "ZIP local header 名称不匹配"
  rejectIf (dataOffset < central.localOffset ∨ dataOffset > centralOffset ∨
    central.compressedSize > centralOffset - dataOffset) "ZIP entry 数据越界"
  rejectIf (central.method ≠ 0 ∧ central.method ≠ 8) ("不支持 ZIP 压缩方法: " ++ toString central.method)
  pure dataOffset

section Entry

variable (zlib : Zlib) (disk : Disk) (input : Bytes) (destination : FsPath) (limit : ℕ)

/-- The payload of an entry, by its compression method. -/
def extractPayload (central : CentralHeader) (entryName : String) (output : FsPath) (dataOffset : ℕ) :
    Program DiskEvent ℕ :=
  if central.method = 0 then
    copyStoredEntry zlib disk input output.location entryName (text output.genericString) dataOffset
      central.compressedSize central.uncompressedSize central.crc
  else
    inflateEntry zlib disk input output.location entryName (text output.genericString) dataOffset
      central.compressedSize central.uncompressedSize central.crc

/-- The data descriptor behind a payload, if the flags announce one. -/
def checkDescriptor (centralOffset : ℕ) (central : CentralHeader) (entryName : String)
    (position : ℕ) : Except String Unit :=
  if central.flags / 8 % 2 ≠ 0 then
    validateDataDescriptor input position centralOffset central.crc central.compressedSize
      central.uncompressedSize entryName
  else .ok ()

/-- The file of an entry: its payload, its data descriptor, and closing it. The file is removed again if
one of them fails. -/
def extractFile (centralOffset : ℕ) (central : CentralHeader) (entryName : Bytes) (output : FsPath)
    (dataOffset : ℕ) : Program DiskEvent Unit := do
  let outputName := text output.genericString
  attempt disk (fun _ => "无法创建 ZIP entry: " ++ outputName) (.createdFile output.location)
  onError (do
    let position ← extractPayload zlib disk input central (text entryName) output dataOffset
    lift (checkDescriptor input centralOffset central (text entryName) position)
    observe fun log => failIf (disk.fault log).isSome ("写入 ZIP entry 失败: " ++ outputName))
    (remove disk output.location)

/-- The path of an entry, relative to the destination. -/
def entryPath (entryName : Bytes) : FsPath :=
  (FsPath.parse (entryName.map fun byte => if byte = 92 then 47 else byte)).lexicallyNormal

/-- One turn of the loop over the central directory, which goes on from a position and with the total
that has been declared so far. -/
def extractEntry (record : EndRecord) (state : ℕ × ℕ) : Program DiskEvent (ℕ × ℕ) := do
  let centralEnd := record.centralOffset + record.centralSize
  let (position, declared) := state
  failIf (position + 46 > centralEnd) "ZIP central directory entry 无效"
  let central ← lift (readCentralHeader input position)
  let total := declared + central.uncompressedSize
  failIf (limit ≠ 0 ∧ total > limit) "ZIP 解压总量超过 temporary_file_limit_bytes"
  failIf (central.flags % 2 ≠ 0) "不支持加密 ZIP entry"
  failIf (central.compressedSize = uint32Max ∨ central.uncompressedSize = uint32Max ∨
    central.localOffset = uint32Max) "不支持 ZIP64 entry"
  let variableSize := central.nameLength + central.extraLength + central.commentLength
  failIf (position + 46 + variableSize > centralEnd) "ZIP central directory entry 截断"
  let entryName ← lift (readOr "读取 ZIP entry 名称失败" input (position + 46) central.nameLength)
  failIf (¬ safeRelativePath entryName) ("ZIP entry 路径不安全: " ++ text entryName)
  let relative := entryPath entryName
  failIf (¬ safeRelativePath relative.genericString) ("ZIP entry 路径不安全: " ++ text entryName)
  let output := destination.append relative
  if entryName.getLast?.any isSeparator then do
    failIf (central.compressedSize ≠ 0 ∨ central.uncompressedSize ≠ 0 ∨ central.crc ≠ 0)
      ("ZIP 目录 entry 长度无效: " ++ text entryName)
    createDirectories disk "创建 ZIP entry 目录失败: " output
    pure (position + 46 + variableSize, total)
  else do
    createDirectories disk "创建 ZIP entry 父目录失败: " output.parent
    let dataOffset ← lift (readLocalHeader input record.centralOffset central entryName)
    extractFile zlib disk input record.centralOffset central entryName output dataOffset
    pure (position + 46 + variableSize, total)

def extractEntries (record : EndRecord) : ℕ → ℕ × ℕ → Program DiskEvent (ℕ × ℕ)
  | 0, state => pure state
  | count + 1, state => do
    let state ← extractEntry zlib disk input destination limit record state
    extractEntries record count state

/-- `extract_zip` of the bytes of an archive; `limit` is `maximum_uncompressed_bytes`. -/
def extractZip : Program DiskEvent Unit := do
  let record ← lift (readEndRecord input)
  createDirectories disk "创建 ZIP 解压目录失败: " destination
  let (position, _) ← extractEntries zlib disk input destination limit record record.entryCount
    (record.centralOffset, 0)
  failIf (position ≠ record.centralOffset + record.centralSize) "ZIP central directory 长度不匹配"

end Entry

end Archive

end WaterStructure
