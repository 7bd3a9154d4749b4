import WaterStructure.World.Archive

/-!
# Writing a ZIP archive

`create_zip` compresses the files of a directory tree one after the other, each behind a local header
without sizes and in front of a data descriptor, and then writes the central directory and the end
record. It stops when a count, a size or an offset does not fit its field.
-/

namespace WaterStructure

open FsPath

/-- A regular file of a directory tree, with the names that lead to it from the root of the tree. -/
structure SourceFile where
  parts : List FileName
  content : Bytes
  deriving DecidableEq

namespace SourceFile

/-- The relative name, with `/` between its parts. -/
def name (file : SourceFile) : Bytes := List.intercalate [slash] file.parts

/-- A name that a directory can have, without backslash. -/
def ValidPart (part : FileName) : Prop :=
  part ≠ [] ∧ part ≠ dot ∧ part ≠ dotDot ∧ slash ∉ part ∧ (92 : UInt8) ∉ part ∧ (0 : UInt8) ∉ part

instance (part : FileName) : Decidable (ValidPart part) :=
  inferInstanceAs (Decidable (_ ∧ _ ∧ _ ∧ _ ∧ _ ∧ _))

/-- A relative name as a directory tree gives it, without a drive. -/
def Valid (file : SourceFile) : Prop :=
  file.parts ≠ [] ∧ (∀ part ∈ file.parts, ValidPart part) ∧ file.name[1]? ≠ some 58

instance (file : SourceFile) : Decidable file.Valid := inferInstanceAs (Decidable (_ ∧ _ ∧ _))

/-- `std::filesystem::path` is compared part by part. -/
def le (first second : SourceFile) : Bool := decide (first.parts ≤ second.parts)

end SourceFile

/-- The regular files of a directory tree, in the order in which the tree is iterated. -/
structure SourceTree where
  files : List SourceFile
  valid : ∀ file ∈ files, file.Valid
  distinct : (files.map SourceFile.parts).Nodup

namespace Archive

def uint64Max : ℕ := 18446744073709551615

/-- What the central directory needs to know of a file. -/
structure CentralEntry where
  name : Bytes
  crc : ℕ
  compressedSize : ℕ
  uncompressedSize : ℕ
  localOffset : ℕ

def localHeader (nameLength : ℕ) : Bytes :=
  writeLe32 0x04034b50 ++ writeLe16 20 ++ writeLe16 0x0808 ++ writeLe16 8 ++ writeLe16 0 ++
    writeLe16 0 ++ writeLe32 0 ++ writeLe32 0 ++ writeLe32 0 ++ writeLe16 nameLength ++ writeLe16 0

def dataDescriptor (crc compressedSize size : ℕ) : Bytes :=
  writeLe32 0x08074b50 ++ writeLe32 crc ++ writeLe32 compressedSize ++ writeLe32 size

def centralHeader (entry : CentralEntry) : Bytes :=
  writeLe32 0x02014b50 ++ writeLe16 20 ++ writeLe16 20 ++ writeLe16 0x0808 ++ writeLe16 8 ++
    writeLe16 0 ++ writeLe16 0 ++ writeLe32 entry.crc ++ writeLe32 entry.compressedSize ++
    writeLe32 entry.uncompressedSize ++ writeLe16 entry.name.length ++ writeLe16 0 ++ writeLe16 0 ++
    writeLe16 0 ++ writeLe16 0 ++ writeLe32 0 ++ writeLe32 entry.localOffset

def centralRecord (entry : CentralEntry) : Bytes := centralHeader entry ++ entry.name

def endRecord (entryCount centralSize centralOffset : ℕ) : Bytes :=
  writeLe32 0x06054b50 ++ writeLe16 0 ++ writeLe16 0 ++ writeLe16 entryCount ++ writeLe16 entryCount ++
    writeLe32 centralSize ++ writeLe32 centralOffset ++ writeLe16 0

section Create

variable (zlib : Zlib) (deflate : Bytes → Bytes) (limit : ℕ)

/-- The total size of the files, which is checked after each of them. -/
def measure : ℕ → List SourceFile → Except String ℕ
  | total, [] => .ok total
  | total, file :: rest => do
    rejectIf (file.content.length > uint64Max - total) "待打包世界总大小溢出"
    rejectIf (limit ≠ 0 ∧ total + file.content.length > limit) "待打包世界超过 temporary_file_limit_bytes"
    measure (total + file.content.length) rest

/-- Local header, name, compressed content and data descriptor. -/
def localRecord (file : SourceFile) : Bytes :=
  localHeader file.name.length ++ file.name ++ deflate file.content ++
    dataDescriptor (crc32 zlib 0 file.content).toNat (deflate file.content).length file.content.length

/-- One turn of the loop over the files. -/
def packFile (state : Bytes × List CentralEntry) (file : SourceFile) :
    Except String (Bytes × List CentralEntry) := do
  let (output, entries) := state
  rejectIf (file.content.length > uint32Max) ("ZIP entry 超过 4 GiB: " ++ text file.name)
  rejectIf (file.name.length > uint16Max) "ZIP entry 名称过长"
  rejectIf (output.length > uint32Max) "ZIP 超出 4 GiB，需 ZIP64"
  rejectIf ((deflate file.content).length > uint32Max) ("ZIP entry 压缩结果过大: " ++ text file.name)
  let next := output ++ localRecord zlib deflate file
  rejectIf (limit ≠ 0 ∧ next.length > limit) "临时 .mcworld 超过 temporary_file_limit_bytes"
  pure (next, entries ++ [
    { name := file.name
      crc := (crc32 zlib 0 file.content).toNat
      compressedSize := (deflate file.content).length
      uncompressedSize := file.content.length
      localOffset := output.length }])

/-- `create_zip`; `limit` is `maximum_temporary_bytes`. -/
def createZip (files : List SourceFile) : Except String Bytes := do
  let _ ← measure limit 0 files
  let files := files.mergeSort SourceFile.le
  rejectIf (files.length > uint16Max) "ZIP 文件数量超过 65535"
  let (output, entries) ← files.foldlM (packFile zlib deflate limit) ([], [])
  rejectIf (output.length > uint32Max) "ZIP central directory 偏移需要 ZIP64"
  let directory := output ++ entries.flatMap centralRecord
  rejectIf (directory.length > uint32Max) "ZIP 需要 ZIP64"
  let archive := directory ++
    endRecord entries.length (directory.length - output.length) output.length
  rejectIf (limit ≠ 0 ∧ archive.length > limit) "临时 .mcworld 超过 temporary_file_limit_bytes"
  pure archive

end Create

end Archive

end WaterStructure
