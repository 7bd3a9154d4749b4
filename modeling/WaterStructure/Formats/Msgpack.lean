import WaterStructure.Core.Decimal
import WaterStructure.Core.MappingRegistry
import WaterStructure.Formats.CommandReaders
import WaterStructure.Library.SeekReader

/-!
# BDS and NexusNP

Both formats are MessagePack: an array of blocks, each an array of a name, a position and data, in one
of them with a flag for air. The file is gone through twice, first for the bounds and then for the blocks
themselves, which are kept in file order. Chunks are filled through an index of the blocks by chunk.
-/

namespace WaterStructure

open SeekReader

/-- The formats of a MessagePack structure. -/
inductive MsgpackFormat where
  | BDS
  | NexusNP
  deriving DecidableEq

namespace Msgpack

def kMaxInputBytes : ℕ := 2147483648

def kMaxContainerItems : ℕ := 8388608

def kMaxStringBytes : ℕ := 16777216

def kMaxNestingDepth : ℕ := 128

/-! ## The decoder -/

def failure (field : String) (position : ℕ) : String :=
  "MessagePack " ++ field ++ " at offset " ++ toString position

def fail {α : Type} (field : String) : Reader α := fun _ position => .error (failure field position)

def byte (field : String) : Reader ℕ := number (failure field) 1

/-- `unsigned_be`. -/
def unsignedBe (width : ℕ) (field : String) : Reader ℕ := do
  let bytes ← take (failure field) width
  return little bytes.reverse

def arrayLength (field : String) : Reader ℕ := do
  let marker ← byte field
  let count ←
    if marker / 16 = 0x9 then pure (marker % 16)
    else if marker = 0xdc then unsignedBe 2 field
    else if marker = 0xdd then unsignedBe 4 field
    else fail (field ++ " is not an array")
  if count > kMaxContainerItems then fail (field ++ " exceeds item limit") else return count

/-- The rest of a string behind its marker. -/
def stringAfter (marker : ℕ) (field : String) : Reader (List Char) := do
  let length ←
    if marker / 32 = 0x5 then pure (marker % 32)
    else if marker = 0xd9 then unsignedBe 1 field
    else if marker = 0xda then unsignedBe 2 field
    else if marker = 0xdb then unsignedBe 4 field
    else fail (field ++ " is not a string")
  if length > kMaxStringBytes then fail (field ++ " exceeds length limit")
  else do
    let bytes ← take (failure (field ++ " exceeds length limit")) length
    return bytes.map fun byte => Char.ofNat byte.toNat

def string (field : String) : Reader (List Char) := do
  let marker ← byte field
  stringAfter marker field

def checkedUnsigned (value : ℕ) (field : String) : Reader ℤ :=
  lift (if value > 9223372036854775807 then .error ("MessagePack " ++ field ++ " exceeds int64")
    else .ok value)

/-- The rest of an integer behind its marker. -/
def integerAfter (marker : ℕ) (field : String) : Reader ℤ := do
  if marker ≤ 0x7f then return marker
  else if marker ≥ 0xe0 then return Int.bmod marker 256
  else if marker = 0xcc then checkedUnsigned (← unsignedBe 1 field) field
  else if marker = 0xcd then checkedUnsigned (← unsignedBe 2 field) field
  else if marker = 0xce then checkedUnsigned (← unsignedBe 4 field) field
  else if marker = 0xcf then checkedUnsigned (← unsignedBe 8 field) field
  else if marker = 0xd0 then return Int.bmod (← unsignedBe 1 field) 256
  else if marker = 0xd1 then return Int.bmod (← unsignedBe 2 field) 65536
  else if marker = 0xd2 then return Int.bmod (← unsignedBe 4 field) 4294967296
  else if marker = 0xd3 then return Int.bmod (← unsignedBe 8 field) 18446744073709551616
  else fail (field ++ " is not an integer")

def integer (field : String) : Reader ℤ := do
  let marker ← byte field
  integerAfter marker field

def boolean (field : String) : Reader Bool := do
  let marker ← byte field
  if marker = 0xc2 then return false
  else if marker = 0xc3 then return true
  else fail (field ++ " is not a boolean")

def skipBytes (length : ℕ) (field : String) : Reader Unit := do
  let _ ← take (failure field) length

/-- `skip_after` with so many levels of nesting left. -/
def skipAfter (field : String) : ℕ → ℕ → Reader Unit
  | 0, _ => fail (field ++ " nesting is too deep")
  | levels + 1, marker =>
    let skipValues (count : ℕ) : Reader Unit := do
      let _ ← repeated (do
        let marker ← byte field
        skipAfter field levels marker) count
    let skipCounted (width factor : ℕ) : Reader Unit := do
      let count ← unsignedBe width field
      if count > kMaxContainerItems then fail field else skipValues (count * factor)
    let skipSized (width more : ℕ) : Reader Unit := do
      let length ← unsignedBe width field
      skipBytes (more + length) field
    if marker ≤ 0x7f ∨ marker ≥ 0xe0 ∨ marker = 0xc0 ∨ marker = 0xc2 ∨ marker = 0xc3 then pure ()
    else if marker / 32 = 0x5 then skipBytes (marker % 32) field
    else if marker / 16 = 0x9 then skipValues (marker % 16)
    else if marker / 16 = 0x8 then skipValues (marker % 16 * 2)
    else match marker with
      | 0xcc | 0xd0 => skipBytes 1 field
      | 0xca => skipBytes 4 field
      | 0xcb => skipBytes 8 field
      | 0xc1 => fail "reserved marker"
      | 0xc4 | 0xd9 => skipSized 1 0
      | 0xc5 | 0xda => skipSized 2 0
      | 0xc6 | 0xdb => skipSized 4 0
      | 0xc7 => skipSized 1 1
      | 0xc8 => skipSized 2 1
      | 0xc9 => skipSized 4 1
      | 0xdc => skipCounted 2 1
      | 0xdd => skipCounted 4 1
      | 0xde => skipCounted 2 2
      | 0xdf => skipCounted 4 2
      | 0xcd | 0xd1 | 0xd4 => skipBytes 2 field
      | 0xce | 0xd2 => skipBytes 4 field
      | 0xcf | 0xd3 => skipBytes 8 field
      | 0xd5 => skipBytes 3 field
      | 0xd6 => skipBytes 5 field
      | 0xd7 => skipBytes 9 field
      | 0xd8 => skipBytes 17 field
      | _ => fail (field ++ " has unsupported marker")

def skipValue (field : String) : Reader Unit := do
  let marker ← byte field
  skipAfter field (kMaxNestingDepth + 1) marker

/-- The data of a block. -/
inductive Data where
  | other
  | integer (value : ℤ)
  | string (value : List Char)

def data (field : String) : Reader Data := do
  let marker ← byte field
  if marker ≤ 0x7f ∨ marker ≥ 0xe0 ∨ (0xcc ≤ marker ∧ marker ≤ 0xd3) then
    return .integer (← integerAfter marker field)
  else if marker / 32 = 0x5 ∨ marker = 0xd9 ∨ marker = 0xda ∨ marker = 0xdb then
    return .string (← stringAfter marker field)
  else do
    skipAfter field (kMaxNestingDepth + 1) marker
    return .other

/-! ## Runtime ids -/

def trim (value : List Char) : List Char := trimBy isSpace value

def unknownRuntimeId (registry : MappingRegistry) : RuntimeId × MappingRegistry :=
  match registry.find "minecraft:unknown".toList [] 0 with
  | some unknown => (unknown, registry)
  | none => registry.register ⟨"minecraft:unknown".toList, [], 0⟩

/-- The id if there is one, and that of the unknown block otherwise. -/
def orUnknown (registry : MappingRegistry) (found : Option RuntimeId) : RuntimeId × MappingRegistry :=
  match found with
  | some runtimeId => (runtimeId, registry)
  | none => unknownRuntimeId registry

def baseRuntimeId (registry : MappingRegistry) (name : List Char) : RuntimeId × MappingRegistry :=
  orUnknown registry ((registry.find name [] 0).or (registry.compatibleJavaRuntimeId name))

/-- `decimal_string`. -/
def decimalString (text : List Char) : Option ℤ := do
  let text := if text.head? = some '+' then text.tail else text
  let value ← match text with
    | '-' :: digits => (digitsValue digits).map (- ·)
    | digits => digitsValue digits
  if -9223372036854775808 ≤ value ∧ value ≤ 9223372036854775807 then some value else none

/-- The parts between commas that are not quoted, and whether a quotation is left open. -/
def stateParts (quoted : Bool) (part : List Char) : List Char → List (List Char) × Bool
  | [] => ([part], quoted)
  | c :: rest =>
    let quoted := if c = '"' then !quoted else quoted
    if c ≠ ',' ∨ quoted then stateParts quoted (part ++ [c]) rest
    else
      let others := stateParts quoted [] rest
      (part :: others.1, others.2)

/-- `valid_state_string`. -/
def validStateString (text : List Char) : Bool :=
  if text.length < 2 ∨ text.head? ≠ some '[' ∨ text.getLast? ≠ some ']' then false
  else
    let text := text.tail.dropLast
    if text = [] then true
    else
      let (parts, quoted) := stateParts false [] text
      parts.all (fun part => '=' ∈ part ∧ trim (part.takeWhile fun c => c ≠ '=') ≠ []) && !quoted

/-- `legacy_runtime_id`; the data is taken as 16 bits. -/
def legacyRuntimeId (registry : MappingRegistry) (name : List Char) (data : ℤ) :
    RuntimeId × MappingRegistry :=
  orUnknown registry (registry.legacyRuntimeId name (data % 65536).toNat)

def bdsRuntimeId (registry : MappingRegistry) (name : List Char) : Data → RuntimeId × MappingRegistry
  | .integer value => legacyRuntimeId registry name value
  | .other => baseRuntimeId registry name
  | .string value =>
    let encoded := trim value
    if encoded = [] then baseRuntimeId registry name
    else
      match decimalString encoded with
      | some numeric => legacyRuntimeId registry name numeric
      | none =>
        if ¬ validStateString encoded ∨ encoded = ['[', ']'] then baseRuntimeId registry name
        else
          orUnknown registry ((registry.javaRuntimeId (name ++ encoded)).or
            (registry.compatibleJavaRuntimeId (name ++ encoded)))

/-! ## Blocks -/

def coordinate (decoded : ℤ) (field : String) : Except String ℤ :=
  if decoded < int32Min ∨ decoded > int32Max then .error (field ++ " exceeds int32") else .ok decoded

/-- A block as it stands in the file. -/
structure Record where
  rawBlockName : List Char
  pos : BlockPos
  data : Data
  air : Bool

/-- The block is no air. Only an empty name is found by trimming; a padded name of air is no air. -/
def Record.IsBlock (record : Record) : Prop :=
  ¬ (record.air = true ∨ trim record.rawBlockName = [] ∨
    asciiIequals record.rawBlockName "minecraft:air".toList = true)

instance (record : Record) : Decidable record.IsBlock := inferInstanceAs (Decidable (¬ (_ ∨ _ ∨ _)))

def readRecord (format : MsgpackFormat) : Reader Record := do
  let entrySize ← arrayLength "block entry"
  let minimumFields := if format = .BDS then 6 else 5
  if entrySize < minimumFields then lift (.error "block entry is too short")
  let rawBlockName ← string "block name"
  let x ← lift (coordinate (← integer "x") "x")
  let y ← lift (coordinate (← integer "y") "y")
  let z ← lift (coordinate (← integer "z") "z")
  let data ← Msgpack.data "block data"
  let noInteger := match data with
    | .integer _ => false
    | _ => true
  if format = .NexusNP ∧ noInteger = true then lift (.error "block data is not an integer")
  let air ← if format = .BDS then boolean "air flag" else pure false
  let _ ← repeated (skipValue "block extension") (entrySize - minimumFields)
  return { rawBlockName, pos := ⟨x, y, z⟩, data, air }

structure Block where
  pos : BlockPos
  runtime : RuntimeId
  deriving DecidableEq

/-- The variables of the scans. -/
structure ScanState where
  minimum : BlockPos := ⟨0, 0, 0⟩
  maximum : BlockPos := ⟨0, 0, 0⟩
  populated : Bool := false
  nonAirBlocks : ℕ := 0
  blocks : List Block := []
  registry : MappingRegistry

/-- `add_bounds`. -/
def ScanState.addBounds (state : ScanState) (pos : BlockPos) : ScanState :=
  if state.populated = false then { state with populated := true, minimum := pos, maximum := pos }
  else
    { state with
      minimum := ⟨min state.minimum.x pos.x, min state.minimum.y pos.y, min state.minimum.z pos.z⟩
      maximum := ⟨max state.maximum.x pos.x, max state.maximum.y pos.y, max state.maximum.z pos.z⟩ }

/-- What a scan does with a block. -/
def scanRecord (format : MsgpackFormat) (materialize : Bool) (state : ScanState) (record : Record) :
    ScanState :=
  if ¬ record.IsBlock then state
  else if materialize = false then
    let state := state.addBounds record.pos
    { state with nonAirBlocks := state.nonAirBlocks + 1 }
  else
    let blockName := trim record.rawBlockName
    let (runtime, registry) := match format, record.data with
      | .BDS, data => bdsRuntimeId state.registry blockName data
      | .NexusNP, .integer value => legacyRuntimeId state.registry blockName value
      | .NexusNP, _ => legacyRuntimeId state.registry blockName 0
    { state with
      blocks := state.blocks ++ [⟨record.pos.sub state.minimum, runtime⟩]
      registry }

def formatName : MsgpackFormat → String
  | .BDS => "BDS"
  | .NexusNP => "NexusNP"

/-- The blocks of the file one after the other; an error names the block. -/
def scanBlocks (format : MsgpackFormat) (materialize : Bool) : ℕ → ℕ → ScanState → Reader ScanState
  | 0, _, state => pure state
  | count + 1, index, state => do
    let record ← fun file position => (readRecord format file position).mapError fun error =>
      formatName format ++ " block index " ++ toString index ++ ": " ++ error
    scanBlocks format materialize count (index + 1) (scanRecord format materialize state record)

/-- `scan`. -/
def scan (format : MsgpackFormat) (materialize : Bool) (state : ScanState) : Reader ScanState := do
  let topSize ← arrayLength "top-level array"
  if topSize < (if format = .BDS then 1 else 2) then lift (.error "top-level array is too short")
  let blockCount ← arrayLength (if format = .BDS then "BDS blocks" else "NP block_data")
  if blockCount = 0 then lift (.error "block array is empty")
  let state ← scanBlocks format materialize blockCount 0 state
  let _ ← repeated (skipValue "top-level extension") (topSize - 1)
  return state

end Msgpack

structure MsgpackStructure where
  format : MsgpackFormat
  originalSize : Size
  size : Size
  offset : BlockPos
  blocks : List Msgpack.Block
  nonAirBlocks : ℕ

namespace MsgpackStructure

open Msgpack

/-- `read`, without what stands before its errors; the blocks may add a state to the registry. -/
def read (registry : MappingRegistry) (format : MsgpackFormat) (file : File) :
    Except String (MsgpackStructure × MappingRegistry) := do
  if file.length > kMaxInputBytes then throw "MessagePack input exceeds 2 GiB"
  let first ← run file 0 (scan format false { registry })
  if first.populated = false then throw "structure has no non-air blocks"
  let width := first.maximum.x - first.minimum.x + 1
  let height := first.maximum.y - first.minimum.y + 1
  let length := first.maximum.z - first.minimum.z + 1
  if width ≤ 0 ∨ height ≤ 0 ∨ length ≤ 0 ∨ width > int32Max ∨ height > int32Max ∨
      length > int32Max then
    throw "structure bounds are invalid"
  let second ← run file 0 (scan format true first)
  return ({
    format
    originalSize := ⟨width, height, length⟩
    size := ⟨width, height, length⟩
    offset := ⟨0, 0, 0⟩
    blocks := second.blocks
    nonAirBlocks := second.nonAirBlocks }, second.registry)

/-- The chunk index: the numbers of the blocks of each chunk, in file order. -/
def chunkIndex (object : MsgpackStructure) : AList fun _ : ChunkPos => List ℕ :=
  object.blocks.zipIdx.foldl (fun index entry =>
    AssocMap.pushBack index (blockToChunk (entry.1.pos.add object.offset)) entry.2) ∅

/-- Store a block in a chunk. -/
def placeBlock (object : MsgpackStructure) (air : RuntimeId) (chunkPosition : ChunkPos)
    (chunk : ChunkData) (block : Block) : Except String ChunkData :=
  let world := block.pos.add object.offset
  let storageY := world.y + kOverworldMinY
  let subY := floorDiv64 storageY 16
  if subY < int32Min ∨ subY > int32Max then
    .error (formatName object.format ++ " subchunk Y exceeds int32 range")
  else
    let localX := world.x - chunkPosition.x * 16
    let localY := storageY - subY * 16
    let localZ := world.z - chunkPosition.z * 16
    if localX < 0 ∨ localX ≥ 16 ∨ localY < 0 ∨ localY ≥ 16 ∨ localZ < 0 ∨ localZ ≥ 16 then
      .error (formatName object.format ++ " block materializes outside subchunk: world=(" ++
        toString world.x ++ "," ++ toString world.y ++ "," ++ toString world.z ++ "), chunk=(" ++
        toString chunkPosition.x ++ "," ++ toString chunkPosition.z ++ "), subY=" ++ toString subY ++
        ", local=(" ++ toString localX ++ "," ++ toString localY ++ "," ++ toString localZ ++ ")")
    else .ok (chunk.setBlock air subY ((localY * 16 + localZ) * 16 + localX).toNat block.runtime)

/-- The blocks of a chunk by the index. A number outside of the list of blocks, which the source would
read unchecked, is an error here. -/
def fillChunk (object : MsgpackStructure) (air : RuntimeId) (chunkPosition : ChunkPos)
    (chunk : ChunkData) : Except String ChunkData :=
  ((object.chunkIndex.lookup chunkPosition).getD []).foldlM (fun chunk index =>
    match object.blocks[index]? with
    | none => .error "index out of range"
    | some block => object.placeBlock air chunkPosition chunk block) chunk

def getChunks (object : MsgpackStructure) (air : RuntimeId) (positions : List ChunkPos) :
    Except String ChunkMap :=
  if object.blocks.any fun block => decide (¬ (block.pos.add object.offset).FitsInt32) then
    .error (formatName object.format ++ " offset moves block outside int32 range")
  else if object.blocks.length > 4294967295 then
    .error (formatName object.format ++ " chunk index exceeds uint32 capacity")
  else
    (ChunkMap.emplaceAll positions).forEachM (object.fillChunk air)

end MsgpackStructure

end WaterStructure
