import WaterStructure.Core.BlockEntities
import WaterStructure.Formats.CommandReaders
import WaterStructure.Formats.McFunctionText
import WaterStructure.Library.Json
import WaterStructure.Library.KeepLast

/-!
# The KBDX reader

A KBDX file is a list of records, each with a position and a number for its block, and a JSON object
behind them that names the blocks and describes the block entities. Of the records at one position the
last one counts. The blocks are grouped by chunk when chunks are first asked for, and that index is kept
until the offset changes.

The JSON library and the NBT of an entity are parameters. A file has a size, as the file system gives it,
and the bytes that the stream yields, which need not be as many.
-/

namespace WaterStructure

namespace Kbdx

def kMaxRawBlocks : ℕ := 8000000

def kMaxMetadataBytes : ℕ := 64 * 1024 * 1024

def kMaxBlockEntities : ℕ := 1000000

def kMaxJsonDepth : ℕ := 128

def kMaxRuntimeCacheEntries : ℕ := 65536

def kRecordBytes : ℕ := 20

/-- What the reader is given: the registry, the JSON parser and the NBT of an entity that it keeps. -/
structure Services (Nbt : Type) where
  registry : McFunction.BlockRegistry
  parse : List Char → Option Json
  entityNbt : Json → Except String (Option Nbt)

structure File where
  size : Option ℕ
  bytes : Option (List UInt8)

/-- `validate_json_depth`, with the depth so far and the state of the quotation marks. -/
def validateJsonDepth : ℕ → Bool → Bool → List Char → Except String Unit
  | _, _, _, [] => .ok ()
  | depth, quoted, escaped, c :: rest =>
    if quoted && escaped then validateJsonDepth depth quoted false rest
    else if quoted && c = '\\' then validateJsonDepth depth quoted true rest
    else if c = '"' then validateJsonDepth depth (!quoted) escaped rest
    else if quoted then validateJsonDepth depth quoted escaped rest
    else if c = '{' || c = '[' then
      if depth + 1 > kMaxJsonDepth then .error "KBDX JSON nesting exceeds limit"
      else validateJsonDepth (depth + 1) quoted escaped rest
    else if c = '}' || c = ']' then validateJsonDepth (depth - 1) quoted escaped rest
    else validateJsonDepth depth quoted escaped rest

def readU32 (error : String) : List UInt8 → Except String (ℕ × List UInt8)
  | first :: second :: third :: fourth :: rest =>
    .ok (first.toNat + second.toNat * 256 + third.toNat * 65536 + fourth.toNat * 16777216, rest)
  | _ => .error error

def readI32 (error : String) (bytes : List UInt8) : Except String (ℤ × List UInt8) :=
  (readU32 error bytes).map fun read => (toInt32 read.1, read.2)

/-- `json_int` -/
def jsonInt (object : Json) (key : String) : Option ℤ :=
  let ranged (value : ℤ) : Option ℤ := if IsInt32 value then some value else none
  match object.member? key with
  | some (.integer value) => ranged value
  | some (.unsigned value) => ranged (Int.bmod value 18446744073709551616)
  | some (.float value) =>
    if value < int32Min ∨ value > int32Max then none else some (value.num.tdiv value.den)
  | _ => none

/-- One turn of the loop over the entities. -/
def readEntity {Nbt : Type} (services : Services Nbt) (entities : AList fun _ : BlockPos => Nbt)
    (entity : Json) : Except String (AList fun _ : BlockPos => Nbt) :=
  if entities.keys.length ≥ kMaxBlockEntities then
    .error ("KBDX 方块实体数量超过限制 " ++ toString kMaxBlockEntities)
  else if !entity.isObject then .ok entities
  else
    match jsonInt entity "x", jsonInt entity "y", jsonInt entity "z" with
    | some x, some y, some z =>
      (services.entityNbt entity).map fun payload =>
        match payload with
        | none => entities
        | some payload => entities.insert ⟨x, y, z⟩ payload
    | _, _, _ => .ok entities

/-- The number under which a member of the root names a block. -/
def paletteIndex (value : Json) : Option ℕ :=
  let ranged (value : ℤ) : Option ℕ :=
    if value < 0 ∨ value > 4294967295 then none else some value.toNat
  match value with
  | .integer value => ranged value
  | .unsigned value => ranged (Int.bmod value 18446744073709551616)
  | _ => none

abbrev Palette := AList fun _ : ℕ => List Char

def readPalette (members : List (List Char × Json)) : Palette :=
  members.foldl (fun palette member =>
    match paletteIndex member.2 with
    | none => palette
    | some index => palette.insert index member.1) ∅

/-- What is read before the records. -/
structure Metadata (Nbt : Type) where
  blockCount : ℕ
  palette : Palette
  entities : AList fun _ : BlockPos => Nbt

/-- An exception that `read` catches. -/
def parsing (error : String) : String := "解析 KBDX 失败: " ++ error

/-- The JSON object behind the records. -/
def readRoot {Nbt : Type} (services : Services Nbt) (blockCount : ℕ) (metadata : List UInt8) :
    Except String (Metadata Nbt) :=
  let text := metadata.map fun byte => Char.ofNat byte.toNat
  match validateJsonDepth 0 false false text with
  | .error error => .error (parsing error)
  | .ok () =>
    match services.parse text with
    | none => .error (parsing "parse error")
    | some root =>
      match root.members? with
      | none => .error "KBDX 元数据根节点不是对象"
      | some members =>
        match (((root.member? "BlockEntityData").bind Json.items?).getD []).foldlM (readEntity services)
          ∅ with
        | .error error => .error (parsing error)
        | .ok entities =>
          let palette := readPalette members
          if palette.entries.isEmpty then .error "KBDX 元数据没有 palette"
          else .ok ⟨blockCount, palette, entities⟩

/-- The first half of `read`, which changes nothing. -/
def readMetadata {Nbt : Type} (services : Services Nbt) (file : File) : Except String (Metadata Nbt) :=
  match file.bytes with
  | none => .error "无法打开 KBDX 文件"
  | some bytes =>
    match file.size with
    | none => .error "无法确定 KBDX 文件大小"
    | some size =>
      if size < 4 then .error "无法确定 KBDX 文件大小: 文件过短"
      else
        match readU32 "KBDX 文件意外结束" bytes with
        | .error error => .error (parsing error)
        | .ok (blockCount, _) =>
          let recordsEnd := 4 + blockCount * kRecordBytes
          if blockCount = 0 ∨ blockCount > kMaxRawBlocks then .error "KBDX 方块数量无效"
          else if recordsEnd > size then
            .error ("KBDX 方块记录截断，期望偏移 " ++ toString recordsEnd)
          else
            let metadataBytes := size - recordsEnd
            if metadataBytes = 0 ∨ metadataBytes > kMaxMetadataBytes then
              .error ("KBDX 元数据大小超过限制 " ++ toString kMaxMetadataBytes)
            else
              let metadata := (bytes.drop recordsEnd).take metadataBytes
              if metadata.length < metadataBytes then .error "KBDX 元数据截断"
              else readRoot services blockCount metadata

/-- A record, with its position and the numbers of its block. -/
structure Record where
  pos : BlockPos
  paletteIndex : ℕ
  aux : ℕ

def readRecord (bytes : List UInt8) : Except String (Record × List UInt8) := do
  let (x, bytes) ← readI32 "读取 KBDX X 失败" bytes
  let (y, bytes) ← readI32 "读取 KBDX Y 失败" bytes
  let (z, bytes) ← readI32 "读取 KBDX Z 失败" bytes
  let (paletteIndex, bytes) ← readU32 "KBDX 文件意外结束" bytes
  let (aux, bytes) ← readU32 "KBDX 文件意外结束" bytes
  return (⟨⟨x, y, z⟩, paletteIndex, aux⟩, bytes)

structure Block where
  pos : BlockPos
  runtimeId : RuntimeId
  deriving DecidableEq

/-- The name of a block, without blanks and with a namespace. -/
def blockName (name : List Char) : List Char :=
  let name := trimBy isSpace name
  if name.isEmpty || ':' ∈ name then name else "minecraft:".toList ++ name

/-- The runtime id of a record. -/
def resolve (registry : McFunction.BlockRegistry) (palette : Palette) (paletteIndex aux : ℕ) :
    RuntimeId :=
  let name := blockName ((palette.lookup paletteIndex).getD [])
  ((registry.legacyRuntimeId name (aux % 65536)).or (registry.compatibleJavaRuntimeId name)).getD
    ((registry.find "minecraft:unknown".toList []).getD registry.airRuntimeId)

def runtimeKey (paletteIndex aux : ℕ) : ℕ := paletteIndex <<< 32 ||| aux

abbrev RuntimeCache := AList fun _ : ℕ => RuntimeId

/-- Look a runtime id up, or resolve it and keep it while there is room. -/
def resolveCached (registry : McFunction.BlockRegistry) (palette : Palette) (cache : RuntimeCache)
    (paletteIndex aux : ℕ) : RuntimeCache × RuntimeId :=
  match cache.lookup (runtimeKey paletteIndex aux) with
  | some runtimeId => (cache, runtimeId)
  | none =>
    let runtimeId := resolve registry palette paletteIndex aux
    (if cache.keys.length < kMaxRuntimeCacheEntries then
        cache.insert (runtimeKey paletteIndex aux) runtimeId
      else cache, runtimeId)

/-- The variables of the loop over the records. -/
structure Decoded where
  cache : RuntimeCache := ∅
  min : BlockPos := ⟨int32Max, int32Max, int32Max⟩
  max : BlockPos := ⟨int32Min, int32Min, int32Min⟩
  blocks : List Block := []

def Decoded.push (registry : McFunction.BlockRegistry) (palette : Palette) (decoded : Decoded)
    (record : Record) : Decoded :=
  let resolved := resolveCached registry palette decoded.cache record.paletteIndex record.aux
  { cache := resolved.1
    min := ⟨Min.min decoded.min.x record.pos.x, Min.min decoded.min.y record.pos.y,
      Min.min decoded.min.z record.pos.z⟩
    max := ⟨Max.max decoded.max.x record.pos.x, Max.max decoded.max.y record.pos.y,
      Max.max decoded.max.z record.pos.z⟩
    blocks := decoded.blocks ++ [⟨record.pos, resolved.2⟩] }

/-- The loop over the records, with the exception that ends it early. -/
def readRecords (registry : McFunction.BlockRegistry) (palette : Palette) :
    ℕ → List UInt8 → Decoded → Decoded × Option String
  | 0, _, decoded => (decoded, none)
  | count + 1, bytes, decoded =>
    match readRecord bytes with
    | .error error => (decoded, some error)
    | .ok (record, rest) => readRecords registry palette count rest (decoded.push registry palette record)

/-- The order of the stable sort. -/
def Block.Before (left right : Block) : Prop :=
  if left.pos.x ≠ right.pos.x then left.pos.x < right.pos.x
  else if left.pos.y ≠ right.pos.y then left.pos.y < right.pos.y
  else left.pos.z < right.pos.z

instance (left right : Block) : Decidable (left.Before right) :=
  inferInstanceAs (Decidable (if left.pos.x ≠ right.pos.x then left.pos.x < right.pos.x
    else if left.pos.y ≠ right.pos.y then left.pos.y < right.pos.y
    else left.pos.z < right.pos.z))

/-- The order in which the blocks are kept. -/
def Block.Below (left right : Block) : Prop :=
  if left.pos.y ≠ right.pos.y then left.pos.y < right.pos.y
  else if left.pos.z ≠ right.pos.z then left.pos.z < right.pos.z
  else left.pos.x < right.pos.x

instance (left right : Block) : Decidable (left.Below right) :=
  inferInstanceAs (Decidable (if left.pos.y ≠ right.pos.y then left.pos.y < right.pos.y
    else if left.pos.z ≠ right.pos.z then left.pos.z < right.pos.z
    else left.pos.x < right.pos.x))

/-- Sort the blocks by position and keep the last one of each. -/
def lastBlocks (blocks : List Block) : List Block :=
  KeepLast.compact Block.pos (blocks.insertionSort fun left right => ¬ right.Before left)

def dimension (minimum maximum : ℤ) (axis : String) : Except String ℤ :=
  let span := maximum - minimum + 1
  if span ≤ 0 ∨ span > int32Max then .error ("KBDX " ++ axis ++ " 尺寸超出 int32 范围") else .ok span

def dimensions (min max : BlockPos) : Except String Size := do
  let width ← dimension min.x max.x "X"
  let height ← dimension min.y max.y "Y"
  let length ← dimension min.z max.z "Z"
  return ⟨width, height, length⟩

/-- The buckets of a chunk index. -/
abbrev Buckets := AList fun _ : ChunkPos => List ℕ

/-- `ChunkBlockIndex::ensure`, when the index is not ready. -/
def buildIndex (blocks : List Block) (offset : BlockPos) : Option Buckets :=
  if blocks.length > 4294967295 then none
  else
    some ((blocks.zipIdx.map fun entry => (blockToChunk (entry.1.pos.add offset), entry.2)).foldl
      (fun buckets entry => AssocMap.pushBack buckets entry.1 entry.2) ∅)

end Kbdx

open Kbdx

structure KbdxStructure (Nbt : Type) where
  size : Size := ⟨0, 0, 0⟩
  originalSize : Size := ⟨0, 0, 0⟩
  offset : BlockPos := ⟨0, 0, 0⟩
  blocks : List Block := []
  chunkIndex : Option Buckets := none
  blockEntities : AList fun _ : BlockPos => Nbt := ∅
  nonAirBlocks : ℕ := 0

namespace KbdxStructure

variable {Nbt : Type}

def setOffset (object : KbdxStructure Nbt) (offset : BlockPos) : KbdxStructure Nbt :=
  { object with offset, chunkIndex := none, size := object.originalSize.expand offset }

/-- The blocks that are left, with their entities, moved to the minimum. -/
def load (services : Services Nbt) (metadata : Metadata Nbt) (decoded : Decoded)
    (object : KbdxStructure Nbt) : KbdxStructure Nbt :=
  let compacted := lastBlocks decoded.blocks
  { object with
    blocks := (compacted.map fun block => { block with pos := block.pos.sub decoded.min }).insertionSort
      fun left right => ¬ right.Below left
    blockEntities := compacted.foldl (fun kept block =>
      match metadata.entities.lookup block.pos with
      | none => kept
      | some payload => AssocMap.tryEmplace kept (block.pos.sub decoded.min) payload) ∅
    nonAirBlocks := compacted.countP fun block => block.runtimeId ≠ services.registry.airRuntimeId }

/-- `read`. Once the records are read the blocks of the object are gone, also if the read fails. -/
def read (services : Services Nbt) (object : KbdxStructure Nbt) (file : File) :
    Except String Unit × KbdxStructure Nbt :=
  match readMetadata services file with
  | .error error => (.error error, object)
  | .ok metadata =>
    match readRecords services.registry metadata.palette metadata.blockCount
      ((file.bytes.getD []).drop 4) {} with
    | (decoded, some error) =>
      (.error (parsing error),
        { object with blocks := decoded.blocks, blockEntities := ∅, nonAirBlocks := 0 })
    | (decoded, none) =>
      if decoded.blocks.isEmpty then
        (.error "KBDX 没有方块", { object with blocks := [], blockEntities := ∅, nonAirBlocks := 0 })
      else
        let loaded := object.load services metadata decoded
        match dimensions decoded.min decoded.max with
        | .error error => (.error (parsing error), loaded)
        | .ok size => (.ok (), { loaded with originalSize := size }.setOffset ⟨0, 0, 0⟩)

/-- `ensure`: the index that is there, or a new one. -/
def ensureIndex (object : KbdxStructure Nbt) : Option Buckets :=
  match object.chunkIndex with
  | some buckets => some buckets
  | none => buildIndex object.blocks object.offset

/-- Store the block with an index of a bucket. -/
def storeBlock (object : KbdxStructure Nbt) (air : RuntimeId) (chunkPos : ChunkPos) (chunk : ChunkData)
    (index : ℕ) : Except String ChunkData :=
  match object.blocks[index]? with
  | none => .error "vector subscript out of range"
  | some block =>
    let world := block.pos.add object.offset
    let storageY := world.y - 64
    let subY := floorDiv64 storageY 16
    let localX := world.x - chunkPos.x * 16
    let localY := storageY - subY * 16
    let localZ := world.z - chunkPos.z * 16
    if ¬ IsInt32 subY then .error "KBDX subchunk Y exceeds int32 range"
    else if localX < 0 ∨ localX ≥ 16 ∨ localY < 0 ∨ localY ≥ 16 ∨ localZ < 0 ∨ localZ ≥ 16 then
      .error "KBDX block materializes outside subchunk"
    else .ok (chunk.setBlock air subY ((localY * 16 + localZ) * 16 + localX).toNat block.runtimeId)

/-- `get_chunks`, with the object whose index may have been built. -/
def getChunks (object : KbdxStructure Nbt) (air : RuntimeId) (positions : List ChunkPos) :
    Except String ChunkMap × KbdxStructure Nbt :=
  if object.blocks.any fun block => ¬ (block.pos.add object.offset).FitsInt32 then
    (.error "KBDX offset moves block outside int32 range", object)
  else
    match object.ensureIndex with
    | none => (.error "KBDX chunk index 超过 uint32 容量", object)
    | some buckets =>
      ((ChunkMap.emplaceAll positions).forEachM fun chunkPos chunk =>
          ((buckets.lookup chunkPos).getD []).foldlM (object.storeBlock air chunkPos) chunk,
        { object with chunkIndex := some buckets })

def countNonAirBlocks (object : KbdxStructure Nbt) : ℕ := object.nonAirBlocks

end KbdxStructure

end WaterStructure
