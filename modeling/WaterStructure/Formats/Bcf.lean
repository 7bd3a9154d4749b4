import WaterStructure.Core.MappingRegistry
import WaterStructure.Formats.CommandReaders
import WaterStructure.Formats.RecordCounts
import WaterStructure.Library.SeekReader
import WaterStructure.Library.SortedMap

/-!
# BCF

A BCF file has tables behind pointers: names, values, a palette, and the offsets of sections. A section
is a list of regions, each a box of one palette entry. The file is read in two scans over the sections,
the first for the bounds and the second for the regions, which are kept relative to the bounds. The
offsets are loaded a batch at a time. Whatever reads from the file first seeks to where it reads, so
only the position within one piece of the file matters.
-/

namespace WaterStructure

open SeekReader

namespace Bcf

def kMaxTableEntries : ℕ := 16777216

def kMaxExpandedBlocks : ℕ := 268435456

def kMaxRetainedRegions : ℕ := 4000000

def kOffsetBatchSize : ℕ := 4096

def truncated (field : String) (position : ℕ) : String :=
  "BCF " ++ field ++ " truncated at offset " ++ toString position

def u8 (field : String) : Reader ℕ := number (truncated field) 1

def u16 (field : String) : Reader ℕ := number (truncated field) 2

def i16 (field : String) : Reader ℤ := signed16 (truncated field)

def u32 (field : String) : Reader ℕ := number (truncated field) 4

def u64 (field : String) : Reader ℕ := number (truncated field) 8

def bytes (length : ℕ) (field : String) : Reader (List Char) := do
  let bytes ← take (truncated field) length
  return bytes.map fun byte => Char.ofNat byte.toNat

def string16 (field : String) : Reader (List Char) := do
  let length ← u16 field
  bytes length field

/-! ## Tables -/

/-- The pointers of the header. -/
structure Header where
  offsetsTable : ℕ
  paletteOffset : ℕ
  typeMapOffset : ℕ
  stateNameOffset : ℕ
  stateValueOffset : ℕ

def readHeader : Reader Header := do
  let magic ← bytes 3 "magic"
  if magic ≠ ['B', 'C', 'F'] then lift (.error "invalid BCF magic")
  let _ ← u8 "version"
  let _ ← u16 "width"
  let _ ← u16 "length"
  let _ ← u16 "height"
  let _ ← u8 "subchunk base size"
  let _ ← u64 "subchunk count"
  let offsetsTable ← u64 "offset table pointer"
  let paletteOffset ← u64 "palette pointer"
  let typeMapOffset ← u64 "type map pointer"
  let stateNameOffset ← u64 "state name map pointer"
  let stateValueOffset ← u64 "state value map pointer"
  return { offsetsTable, paletteOffset, typeMapOffset, stateNameOffset, stateValueOffset }

/-- A table of texts by their number; later entries replace earlier ones. -/
def readMap (file : File) (offset : ℕ) (countField tooMany : String)
    (readId : Reader ℕ) (nameField : String) : Except String (AList fun _ : ℕ => List Char) :=
  if offset = 0 ∨ offset ≥ file.length then .ok ∅
  else
    run file offset do
      let count ← u32 countField
      if count > kMaxTableEntries then lift (.error tooMany)
      let entry : Reader (ℕ × List Char) := do
        let id ← readId
        let name ← string16 nameField
        return (id, name)
      processed entry (fun map entry => .ok (map.insert entry.1 entry.2)) count ∅

def readTypeMap (file : File) (offset : ℕ) : Except String (AList fun _ : ℕ => List Char) :=
  readMap file offset "type count" "BCF type count exceeds limit" (u16 "type id") "type name"

def readByteStringMap (file : File) (offset : ℕ) (field : String) :
    Except String (AList fun _ : ℕ => List Char) :=
  readMap file offset field "BCF map count exceeds limit" (u8 field) field

/-- The states of a palette entry by their names. -/
abbrev EncodedStates := SortedMap (List Char) (List Char)

/-- A property with the value that the file gives it, if it gives one. -/
def mergeProperty (encodedStates : EncodedStates) (property : BlockStateProperty) :
    BlockStateProperty :=
  match encodedStates.lookup property.name with
  | none => property
  | some value =>
    { property with
      value :=
        if value = "true".toList then ['1'] else if value = "false".toList then ['0'] else value }

/-- The name and the states as Java writes them. -/
def javaText (name : List Char) (encodedStates : EncodedStates) : List Char :=
  name ++ ['['] ++
    List.intercalate [','] (encodedStates.entries.map fun entry => entry.1 ++ ['='] ++ entry.2) ++ [']']

/-- `resolve_palette`. -/
def resolvePalette (registry : MappingRegistry) (name : List Char) (encodedStates : EncodedStates) :
    Option RuntimeId :=
  if encodedStates.entries.isEmpty then registry.find name [] 0
  else
    let direct := (registry.find name [] 0).bind fun base =>
      (registry.state base).bind fun state =>
        registry.find name (state.states.map (mergeProperty encodedStates)) 0
    match direct with
    | some runtime => some runtime
    | none => registry.javaRuntimeId (javaText name encodedStates)

/-- A palette entry: its number, that of its name, and those of its states and values. -/
structure PaletteEntry where
  id : ℕ
  typeId : ℕ
  states : List (ℕ × ℕ)

def readPaletteEntry : Reader PaletteEntry := do
  let id ← u32 "palette id"
  let typeId ← u16 "palette type id"
  let stateCount ← u16 "palette state count"
  let state : Reader (ℕ × ℕ) := do
    let stateId ← u8 "palette state id"
    let valueId ← u8 "palette value id"
    return (stateId, valueId)
  let states ← repeated state stateCount
  return { id, typeId, states }

/-- Add a state whose name and value are known and not empty. -/
def addState (stateNameMap stateValueMap : AList fun _ : ℕ => List Char) (states : EncodedStates)
    (state : ℕ × ℕ) : EncodedStates :=
  match stateNameMap.lookup state.1, stateValueMap.lookup state.2 with
  | some name, some value => if name ≠ [] ∧ value ≠ [] then states.set name value else states
  | _, _ => states

/-- The name of a palette entry. -/
def blockName (typeMap : AList fun _ : ℕ => List Char) (typeId : ℕ) : List Char :=
  match typeMap.lookup typeId with
  | some name => if name = [] then "minecraft:air".toList else name
  | none => "minecraft:air".toList

/-- What the sections are read with. -/
structure Tables where
  offsetsTable : ℕ
  offsetCount : ℕ
  palette : AList fun _ : ℕ => RuntimeId

def readPalette (registry : MappingRegistry) (file : File) (offset : ℕ)
    (typeMap stateNameMap stateValueMap : AList fun _ : ℕ => List Char) :
    Except String (AList fun _ : ℕ => RuntimeId) :=
  if offset = 0 ∨ offset ≥ file.length then .ok ∅
  else
    run file offset do
      let count ← u32 "palette count"
      if count > kMaxTableEntries then lift (.error "BCF palette count exceeds limit")
      processed readPaletteEntry (fun palette entry =>
        let states := entry.states.foldl (addState stateNameMap stateValueMap) SortedMap.empty
        .ok (match resolvePalette registry (blockName typeMap entry.typeId) states with
          | some runtime => palette.insert entry.id runtime
          | none => palette)) count ∅

/-- The part of `read` before the scans. -/
def readTables (registry : MappingRegistry) (file : File) : Except String Tables := do
  let header ← run file 0 readHeader
  if header.offsetsTable = 0 ∨ header.offsetsTable ≥ file.length then
    throw "BCF offset table pointer is invalid"
  let offsetCount ← run file header.offsetsTable (u64 "offset count")
  if offsetCount > kMaxTableEntries then throw "BCF offset count exceeds limit"
  if header.offsetsTable > file.length ∨ file.length - header.offsetsTable < 8 ∨
      offsetCount > (file.length - header.offsetsTable - 8) / 8 then
    throw "BCF offset table is truncated"
  let typeMap ← readTypeMap file header.typeMapOffset
  let stateNameMap ← readByteStringMap file header.stateNameOffset "state name map"
  let stateValueMap ← readByteStringMap file header.stateValueOffset "state value map"
  let palette ← readPalette registry file header.paletteOffset typeMap stateNameMap stateValueMap
  return { offsetsTable := header.offsetsTable, offsetCount, palette }

/-! ## Sections -/

/-- A region of a section, as it stands in the file. -/
structure Record where
  paletteId : ℕ
  first : BlockPos
  second : BlockPos

def readRecord : Reader Record := do
  let paletteId ← u32 "region palette id"
  let x1 ← i16 "region x1"
  let y1 ← i16 "region y1"
  let z1 ← i16 "region z1"
  let x2 ← i16 "region x2"
  let y2 ← i16 "region y2"
  let z2 ← i16 "region z2"
  return { paletteId, first := ⟨x1, y1, z1⟩, second := ⟨x2, y2, z2⟩ }

structure Region where
  runtime : RuntimeId
  minimum : BlockPos
  maximum : BlockPos
  deriving DecidableEq

/-- The box of a record, with its corners in order. -/
def Record.region (record : Record) (origin : BlockPos) (runtime : RuntimeId) : Region where
  runtime
  minimum := ⟨origin.x + min record.first.x record.second.x,
    origin.y + min record.first.y record.second.y, origin.z + min record.first.z record.second.z⟩
  maximum := ⟨origin.x + max record.first.x record.second.x,
    origin.y + max record.first.y record.second.y, origin.z + max record.first.z record.second.z⟩

/-- The region relative to a corner of the bounds. -/
def Region.relativeTo (region : Region) (corner : BlockPos) : Region :=
  { region with minimum := region.minimum.sub corner, maximum := region.maximum.sub corner }

def Region.volume (region : Region) : ℕ :=
  (region.maximum.x - region.minimum.x + 1).toNat * (region.maximum.y - region.minimum.y + 1).toNat *
    (region.maximum.z - region.minimum.z + 1).toNat

/-- The variables of the scans. -/
structure ScanState where
  boundsMin : BlockPos := ⟨0, 0, 0⟩
  boundsMax : BlockPos := ⟨0, 0, 0⟩
  populated : Bool := false
  expanded : ℕ := 0
  nonAirRegions : ℕ := 0
  nonAirBlocks : ℕ := 0
  regions : List Region := []

/-- Widen the bounds by a region. -/
def ScanState.widen (state : ScanState) (region : Region) : ScanState :=
  if state.populated = false then
    { state with populated := true, boundsMin := region.minimum, boundsMax := region.maximum }
  else
    { state with
      boundsMin := ⟨min state.boundsMin.x region.minimum.x, min state.boundsMin.y region.minimum.y,
        min state.boundsMin.z region.minimum.z⟩
      boundsMax := ⟨max state.boundsMax.x region.maximum.x, max state.boundsMax.y region.maximum.y,
        max state.boundsMax.z region.maximum.z⟩ }

/-- What a scan does with a region that is not air. -/
def scanRegion (materialize : Bool) (record : Record) (region : Region) (state : ScanState) :
    Except String ScanState :=
  if materialize then
    if state.regions.length ≥ kMaxRetainedRegions then
      .error "BCF non-air region count exceeds limit"
    else .ok { state with regions := state.regions ++ [region.relativeTo state.boundsMin] }
  else if region.volume > kMaxExpandedBlocks ∨
      state.expanded > kMaxExpandedBlocks - region.volume then
    .error "expanded block count exceeds limit"
  else
    let state := { state with
      expanded := state.expanded + region.volume
      nonAirBlocks := saturatingAdd state.nonAirBlocks (countedVolume record.first record.second) }
    let state := state.widen region
    if state.nonAirRegions ≥ kMaxRetainedRegions then .error "BCF non-air region count exceeds limit"
    else .ok { state with nonAirRegions := state.nonAirRegions + 1 }

/-- What a scan does with a record. -/
def scanRecord (tables : Tables) (air : RuntimeId) (materialize : Bool) (origin : BlockPos)
    (state : ScanState) (record : Record) : Except String ScanState :=
  match tables.palette.lookup record.paletteId with
  | none => .ok state
  | some runtime =>
    if runtime = 0 ∨ runtime = air then .ok state
    else scanRegion materialize record (record.region origin runtime) state

/-- The part of a section before its regions: the origin and their number. -/
def readSectionHead : Reader (BlockPos × ℕ) := do
  let _ ← u64 "section size"
  let x ← i16 "section x"
  let y ← i16 "section y"
  let z ← i16 "section z"
  let count ← u32 "region count"
  if count > kMaxTableEntries then lift (.error "region count exceeds limit")
  return (⟨x, y, z⟩, count)

/-- Scan one section. -/
def scanSection (tables : Tables) (air : RuntimeId) (materialize : Bool) (state : ScanState) :
    Reader ScanState := do
  let head ← readSectionHead
  processed readRecord (scanRecord tables air materialize head.1) head.2 state

/-- The batches of `for_each_section_offset`; there are no more of them than offsets. -/
def forEachBatch {σ : Type} (file : File) (tables : Tables)
    (callback : ℕ → ℕ → σ → Except String σ) : ℕ → ℕ → σ → Except String σ
  | 0, _, s => .ok s
  | fuel + 1, batchStart, s =>
    if batchStart < tables.offsetCount then do
      let batchSize := min kOffsetBatchSize (tables.offsetCount - batchStart)
      let offsets ← run file (tables.offsetsTable + 8 + batchStart * 8)
        (repeated (u64 "section offset") batchSize)
      let s ← offsets.zipIdx.foldlM (fun s entry => callback (batchStart + entry.2) entry.1 s) s
      forEachBatch file tables callback fuel (batchStart + kOffsetBatchSize) s
    else .ok s

/-- `for_each_section_offset`. -/
def forEachSectionOffset {σ : Type} (file : File) (tables : Tables)
    (callback : ℕ → ℕ → σ → Except String σ) (s : σ) : Except String σ :=
  forEachBatch file tables callback tables.offsetCount 0 s

/-- What a scan does at the offset of a section. -/
def scanAt (file : File) (tables : Tables) (air : RuntimeId) (materialize : Bool)
    (sectionIndex offset : ℕ) (state : ScanState) : Except String ScanState :=
  if offset = 0 ∨ offset ≥ file.length then .ok state
  else
    (run file offset (scanSection tables air materialize state)).mapError fun error =>
      "section index " ++ toString sectionIndex ++ ": " ++ error

/-- `scan_sections`. -/
def scanSections (file : File) (tables : Tables) (air : RuntimeId) (materialize : Bool)
    (state : ScanState) : Except String ScanState :=
  forEachSectionOffset file tables (scanAt file tables air materialize) state

end Bcf

structure BcfStructure where
  originalSize : Size
  size : Size
  offset : BlockPos
  regions : List Bcf.Region
  nonAirBlocks : ℕ

namespace BcfStructure

open Bcf NestedLoop

def setOffset (object : BcfStructure) (offset : BlockPos) : BcfStructure :=
  { object with offset, size := object.originalSize.expand offset }

/-- `read`, without what stands before its errors. -/
def read (registry : MappingRegistry) (file : File) : Except String BcfStructure := do
  let tables ← Bcf.readTables registry file
  let first ← scanSections file tables registry.airRuntimeId false {}
  if first.populated = false ∨ first.nonAirRegions = 0 then throw "BCF has no non-air regions"
  let width := first.boundsMax.x - first.boundsMin.x + 1
  let height := first.boundsMax.y - first.boundsMin.y + 1
  let length := first.boundsMax.z - first.boundsMin.z + 1
  if width > int32Max ∨ height > int32Max ∨ length > int32Max then throw "BCF bounds exceed int32"
  let second ← scanSections file tables registry.airRuntimeId true first
  return {
    originalSize := ⟨width, height, length⟩
    size := ⟨width, height, length⟩
    offset := ⟨0, 0, 0⟩
    regions := second.regions
    nonAirBlocks := second.nonAirBlocks }

/-- One layer of a region in a chunk. -/
def fillLayer (air : RuntimeId) (chunkPosition : ChunkPos) (runtime : RuntimeId)
    (minimumX maximumX minimumZ maximumZ : ℤ) (chunk : ChunkData) (y : ℤ) : Except String ChunkData :=
  let storageY := y + kOverworldMinY
  let subY := floorDiv64 storageY 16
  if subY < int32Min ∨ subY > int32Max then .error "BCF subchunk Y exceeds int32 range"
  else
    let chunk := chunk.ensureSubChunk air subY
    let localY := storageY - subY * 16
    if localY < 0 ∨ localY ≥ 16 then
      .error ("BCF block materializes outside subchunk: y=" ++ toString y ++ ", subY=" ++ toString subY)
    else
      .ok ((Int.range minimumX (maximumX + 1)).foldl (fun chunk x =>
        (Int.range minimumZ (maximumZ + 1)).foldl (fun chunk z =>
          chunk.setBlock air subY
            ((localY * 16 + (z - chunkPosition.z * 16)) * 16 + (x - chunkPosition.x * 16)).toNat
            runtime) chunk) chunk)

/-- The part of a region in a chunk. -/
def fillRegion (air : RuntimeId) (offset : BlockPos) (chunkPosition : ChunkPos) (chunk : ChunkData)
    (region : Region) : Except String ChunkData :=
  let minimum := region.minimum.add offset
  let maximum := region.maximum.add offset
  let minimumX := max minimum.x (chunkPosition.x * 16)
  let maximumX := min maximum.x (chunkPosition.x * 16 + 15)
  let minimumZ := max minimum.z (chunkPosition.z * 16)
  let maximumZ := min maximum.z (chunkPosition.z * 16 + 15)
  if minimumX > maximumX ∨ minimumZ > maximumZ then .ok chunk
  else if minimum.y < int32Min ∨ maximum.y > int32Max then
    .error "BCF offset moves Y outside int32 range"
  else
    (Int.range minimum.y (maximum.y + 1)).foldlM
      (fillLayer air chunkPosition region.runtime minimumX maximumX minimumZ maximumZ) chunk

/-- `get_chunks`. -/
def getChunks (object : BcfStructure) (air : RuntimeId) (positions : List ChunkPos) :
    Except String ChunkMap :=
  (ChunkMap.emplaceAll positions).forEachM fun chunkPosition chunk =>
    object.regions.foldlM (fillRegion air object.offset chunkPosition) chunk

end BcfStructure

end WaterStructure
