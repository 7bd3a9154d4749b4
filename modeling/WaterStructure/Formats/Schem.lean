import WaterStructure.Core.Grid
import WaterStructure.Library.Varint

/-!
# Schem: the row index and chunk materialisation

A document is read tag by tag, in any order. The block data are numbers of variable length, so
the reader keeps the byte offset of every row and, every 256 columns, the distance from the
start of the row. When the sizes are known before the data, both are built while the data are
copied to the temporary file; otherwise a second pass over that file builds them. The Java state
registry is the parameter `resolve`. Signed overflow, undefined in the source, is an error here.
-/

namespace WaterStructure

namespace Schem

def kIndexStride : ℕ := 256

def kMissingChunkOffset : ℕ := 65535

def kMaxSchemIndexBytes : ℕ := 134217728

/-- The largest value of `std::size_t`. -/
def sizeMax : ℕ := 18446744073709551615

/-- The tags a reader takes from a document; integers may be of any NBT width. -/
inductive Tag where
  | width (value : ℤ)
  | height (value : ℤ)
  | length (value : ℤ)
  | palette (entries : List (List Char × ℤ))
  | blockData (bytes : List UInt8)

inductive TagName where
  | Width
  | Height
  | Length
  | Palette
  | BlockData
  deriving DecidableEq

def Tag.name : Tag → TagName
  | .width _ => .Width
  | .height _ => .Height
  | .length _ => .Length
  | .palette _ => .Palette
  | .blockData _ => .BlockData

/-- The tags of the `Schematic` compound, for the second version with those of `Blocks` in its
place. Names do not repeat. -/
structure Document where
  tags : List Tag
  unique : (tags.map Tag.name).Nodup

/-- The bytes of the `BlockData` tag. -/
def Document.blockData (document : Document) : Option (List UInt8) :=
  document.tags.findSome? fun
    | .blockData bytes => some bytes
    | _ => none

/-- How the caller is going to use the structure. -/
structure ReadFlags where
  streamingWorldImport : Bool := false
  directWorldStream : Bool := false

/-- `mPalette`, `mDensePalette`, `mMaxPaletteIndex` and `mUnknownRuntimeId`. -/
structure Palette where
  entries : AList fun _ : ℕ => RuntimeId
  dense : List RuntimeId
  maxIndex : ℕ
  unknown : RuntimeId

/-- The loop over the palette compound. -/
def parseEntries (resolve : List Char → Option RuntimeId) (unknown : RuntimeId) :
    (AList fun _ : ℕ => RuntimeId) → ℕ → ℕ → List (List Char × ℤ) →
      Except String ((AList fun _ : ℕ => RuntimeId) × ℕ)
  | palette, maxIndex, _, [] => .ok (palette, maxIndex)
  | palette, maxIndex, entryCount, (javaState, index) :: rest =>
    if entryCount ≥ 1048576 then .error "Schem palette 项数超过限制"
    else if ¬ IsInt32 index ∨ index < 0 then .error "Schem palette 索引不是非负整数"
    else if (palette.lookup index.toNat).isSome then .error "Schem palette 包含重复索引"
    else
      parseEntries resolve unknown
        (palette.insert index.toNat ((resolve javaState).getD unknown))
        (max maxIndex index.toNat) (entryCount + 1) rest

def parsePalette (resolve : List Char → Option RuntimeId) (unknown : RuntimeId)
    (entries : List (List Char × ℤ)) : Except String Palette := do
  let (palette, maxIndex) ← parseEntries resolve unknown ∅ 0 0 entries
  if entries.isEmpty then .error "Schem palette 为空"
  else
    let dense :=
      if maxIndex ≤ 1048575 then
        palette.entries.foldl (fun dense entry => dense.set entry.1 entry.2)
          (List.replicate (maxIndex + 1) unknown)
      else []
    return { entries := palette, dense, maxIndex, unknown }

/-- `runtime_id_for`. -/
def Palette.runtimeIdFor (palette : Palette) (index : ℕ) : RuntimeId :=
  match palette.dense[index]? with
  | some id => id
  | none => (palette.entries.lookup index).getD palette.unknown

/-- Width, number of rows and volume, unless a product overflows. -/
def checkedGeometry (size : Size) : Option (ℕ × ℕ × ℕ) :=
  if size.width ≤ 0 ∨ size.height ≤ 0 ∨ size.length ≤ 0 then none
  else
    let width := size.width.toNat
    let height := size.height.toNat
    let length := size.length.toNat
    if height > sizeMax / length then none
    else if width > sizeMax / (height * length) then none
    else some (width, height * length, height * length * width)

/-- Checkpoints of a row and of all rows, unless the index is too large. -/
def checkedIndexShape (width rows : ℕ) : Option (ℕ × ℕ) :=
  if width > sizeMax - (kIndexStride - 1) then none
  else
    let chunkOffsetCount := (width + kIndexStride - 1) / kIndexStride
    if chunkOffsetCount ≠ 0 ∧ rows > sizeMax / chunkOffsetCount then none
    else
      let offsetEntries := rows * chunkOffsetCount
      if rows > sizeMax / 8 ∨ offsetEntries > sizeMax / 2 then none
      else if rows * 8 > sizeMax - offsetEntries * 2 ∨
          rows * 8 + offsetEntries * 2 > kMaxSchemIndexBytes then none
      else some (chunkOffsetCount, offsetEntries)

/-- `mRowOffsets`, `mChunkOffsets` and `mChunkOffsetCount`. -/
structure RowIndex where
  rowOffsets : List ℕ
  chunkOffsets : List ℕ
  chunkOffsetCount : ℕ

/-- An index before the pass; every checkpoint is missing. -/
def RowIndex.create (rows chunkOffsetCount entries : ℕ) : RowIndex :=
  ⟨List.replicate rows 0, List.replicate entries kMissingChunkOffset, chunkOffsetCount⟩

/-- Note where a block starts: the first of a row, and every 256th column within reach. -/
def RowIndex.mark (index : RowIndex) (row x encodedOffset : ℕ) : RowIndex :=
  let rowOffsets := if x = 0 then index.rowOffsets.set row encodedOffset else index.rowOffsets
  let relativeOffset := encodedOffset - (rowOffsets[row]?).getD 0
  { index with
    rowOffsets
    chunkOffsets :=
      if x % kIndexStride = 0 ∧ relativeOffset < kMissingChunkOffset then
        index.chunkOffsets.set (row * index.chunkOffsetCount + x / kIndexStride) relativeOffset
      else index.chunkOffsets }

/-- The variables of the pass over the bytes while they are copied. -/
structure IndexPass where
  index : RowIndex
  position : ℕ := 0
  row : ℕ := 0
  x : ℕ := 0
  encodedOffset : ℕ := 0
  value : ℕ := 0
  shift : ℕ := 0
  maxPaletteIndex : ℕ := 0

/-- One byte of the pass. -/
def IndexPass.step (width rows expectedCount : ℕ) (pass : IndexPass) (byte : UInt8) :
    Except String IndexPass :=
  if pass.shift = 0 ∧ (pass.position ≥ expectedCount ∨ pass.row ≥ rows) then
    .error "Schem BlockData 方块数超过 size"
  else
    let index :=
      if pass.shift = 0 then pass.index.mark pass.row pass.x pass.encodedOffset else pass.index
    let value := Varint.addByte pass.value pass.shift byte
    let encodedOffset := pass.encodedOffset + 1
    if byte &&& 0x80 = 0 then
      if value > 4294967295 then .error "Schem varint 超出 uint32 范围"
      else
        .ok {
          index
          position := pass.position + 1
          row := if pass.x + 1 = width then pass.row + 1 else pass.row
          x := if pass.x + 1 = width then 0 else pass.x + 1
          encodedOffset
          value := 0
          shift := 0
          maxPaletteIndex := max pass.maxPaletteIndex value }
    else if pass.shift + 7 ≥ 35 then .error "Schem varint 过长"
    else .ok { pass with index, encodedOffset, value, shift := pass.shift + 7 }

/-- The checks behind the pass. -/
def IndexPass.finish (rows expectedCount : ℕ) (pass : IndexPass) : Except String (RowIndex × ℕ) :=
  if pass.shift ≠ 0 then .error "Schem BlockData 以截断 varint 结束"
  else if pass.position ≠ expectedCount ∨ pass.row ≠ rows ∨ pass.x ≠ 0 then
    .error "Schem BlockData 方块数与 size 不一致"
  else .ok (pass.index, pass.maxPaletteIndex)

/-- The second pass, over the temporary file: `remaining` blocks from `position` on. -/
def indexBlocks (width maxPaletteIndex : ℕ) :
    RowIndex → ℕ → ℕ → ℕ → List UInt8 → Except String RowIndex
  | index, _, _, 0, bytes =>
    if bytes.isEmpty then .ok index else .error "Schem BlockData 方块数超过 size"
  | index, position, encodedOffset, remaining + 1, bytes =>
    match Varint.decode bytes with
    | none => .error "Schem BlockData varint 读取失败或 palette 索引越界"
    | some (value, size) =>
      if value > 4294967295 ∨ value > maxPaletteIndex then
        .error "Schem BlockData varint 读取失败或 palette 索引越界"
      else
        indexBlocks width maxPaletteIndex
          (index.mark (position / width) (position % width) encodedOffset)
          (position + 1) (encodedOffset + size) remaining (bytes.drop size)

/-- The variables of `read`. -/
structure ReadState where
  originalSize : Size := ⟨0, 0, 0⟩
  hasSize : Bool := false
  palette : Option Palette := none
  hasData : Bool := false
  blockData : List UInt8 := []
  blockDataBytes : ℕ := 0
  deferred : Bool := false
  index : Option (RowIndex × ℕ) := none

/-- All three dimensions are known. -/
def ReadState.sizeKnown (state : ReadState) : Bool :=
  decide (state.originalSize.width > 0 ∧ state.originalSize.height > 0 ∧
    state.originalSize.length > 0)

/-- `read_data`. -/
def readData (flags : ReadFlags) (state : ReadState) (bytes : List UInt8) :
    Except String ReadState :=
  if flags.directWorldStream = true ∧ state.hasData = false ∧
      (state.palette.elim 0 Palette.maxIndex) ≤ 65535 then
    if state.sizeKnown = true ∧ checkedGeometry state.originalSize = none then
      .error "Schem 尺寸乘积溢出"
    else .ok { state with blockDataBytes := bytes.length, deferred := true, hasData := true }
  else if state.hasData = false ∧ flags.streamingWorldImport = false ∧ state.sizeKnown = true then
    match checkedGeometry state.originalSize with
    | none => .error "Schem 尺寸乘积溢出"
    | some (width, rows, expectedCount) =>
      match checkedIndexShape width rows with
      | none => .error "Schem 行索引大小溢出"
      | some (chunkOffsetCount, entries) => do
        let pass ← bytes.foldlM (IndexPass.step width rows expectedCount)
          { index := RowIndex.create rows chunkOffsetCount entries }
        let index ← pass.finish rows expectedCount
        return { state with
          blockData := state.blockData ++ bytes
          blockDataBytes := state.blockDataBytes + bytes.length
          hasData := true
          index := some index }
  else
    .ok { state with
      blockData := state.blockData ++ bytes
      blockDataBytes := state.blockDataBytes + bytes.length
      hasData := true }

/-- One turn of `parse_document`. -/
def readTag (resolve : List Char → Option RuntimeId) (unknown : RuntimeId) (flags : ReadFlags)
    (state : ReadState) : Tag → Except String ReadState
  | .width value =>
    if ¬ IsInt32 value then .error "Schem 尺寸整数超出 int32 范围"
    else .ok { state with originalSize := { state.originalSize with width := value }, hasSize := true }
  | .height value =>
    if ¬ IsInt32 value then .error "Schem 尺寸整数超出 int32 范围"
    else .ok { state with originalSize := { state.originalSize with height := value }, hasSize := true }
  | .length value =>
    if ¬ IsInt32 value then .error "Schem 尺寸整数超出 int32 范围"
    else .ok { state with originalSize := { state.originalSize with length := value }, hasSize := true }
  | .palette entries => do
    let palette ← parsePalette resolve unknown entries
    return { state with palette := some palette }
  | .blockData bytes => readData flags state bytes

/-- The extent grown by the offset, saturating at both ends. -/
def extentWithOffset (extent offset : ℤ) : ℤ :=
  let wideExtent := extent + if offset < 0 then -offset else offset
  if wideExtent > int32Max then int32Max
  else if wideExtent < int32Min then int32Min
  else wideExtent

end Schem

/-- A structure that the Schem reader has filled. `blockData` is the temporary file; it is missing
when the data stay in the source file. -/
structure SchemStructure where
  originalSize : Size
  size : Size
  offset : BlockPos
  palette : Schem.Palette
  blockData : Option (List UInt8)
  blockDataBytes : ℕ
  index : Option Schem.RowIndex
  source : Schem.Document

namespace SchemStructure

open Schem

def setOffset (s : SchemStructure) (offset : BlockPos) : SchemStructure :=
  { s with
    offset
    size := ⟨extentWithOffset s.originalSize.width offset.x,
      extentWithOffset s.originalSize.height offset.y,
      extentWithOffset s.originalSize.length offset.z⟩ }

/-- The part of `read` behind the document. -/
def ofReadState (flags : ReadFlags) (document : Document) (state : ReadState) :
    Except String SchemStructure :=
  if state.originalSize.width ≤ 0 ∨ state.originalSize.height ≤ 0 ∨
      state.originalSize.length ≤ 0 ∨ state.hasSize = false then .error "Schem 尺寸无效"
  else
    match state.palette with
    | none => .error "Schem 缺少 Palette/BlockData"
    | some palette =>
      if state.hasData = false then .error "Schem 缺少 Palette/BlockData"
      else
        match checkedGeometry state.originalSize with
        | none => .error "Schem 尺寸乘积溢出"
        | some (width, rows, volume) =>
          if volume > state.blockDataBytes then .error "Schem 尺寸体积超过 BlockData 长度"
          else
            let result (blockData : Option (List UInt8)) (index : Option RowIndex) :=
              setOffset {
                originalSize := state.originalSize
                size := ⟨0, 0, 0⟩
                offset := ⟨0, 0, 0⟩
                palette
                blockData
                blockDataBytes := state.blockDataBytes
                index
                source := document } ⟨0, 0, 0⟩
            match state.index with
            | some (index, indexedMaxPaletteIndex) =>
              if indexedMaxPaletteIndex > palette.maxIndex then
                .error "Schem BlockData 引用了 palette 范围外的索引"
              else .ok (result (some state.blockData) (some index))
            | none =>
              if state.deferred = true then .ok (result none none)
              else if flags.streamingWorldImport = false ∨ palette.maxIndex > 65535 then
                match checkedIndexShape width rows with
                | none => .error "Schem 行索引大小溢出"
                | some (chunkOffsetCount, entries) => do
                  let index ← indexBlocks width palette.maxIndex
                    (RowIndex.create rows chunkOffsetCount entries) 0 0 volume state.blockData
                  return result (some state.blockData) (some index)
              else .ok (result (some state.blockData) none)

def read (resolve : List Char → Option RuntimeId) (unknown : RuntimeId) (flags : ReadFlags)
    (document : Document) : Except String SchemStructure := do
  let state ← document.tags.foldlM (readTag resolve unknown flags) {}
  ofReadState flags document state

/-- `read_row_range`: the palette indices of columns `beginX` to `endX` of a row, decoded from
the checkpoint before `beginX` or, when it is missing, from the start of the row. -/
def readRowRange (s : SchemStructure) (bytes : List UInt8) (index : RowIndex) (row : ℕ)
    (beginX endX : ℤ) : Option (List ℕ) :=
  if row ≥ index.rowOffsets.length ∨ beginX < 0 ∨ endX < beginX then none
  else
    let checkpointIndex := beginX.toNat / kIndexStride
    if checkpointIndex ≥ index.chunkOffsetCount then none
    else do
      let checkpoint ← index.chunkOffsets[row * index.chunkOffsetCount + checkpointIndex]?
      let rowOffset ← index.rowOffsets[row]?
      let sourceX := if checkpoint = kMissingChunkOffset then 0 else checkpointIndex * kIndexStride
      let sourceOffset := if checkpoint = kMissingChunkOffset then rowOffset else rowOffset + checkpoint
      let rowEnd := (index.rowOffsets[row + 1]?).getD s.blockDataBytes
      if sourceOffset > rowEnd then none
      else
        let (values, _) ← Varint.readValues s.palette.maxIndex (endX.toNat + 1 - sourceX)
          ((bytes.drop sourceOffset).take (rowEnd - sourceOffset))
        return values.drop (beginX.toNat - sourceX)

/-- The columns and rows of the source that a chunk shows. -/
structure SourceRange where
  minX : ℤ
  maxX : ℤ
  minZ : ℤ
  maxZ : ℤ
  deriving DecidableEq

def sourceRange (s : SchemStructure) (pos : ChunkPos) : SourceRange where
  minX := max 0 (pos.x * 16 - s.offset.x)
  maxX := min (s.originalSize.width - 1) (pos.x * 16 + 15 - s.offset.x)
  minZ := max 0 (pos.z * 16 - s.offset.z)
  maxZ := min (s.originalSize.length - 1) (pos.z * 16 + 15 - s.offset.z)

/-- Read a row of the source, `y` already checked, and hand it to the loop over its columns. -/
def withRow {α : Type} (s : SchemStructure) (beginX maxX : ℤ) (y z : ℤ)
    (columns : List ℕ → α) : Except String α :=
  match s.blockData, s.index with
  | some bytes, some index =>
    match s.readRowRange bytes index (y.toNat * s.originalSize.length.toNat + z.toNat)
        beginX maxX with
    | none => .error "Schem BlockData 行索引读取失败"
    | some rowData => .ok (columns rowData)
  | _, _ => .error "Schem BlockData 行索引读取失败"

/-- `structure_y` and `structure_y - 64` are computed in `int`. -/
def layerFits (s : SchemStructure) (y : ℤ) : Bool :=
  decide (IsInt32 (y + s.offset.y) ∧ IsInt32 (y + s.offset.y - 64))

/-- The loops over layers and rows that both paths share. -/
def forRows {α : Type} (s : SchemStructure) (minX maxX minZ maxZ : ℤ)
    (column : ℤ → ℤ → List ℕ → α → ℤ → α) (result : α) : Except String α :=
  let beginX := minX.tdiv kIndexStride * kIndexStride
  (Int.range 0 s.originalSize.height).foldlM (fun result y =>
    if s.layerFits y = false then .error "signed integer overflow"
    else
      (Int.range minZ (maxZ + 1)).foldlM (fun result z =>
        s.withRow beginX maxX y z fun rowData =>
          (Int.range beginX (maxX + 1)).foldl (column y z rowData) result) result) result

/-- The palette index of a column of the decoded row. -/
def columnIndex (minX : ℤ) (rowData : List ℕ) (x : ℤ) : ℕ :=
  (rowData[(x - minX.tdiv kIndexStride * kIndexStride).toNat]?).getD 0

/-- Store one block of a layer in local coordinates. -/
def storeLocal (s : SchemStructure) (air : RuntimeId) (y localX localZ : ℤ) (id : RuntimeId)
    (chunk : ChunkData) : ChunkData :=
  let structureY := y + s.offset.y
  let subY := floorDiv (structureY - 64) 16
  let localY := structureY - (subY * 16 + 64)
  chunk.setBlock air subY ((localY * 16 + localZ) * 16 + localX).toNat id

/-- The targets of the shared decode: requested chunks with columns in the source. -/
structure SharedRows where
  targetEntries : List (ℤ × ChunkPos)
  minTargetX : ℤ
  maxTargetX : ℤ
  minX : ℤ
  maxX : ℤ

/-- The loop that collects the targets; `none` when a chunk shows other rows than the first. -/
def collectShared (s : SchemStructure) (first : SourceRange) :
    SharedRows → List ChunkPos → Option SharedRows
  | shared, [] => some shared
  | shared, pos :: rest =>
    let range := s.sourceRange pos
    if range.minZ ≠ first.minZ ∨ range.maxZ ≠ first.maxZ then none
    else if range.minX ≤ range.maxX then
      let targetX := floorDiv (toInt32 (pos.x * 16 - s.offset.x)) 16
      collectShared s first
        { targetEntries := shared.targetEntries ++ [(targetX, pos)]
          minTargetX := min shared.minTargetX targetX
          maxTargetX := max shared.maxTargetX targetX
          minX := min shared.minX range.minX
          maxX := max shared.maxX range.maxX } rest
    else collectShared s first shared rest

/-- The rows that all requested chunks share, if they do. -/
def sharedRows (s : SchemStructure) (keys : List ChunkPos) : Option (ChunkPos × SharedRows) :=
  match keys with
  | [] => none
  | first :: _ =>
    let range := s.sourceRange first
    if range.minZ > range.maxZ then none
    else
      match s.collectShared range ⟨[], int32Max, int32Min, s.originalSize.width, -1⟩ keys with
      | none => none
      | some shared => if shared.minX > shared.maxX then none else some (first, shared)

/-- `targets`: the chunk for each target column, if any. -/
def SharedRows.targets (shared : SharedRows) : List (Option ChunkPos) :=
  shared.targetEntries.foldl
    (fun targets entry => targets.set (entry.1 - shared.minTargetX).toNat (some entry.2))
    (List.replicate (shared.maxTargetX - shared.minTargetX + 1).toNat none)

/-- The chunk that a target column leads to. -/
def SharedRows.targetAt (shared : SharedRows) (targets : List (Option ChunkPos)) (targetX : ℤ) :
    Option ChunkPos :=
  if targetX - shared.minTargetX < 0 then none
  else (targets[(targetX - shared.minTargetX).toNat]?).join

/-- The loop body of the shared decode. -/
def storeShared (s : SchemStructure) (air : RuntimeId) (firstChunkMinZ : ℤ) (shared : SharedRows)
    (targets : List (Option ChunkPos)) (y z : ℤ) (rowData : List ℕ) (result : ChunkMap) (x : ℤ) :
    ChunkMap :=
  if x < shared.minX then result
  else
    let targetX := floorDiv (toInt32 (x + s.offset.x)) 16
    match shared.targetAt targets targetX with
    | none => result
    | some target =>
      let id := s.palette.runtimeIdFor (columnIndex shared.minX rowData x)
      if id = air then result
      else
        let localX := toInt32 (x + s.offset.x - targetX * 16)
        let localZ := toInt32 (z + s.offset.z - firstChunkMinZ)
        AssocMap.update result target (s.storeLocal air y localX localZ id)

/-- The loop body of a chunk's own decode. -/
def storeOwn (s : SchemStructure) (air : RuntimeId) (pos : ChunkPos) (minX y z : ℤ)
    (rowData : List ℕ) (chunk : ChunkData) (x : ℤ) : ChunkData :=
  if x < minX then chunk
  else
    let id := s.palette.runtimeIdFor (columnIndex minX rowData x)
    if id = air then chunk
    else
      let localZ := toInt32 (z + s.offset.z - pos.z * 16)
      let localX := toInt32 (x + s.offset.x - pos.x * 16)
      s.storeLocal air y localX localZ id chunk

/-- Decode one chunk on its own. -/
def ownChunk (s : SchemStructure) (air : RuntimeId) (pos : ChunkPos) (chunk : ChunkData) :
    Except String ChunkData :=
  let range := s.sourceRange pos
  if range.minX > range.maxX ∨ range.minZ > range.maxZ then .ok chunk
  else s.forRows range.minX range.maxX range.minZ range.maxZ (s.storeOwn air pos range.minX) chunk

/-- Materialise the requested chunks. The rows are decoded once when all chunks share them, and
for each chunk otherwise. -/
def getChunks (s : SchemStructure) (air : RuntimeId) (positions : List ChunkPos) :
    Except String ChunkMap :=
  let result := ChunkMap.emplaceAll positions
  if s.blockData = none then .error "无法打开 Schem 临时 BlockData 文件"
  else
    match s.sharedRows result.keys with
    | some (first, shared) =>
      let range := s.sourceRange first
      s.forRows shared.minX shared.maxX range.minZ range.maxZ
        (s.storeShared air (first.z * 16) shared shared.targets) result
    | none => result.forEachM (s.ownChunk air)

end SchemStructure

end WaterStructure
