import Mathlib.Data.Char
import Mathlib.Data.List.Lex
import WaterStructure.Core.Grid
import WaterStructure.Library.BitPacking
import WaterStructure.Library.InternTable

/-!
# Litematic: packed block states

The writer numbers the block states of the structure in `(y, z, x)` order and packs the numbers
into 64-bit words with the smallest width that holds the palette; the reader recomputes the
width from the palette it finds and reads single entries. A `Region` is what both sides agree
on; the tag tree and the compression around it are left out. The registries are parameters:
`javaState` gives the writer the state of a runtime id, `resolve` gives the reader the runtime
id of a palette entry.
-/

namespace WaterStructure

/-- The limits of `ConversionOptions` that a writer checks. -/
structure ConversionOptions where
  softMemoryBudgetBytes : ℕ
  maxInFlightChunks : ℕ

namespace Litematic

open InternTable

/-- The fields of the region compound that carry the blocks. -/
structure Region where
  position : BlockPos
  signedSize : BlockPos
  palette : List BlockState
  packedStates : List (BitVec 64)

/-- `for (; value != 0; value >>= 1) ++bits`. -/
def countBits (value : ℕ) : ℕ :=
  if value = 0 then 0 else countBits (value / 2) + 1

namespace Writer

/-- The id of a block in the chunks handed to the writer. -/
def blockAt (chunks : ChunkMap) (air : RuntimeId) (pos : BlockPos) : RuntimeId :=
  match chunks.lookup ⟨floorDiv pos.x 16, floorDiv pos.z 16⟩ with
  | none => air
  | some chunk =>
    let subY := floorDiv (pos.y - 64) 16
    match chunk.subChunks.lookup subY with
    | none => air
    | some sub =>
      let localY := pos.y - (subY * 16 + 64)
      sub.layer0 ((localY * 16 + floorMod pos.z 16) * 16 + floorMod pos.x 16).toNat

def bitsForPalette (size : ℕ) : ℕ :=
  max 2 (countBits (if size > 0 then size - 1 else 0))

/-- The state of a runtime id under a namespaced name; unknown ids become air. -/
def javaPaletteState (javaState : RuntimeId → Option BlockState) (id : RuntimeId) : BlockState :=
  let state := (javaState id).getD ⟨"minecraft:air".toList, [], 0⟩
  if ':' ∈ state.name then state else { state with name := "minecraft:".toList ++ state.name }

/-- The enumeration value that `palette_key` appends as one character. -/
def typeCode : BlockStateValueType → Char
  | .Byte => Char.ofNat 0
  | .Short => Char.ofNat 1
  | .Int => Char.ofNat 2
  | .Long => Char.ofNat 3
  | .String => Char.ofNat 4

/-- One text for states that differ only in the order of their properties. -/
def paletteKey (state : BlockState) : List Char :=
  let properties := state.states.mergeSort fun a b => decide (a.name ≤ b.name)
  state.name ++ properties.flatMap fun property =>
    Char.ofNat 0 :: property.name ++ typeCode property.type :: Char.ofNat 0 :: property.value

/-- OR one entry into the packed words; an access outside the array gives `none`. -/
def packBlock (bits : ℕ) (packed : List (BitVec 64)) (blockIndex value : ℕ) :
    Option (List (BitVec 64)) :=
  let startBit := blockIndex * bits % 2 ^ 64
  let word := startBit / 64
  let offset := startBit % 64
  let value := BitVec.ofNat 64 value
  match packed[word]? with
  | none => none
  | some current =>
    let packed := packed.set word (current ||| value <<< offset)
    if offset + bits > 64 then
      match packed[word + 1]? with
      | none => none
      | some next => some (packed.set (word + 1) (next ||| value >>> (64 - offset)))
    else some packed

/-- The second loop over the cells: look up each entry and pack it. -/
def packCells (bits : ℕ) (indexOf : BlockPos → Option ℕ) :
    List BlockPos → ℕ → List (BitVec 64) → Option (List (BitVec 64))
  | [], _, packed => some packed
  | pos :: rest, blockIndex, packed =>
    (indexOf pos).bind fun value =>
      (packBlock bits packed blockIndex value).bind fun packed =>
        packCells bits indexOf rest (blockIndex + 1) packed

/-- The number of words for a structure of this volume. -/
def wordCount (volume bits : ℕ) : ℕ := (volume * bits % 2 ^ 64 + 63) % 2 ^ 64 / 64

/-- The chunks that hold the structure, in the order in which the writer asks for them. -/
def positions (size : Size) : List ChunkPos :=
  (Int.range 0 size.chunkXCount).flatMap fun x => (Int.range 0 size.chunkZCount).map fun z => ⟨x, z⟩

/-- The palette after the first loop over the cells; its first entry is air. -/
def buildPalette (javaState : RuntimeId → Option BlockState) (air : RuntimeId) (size : Size)
    (chunks : ChunkMap) : Table BlockState (List Char) :=
  let airState := javaPaletteState javaState air
  size.cellsYZX.foldl
    (fun table pos => table.add paletteKey (javaPaletteState javaState (blockAt chunks air pos)))
    ⟨[airState], AList.singleton (paletteKey airState) 0⟩

/-- The region that `write_litematic` stores, or its error. -/
def writeLitematic (javaState : RuntimeId → Option BlockState) (air : RuntimeId) (size : Size)
    (getChunksLayer0 : List ChunkPos → Except String ChunkMap) (options : ConversionOptions) :
    Except String Region :=
  if size.width ≤ 0 ∨ size.height ≤ 0 ∨ size.length ≤ 0 ∨ size.volume ≤ 0 ∨
      size.volume > int32Max then
    .error "Litematic 输出尺寸无效或体积超过 int32"
  else if options.softMemoryBudgetBytes < 64 * 1024 then
    .error "Litematic writer soft_memory_budget 至少需要 64 KiB"
  else
    let chunkCount := size.chunkXCount.toNat * size.chunkZCount.toNat % 2 ^ 64
    if options.maxInFlightChunks ≠ 0 ∧ chunkCount > options.maxInFlightChunks then
      .error "Litematic writer 需要读取完整 chunk 集合，超过 max_in_flight_chunks"
    else
      let estimatedSubchunks := (size.height.toNat + 15) / 16
      let estimatedChunkBytes := max (64 * 1024) (estimatedSubchunks * 4096 * 4 + 8 * 1024)
      let packedUpperBound := (size.volume.toNat * 32 + 63) / 64 * 8
      if (chunkCount * estimatedChunkBytes + packedUpperBound) % 2 ^ 64 >
          options.softMemoryBudgetBytes then
        .error "Litematic writer 需要的 chunk/packed 窗口超过 soft_memory_budget"
      else
        match getChunksLayer0 (positions size) with
        | .error error => .error ("生成 Litematic chunks 失败: " ++ error)
        | .ok chunks =>
          let table := buildPalette javaState air size chunks
          let bits := bitsForPalette table.values.length
          let indexOf := fun pos =>
            table.indices.lookup (paletteKey (javaPaletteState javaState (blockAt chunks air pos)))
          match packCells bits indexOf size.cellsYZX 0
              (List.replicate (wordCount size.volume.toNat bits) 0) with
          | none => .error "out of bounds"
          | some packed =>
            .ok {
              position := ⟨0, 0, 0⟩
              signedSize := ⟨size.width, size.height, size.length⟩
              palette := table.values
              packedStates := packed }

end Writer

/-- A structure that `read` has filled. -/
structure LitematicStructure where
  regionOrigin : BlockPos
  originalSize : Size
  palette : List RuntimeId
  bitsPerBlock : ℕ
  packedStates : List (BitVec 64)
  nonAirBlocks : ℕ
  offset : BlockPos

namespace Reader

def bitsForPalette (size : ℕ) : ℕ :=
  max 2 (countBits (if size > 0 then size - 1 else 0))

/-- One entry of the packed states; entries past the end read as zero. -/
def paletteIndexAt (packedStates : List (BitVec 64)) (bitsPerBlock index : ℕ) : ℕ :=
  let startBit := index * bitsPerBlock % 2 ^ 64
  let word := startBit / 64
  let offset := startBit % 64
  match packedStates[word]? with
  | none => 0
  | some current =>
    let value := current >>> offset
    let value :=
      if offset + bitsPerBlock > 64 then
        match packedStates[word + 1]? with
        | some next => value ||| next <<< (64 - offset)
        | none => value
      else value
    (value &&& ((1 : BitVec 64) <<< bitsPerBlock - 1)).toNat % 2 ^ 32

/-- How many of the first `volume` entries are a palette entry other than air. -/
def countNonAir (air : RuntimeId) (palette : List RuntimeId) (packedStates : List (BitVec 64))
    (bitsPerBlock volume : ℕ) : ℕ :=
  (List.range volume).countP fun index =>
    match palette[paletteIndexAt packedStates bitsPerBlock index]? with
    | none => false
    | some id => id ≠ air

/-- Check a decoded region and take it over. -/
def read (resolve : BlockState → Option RuntimeId) (unknown air : RuntimeId) (region : Region) :
    Except String LitematicStructure :=
  let originalSize : Size :=
    ⟨region.signedSize.x.natAbs, region.signedSize.y.natAbs, region.signedSize.z.natAbs⟩
  if originalSize.width ≤ 0 ∨ originalSize.height ≤ 0 ∨ originalSize.length ≤ 0 then
    .error "Litematic Region 尺寸无效"
  else
    let palette := region.palette.map fun entry => (resolve entry).getD unknown
    if palette.isEmpty then .error "Litematic palette 为空"
    else
      let bitsPerBlock := bitsForPalette palette.length
      let volume := originalSize.volume.toNat
      if volume > (2 ^ 64 - 1) / bitsPerBlock then .error "Litematic BlockStates 长度不足"
      else if region.packedStates.length * 64 % 2 ^ 64 < volume * bitsPerBlock then
        .error "Litematic BlockStates 长度不足"
      else
        .ok {
          regionOrigin := region.position
          originalSize
          palette
          bitsPerBlock
          packedStates := region.packedStates
          nonAirBlocks := countNonAir air palette region.packedStates bitsPerBlock volume
          offset := ⟨0, 0, 0⟩ }

end Reader

namespace LitematicStructure

def paletteIndexAt (s : LitematicStructure) (index : ℕ) : ℕ :=
  Reader.paletteIndexAt s.packedStates s.bitsPerBlock index

/-- The source cells that the shifted chunk covers, y outermost. -/
def cellsOf (s : LitematicStructure) (chunkPos : ChunkPos) : List BlockPos :=
  let chunkMinX := chunkPos.x * 16
  let chunkMinZ := chunkPos.z * 16
  let minX := max 0 (chunkMinX - s.offset.x)
  let maxX := min (s.originalSize.width - 1) (chunkMinX + 15 - s.offset.x)
  let minZ := max 0 (chunkMinZ - s.offset.z)
  let maxZ := min (s.originalSize.length - 1) (chunkMinZ + 15 - s.offset.z)
  if minX > maxX ∨ minZ > maxZ then []
  else
    (Int.range 0 s.originalSize.height).flatMap fun y =>
      (Int.range minZ (maxZ + 1)).flatMap fun z =>
        (Int.range minX (maxX + 1)).map fun x => ⟨x, y, z⟩

/-- The loop body: store the cell unless it is air or names no palette entry. -/
def storeCell (s : LitematicStructure) (air : RuntimeId) (chunkPos : ChunkPos)
    (chunk : ChunkData) (cell : BlockPos) : ChunkData :=
  let index := (cell.y * (s.originalSize.width * s.originalSize.length) +
    cell.z * s.originalSize.width + cell.x).toNat
  match s.palette[s.paletteIndexAt index]? with
  | none => chunk
  | some id =>
    if id = air then chunk
    else
      let structureY := cell.y + s.offset.y
      let subY := floorDiv (structureY - 64) 16
      let localY := structureY - (subY * 16 + 64)
      let localX := cell.x + s.offset.x - chunkPos.x * 16
      let localZ := cell.z + s.offset.z - chunkPos.z * 16
      chunk.setBlock air subY ((localY * 16 + localZ) * 16 + localX).toNat id

/-- Materialise the requested chunks. -/
def getChunks (s : LitematicStructure) (air : RuntimeId) (positions : List ChunkPos) : ChunkMap :=
  (ChunkMap.emplaceAll positions).forEach fun chunkPos chunk =>
    (s.cellsOf chunkPos).foldl (s.storeCell air chunkPos) chunk

end LitematicStructure

end Litematic

end WaterStructure
