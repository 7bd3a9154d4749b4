import WaterStructure.Formats.FuHongBlocks
import WaterStructure.Formats.KbdxRead
import WaterStructure.Library.JsonCallback

/-!
# The RunAway reader

A RunAway file is a JSON array of blocks. The reader takes each of them as soon as it is complete and
keeps none of the document. Of the blocks at one position the last one counts. A text that breaks off has
some complete blocks before the error; these are taken as well.
-/

namespace WaterStructure

namespace RunAway

open FuHong (Registry)
open Json (Callback ParseEvent parseWith)
open Kbdx (Block Buckets buildIndex lastBlocks)

/-- A number, or the first item of an array, as an `int32`. -/
def integer (value : Json) : Option ℤ :=
  let wrapped (value : Json) : Option ℤ :=
    match value with
    | .integer number => some (toInt32 number)
    | .unsigned number => some (toInt32 number)
    | _ => none
  match value with
  | .array items => items.head?.bind wrapped
  | value => wrapped value

def lookUp (registry : Registry) (name : List Char) (aux : ℤ) : Option RuntimeId :=
  ((registry.legacyRuntimeId name (aux % 65536).toNat).or (registry.javaRuntimeId name)).or
    (registry.find name [])

/-- The runtime id of a block, whose name may lack its namespace. -/
def runtimeOf (registry : Registry) (name : List Char) (aux : ℤ) : RuntimeId :=
  (((lookUp registry name aux).or
    (if ':' ∈ name then none else lookUp registry ("minecraft:".toList ++ name) aux)).or
      (registry.find "minecraft:unknown".toList [])).getD registry.airRuntimeId

/-- The block that an entry with some number describes. -/
def blockOf (registry : Registry) (index : ℕ) (entry : Json) : Except String Block :=
  if index > 4294967295 then .error "RunAway 方块条目数超过 uint32 容量"
  else
    match entry.member? "name" with
    | some (.string name) =>
      match (entry.member? "x").bind integer, (entry.member? "y").bind integer,
        (entry.member? "z").bind integer with
      | some x, some y, some z =>
        match (entry.member? "aux").elim (some 0) integer with
        | none => .error ("RunAway aux 无效: " ++ toString index)
        | some aux => .ok ⟨⟨x, y, z⟩, runtimeOf registry name aux⟩
      | _, _, _ => .error ("RunAway 坐标无效: " ++ toString index)
    | _ => .error ("RunAway 方块条目缺少 name: " ++ toString index)

/-- The variables of the callback. -/
structure Pass where
  rootIsArray : Bool := false
  entryCount : ℕ := 0
  blocks : List Block := []

/-- `consume_entry` -/
def consumeEntry (registry : Registry) (entry : Json) (p : Pass) : Except String Pass :=
  (blockOf registry p.entryCount entry).map fun block =>
    { p with entryCount := p.entryCount + 1, blocks := p.blocks ++ [block] }

def callback (registry : Registry) : Callback Pass := fun depth event parsed p =>
  if depth = 0 ∧ event = .arrayStart then .ok (true, { p with rootIsArray := true })
  else if depth = 0 ∧ (event = .objectStart ∨ event = .value) then .ok (false, p)
  else if ¬ p.rootIsArray ∨ depth ≠ 1 then .ok (true, p)
  else if event = .value ∨ event = .objectEnd ∨ event = .arrayEnd then
    (consumeEntry registry parsed p).map fun p => (false, p)
  else .ok (true, p)

/-- A file that cannot be opened, one whose text is no JSON, with the complete items of its root array
before the error, or one with a document. -/
inductive File where
  | missing (path : String)
  | malformed (entries : List Json) (error : String)
  | document (value : Json)

/-- The part of `read` before the sorting. -/
def readBlocks (registry : Registry) : File → Except String (List Block)
  | .missing path => .error ("无法打开 RunAway 文件: " ++ path)
  | .malformed entries error => do
    let _ ← entries.foldlM (fun p entry => consumeEntry registry entry p) {}
    .error ("解析 RunAway 失败: " ++ error)
  | .document value => do
    let p ← parseWith (callback registry) value {}
    if ¬ p.rootIsArray ∨ p.entryCount = 0 then .error "RunAway 根节点不是非空数组"
    else if p.blocks.isEmpty then .error "RunAway 没有方块"
    else return p.blocks

def minimum (blocks : List Block) : BlockPos :=
  ⟨(blocks.map (·.pos.x)).foldl min int32Max, (blocks.map (·.pos.y)).foldl min int32Max,
    (blocks.map (·.pos.z)).foldl min int32Max⟩

def maximum (blocks : List Block) : BlockPos :=
  ⟨(blocks.map (·.pos.x)).foldl max int32Min, (blocks.map (·.pos.y)).foldl max int32Min,
    (blocks.map (·.pos.z)).foldl max int32Min⟩

/-- The size from one corner to the other. -/
def extent (low high : BlockPos) : Size := ⟨high.x - low.x + 1, high.y - low.y + 1, high.z - low.z + 1⟩

end RunAway

open Kbdx (Block Buckets buildIndex lastBlocks)

structure RunAwayStructure where
  size : Size := ⟨0, 0, 0⟩
  originalSize : Size := ⟨0, 0, 0⟩
  offset : BlockPos := ⟨0, 0, 0⟩
  blocks : List Block := []
  chunkIndex : Option Buckets := none
  nonAirBlocks : ℕ := 0

namespace RunAwayStructure

open FuHong (Registry)
open RunAway

def setOffset (object : RunAwayStructure) (offset : BlockPos) : RunAwayStructure :=
  { object with
    offset
    chunkIndex := none
    size := ⟨object.originalSize.width + |offset.x|, object.originalSize.height + |offset.y|,
      object.originalSize.length + |offset.z|⟩ }

/-- The blocks that are left, moved to the minimum. -/
def load (registry : Registry) (kept : List Block) (object : RunAwayStructure) : RunAwayStructure :=
  { object with
    blocks := kept.map fun block => { block with pos := block.pos.sub (minimum kept) }
    originalSize := extent (minimum kept) (maximum kept)
    nonAirBlocks := kept.countP fun block => block.runtimeId ≠ registry.airRuntimeId }

def read (registry : Registry) (object : RunAwayStructure) (file : File) :
    Except String Unit × RunAwayStructure :=
  match readBlocks registry file with
  | .error error => (.error error, object)
  | .ok blocks =>
    let kept := lastBlocks blocks
    let size := extent (minimum kept) (maximum kept)
    if size.width > int32Max ∨ size.height > int32Max ∨ size.length > int32Max then
      (.error "RunAway 归一化尺寸溢出 int32", object)
    else (.ok (), (object.load registry kept).setOffset ⟨0, 0, 0⟩)

/-- `ensure`: the index that is there, or a new one. Sums that overflow are undefined. -/
def ensureIndex (object : RunAwayStructure) : Except String Buckets :=
  match object.chunkIndex with
  | some buckets => .ok buckets
  | none =>
    match buildIndex object.blocks object.offset with
    | none => .error "RunAway chunk index 超过 uint32 容量"
    | some buckets =>
      if object.blocks.any fun block => ¬ (block.pos.add object.offset).FitsInt32 then
        .error "signed integer overflow"
      else .ok buckets

/-- Store the block with an index of a bucket. -/
def storeBlock (object : RunAwayStructure) (air : RuntimeId) (chunkPos : ChunkPos) (chunk : ChunkData)
    (index : ℕ) : Except String ChunkData :=
  match object.blocks[index]? with
  | none => .error "vector subscript out of range"
  | some block =>
    let world := block.pos.add object.offset
    if ¬ IsInt32 (world.y - 64) then .error "signed integer overflow"
    else
      let sy := floorDiv (world.y - 64) 16
      let lx := world.x - chunkPos.x * 16
      let ly := world.y - (sy * 16 + 64)
      let lz := world.z - chunkPos.z * 16
      .ok (chunk.setBlock air sy ((ly * 16 + lz) * 16 + lx).toNat block.runtimeId)

/-- `get_chunks`, with the object whose index may have been built. -/
def getChunks (object : RunAwayStructure) (air : RuntimeId) (positions : List ChunkPos) :
    Except String ChunkMap × RunAwayStructure :=
  match object.ensureIndex with
  | .error error => (.error error, object)
  | .ok buckets =>
    ((ChunkMap.emplaceAll positions).forEachM fun chunkPos chunk =>
        ((buckets.lookup chunkPos).getD []).foldlM (object.storeBlock air chunkPos) chunk,
      { object with chunkIndex := some buckets })

def countNonAirBlocks (object : RunAwayStructure) : ℕ := object.nonAirBlocks

end RunAwayStructure

end WaterStructure
