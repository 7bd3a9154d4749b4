import Mathlib.Logic.Function.Basic
import WaterStructure.Core.Coordinates
import WaterStructure.Library.AssocMap

/-!
# Positions, sizes, subchunks and chunk maps

The data types of `types.hpp`. A layer is an array of 4096 runtime ids, given here as a
function of the array index; `layerIndex` is the only way an index is formed, so every access
is shown to lie below 4096 once, with the index. A chunk keeps only the subchunks that
somebody created; a missing subchunk reads as air.
-/

namespace WaterStructure

structure BlockPos where
  x : ℤ
  y : ℤ
  z : ℤ
  deriving DecidableEq, Repr

structure ChunkPos where
  x : ℤ
  z : ℤ
  deriving DecidableEq, Repr

structure SubChunkPos where
  x : ℤ
  y : ℤ
  z : ℤ
  deriving DecidableEq, Repr

structure Size where
  width : ℤ
  height : ℤ
  length : ℤ
  deriving DecidableEq, Repr

/-- A positive extent covers its sixteenths, rounded up without forming `extent + 15`. -/
def chunkCount (extent : ℤ) : ℤ :=
  if extent ≤ 0 then 0 else extent.tdiv 16 + (if extent.tmod 16 ≠ 0 then 1 else 0)

def Size.chunkXCount (size : Size) : ℤ := chunkCount size.width

def Size.chunkZCount (size : Size) : ℤ := chunkCount size.length

/-- The largest value of `std::int64_t`. -/
def int64Max : ℤ := 9223372036854775807

/-- The number of cells, saturating at the largest 64-bit value. -/
def Size.volume (size : Size) : ℤ :=
  if size.width ≤ 0 ∨ size.height ≤ 0 ∨ size.length ≤ 0 then 0
  else if size.width > int64Max.tdiv size.height then int64Max
  else if size.width * size.height > int64Max.tdiv size.length then int64Max
  else size.width * size.height * size.length

/-- The cell lies in the box that starts at the origin. -/
def Size.Contains (size : Size) (pos : BlockPos) : Prop :=
  (0 ≤ pos.x ∧ pos.x < size.width) ∧ (0 ≤ pos.y ∧ pos.y < size.height) ∧
    (0 ≤ pos.z ∧ pos.z < size.length)

instance (size : Size) (pos : BlockPos) : Decidable (size.Contains pos) :=
  inferInstanceAs (Decidable ((_ ∧ _) ∧ (_ ∧ _) ∧ (_ ∧ _)))

/-- The chunk that holds a block. -/
def blockToChunk (pos : BlockPos) : ChunkPos := ⟨floorDiv pos.x 16, floorDiv pos.z 16⟩

/-- The runtime id of a registered block state. -/
abbrev RuntimeId := UInt32

/-- One layer of a subchunk, indexed from 0 to 4095. -/
abbrev BlockLayer := ℕ → RuntimeId

/-- Readers use the `(y, z, x)` order; the Bedrock encoder also accepts its own `(x, y, z)`. -/
inductive BlockLayerLayout where
  | Internal
  | Native
  deriving DecidableEq, Repr

/-- The array index of a subchunk-local cell. -/
def BlockLayerLayout.index (layout : BlockLayerLayout) (localX localY localZ : ℤ) : ℕ :=
  match layout with
  | .Internal => ((localY * 16 + localZ) * 16 + localX).toNat
  | .Native => (localX * 256 + localY * 16 + localZ).toNat

/-- The value is a subchunk-local coordinate. -/
def IsLocal (value : ℤ) : Prop := 0 ≤ value ∧ value < 16

/-- Local coordinates index the 4096-entry array. -/
theorem BlockLayerLayout.index_lt (layout : BlockLayerLayout) {x y z : ℤ}
    (hx : IsLocal x) (hy : IsLocal y) (hz : IsLocal z) : layout.index x y z < 4096 := by
  unfold IsLocal at hx hy hz
  cases layout <;> simp only [BlockLayerLayout.index] <;> omega

/-- Different local cells have different indices. -/
theorem BlockLayerLayout.index_inj (layout : BlockLayerLayout) {x y z x' y' z' : ℤ}
    (hx : IsLocal x) (hy : IsLocal y) (hz : IsLocal z)
    (hx' : IsLocal x') (hy' : IsLocal y') (hz' : IsLocal z') :
    layout.index x y z = layout.index x' y' z' ↔ x = x' ∧ y = y' ∧ z = z' := by
  unfold IsLocal at *
  cases layout <;> simp only [BlockLayerLayout.index] <;> omega

/-- A remainder by sixteen is local. -/
theorem isLocal_emod (value : ℤ) : IsLocal (value % 16) := by
  unfold IsLocal
  omega

structure SubChunkData where
  layer0 : BlockLayer
  layer1 : BlockLayer

/-- Both layers hold one id everywhere. -/
def SubChunkData.filled (id : RuntimeId) : SubChunkData := ⟨fun _ => id, fun _ => id⟩

structure ChunkData where
  subChunks : AList fun _ : ℤ => SubChunkData := ∅
  layout : BlockLayerLayout := .Internal

/-- The first layer of a subchunk; a missing subchunk holds air. -/
def ChunkData.layer0At (chunk : ChunkData) (air : RuntimeId) (subY : ℤ) (index : ℕ) : RuntimeId :=
  match chunk.subChunks.lookup subY with
  | none => air
  | some sub => sub.layer0 index

/-- Store one id, creating an all-air subchunk first when there is none. -/
def ChunkData.setBlock (chunk : ChunkData) (air : RuntimeId) (subY : ℤ) (index : ℕ)
    (id : RuntimeId) : ChunkData :=
  { chunk with
    subChunks := AssocMap.update (AssocMap.tryEmplace chunk.subChunks subY (.filled air)) subY
      fun sub => { sub with layer0 := Function.update sub.layer0 index id } }

/-- A chunk without subchunks reads as air everywhere. -/
@[simp] theorem ChunkData.layer0At_empty (air : RuntimeId) (layout : BlockLayerLayout)
    (subY : ℤ) (index : ℕ) : (ChunkData.mk ∅ layout).layer0At air subY index = air := rfl

@[simp] theorem ChunkData.setBlock_layout (chunk : ChunkData) (air : RuntimeId) (subY : ℤ)
    (index : ℕ) (id : RuntimeId) : (chunk.setBlock air subY index id).layout = chunk.layout := rfl

/-- Storing one id changes one cell, whether or not the subchunk existed. -/
theorem ChunkData.layer0At_setBlock (chunk : ChunkData) (air : RuntimeId) (subY subY' : ℤ)
    (index index' : ℕ) (id : RuntimeId) :
    (chunk.setBlock air subY index id).layer0At air subY' index' =
      if subY' = subY ∧ index' = index then id else chunk.layer0At air subY' index' := by
  simp only [ChunkData.layer0At, ChunkData.setBlock, AssocMap.lookup_update,
    AssocMap.lookup_tryEmplace]
  by_cases hsub : subY' = subY
  · subst hsub
    cases hlook : chunk.subChunks.lookup subY' with
    | none => by_cases hidx : index' = index <;> simp [hidx, SubChunkData.filled]
    | some sub => by_cases hidx : index' = index <;> simp [hidx]
  · simp [hsub]

/-- The id of a block of this chunk, given in structure coordinates. -/
def ChunkData.blockAt (chunk : ChunkData) (air : RuntimeId) (pos : BlockPos) : RuntimeId :=
  let subY := floorDiv (pos.y - 64) 16
  chunk.layer0At air subY
    (chunk.layout.index (floorMod pos.x 16) (pos.y - (subY * 16 + 64)) (floorMod pos.z 16))

/-- `std::unordered_map<ChunkPos, ChunkData>`. -/
abbrev ChunkMap := AList fun _ : ChunkPos => ChunkData

/-- An empty chunk for every requested position. -/
def ChunkMap.emplaceAll (positions : List ChunkPos) : ChunkMap :=
  positions.foldl (fun result pos => AssocMap.tryEmplace result pos {}) ∅

/-- The id a chunk map gives a block; `none` when its chunk was not requested. -/
def ChunkMap.blockAt (chunks : ChunkMap) (air : RuntimeId) (pos : BlockPos) : Option RuntimeId :=
  (chunks.lookup (blockToChunk pos)).map fun chunk => chunk.blockAt air pos

/-- Exactly the requested positions receive an empty chunk. -/
theorem ChunkMap.lookup_emplaceAll (positions : List ChunkPos) (pos : ChunkPos) :
    (ChunkMap.emplaceAll positions).lookup pos = if pos ∈ positions then some {} else none := by
  rw [ChunkMap.emplaceAll, AssocMap.lookup_foldl_tryEmplace, AList.lookup_empty]

/-- The count of sixteenths is the rounded-up quotient. -/
theorem chunkCount_eq (extent : ℤ) (h : 0 < extent) : chunkCount extent = (extent + 15) / 16 := by
  have hdiv := Int.mul_tdiv_add_tmod extent 16
  have hnonneg := Int.tmod_nonneg 16 h.le
  have hlt := Int.tmod_lt_of_pos extent (by decide : (0 : ℤ) < 16)
  rw [chunkCount, if_neg (by omega)]
  split <;> omega

inductive BlockStateValueType where
  | Byte
  | Short
  | Int
  | Long
  | String
  deriving DecidableEq, Repr

structure BlockStateProperty where
  name : List Char
  type : BlockStateValueType
  value : List Char
  deriving DecidableEq, Repr

structure BlockState where
  name : List Char
  states : List BlockStateProperty
  version : ℤ
  deriving DecidableEq, Repr

end WaterStructure
