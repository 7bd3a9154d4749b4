import WaterStructure.Core.Layers

/-!
# The blocks of a stored world

The database of a world holds subchunks in the native order, whose second storage may be missing. A
subchunk that is missing, or lies outside the overworld, is air. Chunks are loaded into the order of
the readers.
-/

namespace WaterStructure

open NestedLoop

/-- A decoded subchunk, in native order. -/
structure NativeSubChunk where
  layer0 : BlockLayer
  layer1 : Option BlockLayer

/-- The subchunks of the overworld that can be decoded. -/
structure StoredWorld where
  subChunk : SubChunkPos → Option NativeSubChunk

namespace StoredWorld

/-- The id of a cell of the world in a layer. -/
def cell (world : StoredWorld) (air : RuntimeId) (secondary : Bool) (pos : BlockPos) : RuntimeId :=
  let subY := floorDiv pos.y 16
  if subY < kMinSubChunkY ∨ subY > kMaxSubChunkY then air
  else
    match world.subChunk ⟨floorDiv pos.x 16, subY, floorDiv pos.z 16⟩ with
    | none => air
    | some sub =>
      (if secondary then sub.layer1.getD fun _ => air else sub.layer0)
        (BlockLayerLayout.Native.index (floorMod pos.x 16) (floorMod pos.y 16) (floorMod pos.z 16))

/-- `World::loadSubChunks`: the subchunks of a column from bottom to top. -/
def loadSubChunks (world : StoredWorld) (pos : ChunkPos) (minSubY maxSubY : ℤ) :
    List (ℤ × NativeSubChunk) :=
  (Int.range (max minSubY kMinSubChunkY) (min maxSubY kMaxSubChunkY + 1)).filterMap fun y =>
    (world.subChunk ⟨pos.x, y, pos.z⟩).map fun sub => (y, sub)

/-- The native index of the cell with an internal index. -/
def nativeIndex (index : ℕ) : ℕ := index % 16 * 256 + index / 256 * 16 + index / 16 % 16

/-- A subchunk in the order of the readers. Without the second layer its array keeps its zeros. -/
def decode (air : RuntimeId) (includeLayer1 : Bool) (sub : NativeSubChunk) : SubChunkData where
  layer0 := fun index => sub.layer0 (nativeIndex index)
  layer1 := fun index =>
    if includeLayer1 then (sub.layer1.map fun blocks => blocks (nativeIndex index)).getD air else 0

/-- `load_chunk_range`. -/
def loadChunkRange (world : StoredWorld) (air : RuntimeId) (pos : ChunkPos) (minSubY maxSubY : ℤ)
    (includeLayer1 : Bool) : ChunkData :=
  let minSubY := max minSubY kMinSubChunkY
  let maxSubY := min maxSubY kMaxSubChunkY
  if minSubY > maxSubY then {}
  else
    { subChunks := ((world.loadSubChunks pos minSubY maxSubY).map fun entry =>
        (entry.1, decode air includeLayer1 entry.2)).foldl
          (fun result entry => AssocMap.tryEmplace result entry.1 entry.2) ∅ }

theorem nativeIndex_index {x y z : ℤ} (hx : IsLocal x) (hy : IsLocal y) (hz : IsLocal z) :
    nativeIndex (BlockLayerLayout.Internal.index x y z) = BlockLayerLayout.Native.index x y z := by
  unfold IsLocal at hx hy hz
  obtain ⟨x, rfl⟩ := Int.eq_ofNat_of_zero_le hx.1
  obtain ⟨y, rfl⟩ := Int.eq_ofNat_of_zero_le hy.1
  obtain ⟨z, rfl⟩ := Int.eq_ofNat_of_zero_le hz.1
  have hinternal : (((y : ℤ) * 16 + z) * 16 + x).toNat = (y * 16 + z) * 16 + x := by omega
  have hnative : ((x : ℤ) * 256 + y * 16 + z).toNat = x * 256 + y * 16 + z := by omega
  have hlocalX : ((y * 16 + z) * 16 + x) % 16 = x := by omega
  have hlocalY : ((y * 16 + z) * 16 + x) / 256 = y := by omega
  have hlocalZ : ((y * 16 + z) * 16 + x) / 16 % 16 = z := by omega
  simp only [nativeIndex, BlockLayerLayout.index, hinternal, hnative, hlocalX, hlocalY, hlocalZ]

/-- The entry of a key in a list of entries made from distinct keys. -/
theorem find?_filterMap {α : Type*} (f : ℤ → Option α) (keys : List ℤ) (key : ℤ) :
    (keys.filterMap fun y => (f y).map fun value => (y, value)).find? (fun entry => entry.1 = key) =
      if key ∈ keys then (f key).map fun value => (key, value) else none := by
  induction keys with
  | nil => rfl
  | cons first rest ih =>
    rw [List.filterMap_cons]
    cases hvalue : f first with
    | none =>
      rw [Option.map_none]
      refine ih.trans ?_
      by_cases hkey : key = first
      · subst hkey
        simp [hvalue]
      · simp [hkey]
    | some value =>
      rw [Option.map_some]
      dsimp only
      rw [List.find?_cons]
      by_cases hkey : key = first
      · subst hkey
        simp [hvalue]
      · rw [decide_eq_false (Ne.symm hkey)]
        refine ih.trans ?_
        simp [hkey]

/-- A loaded chunk has the stored subchunks of the rows that were asked for. -/
theorem lookup_loadChunkRange (world : StoredWorld) (air : RuntimeId) (pos : ChunkPos)
    (minSubY maxSubY : ℤ) (includeLayer1 : Bool) (subY : ℤ) :
    (world.loadChunkRange air pos minSubY maxSubY includeLayer1).subChunks.lookup subY =
      if (minSubY ≤ subY ∧ subY ≤ maxSubY) ∧ kMinSubChunkY ≤ subY ∧ subY ≤ kMaxSubChunkY then
        (world.subChunk ⟨pos.x, subY, pos.z⟩).map (decode air includeLayer1) else none := by
  rw [loadChunkRange]
  split
  case isTrue hempty => rw [AList.lookup_empty, if_neg (by omega)]
  case isFalse =>
    have hmap : ((world.loadSubChunks pos (max minSubY kMinSubChunkY)
        (min maxSubY kMaxSubChunkY)).map fun entry =>
          (entry.1, decode air includeLayer1 entry.2)) =
        (Int.range (max minSubY kMinSubChunkY) (min maxSubY kMaxSubChunkY + 1)).filterMap fun y =>
          ((world.subChunk ⟨pos.x, y, pos.z⟩).map (decode air includeLayer1)).map fun sub =>
            (y, sub) := by
      rw [loadSubChunks, max_eq_left (le_max_right _ _), min_eq_left (min_le_right _ _),
        List.map_filterMap]
      refine List.filterMap_congr fun y _ => ?_
      cases world.subChunk ⟨pos.x, y, pos.z⟩ <;> rfl
    rw [hmap, AssocMap.lookup_foldl_emplace, AList.lookup_empty, Option.none_or, find?_filterMap]
    by_cases hrow : (minSubY ≤ subY ∧ subY ≤ maxSubY) ∧ kMinSubChunkY ≤ subY ∧ subY ≤ kMaxSubChunkY
    · rw [if_pos hrow, if_pos (Int.mem_range_iff.mpr (by omega)), Option.map_map, Option.map_map]
      rfl
    · rw [if_neg hrow, if_neg fun h => hrow (by have := Int.mem_range_iff.mp h; omega)]
      rfl

@[simp] theorem loadChunkRange_layout (world : StoredWorld) (air : RuntimeId) (pos : ChunkPos)
    (minSubY maxSubY : ℤ) (includeLayer1 : Bool) :
    (world.loadChunkRange air pos minSubY maxSubY includeLayer1).layout = .Internal := by
  rw [loadChunkRange]
  split <;> rfl

/-- A layer that was loaded shows the cells of the world in the rows that were asked for. -/
theorem layerAt_loadChunkRange (world : StoredWorld) (air : RuntimeId) {includeLayer1 secondary : Bool}
    (hlayer : secondary = true → includeLayer1 = true) (minSubY maxSubY : ℤ) (pos : BlockPos)
    (hrow : minSubY ≤ floorDiv pos.y 16 ∧ floorDiv pos.y 16 ≤ maxSubY) :
    (world.loadChunkRange air (blockToChunk pos) minSubY maxSubY includeLayer1).layerAt air secondary
        (floorDiv pos.y 16) (BlockLayerLayout.Internal.index (floorMod pos.x 16) (floorMod pos.y 16)
          (floorMod pos.z 16)) = world.cell air secondary pos := by
  rw [ChunkData.layerAt, lookup_loadChunkRange, cell]
  dsimp only [blockToChunk]
  by_cases hworld : kMinSubChunkY ≤ floorDiv pos.y 16 ∧ floorDiv pos.y 16 ≤ kMaxSubChunkY
  · rw [if_pos ⟨hrow, hworld⟩, if_neg (by omega)]
    cases world.subChunk ⟨floorDiv pos.x 16, floorDiv pos.y 16, floorDiv pos.z 16⟩ with
    | none => rfl
    | some sub =>
      have hindex : nativeIndex (BlockLayerLayout.Internal.index (floorMod pos.x 16)
          (floorMod pos.y 16) (floorMod pos.z 16)) = BlockLayerLayout.Native.index
            (floorMod pos.x 16) (floorMod pos.y 16) (floorMod pos.z 16) := by
        simp only [floorMod_sixteen]
        exact nativeIndex_index (isLocal_emod _) (isLocal_emod _) (isLocal_emod _)
      simp only [Option.map_some, SubChunkData.layer, decode]
      cases secondary with
      | false => exact congrArg sub.layer0 hindex
      | true =>
        rw [if_pos rfl, if_pos rfl, if_pos (hlayer rfl), hindex]
        cases sub.layer1 <;> rfl
  · rw [if_neg fun h => hworld h.2, if_pos (by omega)]

end StoredWorld

end WaterStructure
