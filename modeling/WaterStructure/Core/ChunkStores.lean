import WaterStructure.Core.Grid
import WaterStructure.Library.LastValue

/-!
# Storing blocks in requested chunks

A request begins with an empty chunk for each of its positions. A block is stored in its chunk if that is
there. After any stores a cell of a requested chunk has the block that was stored last there.
-/

namespace WaterStructure

namespace ChunkMap

open LastValue

/-- Store a block, if its chunk is there. -/
def store (air : RuntimeId) (chunks : ChunkMap) (placement : BlockPos × RuntimeId) : ChunkMap :=
  AssocMap.update chunks (blockToChunk placement.1) fun chunk =>
    chunk.setAt air placement.1 placement.2

/-- The chunks are those asked for, in the layout of the readers. -/
structure Requested (positions : List ChunkPos) (chunks : ChunkMap) : Prop where
  isSome : ∀ key, (chunks.lookup key).isSome = true ↔ key ∈ positions
  layout : ∀ key chunk, chunks.lookup key = some chunk → chunk.layout = .Internal

theorem requested_emplaceAll (positions : List ChunkPos) :
    Requested positions (ChunkMap.emplaceAll positions) := by
  refine ⟨fun key => ?_, fun key chunk hchunk => ?_⟩
  · rw [ChunkMap.lookup_emplaceAll]
    split_ifs with hkey
    · exact iff_of_true rfl hkey
    · exact iff_of_false Bool.false_ne_true hkey
  · rw [ChunkMap.lookup_emplaceAll] at hchunk
    obtain ⟨-, hchunk⟩ := NestedLoop.then_of_some hchunk
    cases hchunk
    rfl

variable {air : RuntimeId} {positions : List ChunkPos} {chunks : ChunkMap}

theorem Requested.lookup_eq_none (h : Requested positions chunks) {key : ChunkPos}
    (hkey : key ∉ positions) : chunks.lookup key = none :=
  Option.not_isSome_iff_eq_none.mp fun hsome => hkey ((h.isSome key).mp hsome)

/-- A block of a chunk that nobody asked for goes nowhere. -/
theorem Requested.store_of_not_mem (h : Requested positions chunks) {placement : BlockPos × RuntimeId}
    (hplacement : blockToChunk placement.1 ∉ positions) : store air chunks placement = chunks := by
  rw [store, AssocMap.update, h.lookup_eq_none hplacement]

theorem Requested.foldl_store_of_not_mem (h : Requested positions chunks)
    {placements : List (BlockPos × RuntimeId)}
    (hplacements : ∀ placement ∈ placements, blockToChunk placement.1 ∉ positions) :
    placements.foldl (store air) chunks = chunks := by
  induction placements with
  | nil => rfl
  | cons placement rest ih =>
    rw [List.foldl_cons, h.store_of_not_mem (hplacements placement List.mem_cons_self)]
    exact ih fun other hother => hplacements other (List.mem_cons_of_mem placement hother)

theorem Requested.store (h : Requested positions chunks) (placement : BlockPos × RuntimeId) :
    Requested positions (store air chunks placement) := by
  refine ⟨fun key => ?_, fun key chunk hchunk => ?_⟩
  · rw [ChunkMap.store, AssocMap.lookup_update, ← h.isSome]
    split_ifs with hkey
    · rw [Option.isSome_map, hkey]
    · rfl
  · rw [ChunkMap.store, AssocMap.lookup_update] at hchunk
    split at hchunk
    · obtain ⟨old, hold, rfl⟩ := Option.map_eq_some_iff.mp hchunk
      exact h.layout _ old hold
    · exact h.layout key chunk hchunk

/-- A store changes one cell. -/
theorem blockAt_store (chunks : ChunkMap) (placement : BlockPos × RuntimeId) (pos : BlockPos) :
    (store air chunks placement).blockAt air pos =
      (chunks.blockAt air pos).map fun old => if placement.1 = pos then placement.2 else old := by
  rw [ChunkMap.blockAt, ChunkMap.blockAt, ChunkMap.store, AssocMap.lookup_update]
  split
  case isTrue hkey =>
    rw [hkey]
    cases chunks.lookup (blockToChunk placement.1) with
    | none => rfl
    | some chunk =>
      rw [Option.map_some, Option.map_some, Option.map_some, Option.map_some,
        ChunkData.blockAt_setAt chunk air placement.2 hkey.symm]
      exact congrArg some (if_congr eq_comm rfl rfl)
  case isFalse hkey =>
    have hne : placement.1 ≠ pos := fun hsame => hkey (congrArg blockToChunk hsame.symm)
    simp only [if_neg hne, Option.map_id']

theorem blockAt_foldl_store (placements : List (BlockPos × RuntimeId)) (chunks : ChunkMap)
    (pos : BlockPos) : (placements.foldl (store air) chunks).blockAt air pos =
      (chunks.blockAt air pos).map fun old => (lastValue (fun placement : BlockPos × RuntimeId =>
        if placement.1 = pos then some placement.2 else none) placements).getD old := by
  induction placements generalizing chunks with
  | nil => exact Option.map_id'.symm
  | cons placement rest ih =>
    rw [List.foldl_cons, ih, blockAt_store, Option.map_map]
    refine congrArg (Option.map · _) (funext fun old => ?_)
    rw [Function.comp_apply, lastValue_cons, Option.getD_or]
    refine congrArg _ ?_
    split <;> rfl

/-- A requested cell shows the block that was stored last. -/
theorem blockAt_foldl_store_emplaceAll (placements : List (BlockPos × RuntimeId))
    (positions : List ChunkPos) (pos : BlockPos) :
    (placements.foldl (store air) (ChunkMap.emplaceAll positions)).blockAt air pos =
      if blockToChunk pos ∈ positions then
        some ((lastValue (fun placement : BlockPos × RuntimeId =>
          if placement.1 = pos then some placement.2 else none) placements).getD air)
      else none := by
  rw [blockAt_foldl_store, ChunkMap.blockAt, ChunkMap.lookup_emplaceAll]
  split <;> rfl

end ChunkMap

end WaterStructure
