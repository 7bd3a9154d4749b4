import WaterStructure.Core.Types

/-!
# What the writers ask of a structure

A writer asks a structure for its chunks, or for the palettes of its subchunks where the structure
can hand them out, and the registry for block states.
-/

namespace WaterStructure

/-- A state of air. -/
def BlockState.IsAir (state : BlockState) : Prop :=
  state.name = "minecraft:air".toList ∧ state.states = []

/-- The part of the registry that the writers use. The registry of a structure starts with air, and
`resolve_state` asks `state` first. -/
structure RuntimeRegistry where
  state : RuntimeId → Option BlockState
  resolveState : RuntimeId → Option BlockState
  upgradeState : BlockState → BlockState
  airRuntimeId : RuntimeId
  state_air : ∃ air, state airRuntimeId = some air ∧ air.IsAir
  resolveState_eq : ∀ id found, state id = some found → resolveState id = some found

/-- A subchunk with its palette: its own, or one that subchunks share, which has an address. The
indices are in native order. -/
structure SubChunkPaletteData where
  subY : ℤ
  palette : List BlockState
  sharedPalette : Option (ℕ × List BlockState)
  indices : List ℕ

/-- The part of `IStructure` that the command writers use. -/
structure StructureSource where
  size : Size
  getChunksLayer0 : List ChunkPos → Except String ChunkMap
  visitChunkPalettes : List ChunkPos → Except String (List (ChunkPos × List SubChunkPaletteData))

/-- The id of a block in a chunk map; a missing chunk is air. -/
def ChunkMap.runtimeAt (chunks : ChunkMap) (air : RuntimeId) (pos : BlockPos) : RuntimeId :=
  (chunks.blockAt air pos).getD air

end WaterStructure
