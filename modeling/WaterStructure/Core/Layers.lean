import WaterStructure.Core.Grid

/-!
# Both layers of a chunk

The second layer of a subchunk is read and stored like the first one. A missing subchunk is air in
both layers. What is stored in one layer leaves the other one alone.
-/

namespace WaterStructure

open LastValue

/-- The first or the second layer. -/
def SubChunkData.layer (sub : SubChunkData) (secondary : Bool) : BlockLayer :=
  if secondary then sub.layer1 else sub.layer0

def SubChunkData.setLayer (sub : SubChunkData) (secondary : Bool) (index : ℕ) (id : RuntimeId) :
    SubChunkData :=
  if secondary then { sub with layer1 := Function.update sub.layer1 index id }
  else { sub with layer0 := Function.update sub.layer0 index id }

/-- A layer of a subchunk; a missing subchunk holds air. -/
def ChunkData.layerAt (chunk : ChunkData) (air : RuntimeId) (secondary : Bool) (subY : ℤ)
    (index : ℕ) : RuntimeId :=
  match chunk.subChunks.lookup subY with
  | none => air
  | some sub => sub.layer secondary index

/-- The id in a layer of this chunk, given in structure coordinates. -/
def ChunkData.idAt (chunk : ChunkData) (air : RuntimeId) (secondary : Bool) (pos : BlockPos) :
    RuntimeId :=
  let subY := floorDiv (pos.y - 64) 16
  chunk.layerAt air secondary subY
    (chunk.layout.index (floorMod pos.x 16) (pos.y - (subY * 16 + 64)) (floorMod pos.z 16))

/-- The id a chunk map gives a cell of a layer; `none` when its chunk was not requested. -/
def ChunkMap.idAt (chunks : ChunkMap) (air : RuntimeId) (secondary : Bool) (pos : BlockPos) :
    Option RuntimeId :=
  (chunks.lookup (blockToChunk pos)).map fun chunk => chunk.idAt air secondary pos

/-- Store an id in a layer; a subchunk that is missing starts as `fresh`. -/
def ChunkData.setLayer (chunk : ChunkData) (fresh : SubChunkData) (secondary : Bool) (subY : ℤ)
    (index : ℕ) (id : RuntimeId) : ChunkData :=
  { chunk with
    subChunks := AssocMap.update (AssocMap.tryEmplace chunk.subChunks subY fresh) subY
      fun sub => sub.setLayer secondary index id }

@[simp] theorem ChunkData.setLayer_layout (chunk : ChunkData) (fresh : SubChunkData)
    (secondary : Bool) (subY : ℤ) (index : ℕ) (id : RuntimeId) :
    (chunk.setLayer fresh secondary subY index id).layout = chunk.layout := rfl

theorem SubChunkData.layer_setLayer (sub : SubChunkData) (secondary other : Bool) (index index' : ℕ)
    (id : RuntimeId) : (sub.setLayer secondary index id).layer other index' =
      if other = secondary ∧ index' = index then id else sub.layer other index' := by
  cases secondary <;> cases other <;> simp [SubChunkData.setLayer, SubChunkData.layer,
    Function.update_apply]

/-- Storing an id changes one cell of one layer, if a fresh subchunk is air there. -/
theorem ChunkData.layerAt_setLayer (chunk : ChunkData) {air : RuntimeId} {fresh : SubChunkData}
    {other : Bool} (hfresh : ∀ index, fresh.layer other index = air) (secondary : Bool)
    (subY subY' : ℤ) (index index' : ℕ) (id : RuntimeId) :
    (chunk.setLayer fresh secondary subY index id).layerAt air other subY' index' =
      if other = secondary ∧ subY' = subY ∧ index' = index then id
      else chunk.layerAt air other subY' index' := by
  simp only [ChunkData.layerAt, ChunkData.setLayer, AssocMap.lookup_update,
    AssocMap.lookup_tryEmplace]
  by_cases hsub : subY' = subY
  · subst hsub
    cases hlook : chunk.subChunks.lookup subY' with
    | none => simp [SubChunkData.layer_setLayer, hfresh]
    | some sub => simp [SubChunkData.layer_setLayer]
  · simp [hsub]

/-- Store an id of a layer, given in structure coordinates. -/
def ChunkData.setIdAt (chunk : ChunkData) (fresh : SubChunkData) (secondary : Bool) (pos : BlockPos)
    (id : RuntimeId) : ChunkData :=
  let subY := floorDiv (pos.y - 64) 16
  chunk.setLayer fresh secondary subY
    (chunk.layout.index (floorMod pos.x 16) (pos.y - (subY * 16 + 64)) (floorMod pos.z 16)) id

/-- Cells of one chunk differ, so a store changes one id of one layer. -/
theorem ChunkData.idAt_setIdAt (chunk : ChunkData) {air : RuntimeId} {fresh : SubChunkData}
    {other : Bool} (hfresh : ∀ index, fresh.layer other index = air) (secondary : Bool)
    {pos target : BlockPos} (id : RuntimeId) (hchunk : blockToChunk pos = blockToChunk target) :
    (chunk.setIdAt fresh secondary pos id).idAt air other target =
      if other = secondary ∧ target = pos then id else chunk.idAt air other target := by
  obtain ⟨px, py, pz⟩ := pos
  obtain ⟨ox, oy, oz⟩ := target
  simp only [blockToChunk, floorDiv_sixteen, ChunkPos.mk.injEq] at hchunk
  simp only [ChunkData.idAt, ChunkData.setIdAt, ChunkData.layerAt_setLayer _ hfresh,
    ChunkData.setLayer_layout, floorDiv_sixteen, floorMod_sixteen, BlockPos.mk.injEq]
  have hlocal (y : ℤ) : IsLocal (y - ((y - 64) / 16 * 16 + 64)) := by
    unfold IsLocal
    omega
  refine if_congr ?_ rfl rfl
  rw [BlockLayerLayout.index_inj _ (isLocal_emod ox) (hlocal oy) (isLocal_emod oz)
    (isLocal_emod px) (hlocal py) (isLocal_emod pz)]
  constructor
  · rintro ⟨hlayer, hsub, hx, hy, hz⟩
    refine ⟨hlayer, ?_⟩
    omega
  · rintro ⟨hlayer, rfl, rfl, rfl⟩
    exact ⟨hlayer, rfl, rfl, rfl, rfl⟩

@[simp] theorem ChunkData.idAt_empty (air : RuntimeId) (layout : BlockLayerLayout) (secondary : Bool)
    (pos : BlockPos) : (ChunkData.mk ∅ layout).idAt air secondary pos = air := rfl

@[simp] theorem ChunkData.setIdAt_layout (chunk : ChunkData) (fresh : SubChunkData)
    (secondary : Bool) (pos : BlockPos) (id : RuntimeId) :
    (chunk.setIdAt fresh secondary pos id).layout = chunk.layout := rfl

/-- A loop that stores what it finds leaves each cell of a layer the last id stored for it. -/
theorem ChunkData.idAt_foldl {β : Type*} {step : ChunkData → β → ChunkData} {chunk : ChunkData}
    {air : RuntimeId} {fresh : SubChunkData} {cells : List β} {layerOf : β → Bool}
    {place : β → BlockPos} {block : β → Option RuntimeId} {secondary : Bool} {pos : BlockPos}
    (hfresh : ∀ index, fresh.layer secondary index = air)
    (hstep : ∀ chunk' : ChunkData, chunk'.layout = chunk.layout → ∀ cell ∈ cells,
      step chunk' cell = match block cell with
        | none => chunk'
        | some id => chunk'.setIdAt fresh (layerOf cell) (place cell) id)
    (hchunk : ∀ cell ∈ cells, blockToChunk (place cell) = blockToChunk pos) :
    (cells.foldl step chunk).layout = chunk.layout ∧
      (cells.foldl step chunk).idAt air secondary pos =
        (lastValue (fun cell =>
          if secondary = layerOf cell ∧ pos = place cell then block cell else none) cells).getD
          (chunk.idAt air secondary pos) := by
  induction cells generalizing chunk with
  | nil => exact ⟨rfl, rfl⟩
  | cons cell rest ih =>
    have hfirst := hstep chunk rfl cell List.mem_cons_self
    have hlayout : (step chunk cell).layout = chunk.layout := by
      rw [hfirst]
      cases block cell <;> rfl
    have hrest := ih (fun chunk' h other hother => hstep chunk' (h.trans hlayout) other
      (List.mem_cons_of_mem _ hother)) fun other hother => hchunk other (List.mem_cons_of_mem _ hother)
    refine ⟨hrest.1.trans hlayout, hrest.2.trans ?_⟩
    rw [lastValue_cons, Option.getD_or]
    congr 1
    rw [hfirst]
    cases hblock : block cell with
    | none => simp
    | some id =>
      dsimp only
      rw [ChunkData.idAt_setIdAt chunk hfresh (layerOf cell) id (hchunk cell List.mem_cons_self)]
      split <;> rfl

end WaterStructure
