import WaterStructure.Core.SparseBlockStore

/-!
# Loops of placements

A reader that stores one block after the other in a sparse store. Whatever is done with the entities in
between, a cell ends with the block that was placed there last.
-/

namespace WaterStructure

open LastValue

/-- A block and its cell. -/
abbrev Placement := BlockPos × RuntimeId

/-- The block that placements leave in a cell. -/
def lastPlaced (air : RuntimeId) (placements : List Placement) (cell : BlockPos) : RuntimeId :=
  (lastValue (fun placement => if placement.1 = cell then some placement.2 else none) placements).getD air

namespace SparseBlockStore

variable {Nbt : Type}

/-- What placements have made of a store. -/
structure HoldsPlaced (air : RuntimeId) (size : Size) (placements : List Placement)
    (store : SparseBlockStore Nbt) : Prop where
  originalSize : store.originalSize = size
  content : ∀ cell, store.content air cell = lastPlaced air placements cell
  inBounds : (∀ placement ∈ placements, size.Contains placement.1) → store.InBounds air

theorem holdsPlaced_setSize (air : RuntimeId) (size : Size) (enabled : Bool) :
    ((({} : SparseBlockStore Nbt).setSize size).setIncludeOutOfBounds enabled).HoldsPlaced air size [] where
  originalSize := rfl
  content := fun _ => rfl
  inBounds := fun _ => inBounds_setSize size air enabled

variable {air : RuntimeId} {size : Size} {placements : List Placement} {store : SparseBlockStore Nbt}

theorem HoldsPlaced.put (h : store.HoldsPlaced air size placements) (cell : BlockPos) (id : RuntimeId) :
    (store.put air cell id).HoldsPlaced air size (placements ++ [(cell, id)]) where
  originalSize := h.originalSize
  content := fun other => by
    rw [content_put, Function.update_apply, h.content, lastPlaced, lastPlaced, lastValue_append]
    by_cases hcell : cell = other
    · rw [if_pos hcell.symm, lastValue_cons, lastValue_nil, Option.none_or, if_pos hcell, Option.some_or,
        Option.getD_some]
    · rw [if_neg fun hsame => hcell hsame.symm, lastValue_cons, lastValue_nil, Option.none_or,
        if_neg hcell, Option.none_or]
  inBounds := fun hinside => by
    have hbefore := h.inBounds fun placement hmem => hinside placement (List.mem_append_left _ hmem)
    have hcell := hinside (cell, id) (List.mem_append_right _ (List.mem_singleton_self _))
    exact hbefore.put (h.originalSize ▸ hcell) id

/-- The entities do not matter. -/
theorem HoldsPlaced.withEntities (h : store.HoldsPlaced air size placements)
    (entities : AList fun _ : BlockPos => Nbt) : { store with entities }.HoldsPlaced air size placements where
  originalSize := h.originalSize
  content := h.content
  inBounds := fun hinside =>
    ⟨(h.inBounds hinside).inside, (h.inBounds hinside).outside, (h.inBounds hinside).counted⟩

theorem HoldsPlaced.putEntity (h : store.HoldsPlaced air size placements) (cell : BlockPos)
    (payload : Option Nbt) : (store.putEntity cell payload).HoldsPlaced air size placements := by
  cases payload with
  | none => exact h.withEntities _
  | some payload => exact h.withEntities _

end SparseBlockStore

end WaterStructure
