import WaterStructure.Formats.FuHongBounds
import WaterStructure.Formats.GangBanStream

/-!
# The form of a GangBan stream

The form of the documents of the versions 5 to 7 and the blocks that they list. The reader accepts a
document if it has this form, lists a block and every block is valid, and the blocks are not too far
apart; both of its passes go over the blocks in the order of the document.
-/

namespace WaterStructure

namespace GangBan

open FuHong (Bounds BoundsOf Registry addBounds)
open LastValue NbtTag NestedLoop

/-! ## The form of a document -/

/-- The numbers of some fields. -/
def fieldNumbers (fields : List Json) : Except String (List ℤ) :=
  fields.mapM fun field => jsonI32 field "V5 block field"

/-- The entries of a stream of fields: six numbers for each block, and perhaps its payload. -/
inductive FieldStream : List Json → List Block → Prop
  | nil : FieldStream [] []
  | bare {fields rest : List Json} {base : List ℤ} {blocks : List Block}
      (hfields : fieldNumbers fields = .ok base) (hlength : fields.length = 6)
      (hrest : FieldStream rest blocks) : FieldStream (fields ++ rest) (blockOfFields base none :: blocks)
  | payload {fields rest : List Json} {base : List ℤ} {payload : Json} {blocks : List Block}
      (hfields : fieldNumbers fields = .ok base) (hlength : fields.length = 6)
      (hpayload : isContainer payload = true) (hrest : FieldStream rest blocks) :
      FieldStream (fields ++ payload :: rest) (blockOfFields base (some payload) :: blocks)

/-- The entries of a stream of relative blocks behind a position. -/
inductive DeltaStream : BlockPos → List Json → List Block → Prop
  | nil (position : BlockPos) : DeltaStream position [] []
  | text {position : BlockPos} {entry : Json} {rest : List Json} {blocks : List Block}
      (htext : isText entry = true) (hrest : DeltaStream position rest blocks) :
      DeltaStream position (entry :: rest) blocks
  | block {position : BlockPos} {first second third fourth fifth : Json} {more rest : List Json}
      {dx dy dz primary secondary : ℤ} {blocks : List Block}
      (htext : ¬ (fourth.isString = true ∧ fifth.isString = true)) (hx : jsonI32 first "dx" = .ok dx)
      (hy : jsonI32 second "dy" = .ok dy) (hz : jsonI32 third "dz" = .ok dz)
      (hfits : (position.add ⟨dx, dy, dz⟩).FitsInt32) (hprimary : jsonI32 fourth "primary" = .ok primary)
      (hsecondary : jsonI32 fifth "secondary" = .ok secondary)
      (hrest : DeltaStream (position.add ⟨dx, dy, dz⟩) rest blocks) :
      DeltaStream position (.array (first :: second :: third :: fourth :: fifth :: more) :: rest)
        (⟨position.add ⟨dx, dy, dz⟩, primary, secondary, more.head?⟩ :: blocks)

/-- An area whose end has three numbers. -/
def AreaValid (area : Json) : Prop :=
  ∃ x y z, area.member? "ep" = some (.array [x, y, z]) ∧ (∃ number, jsonInteger x "area.ep" = .ok number) ∧
    (∃ number, jsonInteger y "area.ep" = .ok number) ∧ ∃ number, jsonInteger z "area.ep" = .ok number

/-- A document with its palette and its blocks. -/
inductive Describes : StreamVersion → Json → List (List Char) → List Block → Prop
  | fields {items entries : List Json} {area last : Json} {palette : List (List Char)} {blocks : List Block}
      (hitems : items.map Json.normal = entries ++ [area, last]) (harea : AreaValid area)
      (hpalette : stringPalette last "palette" = .ok palette) (hblocks : FieldStream entries blocks) :
      Describes .V5 (.array items) palette blocks
  | deltas {version : StreamVersion} {items entries : List Json} {last : Json}
      {palette : List (List Char)} {blocks : List Block} (hversion : version ≠ .V5)
      (hitems : items.map Json.normal = entries ++ [last])
      (hpalette : stringPalette last "palette" = .ok palette)
      (hblocks : DeltaStream ⟨0, 0, 0⟩ entries blocks) : Describes version (.array items) palette blocks

/-! ## Valid blocks -/

/-- The name of a block is in the palette, and the entity of a container can be written. -/
def Block.ValidNamed (palette : List (List Char)) (block : Block) : Prop :=
  ∃ name, paletteName palette block.primary 0 = .ok name ∧
    ∀ nbt, (block.payload.bind Json.items?).bind (containerNbt name) = some nbt →
      stringsFitEntries nbt.entries = true

/-- What the reader asks of a block; the numbers of a command block are not looked up. -/
def Block.Valid (palette : List (List Char)) (block : Block) : Prop :=
  match block.payload with
  | some (.object members) =>
    stringsFitEntries (commandNbtV5 (.object members) block.secondary).entries = true
  | _ => block.ValidNamed palette

/-- The block that is placed for an entry. -/
def Block.runtime (registry : Registry) (palette : List (List Char)) (block : Block) : RuntimeId :=
  match block.payload with
  | some (.object _) =>
    runtimeId registry (commandBlockName block.secondary).toList (block.primary % 65536).toNat
  | _ => runtimeId registry (palette.getD block.primary.toNat []) (block.secondary % 65536).toNat

theorem paletteName_ok {palette : List (List Char)} {index : ℤ} {blockIndex : ℕ} {name : List Char} :
    paletteName palette index blockIndex = .ok name ↔ 0 ≤ index ∧ palette[index.toNat]? = some name := by
  rw [paletteName]
  by_cases hnegative : index < 0
  · rw [if_pos hnegative]
    exact iff_of_false (fun h => by cases h) fun h => absurd h.1 (not_le.mpr hnegative)
  · rw [if_neg hnegative]
    cases palette[index.toNat]? with
    | none => exact iff_of_false (fun h => by cases h) fun h => by cases h.2
    | some other =>
      constructor
      · rintro ⟨⟩
        exact ⟨not_lt.mp hnegative, rfl⟩
      · rintro ⟨-, ⟨⟩⟩
        rfl

theorem writeCompound_ok {compound written : Compound} :
    writeCompound compound = .ok written ↔ stringsFitEntries compound.entries = true ∧ written = compound := by
  rw [writeCompound]
  split_ifs with hfits
  · constructor
    · rintro ⟨⟩
      exact ⟨hfits, rfl⟩
    · rintro ⟨-, rfl⟩
      rfl
  · exact iff_of_false (fun h => by cases h) fun h => hfits h.1

section Resolve

variable {registry : Registry} {palette : List (List Char)}

theorem mapM_writeCompound_ok {compound written : Option Compound} :
    compound.mapM writeCompound = .ok written ↔
      written = compound ∧ ∀ nbt, compound = some nbt → stringsFitEntries nbt.entries = true := by
  cases compound with
  | none =>
    constructor
    · rintro ⟨⟩
      exact ⟨rfl, fun _ hno => by cases hno⟩
    · rintro ⟨rfl, -⟩
      rfl
  | some compound =>
    change (writeCompound compound).map some = .ok written ↔ _
    constructor
    · intro h
      obtain ⟨nbt, hnbt, hwritten⟩ := exists_of_map_ok h
      obtain ⟨hfits, rfl⟩ := writeCompound_ok.mp hnbt
      exact ⟨hwritten, fun _ hsome => Option.some.inj hsome ▸ hfits⟩
    · rintro ⟨rfl, hfits⟩
      rw [writeCompound_ok.mpr ⟨hfits compound rfl, rfl⟩]
      rfl

variable {block : Block} {blockIndex : ℕ} {found : RuntimeId × Option Compound}

theorem resolveNamed_ok :
    resolveNamed registry palette block blockIndex = .ok found → block.ValidNamed palette ∧
      found.1 = runtimeId registry (palette.getD block.primary.toNat []) (block.secondary % 65536).toNat := by
  intro h
  rw [resolveNamed] at h
  obtain ⟨name, hname, h⟩ := exists_of_bind_ok h
  obtain ⟨nbt, hnbt, h⟩ := exists_of_bind_ok h
  cases h
  obtain ⟨hindex, hlookup⟩ := paletteName_ok.mp hname
  refine ⟨⟨name, paletteName_ok.mpr ⟨hindex, hlookup⟩, (mapM_writeCompound_ok.mp hnbt).2⟩, ?_⟩
  rw [List.getD_eq_getElem?_getD, hlookup, Option.getD_some]

theorem Block.ValidNamed.resolves (h : block.ValidNamed palette) (blockIndex : ℕ) :
    ∃ found, resolveNamed registry palette block blockIndex = .ok found := by
  obtain ⟨name, hname, hfits⟩ := h
  have hname' : paletteName palette block.primary blockIndex = .ok name :=
    paletteName_ok.mpr (paletteName_ok.mp hname)
  rw [resolveNamed, hname', ok_bind, mapM_writeCompound_ok.mpr ⟨rfl, hfits⟩]
  exact ⟨_, rfl⟩

theorem valid_of_resolve (h : resolve registry palette block blockIndex = .ok found) :
    block.Valid palette ∧ found.1 = block.runtime registry palette := by
  obtain ⟨world, primary, secondary, payload⟩ := block
  rcases payload with _ | (_ | _ | _ | _ | _ | _ | _ | members)
  case some.object =>
    obtain ⟨nbt, hnbt, rfl⟩ := exists_of_map_ok h
    exact ⟨(writeCompound_ok.mp hnbt).1, rfl⟩
  all_goals exact resolveNamed_ok h

theorem Block.Valid.resolves (h : block.Valid palette) (blockIndex : ℕ) :
    ∃ found, resolve registry palette block blockIndex = .ok found ∧
      found.1 = block.runtime registry palette := by
  have hsome : ∃ found, resolve registry palette block blockIndex = .ok found := by
    obtain ⟨world, primary, secondary, payload⟩ := block
    rcases payload with _ | (_ | _ | _ | _ | _ | _ | _ | members)
    case some.object =>
      change ∃ found, (writeCompound (commandNbtV5 (.object members) secondary)).map _ = .ok found
      rw [writeCompound_ok.mpr ⟨h, rfl⟩]
      exact ⟨_, rfl⟩
    all_goals exact Block.ValidNamed.resolves h blockIndex
  obtain ⟨found, hfound⟩ := hsome
  exact ⟨found, hfound, (valid_of_resolve hfound).2⟩

end Resolve

/-! ## Going over the blocks -/

section Visit

variable (registry : Registry) (palette : List (List Char))

/-- Place blocks in their order. -/
def visit (materialize : Bool) (blockIndex : ℕ) (blocks : List Block) (s : Stream) : Except String Stream :=
  (blocks.zipIdx blockIndex).foldlM (fun s entry => place registry palette materialize entry.1 entry.2 s) s

variable {registry} {palette}

theorem visit_nil (materialize : Bool) (blockIndex : ℕ) (s : Stream) :
    visit registry palette materialize blockIndex [] s = .ok s := rfl

theorem visit_cons (materialize : Bool) (blockIndex : ℕ) (block : Block) (rest : List Block) (s : Stream) :
    visit registry palette materialize blockIndex (block :: rest) s =
      place registry palette materialize block blockIndex s >>=
        visit registry palette materialize (blockIndex + 1) rest := by
  rw [visit, List.zipIdx_cons, List.foldlM_cons]
  rfl

/-- The first pass checks the blocks and finds their bounds. -/
theorem visit_false_ok {blockIndex : ℕ} {blocks : List Block} {s t : Stream} :
    visit registry palette false blockIndex blocks s = .ok t ↔ (∀ block ∈ blocks, block.Valid palette) ∧
      t = { s with bounds := (blocks.map Block.world).foldl addBounds s.bounds } := by
  induction blocks generalizing blockIndex s with
  | nil =>
    rw [visit_nil, Except.ok.injEq]
    exact ⟨fun h => ⟨fun _ hno => absurd hno List.not_mem_nil, h.symm⟩, fun h => h.2.symm⟩
  | cons block rest ih =>
    rw [visit_cons, List.forall_mem_cons]
    constructor
    · intro h
      obtain ⟨next, hnext, h⟩ := exists_of_bind_ok h
      obtain ⟨hrest, rfl⟩ := ih.mp h
      rw [place] at hnext
      obtain ⟨found, hfound, hnext⟩ := exists_of_bind_ok hnext
      cases hnext
      exact ⟨⟨(valid_of_resolve hfound).1, hrest⟩, rfl⟩
    · rintro ⟨⟨hblock, hrest⟩, rfl⟩
      obtain ⟨found, hfound, -⟩ := hblock.resolves blockIndex
      rw [place, hfound, ok_bind]
      exact ih.mpr ⟨hrest, rfl⟩

theorem Stream.put_store (s : Stream) (pos : BlockPos) (found : RuntimeId × Option Compound) {size : Size}
    {placements : List Placement} (h : s.store.HoldsPlaced registry.airRuntimeId size placements) :
    (s.put registry pos found).store.HoldsPlaced registry.airRuntimeId size (placements ++ [(pos, found.1)]) := by
  rw [Stream.put]
  split
  · exact (h.put pos found.1).putEntity pos found.2
  · exact h.put pos found.1

theorem Stream.put_bounds (s : Stream) (pos : BlockPos) (found : RuntimeId × Option Compound) :
    (s.put registry pos found).bounds = s.bounds := by
  rw [Stream.put]
  split <;> rfl

/-- The placement of a block in the structure. -/
def Block.placement (registry : Registry) (palette : List (List Char)) (minimum : BlockPos) (block : Block) :
    Placement := (block.world.sub minimum, block.runtime registry palette)

/-- The second pass stores the blocks. -/
theorem visit_true_ok {blockIndex : ℕ} {blocks : List Block} {s : Stream} {size : Size}
    {placements : List Placement} (hvalid : ∀ block ∈ blocks, block.Valid palette)
    (hfits : ∀ block ∈ blocks, (block.world.sub (minimumOf s.bounds)).FitsInt32)
    (hs : s.store.HoldsPlaced registry.airRuntimeId size placements) :
    ∃ t, visit registry palette true blockIndex blocks s = .ok t ∧
      t.store.HoldsPlaced registry.airRuntimeId size
        (placements ++ blocks.map (Block.placement registry palette (minimumOf s.bounds))) := by
  induction blocks generalizing blockIndex s placements with
  | nil => exact ⟨s, rfl, by rwa [List.map_nil, List.append_nil]⟩
  | cons block rest ih =>
    rw [List.forall_mem_cons] at hvalid hfits
    obtain ⟨found, hfound, hruntime⟩ := hvalid.1.resolves blockIndex
    have hplace : place registry palette true block blockIndex s =
        .ok (s.put registry (block.world.sub (minimumOf s.bounds)) found) := by
      have hsubtract : subtract block.world (minimumOf s.bounds) =
          .ok (block.world.sub (minimumOf s.bounds)) := if_pos hfits.1
      rw [place, hfound, ok_bind, if_neg (not_not_intro rfl), hsubtract]
      rfl
    have hput := s.put_store (block.world.sub (minimumOf s.bounds)) found hs
    have hbounds := @Stream.put_bounds registry s (block.world.sub (minimumOf s.bounds)) found
    rw [visit_cons, hplace, ok_bind]
    rw [hruntime] at hput
    obtain ⟨t, ht, hholds⟩ := @ih (blockIndex + 1) _ _ hvalid.2 (by rw [hbounds]; exact hfits.2) hput
    refine ⟨t, ht, ?_⟩
    rw [hbounds, List.append_assoc, List.singleton_append] at hholds
    exact hholds

end Visit

end GangBan

end WaterStructure
