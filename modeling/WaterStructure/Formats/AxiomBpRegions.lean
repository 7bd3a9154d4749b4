import WaterStructure.Formats.AxiomBp
import WaterStructure.Formats.LitematicRoundTrip

/-!
# One region of a blueprint

The writer numbers the blocks of a region by first occurrence behind air and packs the numbers with
a width that both sides compute from the palette. So the reader, which takes no notice of air, goes
over the cells of the region and finds the block of each.
-/

namespace WaterStructure

open LastValue NestedLoop

namespace AxiomBp

open InternTable NbtTag

/-! ## Packed palette numbers -/

/-- The width holds every number of a palette of a region, and five or more of them fit a long. -/
theorem bitsForPalette_bounds {size : ℕ} (hsize : size ≤ 4097) :
    4 ≤ bitsForPalette size ∧ bitsForPalette size ≤ 13 ∧
      ∀ index < size, index < 2 ^ bitsForPalette size := by
  have hle : Litematic.countBits (if size > 0 then size - 1 else 0) ≤ 13 := by
    apply Litematic.countBits_le
    split <;> omega
  refine ⟨le_max_left _ _, max_le (by decide) hle, fun index hindex => ?_⟩
  rw [bitsForPalette, if_pos (Nat.zero_lt_of_lt hindex)]
  calc index ≤ size - 1 := by omega
    _ < 2 ^ Litematic.countBits (size - 1) := Litematic.lt_two_pow_countBits _
    _ ≤ 2 ^ max 4 (Litematic.countBits (size - 1)) :=
      Nat.pow_le_pow_right (by decide) (le_max_right _ _)

variable {bits index : ℕ} {air : RuntimeId} {done : List BlockPos} {state : RegionState}
  {registry : Registry}

/-- A number that the width holds is not changed by the mask. -/
theorem and_mask (hbits : bits < 64) (hindex : index < 2 ^ bits) :
    BitVec.ofNat 64 index &&& mask bits = BitVec.ofNat 64 index := by
  apply BitVec.eq_of_getLsbD_eq
  intro b _
  rw [BitVec.getLsbD_and, show mask bits = BitPacking.mask bits from rfl,
    BitPacking.getLsbD_mask hbits]
  by_cases hlow : b < bits
  · simp [hlow]
  · rw [BitPacking.getLsbD_eq_false_of_lt _ (Nat.le_of_not_lt hlow), Bool.false_and]
    exact (Nat.mod_le _ _).trans_lt hindex

/-- The packing loop stores the numbers as fields that do not cross longs. -/
theorem foldl_modify_eq_packFrom (hbits : 0 < bits ∧ bits < 64) (indices : List ℕ)
    (hindices : ∀ index ∈ indices, index < 2 ^ bits) (words : List (BitVec 64)) (start : ℕ) :
    (indices.zipIdx start).foldl
      (fun result entry => result.modify (entry.2 / max 1 (64 / bits))
        (· ||| (BitVec.ofNat 64 entry.1 &&& mask bits) <<< (entry.2 % max 1 (64 / bits) * bits)))
      words =
    AlignedPacking.packFrom bits words start (indices.map (BitVec.ofNat 64)) := by
  have hper : max 1 (64 / bits) = AlignedPacking.perWord 64 bits :=
    max_eq_right (Nat.div_pos hbits.2.le hbits.1)
  induction indices generalizing words start with
  | nil => rfl
  | cons index rest ih =>
    rw [List.zipIdx_cons, List.foldl_cons, List.map_cons, AlignedPacking.packFrom,
      ← ih (fun other hother => hindices other (List.mem_cons_of_mem _ hother))]
    rw [and_mask hbits.2 (hindices index List.mem_cons_self), AlignedPacking.store, hper]

/-- A number is found where it was packed. -/
theorem packIndices_spec {indices : List ℕ} {paletteSize : ℕ} (hsize : paletteSize ≤ 4097)
    (hindices : ∀ index ∈ indices, index < paletteSize) {i paletteIndex : ℕ}
    (hi : indices[i]? = some paletteIndex) :
    ∃ long, (packIndices indices paletteSize)[i / (64 / bitsForPalette paletteSize)]? = some long ∧
      ((long >>> (i % (64 / bitsForPalette paletteSize) * bitsForPalette paletteSize)) &&&
        mask (bitsForPalette paletteSize)).toNat = paletteIndex := by
  obtain ⟨hlow, hhigh, hholds⟩ := bitsForPalette_bounds hsize
  generalize hbits : bitsForPalette paletteSize = bits at hlow hhigh hholds
  have hper : 0 < 64 / bits := Nat.div_pos (by omega) (by omega)
  have hlt : i < indices.length := (List.getElem?_eq_some_iff.mp hi).1
  have hvalues : ∀ value ∈ indices.map (BitVec.ofNat 64), value.toNat < 2 ^ bits := by
    intro value hvalue
    obtain ⟨index, hindex, rfl⟩ := List.mem_map.mp hvalue
    exact (Nat.mod_le _ _).trans_lt (hholds index (hindices index hindex))
  obtain ⟨count, hcount⟩ : ∃ count, (indices.length + 64 / bits - 1) / (64 / bits) = count :=
    ⟨_, rfl⟩
  have hroom : indices.length ≤ count * (64 / bits) := by
    rw [← hcount]
    have := Nat.div_add_mod (indices.length + 64 / bits - 1) (64 / bits)
    have hmod := Nat.mod_lt (indices.length + 64 / bits - 1) hper
    rw [Nat.mul_comm] at this
    omega
  have hpacked : packIndices indices paletteSize =
      AlignedPacking.packFrom bits (List.replicate count 0) 0 (indices.map (BitVec.ofNat 64)) := by
    rw [← foldl_modify_eq_packFrom ⟨by omega, by omega⟩ indices
      (fun index hindex => hholds index (hindices index hindex)), packIndices, hbits]
    rw [show max 1 (64 / bits) = 64 / bits from max_eq_right hper, hcount]
  have hword : i / (64 / bits) < (packIndices indices paletteSize).length := by
    rw [hpacked, AlignedPacking.length_packFrom, List.length_replicate,
      Nat.div_lt_iff_lt_mul hper]
    omega
  have hfield := AlignedPacking.field_packFrom (by omega : bits < 64) hper hvalues
    (by rw [List.length_map, List.length_replicate, Nat.zero_add]; exact hroom)
    (fun j _ => AlignedPacking.field_replicate_zero bits count j) i
  rw [← hpacked, if_neg (Nat.not_lt_zero i), Nat.sub_zero, List.getElem?_map, hi,
    AlignedPacking.field, AlignedPacking.perWord, List.getElem?_eq_getElem hword] at hfield
  refine ⟨_, List.getElem?_eq_getElem hword, ?_⟩
  rw [show mask bits = BitPacking.mask bits from rfl]
  simp only [Option.getD_some, Option.map_some] at hfield
  rw [hfield, BitVec.toNat_ofNat]
  apply Nat.mod_eq_of_lt
  calc paletteIndex < 2 ^ bits :=
        hholds paletteIndex (hindices paletteIndex (List.mem_of_getElem? hi))
    _ ≤ 2 ^ 64 := Nat.pow_le_pow_right (by decide) (by omega)

/-! ## The loops over one region -/

/-- The place of a cell in the array of a region. -/
def localIndex (cell : BlockPos) : ℕ := (cell.y * 256 + cell.z * 16 + cell.x).toNat

variable {cell : BlockPos} {block : BlockPos → RuntimeId} {region : BlockPos}

theorem mem_localCells :
    cell ∈ localCells ↔ IsLocal cell.x ∧ IsLocal cell.y ∧ IsLocal cell.z := Size.mem_cellsYZX

/-- Cells of a region have different places. -/
theorem localIndex_inj {other : BlockPos} (hcell : cell ∈ localCells) (hother : other ∈ localCells)
    (h : localIndex cell = localIndex other) : cell = other := by
  rw [mem_localCells] at hcell hother
  obtain ⟨x, y, z⟩ := cell
  obtain ⟨x', y', z'⟩ := other
  unfold IsLocal at hcell hother
  unfold localIndex at h
  dsimp only at hcell hother h
  rw [BlockPos.mk.injEq]
  omega

theorem localIndex_lt (hcell : cell ∈ localCells) : localIndex cell < 4096 := by
  rw [mem_localCells] at hcell
  unfold IsLocal at hcell
  unfold localIndex
  omega

/-- The variables of the loops after some cells. -/
structure RegionState.Holds (air : RuntimeId) (block : BlockPos → RuntimeId) (region : BlockPos)
    (done : List BlockPos) (state : RegionState) : Prop where
  length : state.indices.length = 4096
  sound : state.palette.Sound fun id => id
  small : state.palette.values.length ≤ done.length + 1
  used : ∀ id ∈ state.palette.values, id = air ∨ ∃ cell ∈ done, block (cellOf region cell) = id
  below : ∀ index ∈ state.indices, index < state.palette.values.length
  index : ∀ cell ∈ done, ∃ index, state.indices[localIndex cell]? = some index ∧
    state.palette.indices.lookup (block (cellOf region cell)) = some index
  count : state.blockCount = done.countP fun cell => block (cellOf region cell) ≠ air

theorem RegionState.holds_nil (air : RuntimeId) (block : BlockPos → RuntimeId) (region : BlockPos) :
    RegionState.Holds air block region [] ⟨Table.add (fun id => id) ⟨[], ∅⟩ air,
      List.replicate 4096 0, 0⟩ where
  length := List.length_replicate
  sound := (Table.sound_empty _).add air
  small := le_rfl
  used := fun _ hid => .inl (List.mem_singleton.mp hid)
  below := fun _ hindex => List.eq_of_mem_replicate hindex ▸ Nat.zero_lt_one
  index := fun _ hcell => absurd hcell List.not_mem_nil
  count := rfl

/-- Adding a value appends at most that value. -/
theorem values_add (table : Table RuntimeId RuntimeId) (id : RuntimeId) :
    (table.add (fun id => id) id).values = table.values ∨
      (table.add (fun id => id) id).values = table.values ++ [id] := by
  unfold Table.add
  split
  · exact .inl rfl
  · exact .inr rfl

/-- The loop body keeps what holds. -/
theorem RegionState.Holds.add (h : state.Holds air block region done)
    (hdone : ∀ cell ∈ done, cell ∈ localCells) (hcell : cell ∈ localCells) :
    (state.add air block region cell).Holds air block region (done ++ [cell]) := by
  obtain ⟨id, hid⟩ : ∃ id, block (cellOf region cell) = id := ⟨_, rfl⟩
  obtain ⟨index, hindex⟩ :=
    Option.isSome_iff_exists.mp (Table.knows_add_self (fun id => id) state.palette id)
  have hsound := h.sound.add id
  have hbelow : index < (state.palette.add (fun id => id) id).values.length := by
    obtain ⟨value, hvalue, -⟩ := hsound _ _ hindex
    exact (List.getElem?_eq_some_iff.mp hvalue).1
  have hgrows : state.palette.values.length ≤
      (state.palette.add (fun id => id) id).values.length := by
    rcases values_add state.palette id with heq | heq
    · rw [heq]
    · rw [heq, List.length_append]
      exact Nat.le_add_right _ _
  have hadd : state.add air block region cell =
      ⟨state.palette.add (fun id => id) id, state.indices.set (localIndex cell) index,
        if id ≠ air then state.blockCount + 1 else state.blockCount⟩ := by
    rw [RegionState.add, hid, hindex]
    rfl
  rw [hadd]
  refine ⟨by rw [List.length_set, h.length], hsound, ?_, ?_, ?_, ?_, ?_⟩
  · have hsmall := h.small
    rw [List.length_append, List.length_singleton]
    rcases values_add state.palette id with heq | heq
    · rw [heq]
      omega
    · rw [heq, List.length_append, List.length_singleton]
      omega
  · intro other hother
    have hcases : other ∈ state.palette.values ∨ other = id := by
      rcases values_add state.palette id with heq | heq
      · rw [heq] at hother
        exact .inl hother
      · rw [heq, List.mem_append, List.mem_singleton] at hother
        exact hother
    rcases hcases with hold | rfl
    · exact (h.used other hold).imp_right fun ⟨old, hmem, hblock⟩ =>
        ⟨old, List.mem_append_left _ hmem, hblock⟩
    · exact .inr ⟨cell, List.mem_append_right _ (List.mem_singleton_self cell), hid⟩
  · intro other hother
    rcases List.mem_or_eq_of_mem_set hother with hold | rfl
    · exact (h.below other hold).trans_le hgrows
    · exact hbelow
  · intro other hother
    by_cases hsame : other = cell
    · subst hsame
      refine ⟨index, ?_, by rw [hid]; exact hindex⟩
      rw [List.getElem?_set_self (by rw [h.length]; exact localIndex_lt hcell)]
    · have hold : other ∈ done := by
        rcases List.mem_append.mp hother with hold | hnew
        · exact hold
        · exact absurd (List.mem_singleton.mp hnew) hsame
      obtain ⟨old, hget, hlookup⟩ := h.index other hold
      refine ⟨old, ?_, Table.lookup_add_of_some hlookup id⟩
      rw [List.getElem?_set_ne fun heq => hsame (localIndex_inj (hdone other hold) hcell heq.symm)]
      exact hget
  · rw [List.countP_append, List.countP_singleton, ← h.count, hid]
    by_cases hair : id = air
    · simp [hair]
    · simp [hair]

/-- The loops over a region. -/
theorem RegionState.Holds.run {rest : List BlockPos} (h : state.Holds air block region done)
    (hall : ∀ cell ∈ done ++ rest, cell ∈ localCells) :
    (rest.foldl (RegionState.add air block region) state).Holds air block region (done ++ rest) := by
  induction rest generalizing done state with
  | nil => rwa [List.append_nil]
  | cons cell rest ih =>
    rw [List.append_cons] at hall ⊢
    have hcell : cell ∈ done ++ [cell] := List.mem_append_right _ (List.mem_singleton_self cell)
    exact ih (h.add (fun other hother => hall other
      (List.mem_append_left _ (List.mem_append_left _ hother)))
      (hall cell (List.mem_append_left _ hcell))) hall

theorem holds_regionState (air : RuntimeId) (block : BlockPos → RuntimeId) (region : BlockPos) :
    (regionState air block region).Holds air block region localCells :=
  (RegionState.holds_nil air block region).run fun _ hcell => hcell

/-! ## Reading a region that was written -/

/-- The cell at a place of the array. -/
def localAt (index : ℕ) : BlockPos := ⟨(index % 16 : ℕ), (index / 256 : ℕ), (index % 256 / 16 : ℕ)⟩

theorem localAt_mem (h : index < 4096) : localAt index ∈ localCells := by
  rw [mem_localCells]
  unfold IsLocal localAt
  dsimp only
  omega

theorem localIndex_localAt (index : ℕ) : localIndex (localAt index) = index := by
  unfold localIndex localAt
  dsimp only
  omega

/-- Both sides go over the cells of a region in the same order. -/
theorem localCells_eq : localCells = (List.range 4096).map localAt := by
  apply List.ext_getElem?
  intro index
  rw [List.getElem?_map]
  by_cases hlt : index < 4096
  · have hcell := Size.mem_cellsYZX.mp (localAt_mem hlt)
    have hplace : Size.cellIndex ⟨16, 16, 16⟩ (localAt index) = index := by
      unfold Size.cellIndex localAt
      dsimp only
      omega
    rw [List.getElem?_range hlt, Option.map_some, ← Size.getElem?_cellsYZX hcell, hplace]
    rfl
  · have hbehind : localCells.length ≤ index := by
      rw [localCells, Size.length_cellsYZX]
      exact Nat.le_of_not_lt hlt
    have hend : (List.range 4096).length ≤ index := List.length_range ▸ Nat.le_of_not_lt hlt
    rw [List.getElem?_eq_none hbehind, List.getElem?_eq_none hend]
    rfl

/-- The cells of the structure that belong to a region. -/
def regionCells (region : BlockPos) : List BlockPos := localCells.map (cellOf region)

/-- Keep the block of a cell, unless it is air. -/
def AxiomBpReader.placeCell (air : RuntimeId) (block : BlockPos → RuntimeId) (reader : AxiomBpReader)
    (cell : BlockPos) : AxiomBpReader :=
  if block cell = air then reader else reader.place air cell (block cell)

/-- The registry finds an id again by the palette entry that was written for it. -/
def Registry.FindsAgain (registry : Registry) (id : RuntimeId) : Prop :=
  ∀ entry, paletteEntry registry id = .ok entry → paletteRuntime registry entry.entries = id

/-- The palette that the reader builds from the entries of a region is the writer's. -/
theorem regionPalette_eq {ids : List RuntimeId} {entries : List Compound}
    (h : ids.mapM (paletteEntry registry) = .ok entries)
    (hfinds : ∀ id ∈ ids, registry.FindsAgain id) :
    regionPalette registry (entries.map fun entry => .compound entry.entries) = ids := by
  rw [regionPalette, List.map_map]
  have hpairs := forall₂_of_mapM_ok h
  clear h
  induction hpairs with
  | nil => rfl
  | cons hentry hrest ih =>
    rw [List.map_cons, ih fun id hid => hfinds id (List.mem_cons_of_mem _ hid)]
    exact congrArg (· :: _) (hfinds _ List.mem_cons_self _ hentry)

/-- A region that was written has the coordinates and the blocks of its cells. -/
theorem readRegion_encoded {tag : Tag} {count : ℕ}
    (h : encodeRegion registry block region = .ok (tag, count))
    (hair : registry.FindsAgain registry.airRuntimeId)
    (hfinds : ∀ cell ∈ regionCells region, registry.FindsAgain (block cell)) :
    ∃ parts, (∀ regionIndex, regionParts tag regionIndex = .ok parts) ∧ parts.region = region ∧
      ∀ reader, readRegion registry ⟨0, 0, 0⟩ reader parts =
        (regionCells region).foldl (.placeCell registry.airRuntimeId block) reader := by
  obtain ⟨entries, hentries, htag⟩ := exists_of_bind_ok h
  have hstate := holds_regionState registry.airRuntimeId block region
  obtain ⟨state, hdef⟩ : ∃ state, regionState registry.airRuntimeId block region = state := ⟨_, rfl⟩
  rw [hdef] at hentries htag hstate
  have hsmall : state.palette.values.length ≤ 4097 := by
    have hlength : localCells.length = 4096 := by
      rw [localCells_eq, List.length_map, List.length_range]
    have := hstate.small
    omega
  have hpalette := regionPalette_eq hentries fun id hid => by
    rcases hstate.used id hid with rfl | ⟨cell, hcell, rfl⟩
    · exact hair
    · exact hfinds _ (List.mem_map_of_mem hcell)
  cases htag
  refine ⟨⟨region, entries.map fun entry => .compound entry.entries,
    (packIndices state.indices state.palette.values.length).map BitVec.toInt⟩, fun _ => rfl, rfl, ?_⟩
  intro reader
  have hpacked : ((packIndices state.indices state.palette.values.length).map BitVec.toInt).map
      (BitVec.ofInt 64) = packIndices state.indices state.palette.values.length := by
    rw [List.map_map]
    exact (List.map_congr_left fun long _ => BitVec.ofInt_toInt).trans (List.map_id _)
  have hregion : region.sub ⟨0, 0, 0⟩ = region := by simp [BlockPos.sub]
  rw [readRegion, hpalette, hpacked, hregion, regionCells, localCells_eq, List.map_map,
    List.foldl_map]
  apply foldl_congr
  intro reader index hindex
  have hlt : index < 4096 := List.mem_range.mp hindex
  obtain ⟨paletteIndex, hget, hlookup⟩ := hstate.index _ (localAt_mem hlt)
  rw [localIndex_localAt] at hget
  obtain ⟨value, hvalue, rfl⟩ := hstate.sound _ _ hlookup
  obtain ⟨long, hlong, hnumber⟩ := packIndices_spec hsmall hstate.below hget
  simp only [readIndex, hlong, hnumber, hvalue]
  rfl

end AxiomBp

end WaterStructure
