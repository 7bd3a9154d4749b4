import WaterStructure.Formats.FuHongBounds
import WaterStructure.Library.LastValue

/-!
# What the second pass over a FuHong document stores

The second pass walks the tuples of a document in document order. The block of a tuple is the one that
its name and its aux value stand for, with the palette cache as the tuples before it leave it; it is stored
for all cells of the tuple, over what earlier tuples have stored.
-/

namespace WaterStructure

namespace FuHong

open Json LastValue NbtTag NestedLoop ReorderedLoop StatefulRun

variable {registry : Registry} {dump : Json → List Char} {layout : Layout} {version : Version}

/-! ## The blocks of the tuples -/

/-- The block of a tuple, and the palette cache behind it. -/
def tupleBlock (registry : Registry) (palette : List (List Char)) (cache : PaletteCache) (tuple : Tuple) :
    RuntimeId × PaletteCache :=
  runtimeId registry cache
    (palette[(caught (integer tuple.paletteIndex "palette index")).toNat]?.getD [])
    (caught (integer tuple.aux "aux")) .empty

/-- The cells of tuples with their blocks, in the order of the tuples. -/
def placements (registry : Registry) (palette : List (List Char)) :
    PaletteCache → List (BlockPos × Tuple) → List (List BlockPos × RuntimeId)
  | _, [] => []
  | cache, entry :: rest =>
    let found := tupleBlock registry palette cache entry.2
    (worldCells entry, found.1) :: placements registry palette found.2 rest

/-- The palette cache behind some tuples. -/
def cacheBehind (registry : Registry) (palette : List (List Char)) (cache : PaletteCache)
    (entries : List (BlockPos × Tuple)) : PaletteCache :=
  entries.foldl (fun cache entry => (tupleBlock registry palette cache entry.2).2) cache

theorem placements_append_single (registry : Registry) (palette : List (List Char)) (cache : PaletteCache)
    (entries : List (BlockPos × Tuple)) (entry : BlockPos × Tuple) :
    placements registry palette cache (entries ++ [entry]) = placements registry palette cache entries ++
      [(worldCells entry,
        (tupleBlock registry palette (cacheBehind registry palette cache entries) entry.2).1)] := by
  induction entries generalizing cache with
  | nil => rfl
  | cons first rest ih =>
    rw [List.cons_append, placements, ih, placements]
    rfl

theorem cacheBehind_append_single (registry : Registry) (palette : List (List Char)) (cache : PaletteCache)
    (entries : List (BlockPos × Tuple)) (entry : BlockPos × Tuple) :
    cacheBehind registry palette cache (entries ++ [entry]) =
      (tupleBlock registry palette (cacheBehind registry palette cache entries) entry.2).2 := by
  rw [cacheBehind, List.foldl_append]
  rfl

/-- What a tuple stores in a cell of the structure. -/
def blockOf (minimum cell : BlockPos) (placement : List BlockPos × RuntimeId) : Option RuntimeId :=
  if cell.add minimum ∈ placement.1 then some placement.2 else none

/-- The block of the last tuple that names a cell of the structure. -/
def lastBlock (registry : Registry) (layout : Layout) (entries : List (BlockPos × Tuple)) (cell : BlockPos) :
    RuntimeId :=
  (lastValue (blockOf layout.minimum cell) (placements registry layout.palette ∅ entries)).getD
    registry.airRuntimeId

/-! ## The cells of a tuple -/

/-- The variables of the second pass behind some cells of a tuple. -/
structure PlacedCells (registry : Registry) (minimum : BlockPos) (start : Payload) (runtime : RuntimeId)
    (cells : List BlockPos) (p : Payload) : Prop where
  cache : p.paletteCache = start.paletteCache
  content : ∀ cell, p.store.content registry.airRuntimeId cell =
    if cell.add minimum ∈ cells then runtime else start.store.content registry.airRuntimeId cell
  size : p.store.originalSize = start.store.originalSize
  inBounds : start.store.InBounds registry.airRuntimeId →
    (∀ pos ∈ cells, start.store.originalSize.Contains (pos.sub minimum)) →
      p.store.InBounds registry.airRuntimeId

theorem Payload.place_store (air : RuntimeId) (p : Payload) (pos : BlockPos) (runtime : RuntimeId)
    (entity : Option Compound) : ∃ entities, (p.place air pos runtime entity).store =
      { p.store.put air pos runtime with entities } := by
  rw [Payload.place]
  dsimp only
  split
  · cases entity with
    | none => exact ⟨_, rfl⟩
    | some compound => exact ⟨_, rfl⟩
  · exact ⟨_, rfl⟩

variable {p : Payload} {origin : BlockPos} {p' : Payload} {entries : List (BlockPos × Tuple)} {t : ℕ × Payload}
  {start : Payload} {runtime : RuntimeId} {cells : List BlockPos} {chunkIndex : ℕ} {s : ℕ × Payload}
  {document : Json}

theorem PlacedCells.place {minimum : BlockPos} (h : PlacedCells registry minimum start runtime cells p)
    (pos : BlockPos) (entity : Option Compound) :
    PlacedCells registry minimum start runtime (cells ++ [pos])
      (p.place registry.airRuntimeId (pos.sub minimum) runtime entity) := by
  obtain ⟨entities, hstore⟩ :=
    p.place_store registry.airRuntimeId (pos.sub minimum) runtime entity
  constructor
  · exact h.cache
  · intro cell
    rw [hstore]
    change (p.store.put registry.airRuntimeId (pos.sub minimum) runtime).content registry.airRuntimeId cell = _
    rw [SparseBlockStore.content_put, Function.update_apply, h.content]
    by_cases hcell : cell = pos.sub minimum
    · have hmem : cell.add minimum ∈ cells ++ [pos] := by
        rw [BlockPos.add_eq_iff.mpr hcell]
        exact List.mem_append_right _ (List.mem_singleton_self _)
      rw [if_pos hcell, if_pos hmem]
    · have hiff : cell.add minimum ∈ cells ++ [pos] ↔ cell.add minimum ∈ cells := by
        rw [List.mem_append, List.mem_singleton, BlockPos.add_eq_iff]
        exact or_iff_left hcell
      rw [if_neg hcell, if_congr hiff rfl rfl]
  · rw [hstore]
    exact h.size
  · intro hstart hinside
    have hbefore := h.inBounds hstart fun other hother => hinside other (List.mem_append_left _ hother)
    have hput := hbefore.put (h.size ▸ hinside pos (List.mem_append_right _ (List.mem_singleton_self _))) runtime
    rw [hstore]
    exact ⟨hput.inside, hput.outside, hput.counted⟩

theorem of_cellPosition {pos : BlockPos} {cell : Json × Json × Json}
    (h : cellPosition layout origin cell = .ok pos) :
    pos = (moved origin (cellOf cell)).sub layout.minimum := by
  rw [cellPosition] at h
  obtain ⟨x, hx, h⟩ := exists_of_bind_ok h
  obtain ⟨worldX, hworldX, h⟩ := exists_of_bind_ok h
  obtain ⟨y, hy, h⟩ := exists_of_bind_ok h
  obtain ⟨z, hz, h⟩ := exists_of_bind_ok h
  obtain ⟨worldZ, hworldZ, h⟩ := exists_of_bind_ok h
  cases h
  rw [localPosition, (of_checkedAdd hworldX).1, (of_checkedAdd hworldZ).1, moved, cellOf, (of_i32 hx).2,
    (of_i32 hy).2, (of_i32 hz).2]
  simp only [BlockPos.add, add_zero, add_comm]

theorem PlacedCells.placeCell (h : PlacedCells registry layout.minimum start runtime cells p)
    {blockName : List Char} {extras : Option Json} {cell : (Json × Json × Json) × ℕ}
    (hcell : placeCell registry dump layout blockName extras origin runtime p cell = .ok p') :
    PlacedCells registry layout.minimum start runtime (cells ++ [moved origin (cellOf cell.1)]) p' := by
  rw [FuHong.placeCell] at hcell
  obtain ⟨pos, hpos, hcell⟩ := exists_of_bind_ok hcell
  obtain ⟨entity, _, hcell⟩ := exists_of_bind_ok hcell
  cases hcell
  rw [of_cellPosition hpos]
  exact h.place _ _

/-! ## The tuples of a document -/

/-- The variables of the second pass behind some tuples. -/
structure Placed (registry : Registry) (layout : Layout) (entries : List (BlockPos × Tuple)) (p : Payload) :
    Prop where
  cache : p.paletteCache = cacheBehind registry layout.palette ∅ entries
  content : ∀ cell, p.store.content registry.airRuntimeId cell = lastBlock registry layout entries cell
  size : p.store.originalSize = layout.size
  inBounds : (∀ entry ∈ entries, ∀ pos ∈ worldCells entry, layout.size.Contains (pos.sub layout.minimum)) →
    p.store.InBounds registry.airRuntimeId

theorem placed_nil : Placed registry layout [] { store := SparseBlockStore.setSize {} layout.size } :=
  ⟨rfl, fun _ => rfl, rfl, fun _ => SparseBlockStore.inBounds_setSize layout.size _ false⟩

theorem of_paletteName {index : ℤ} {name : List Char} (h : paletteName layout index = .ok name) :
    layout.palette[index.toNat]? = some name := by
  rw [paletteName] at h
  split at h
  case h_1 found hfound =>
    cases h
    exact (Option.ite_none_left_eq_some.mp hfound).2
  case h_2 => cases h

theorem lastBlock_append_single (entries : List (BlockPos × Tuple)) (entry : BlockPos × Tuple)
    (cell : BlockPos) : lastBlock registry layout (entries ++ [entry]) cell =
      if cell.add layout.minimum ∈ worldCells entry then
        (tupleBlock registry layout.palette (cacheBehind registry layout.palette ∅ entries) entry.2).1
      else lastBlock registry layout entries cell := by
  rw [lastBlock, placements_append_single, lastValue_append, lastValue_cons, lastValue_nil, Option.none_or,
    blockOf]
  split
  · rfl
  · rfl

theorem Placed.consumeCells (h : Placed registry layout entries p)
    (horigin : layout.chunkOrigins[chunkIndex]? = some origin) {tuple : Tuple}
    (htuple : consumeCells registry dump layout chunkIndex tuple p = .ok p') :
    Placed registry layout (entries ++ [(origin, tuple)]) p' := by
  rw [FuHong.consumeCells] at htuple
  obtain ⟨index, hindex, htuple⟩ := exists_of_bind_ok htuple
  obtain ⟨name, hname, htuple⟩ := exists_of_bind_ok htuple
  obtain ⟨aux, haux, htuple⟩ := exists_of_bind_ok htuple
  obtain ⟨cells, hcells, hrun⟩ := exists_of_bind_ok htuple
  rw [horigin] at hrun
  have hfound : runtimeId registry p.paletteCache name aux {} =
      tupleBlock registry layout.palette (cacheBehind registry layout.palette ∅ entries) tuple := by
    rw [tupleBlock, hindex, haux, ← h.cache]
    change _ = runtimeId registry p.paletteCache (layout.palette[index.toNat]?.getD []) aux {}
    rw [of_paletteName hname]
    rfl
  rw [hfound] at hrun
  have hworld : worldCells (origin, tuple) = cells.zipIdx.map fun cell => moved origin (cellOf cell.1) := by
    have hitems : cells.zipIdx.map (fun cell => moved origin (cellOf cell.1)) =
        (cells.zipIdx.map Prod.fst).map fun cell => moved origin (cellOf cell) := by
      rw [List.map_map]
      rfl
    rw [worldCells, Tuple.cells, hcells, hitems, List.zipIdx_map_fst]
    change (cells.map cellOf).map (moved origin) = _
    rw [List.map_map]
    rfl
  obtain ⟨found, hblock⟩ : ∃ found, found =
      tupleBlock registry layout.palette (cacheBehind registry layout.palette ∅ entries) tuple := ⟨_, rfl⟩
  rw [← hblock] at hrun
  have hinit : PlacedCells registry layout.minimum { p with paletteCache := found.2 } found.1 []
      { p with paletteCache := found.2 } :=
    ⟨rfl, fun _ => (if_neg List.not_mem_nil).symm, rfl, fun hstart _ => hstart⟩
  have hplaced := foldlM_split_rule (fun done p' => PlacedCells registry layout.minimum
      { p with paletteCache := found.2 } found.1 (done.map fun cell => moved origin (cellOf cell.1)) p')
    (fun done cell _ _ s t hs hstep => by
      rw [List.map_append]
      exact hs.placeCell hstep) hinit hrun
  rw [← hworld] at hplaced
  constructor
  · rw [hplaced.cache, cacheBehind_append_single, hblock]
  · intro cell
    rw [hplaced.content, lastBlock_append_single, hblock]
    exact if_congr Iff.rfl rfl (h.content cell)
  · exact hplaced.size.trans h.size
  · intro hinside
    refine hplaced.inBounds (h.inBounds fun entry hentry => ?_) fun pos hpos => ?_
    · exact hinside entry (List.mem_append_left _ hentry)
    · change p.store.originalSize.Contains (pos.sub layout.minimum)
      rw [h.size]
      exact hinside _ (List.mem_append_right _ (List.mem_singleton_self _)) pos hpos

/-- The tuples of some values that are no comments, with the origin of their chunk. -/
def entriesOf (origin : BlockPos) (values : List Json) : List (BlockPos × Tuple) :=
  (values.filterMap tupleOf).map fun tuple => (origin, tuple)

theorem Placed.consumeTuple (h : Placed registry layout entries p)
    (horigin : layout.chunkOrigins[chunkIndex]? = some origin) {entry : ℕ} {value : Json}
    (htuple : consumeTuple registry dump layout chunkIndex entry value p = .ok p') :
    Placed registry layout (entries ++ entriesOf origin [value]) p' := by
  obtain ⟨tuple, hvalue, htuple⟩ := exists_of_bind_ok (of_inEntry htuple)
  have hof := tupleOf_eq hvalue
  split_ifs at htuple with hblocks
  · cases htuple
    rw [entriesOf, List.filterMap_cons, hof, if_pos hblocks]
    simpa using h
  · rw [entriesOf, List.filterMap_cons, hof, if_neg hblocks]
    exact h.consumeCells horigin htuple

theorem Placed.readTuples {entries : List (BlockPos × Tuple)} {s t : ChunkState Payload}
    (h : Placed registry layout entries s.acc) {chunkIndex : ℕ} {origin : BlockPos}
    (horigin : layout.chunkOrigins[chunkIndex]? = some origin) {tuples : List Json}
    (hrun : tuples.foldlM ((payloadHooks registry dump layout).readTuple chunkIndex) s = .ok t) :
    Placed registry layout (entries ++ entriesOf origin (tuples.map Json.normal)) t.acc := by
  have hinit : Placed registry layout (entries ++ entriesOf origin (([] : List Json).map Json.normal)) s.acc := by
    rw [List.map_nil]
    exact (List.append_nil entries).symm ▸ h
  refine foldlM_split_rule (fun done t =>
    Placed registry layout (entries ++ entriesOf origin (done.map Json.normal)) t.acc)
    (fun done tuple _ _ s t hs hstep => ?_) hinit hrun
  obtain ⟨acc, hacc, hnext⟩ := exists_of_bind_ok hstep
  cases hnext
  have happend : entriesOf origin ((done ++ [tuple]).map Json.normal) =
      entriesOf origin (done.map Json.normal) ++ entriesOf origin [tuple.normal] := by
    rw [entriesOf, List.map_append, List.filterMap_append, List.map_append]
    rfl
  rw [happend, ← List.append_assoc]
  exact hs.consumeTuple horigin hacc

/-- The tuples of a chunk with its origin. -/
def chunkEntries (version : Version) (chunk : Json) : List (BlockPos × Tuple) :=
  entriesOf (chunkOrigin version chunk) (chunkTuples chunk)

/-- The loop over the members of a chunk. -/
theorem Placed.readMembers {entries : List (BlockPos × Tuple)} {s t : ChunkState Payload}
    (h : Placed registry layout entries s.acc) {chunkIndex : ℕ} {origin : BlockPos}
    (horigin : layout.chunkOrigins[chunkIndex]? = some origin) {members : List (List Char × Json)}
    (hkeys : (members.map Prod.fst).Nodup)
    (hrun : members.foldlM ((payloadHooks registry dump layout).readMember chunkIndex) s = .ok t) :
    Placed registry layout (entries ++ entriesOf origin (chunkTuples (.object members))) t.acc := by
  have hinit : Placed registry layout (entries ++ entriesOf origin (chunkTuples (.object []))) s.acc :=
    (List.append_nil entries).symm ▸ h
  refine foldlM_members_rule (fun done t =>
    Placed registry layout (entries ++ entriesOf origin (chunkTuples (.object done))) t.acc)
    (fun done s member _ t hfresh hs hstep => ?_) hkeys hinit hrun
  rw [Hooks.readMember] at hstep
  split_ifs at hstep with hblock
  · split at hstep
    case h_2 => cases hstep
    case h_1 tuples htuples =>
      have hbefore : chunkTuples (.object done) = [] := by
        rw [chunkTuples_object, ← hblock, hfresh]
        rfl
      have hafter : chunkTuples (.object (done ++ [member])) = tuples.map Json.normal := by
        rw [chunkTuples_object, lookup_append_fresh hblock hfresh, htuples]
        rfl
      rw [hbefore] at hs
      have hstart : Placed registry layout entries s.acc := (List.append_nil entries) ▸ hs
      rw [hafter]
      exact @Placed.readTuples registry dump layout entries { s with hasBlockList := true } t hstart chunkIndex
        origin horigin tuples hstep
  · cases hstep
    rw [chunkTuples_object, lookup_append_other hblock]
    exact hs

theorem Placed.readChunk (h : Placed registry layout entries s.2) {chunk : Json} (hkeys : ChunkKeysDiffer chunk)
    (horigin : layout.chunkOrigins[s.1]? = some (chunkOrigin version chunk))
    (hread : (payloadHooks registry dump layout).readChunk s chunk = .ok t) :
    Placed registry layout (entries ++ chunkEntries version chunk) t.2 ∧ t.1 = s.1 + 1 := by
  cases chunk with
  | null | boolean | unsigned | integer | float | string | array => cases hread
  | object members =>
    rw [Hooks.readChunk] at hread
    obtain ⟨first, hfirst, hread⟩ := exists_of_bind_ok hread
    obtain ⟨last, hmembers, hread⟩ := exists_of_bind_ok hread
    obtain ⟨p, hfinish, hread⟩ := exists_of_bind_ok hread
    cases hread
    have hstart : s.2 = first := by
      change (if s.1 ≥ layout.chunkOrigins.length then _ else Except.ok s.2) = _ at hfirst
      obtain ⟨-, hfirst⟩ := else_of_ok hfirst
      exact Except.ok.inj hfirst
    have hend : last.acc = p := by
      change (if ¬ last.hasBlockList then _ else Except.ok last.acc) = _ at hfinish
      obtain ⟨-, hfinish⟩ := else_of_ok hfinish
      exact Except.ok.inj hfinish
    subst hstart hend
    exact ⟨@Placed.readMembers registry dump layout entries ⟨false, 0, s.2⟩ last h s.1 _ horigin members hkeys
      hmembers, rfl⟩

/-- The loop over the chunks of a document. -/
theorem Placed.readChunks (h : Placed registry layout [] s.2) (hindex : s.1 = 0) {chunks : List Json}
    (horigins : layout.chunkOrigins = chunks.map (chunkOrigin version))
    (hkeys : ∀ chunk ∈ chunks, ChunkKeysDiffer chunk)
    (hrun : chunks.foldlM (payloadHooks registry dump layout).readChunk s = .ok t) :
    Placed registry layout (chunks.flatMap (chunkEntries version)) t.2 ∧ t.1 = chunks.length := by
  have hinit : Placed registry layout (([] : List Json).flatMap (chunkEntries version)) s.2 := h
  refine foldlM_split_rule (fun done t =>
    Placed registry layout (done.flatMap (chunkEntries version)) t.2 ∧ t.1 = done.length)
    (fun done chunk rest hdone s t hs hstep => ?_) ⟨hinit, hindex⟩ hrun
  obtain ⟨hplaced, hcount⟩ := hs
  have horigin : layout.chunkOrigins[s.1]? = some (chunkOrigin version chunk) := by
    rw [horigins, ← hdone, hcount, List.map_append, List.getElem?_append_right (by rw [List.length_map]),
      List.length_map, Nat.sub_self]
    rfl
  obtain ⟨hnext, hnumber⟩ := hplaced.readChunk
    (hkeys chunk (hdone ▸ List.mem_append_right done List.mem_cons_self)) horigin hstep
  refine ⟨?_, ?_⟩
  · rw [List.flatMap_append, List.flatMap_singleton]
    exact hnext
  · rw [hnumber, hcount, List.length_append]
    rfl

/-! ## The whole document -/

theorem documentTuples_eq (version : Version) (document : Json) :
    documentTuples version document = (buildChunks document).flatMap (chunkEntries version) := rfl

/-- The loop over the members of the root. -/
theorem Placed.readRoot {members : List (List Char × Json)} (hkeys : RootKeysDiffer members)
    (horigins : layout.chunkOrigins = (buildChunks (.object members)).map (chunkOrigin version))
    (hrun : members.foldlM (readPayloadMember registry dump layout)
      (0, { store := SparseBlockStore.setSize {} layout.size }) = .ok t) :
    Placed registry layout (documentTuples version (.object members)) t.2 ∧
      t.1 = (buildChunks (.object members)).length := by
  have hinit : Placed registry layout (documentTuples version (.object []))
      { store := SparseBlockStore.setSize {} layout.size } := placed_nil
  refine foldlM_members_rule (fun done t => Placed registry layout (documentTuples version (.object done)) t.2 ∧
    t.1 = (buildChunks (.object done)).length) (fun done s member hmember t hfresh hs hstep => ?_) hkeys.1
      ⟨hinit, rfl⟩ hrun
  obtain ⟨hplaced, hcount⟩ := hs
  by_cases hbuild : member.1 = "FuHongBuild".toList
  · have hbefore : buildChunks (.object done) = [] := by
      rw [buildChunks_object, ← hbuild, hfresh]
      rfl
    have hafter : buildChunks (.object (done ++ [member])) = (Json.items? member.2).getD [] := by
      rw [buildChunks_object, lookup_append_fresh hbuild hfresh]
      rfl
    have hall : buildChunks (.object members) = (Json.items? member.2).getD [] := by
      rw [buildChunks_object, ← hbuild, lookup_of_mem hkeys.1 hmember]
      rfl
    rw [documentTuples_eq, hbefore] at hplaced
    rw [hbefore] at hcount
    rw [documentTuples_eq, hafter]
    rw [hall] at horigins
    rw [readPayloadMember, if_pos hbuild] at hstep
    split at hstep
    case h_1 chunks hchunks =>
      rw [hchunks] at horigins ⊢
      exact hplaced.readChunks hcount horigins (hkeys.2 member hmember chunks hchunks) hstep
    case h_2 hother =>
      cases hstep
      have hnone : Json.items? member.2 = none := by
        cases hvalue : member.2 with
        | array chunks => exact absurd hvalue (hother chunks)
        | null | boolean | unsigned | integer | float | string | object => rfl
      rw [hnone]
      exact ⟨hplaced, hcount⟩
  · rw [readPayloadMember_other registry dump layout hbuild] at hstep
    cases hstep
    have hsame : buildChunks (.object (done ++ [member])) = buildChunks (.object done) := by
      rw [buildChunks_object, lookup_append_other hbuild]
      rfl
    rw [documentTuples_eq, hsame]
    exact ⟨hplaced, hcount⟩

/-- The second pass over a document whose names are not repeated. -/
theorem readPayload_placed (hkeys : KeysDiffer document)
    (horigins : layout.chunkOrigins = (buildChunks document).map (chunkOrigin version))
    (h : readPayload registry dump layout document = .ok p) :
    Placed registry layout (documentTuples version document) p ∧
      ∃ c, parseWith (payloadCallback registry dump layout) document
          { acc := { store := SparseBlockStore.setSize {} layout.size } } = .ok c ∧
        c.chunkIndex = (buildChunks document).length := by
  by_cases hobject : ∃ members, document = .object members
  · obtain ⟨members, rfl⟩ := hobject
    rw [readPayload_object] at h
    obtain ⟨s, hs, h⟩ := exists_of_bind_ok h
    obtain ⟨hplaced, hcount⟩ := Placed.readRoot hkeys horigins hs
    obtain ⟨-, h⟩ := else_of_ok h
    cases h
    refine ⟨hplaced, ?_⟩
    have hparse := @parsePayload registry dump layout members
      { store := SparseBlockStore.setSize {} layout.size }
    rw [hs] at hparse
    generalize parseWith (payloadCallback registry dump layout) (.object members)
      { acc := { store := SparseBlockStore.setSize {} layout.size } } = result at hparse
    cases hparse with
    | ok hat => exact ⟨_, rfl, hat.index.trans hcount⟩
  · have hdocument (members : List (List Char × Json)) : document ≠ .object members :=
      fun heq => hobject ⟨members, heq⟩
    have hchunks : buildChunks document = [] := by
      cases document with
      | object members => exact absurd rfl (hdocument members)
      | null | boolean | unsigned | integer | float | string | array => rfl
    have hparse : parseWith (payloadCallback registry dump layout) document
        { acc := { store := SparseBlockStore.setSize {} layout.size } } =
          .ok { acc := { store := SparseBlockStore.setSize {} layout.size } } :=
      (roots_payloadCallback registry dump layout).parseOther rfl hdocument
    rw [readPayload, hparse, ok_bind] at h
    obtain ⟨-, h⟩ := else_of_ok h
    cases h
    rw [documentTuples_eq, hchunks]
    exact ⟨placed_nil, _, hparse, rfl⟩

/-- What is known of a structure that a document has been read to. Both passes count the same chunks, the
store has no block outside of the size that the first pass has found, and a cell has the block of the last
tuple that names it. -/
structure ReadFrom (registry : Registry) (dump : Json → List Char) (version : Version) (document : Json)
    (layout : Layout) (result : FuHongStructure) : Prop where
  metadata : readMetadata version document = .ok layout
  found : Found version document layout
  chunks : ∃ first second, parseWith (metadataCallback version) document { acc := {} } = .ok first ∧
    parseWith (payloadCallback registry dump layout) document
      { acc := { store := SparseBlockStore.setSize {} layout.size } } = .ok second ∧
    first.chunkIndex = second.chunkIndex ∧ first.chunkIndex = (buildChunks document).length
  size : result.store.originalSize = layout.size
  inBounds : result.store.InBounds registry.airRuntimeId
  content : ∀ cell, result.store.content registry.airRuntimeId cell =
    lastBlock registry layout (documentTuples version document) cell

theorem of_mapError {α : Type} {result : Except String α} {f : String → String} {a : α}
    (h : result.mapError f = .ok a) : result = .ok a := by
  cases result with
  | error error => cases h
  | ok b => exact h

theorem readDocument_readFrom (hkeys : KeysDiffer document) {result : FuHongStructure}
    (h : readDocument registry dump version document = .ok result) :
    ∃ layout, ReadFrom registry dump version document layout result := by
  have hread := of_mapError h
  obtain ⟨layout, hlayout, hread⟩ := exists_of_bind_ok hread
  obtain ⟨p, hp, hread⟩ := exists_of_bind_ok hread
  obtain ⟨hfound, first, hfirst, hcount⟩ := readMetadata_found hkeys hlayout
  obtain ⟨hplaced, second, hsecond, hcount'⟩ := readPayload_placed hkeys hfound.origins hp
  obtain ⟨-, hread⟩ := else_of_ok hread
  cases hread
  exact ⟨layout, hlayout, hfound, ⟨first, second, hfirst, hsecond, hcount.trans hcount'.symm, hcount⟩,
    hplaced.size, hplaced.inBounds hfound.inside, hplaced.content⟩

/-- Reading does not depend on the order of the members of the root and of the chunks, and never stores a
block outside of the size. -/
theorem readDocument_spec (registry : Registry) (dump : Json → List Char) (version : Version) (document : Json)
    (hkeys : KeysDiffer document) :
    (∀ other, Reordered document other → (readDocument registry dump version document).toOption =
      (readDocument registry dump version other).toOption) ∧
    ∀ result, readDocument registry dump version document = .ok result →
      ∃ layout, ReadFrom registry dump version document layout result :=
  ⟨fun _ horder => readDocument_reordered registry dump version hkeys horder,
    fun _ hread => readDocument_readFrom hkeys hread⟩

/-- A registry that knows stone only. -/
def stoneRegistry : Registry where
  airRuntimeId := 0
  state := fun _ => none
  find := fun _ _ => none
  legacyRuntimeId := fun name _ => if name = "minecraft:stone".toList then some 1 else none
  javaRuntimeId := fun _ => none
  registerState := fun _ => 2

/-- A chunk whose origin follows its block list. -/
def lateOrigin : Json := .object
  [("block".toList, .array [.array [.unsigned 0, .unsigned 0, .array [.unsigned 1], .array [.unsigned 2],
    .array [.unsigned 3]]]), ("startX".toList, .unsigned 16), ("startZ".toList, .unsigned 32)]

def lateDocument : Json := .object
  [("FuHongBuild".toList, .array [lateOrigin]),
    ("BlocksList".toList, .array [.string "minecraft:stone".toList])]

theorem keysDiffer_lateDocument : KeysDiffer lateDocument := by
  refine ⟨by decide, fun member hmember chunks hchunks chunk hchunk => ?_⟩
  rcases List.mem_cons.mp hmember with rfl | hmember
  · cases hchunks
    rw [List.mem_singleton.mp hchunk]
    exact show (List.map Prod.fst _).Nodup by decide
  · rw [List.mem_singleton.mp hmember] at hchunks
    cases hchunks
    rw [List.mem_singleton.mp hchunk]
    trivial

theorem readDocument_spec_late : ∃ result layout,
    readDocument stoneRegistry (fun _ => []) .V3 lateDocument = .ok result ∧
      ReadFrom stoneRegistry (fun _ => []) .V3 lateDocument layout result := by
  have hsome : (readDocument stoneRegistry (fun _ => []) .V3 lateDocument).toOption.isSome = true := by
    decide +kernel
  obtain ⟨result, hresult⟩ : ∃ result, readDocument stoneRegistry (fun _ => []) .V3 lateDocument = .ok result := by
    revert hsome
    generalize readDocument stoneRegistry (fun _ => []) .V3 lateDocument = read
    intro hsome
    cases read with
    | error error => cases hsome
    | ok result => exact ⟨result, rfl⟩
  obtain ⟨layout, hread⟩ := (readDocument_spec stoneRegistry (fun _ => []) .V3 lateDocument
    keysDiffer_lateDocument).2 result hresult
  exact ⟨result, layout, hresult, hread⟩

end FuHong

end WaterStructure
