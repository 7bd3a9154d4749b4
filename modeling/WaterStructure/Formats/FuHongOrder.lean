import WaterStructure.Formats.FuHongPasses
import WaterStructure.Library.ReorderedLoop

/-!
# FuHong documents with reordered members

The members of the root and of every chunk can change places: each of them sets variables of its own.
So neither pass depends on the order of the members, as long as no name is repeated.
-/

namespace WaterStructure

namespace FuHong

open Json NestedLoop ReorderedLoop StatefulRun

/-- A chunk with its members in another order. -/
inductive ReorderedChunk : Json → Json → Prop
  | same (chunk : Json) : ReorderedChunk chunk chunk
  | members {members members' : List (List Char × Json)} (h : members.Perm members') :
    ReorderedChunk (.object members) (.object members')

/-- A member of the root with the members of its chunks in another order. -/
inductive ReorderedMember : List Char × Json → List Char × Json → Prop
  | same (member : List Char × Json) : ReorderedMember member member
  | chunks {chunks chunks' : List Json} (h : List.Forall₂ ReorderedChunk chunks chunks') :
    ReorderedMember ("FuHongBuild".toList, .array chunks) ("FuHongBuild".toList, .array chunks')

/-- A document with the members of the root and of its chunks in another order. -/
inductive Reordered : Json → Json → Prop
  | same (document : Json) : Reordered document document
  | root {members between members' : List (List Char × Json)} (h : members.Perm between)
    (hmembers : List.Forall₂ ReorderedMember between members') : Reordered (.object members) (.object members')

section Chunks

variable {α : Type} {hooks : Hooks α}

/-- A map of the variables that a pass respects in all it does. -/
structure Hooks.Respects (hooks : Hooks α) (f : α → α) : Prop where
  startChunk : ∀ chunkIndex a, hooks.startChunk chunkIndex (f a) = (hooks.startChunk chunkIndex a).map f
  tuple : ∀ chunkIndex entry value a,
    hooks.tuple chunkIndex entry value (f a) = (hooks.tuple chunkIndex entry value a).map f
  member : ∀ key event parsed a,
    hooks.member key event parsed (f a) = (hooks.member key event parsed a).map f
  finishChunk : ∀ chunkIndex hasBlockList a,
    hooks.finishChunk chunkIndex hasBlockList (f a) = (hooks.finishChunk chunkIndex hasBlockList a).map f

def ChunkState.mapAcc (f : α → α) (s : ChunkState α) : ChunkState α := { s with acc := f s.acc }

variable {f : α → α}

theorem Hooks.Respects.readMember (h : hooks.Respects f) (chunkIndex : ℕ) (s : ChunkState α)
    (member : List Char × Json) :
    hooks.readMember chunkIndex (s.mapAcc f) member =
      (hooks.readMember chunkIndex s member).map (ChunkState.mapAcc f) := by
  have htuple (s : ChunkState α) (tuple : Json) : hooks.readTuple chunkIndex (s.mapAcc f) tuple =
      (hooks.readTuple chunkIndex s tuple).map (ChunkState.mapAcc f) := by
    rw [Hooks.readTuple, Hooks.readTuple, ChunkState.mapAcc, h.tuple]
    cases hooks.tuple chunkIndex s.entryIndex tuple.normal s.acc <;> rfl
  rw [Hooks.readMember, Hooks.readMember]
  split
  · split
    case h_1 tuples _ =>
      exact @foldlM_map_state _ _ _ _ _ _ (ChunkState.mapAcc f) tuples (fun s tuple _ => htuple s tuple)
        { s with hasBlockList := true }
    case h_2 => rfl
  · rw [ChunkState.mapAcc, h.member]
    cases hooks.member member.1 (firstEvent member.2) (firstParsed member.2) s.acc <;> rfl

theorem Hooks.Respects.readChunk (h : hooks.Respects f) (s : ℕ × α) (chunk : Json) :
    hooks.readChunk (Prod.map id f s) chunk = (hooks.readChunk s chunk).map (Prod.map id f) := by
  obtain ⟨chunkIndex, a⟩ := s
  cases chunk with
  | object members =>
    rw [Prod.map_apply, Hooks.readChunk, Hooks.readChunk, id, h.startChunk]
    cases hooks.startChunk chunkIndex a with
    | error error => rfl
    | ok a =>
      have hmembers := @foldlM_map_state _ _ _ _ _ _ (ChunkState.mapAcc f) members
        (fun s member _ => h.readMember chunkIndex s member) ⟨false, 0, a⟩
      change (members.foldlM (hooks.readMember chunkIndex) (ChunkState.mapAcc f ⟨false, 0, a⟩) >>= _) = _
      rw [hmembers]
      change _ = (members.foldlM (hooks.readMember chunkIndex) ⟨false, 0, a⟩ >>= _).map _
      cases members.foldlM (hooks.readMember chunkIndex) ⟨false, 0, a⟩ with
      | error error => rfl
      | ok chunk =>
        change (hooks.finishChunk chunkIndex chunk.hasBlockList (f chunk.acc) >>= _) = _
        rw [h.finishChunk]
        change _ = (hooks.finishChunk chunkIndex chunk.hasBlockList chunk.acc >>= _).map _
        cases hooks.finishChunk chunkIndex chunk.hasBlockList chunk.acc <;> rfl
  | null | boolean | unsigned | integer | float | string | array => rfl

/-- The members of a chunk that are not its block list set variables that nothing else in the chunk
reads or sets. -/
structure Hooks.MembersSwap (hooks : Hooks α) : Prop where
  member : ∀ key event parsed key' event' parsed' a, key ≠ key' →
    (hooks.member key event parsed a >>= hooks.member key' event' parsed').toOption =
      (hooks.member key' event' parsed' a >>= hooks.member key event parsed).toOption
  tuple : ∀ key event parsed chunkIndex entry value a,
    (hooks.tuple chunkIndex entry value a >>= hooks.member key event parsed).toOption =
      (hooks.member key event parsed a >>= hooks.tuple chunkIndex entry value).toOption

theorem Hooks.MembersSwap.swaps_block (h : hooks.MembersSwap) {chunkIndex : ℕ}
    {block member : List Char × Json} (hblock : block.1 = "block".toList)
    (hmember : member.1 ≠ "block".toList) : Swaps (hooks.readMember chunkIndex) block member := by
  intro s
  have hother (s : ChunkState α) : hooks.readMember chunkIndex s member =
      (hooks.member member.1 (firstEvent member.2) (firstParsed member.2) s.acc).map fun acc =>
        { s with acc } := by
    rw [Hooks.readMember, if_neg hmember]
    cases hooks.member member.1 (firstEvent member.2) (firstParsed member.2) s.acc <;> rfl
  have htuple (s : ChunkState α) (tuple : Json) :
      (hooks.readTuple chunkIndex s tuple >>= fun s => hooks.readMember chunkIndex s member).toOption =
        (hooks.readMember chunkIndex s member >>= fun s => hooks.readTuple chunkIndex s tuple).toOption := by
    have hleft : (hooks.readTuple chunkIndex s tuple >>= fun s => hooks.readMember chunkIndex s member) =
        (hooks.tuple chunkIndex s.entryIndex tuple.normal s.acc >>=
          hooks.member member.1 (firstEvent member.2) (firstParsed member.2)).map fun acc =>
            { s with entryIndex := s.entryIndex + 1, acc } := by
      rw [Hooks.readTuple]
      cases hooks.tuple chunkIndex s.entryIndex tuple.normal s.acc with
      | error error => rfl
      | ok acc => exact hother _
    have hright : (hooks.readMember chunkIndex s member >>= fun s => hooks.readTuple chunkIndex s tuple) =
        (hooks.member member.1 (firstEvent member.2) (firstParsed member.2) s.acc >>=
          hooks.tuple chunkIndex s.entryIndex tuple.normal).map fun acc =>
            { s with entryIndex := s.entryIndex + 1, acc } := by
      rw [hother]
      cases hooks.member member.1 (firstEvent member.2) (firstParsed member.2) s.acc with
      | error error => rfl
      | ok acc =>
        change hooks.readTuple chunkIndex { s with acc } tuple =
          (hooks.tuple chunkIndex s.entryIndex tuple.normal acc).map _
        rw [Hooks.readTuple]
        cases hooks.tuple chunkIndex s.entryIndex tuple.normal acc <;> rfl
    rw [hleft, hright, toOption_map, toOption_map, h.tuple]
  by_cases harray : ∃ tuples, block.2 = .array tuples
  · obtain ⟨tuples, htuples⟩ := harray
    have hread (s : ChunkState α) : hooks.readMember chunkIndex s block =
        tuples.foldlM (hooks.readTuple chunkIndex) { s with hasBlockList := true } := by
      rw [Hooks.readMember, if_pos hblock, htuples]
    rw [hread, swap_foldlM fun s tuple _ => htuple s tuple, hother, hother]
    cases hooks.member member.1 (firstEvent member.2) (firstParsed member.2) s.acc with
    | error error => rfl
    | ok acc => exact congrArg _ (hread { s with acc }).symm
  · have hread (s : ChunkState α) : hooks.readMember chunkIndex s block = blockListMissing chunkIndex := by
      rw [Hooks.readMember, if_pos hblock]
      split
      case h_1 tuples htuples => exact absurd ⟨tuples, htuples⟩ harray
      case h_2 => rfl
    rw [hread]
    cases hooks.readMember chunkIndex s member with
    | error error => rfl
    | ok t => exact congrArg _ (hread t).symm

theorem Hooks.MembersSwap.swaps (h : hooks.MembersSwap) (chunkIndex : ℕ)
    {first second : List Char × Json} (hne : first.1 ≠ second.1) :
    Swaps (hooks.readMember chunkIndex) first second := by
  by_cases hfirst : first.1 = "block".toList
  · exact h.swaps_block hfirst fun heq => hne (hfirst.trans heq.symm)
  · by_cases hsecond : second.1 = "block".toList
    · exact (h.swaps_block hsecond hfirst).symm
    · intro s
      have hread (member : List Char × Json) (hmember : member.1 ≠ "block".toList) (s : ChunkState α) :
          hooks.readMember chunkIndex s member =
            (hooks.member member.1 (firstEvent member.2) (firstParsed member.2) s.acc).map fun acc =>
              { s with acc } := by
        rw [Hooks.readMember, if_neg hmember]
        cases hooks.member member.1 (firstEvent member.2) (firstParsed member.2) s.acc <;> rfl
      have hboth (first second : List Char × Json) (hfirst : first.1 ≠ "block".toList)
          (hsecond : second.1 ≠ "block".toList) :
          (hooks.readMember chunkIndex s first >>= fun s => hooks.readMember chunkIndex s second) =
            (hooks.member first.1 (firstEvent first.2) (firstParsed first.2) s.acc >>=
              hooks.member second.1 (firstEvent second.2) (firstParsed second.2)).map fun acc =>
                { s with acc } := by
        rw [hread first hfirst]
        cases hooks.member first.1 (firstEvent first.2) (firstParsed first.2) s.acc with
        | error error => rfl
        | ok acc => exact hread second hsecond _
      rw [hboth first second hfirst hsecond, hboth second first hsecond hfirst, toOption_map, toOption_map,
        h.member _ _ _ _ _ _ _ hne]

/-- The names of the members of a chunk are not repeated. -/
def ChunkKeysDiffer : Json → Prop
  | .object members => (members.map Prod.fst).Nodup
  | _ => True

theorem Hooks.MembersSwap.readChunk (h : hooks.MembersSwap) {chunk chunk' : Json}
    (horder : ReorderedChunk chunk chunk') (hkeys : ChunkKeysDiffer chunk) (s : ℕ × α) :
    (hooks.readChunk s chunk).toOption = (hooks.readChunk s chunk').toOption := by
  cases horder with
  | same => rfl
  | members hperm =>
    rw [Hooks.readChunk, Hooks.readChunk, toOption_bind, toOption_bind]
    refine Option.bind_congr fun acc _ => ?_
    rw [toOption_bind, toOption_bind,
      toOption_foldlM_members hperm hkeys fun first second hne => h.swaps s.1 hne]

theorem Hooks.MembersSwap.readChunks (h : hooks.MembersSwap) {chunks chunks' : List Json}
    (horder : List.Forall₂ ReorderedChunk chunks chunks') (hkeys : ∀ chunk ∈ chunks, ChunkKeysDiffer chunk)
    (s : ℕ × α) :
    (chunks.foldlM hooks.readChunk s).toOption = (chunks'.foldlM hooks.readChunk s).toOption := by
  refine toOption_foldlM_congr ?_ s
  induction horder with
  | nil => exact .nil
  | cons hchunk _ ih =>
    exact .cons (h.readChunk hchunk (hkeys _ List.mem_cons_self))
      (ih fun other hother => hkeys other (List.mem_cons_of_mem _ hother))

/-- No name is repeated in the root or in one of its chunks. -/
def RootKeysDiffer (members : List (List Char × Json)) : Prop :=
  (members.map Prod.fst).Nodup ∧
    ∀ member ∈ members, ∀ chunks, member.2 = .array chunks → ∀ chunk ∈ chunks, ChunkKeysDiffer chunk

/-- A loop over the members of the root does the same for a document in another order. -/
theorem toOption_root {σ : Type} {step : σ → List Char × Json → Except String σ}
    {members between members' : List (List Char × Json)} (hkeys : RootKeysDiffer members)
    (hperm : members.Perm between) (horder : List.Forall₂ ReorderedMember between members')
    (hswaps : ∀ first second : List Char × Json, first.1 ≠ second.1 → Swaps step first second)
    (hstep : ∀ member member', ReorderedMember member member' →
      (∀ chunks, member.2 = .array chunks → ∀ chunk ∈ chunks, ChunkKeysDiffer chunk) →
        ∀ s, (step s member).toOption = (step s member').toOption) (s : σ) :
    (members.foldlM step s).toOption = (members'.foldlM step s).toOption := by
  rw [toOption_foldlM_members hperm hkeys.1 hswaps]
  refine toOption_foldlM_congr ?_ s
  have hbetween : ∀ member ∈ between, ∀ chunks, member.2 = .array chunks →
      ∀ chunk ∈ chunks, ChunkKeysDiffer chunk :=
    fun member hmember => hkeys.2 member (hperm.mem_iff.mpr hmember)
  clear hperm
  induction horder with
  | nil => exact .nil
  | cons hmember _ ih =>
    exact .cons (hstep _ _ hmember (hbetween _ List.mem_cons_self))
      (ih fun other hother => hbetween other (List.mem_cons_of_mem _ hother))

end Chunks

/-! ## The first pass -/

section First

variable (version : Version)

/-- A map of the variables of the first pass that has nothing to do with the bounds of a chunk. -/
structure KeepsRelative (f : Metadata → Metadata) : Prop where
  same : ∀ m, (f m).relative = m.relative
  set : ∀ m relative, f { m with relative } = { f m with relative }

theorem KeepsRelative.tuple {f : Metadata → Metadata} (h : KeepsRelative f) (entry : ℕ) (value : Json)
    (m : Metadata) : consumeBoundsTuple entry value (f m) = (consumeBoundsTuple entry value m).map f := by
  have hcell (m : Metadata) (cell : Json × Json × Json) :
      addCell entry (f m) cell = (addCell entry m cell).map f := by
    rw [addCell, addCell]
    cases i32 cell.1 "xs" <;> try rfl
    cases i32 cell.2.1 "ys" <;> try rfl
    cases i32 cell.2.2 "zs" <;> try rfl
    exact congrArg Except.ok ((h.same m).symm ▸ (h.set m _).symm)
  have hcells (tuple : Tuple) :
      consumeBoundsCells entry tuple (f m) = (consumeBoundsCells entry tuple m).map f := by
    rw [consumeBoundsCells, consumeBoundsCells]
    cases integer tuple.paletteIndex "palette index" <;> try rfl
    cases integer tuple.aux "aux" <;> try rfl
    cases tuple.coordinates <;> try rfl
    exact foldlM_map_state (fun m cell _ => hcell m cell) m
  rw [consumeBoundsTuple, consumeBoundsTuple]
  cases Tuple.ofJson value with
  | error error => rfl
  | ok tuple =>
    change inEntry entry (if tuple.paletteIndex.isString then pure (f m)
      else consumeBoundsCells entry tuple (f m)) = (inEntry entry (if tuple.paletteIndex.isString then pure m
        else consumeBoundsCells entry tuple m)).map f
    split
    · rfl
    · rw [hcells]
      cases consumeBoundsCells entry tuple m <;> rfl

/-- The start coordinate that a member of a chunk sets: whether it is the first one, and its value. -/
def startValue (key : List Char) (event : ParseEvent) (parsed : Json) : Except String (Option (Bool × ℤ)) :=
  if version = .V3 ∧ (key = "startX".toList ∨ key = "startZ".toList) then
    if event ≠ .value then .error (String.ofList key ++ " is not an integer")
    else if key = "startX".toList then (i32 parsed "startX").map fun start => some (true, start)
    else (i32 parsed "startZ").map fun start => some (false, start)
  else .ok none

def Metadata.setStart (m : Metadata) : Option (Bool × ℤ) → Metadata
  | none => m
  | some (true, startX) => { m with startX, hasStartX := true }
  | some (false, startZ) => { m with startZ, hasStartZ := true }

theorem startMember_eq (key : List Char) (event : ParseEvent) (parsed : Json) (m : Metadata) :
    startMember version key event parsed m = (startValue version key event parsed).map m.setStart := by
  unfold startMember startValue
  split_ifs
  · rfl
  · cases i32 parsed "startX" <;> rfl
  · cases i32 parsed "startZ" <;> rfl
  · rfl

theorem keepsRelative_setStart (start : Option (Bool × ℤ)) : KeepsRelative fun m => m.setStart start := by
  match start with
  | none => exact ⟨fun _ => rfl, fun _ _ => rfl⟩
  | some (true, _) => exact ⟨fun _ => rfl, fun _ _ => rfl⟩
  | some (false, _) => exact ⟨fun _ => rfl, fun _ _ => rfl⟩

/-- The two start coordinates have different names. -/
theorem key_of_startValue {key : List Char} {event : ParseEvent} {parsed : Json} {first : Bool} {start : ℤ}
    (h : startValue version key event parsed = .ok (some (first, start))) :
    key = if first then "startX".toList else "startZ".toList := by
  unfold startValue at h
  split at h
  case isFalse => cases h
  case isTrue hkey =>
    obtain ⟨_, h⟩ := else_of_ok h
    split_ifs at h with hx
    · cases hstart : i32 parsed "startX" with
      | error error =>
        rw [hstart] at h
        cases h
      | ok value =>
        rw [hstart] at h
        cases h
        exact hx
    · cases hstart : i32 parsed "startZ" with
      | error error =>
        rw [hstart] at h
        cases h
      | ok value =>
        rw [hstart] at h
        cases h
        exact hkey.2.resolve_left hx

theorem membersSwap_metadataHooks : (metadataHooks version).MembersSwap where
  member := fun key event parsed key' event' parsed' m hne => by
    change (startMember version key event parsed m >>= fun m =>
        startMember version key' event' parsed' m).toOption =
      (startMember version key' event' parsed' m >>= fun m => startMember version key event parsed m).toOption
    simp only [startMember_eq]
    cases hfirst : startValue version key event parsed with
    | error error => cases startValue version key' event' parsed' <;> rfl
    | ok first =>
      cases hsecond : startValue version key' event' parsed' with
      | error error => rfl
      | ok second =>
        change some ((m.setStart first).setStart second) = some ((m.setStart second).setStart first)
        match first, second with
        | none, _ => rfl
        | some _, none => rfl
        | some (true, _), some (false, _) => rfl
        | some (false, _), some (true, _) => rfl
        | some (true, _), some (true, _) =>
          exact absurd ((key_of_startValue version hfirst).trans (key_of_startValue version hsecond).symm) hne
        | some (false, _), some (false, _) =>
          exact absurd ((key_of_startValue version hfirst).trans (key_of_startValue version hsecond).symm) hne
  tuple := fun key event parsed chunkIndex entry value m => by
    change (consumeBoundsTuple entry value m >>= fun m => startMember version key event parsed m).toOption =
      (startMember version key event parsed m >>= consumeBoundsTuple entry value).toOption
    simp only [startMember_eq]
    cases startValue version key event parsed with
    | error error => cases consumeBoundsTuple entry value m <;> rfl
    | ok start =>
      change _ = (consumeBoundsTuple entry value (m.setStart start)).toOption
      rw [(keepsRelative_setStart start).tuple]
      cases consumeBoundsTuple entry value m <;> rfl

/-! ### The palette -/

/-- What `BlocksList` sets. -/
def Metadata.addPalette (m : Metadata) (isArray : Bool) (names : List (List Char)) : Metadata :=
  { m with
    palette := m.palette ++ names, paletteSeen := true, paletteIsArray := m.paletteIsArray || isArray }

def nameOf : Json → Option (List Char)
  | .string name => some name
  | _ => none

/-- The names that `BlocksList` adds to the palette. -/
def paletteNames : Json → Option (List (List Char))
  | .array names => names.mapM nameOf
  | _ => some []

def isArray : Json → Bool
  | .array _ => true
  | _ => false

theorem inChunk_map {α β : Type} (index : ℕ) (result : Except String α) (f : α → β) :
    inChunk index (result.map f) = (inChunk index result).map f := by
  cases result <;> rfl

theorem respects_addPalette (isArray : Bool) (names : List (List Char)) :
    (metadataHooks version).Respects fun m => m.addPalette isArray names where
  startChunk := fun _ _ => rfl
  tuple := fun _ entry value m =>
    @KeepsRelative.tuple (fun m => m.addPalette isArray names) ⟨fun _ => rfl, fun _ _ => rfl⟩ entry value m
  member := fun key event parsed m => by
    change startMember version key event parsed (m.addPalette isArray names) =
      (startMember version key event parsed m).map _
    rw [startMember_eq, startMember_eq]
    cases startValue version key event parsed with
    | error error => rfl
    | ok start =>
      match start with
      | none => rfl
      | some (true, _) => rfl
      | some (false, _) => rfl
  finishChunk := fun chunkIndex hasBlockList m => by
    have horigin (origin : BlockPos) : keepOrigin (m.addPalette isArray names) origin =
        (keepOrigin m origin).map fun m => m.addPalette isArray names := by
      rw [keepOrigin, keepOrigin, show (m.addPalette isArray names).relative = m.relative from rfl]
      cases m.relative.bounds with
      | none => rfl
      | some bounds =>
        dsimp only
        cases worldBounds origin m.relative bounds <;> rfl
    change finishChunk version chunkIndex hasBlockList (m.addPalette isArray names) =
      (finishChunk version chunkIndex hasBlockList m).map fun m => m.addPalette isArray names
    rw [finishChunk, finishChunk, horigin, show (m.addPalette isArray names).hasStartX = m.hasStartX from rfl,
      show (m.addPalette isArray names).hasStartZ = m.hasStartZ from rfl,
      show (m.addPalette isArray names).startX = m.startX from rfl,
      show (m.addPalette isArray names).startZ = m.startZ from rfl]
    split_ifs <;> first | rfl | exact inChunk_map _ _ _

theorem toOption_readName (items : List Json) (m : Metadata) : (items.foldlM readName m).toOption =
    (items.mapM nameOf).map fun names => { m with palette := m.palette ++ names } := by
  induction items generalizing m with
  | nil =>
    change some m = some { m with palette := m.palette ++ [] }
    rw [List.append_nil]
  | cons item rest ih =>
    rw [List.foldlM_cons, toOption_bind, List.mapM_cons]
    cases item with
    | string name =>
      change (rest.foldlM readName { m with palette := m.palette ++ [name] }).toOption = _
      rw [ih]
      change _ = ((rest.mapM nameOf).bind fun names => some (name :: names)).map _
      cases rest.mapM nameOf with
      | none => rfl
      | some names =>
        refine congrArg some ?_
        dsimp only
        rw [List.append_assoc, List.singleton_append]
    | null | boolean | unsigned | integer | float | array | object => rfl

variable {member first second : List Char × Json}

theorem readRootMember_blocksList (hmember : member.1 = "BlocksList".toList) (s : ℕ × Metadata) :
    (readRootMember version s member).toOption =
      (paletteNames member.2).map fun names => (s.1, s.2.addPalette (isArray member.2) names) := by
  obtain ⟨name, value⟩ := member
  rw [readRootMember, if_pos hmember]
  cases value with
  | array names =>
    rw [toOption_bind, toOption_readName, paletteNames, isArray]
    cases names.mapM nameOf with
    | none => rfl
    | some names =>
      change some (s.1, _) = some (s.1, _)
      rw [Metadata.addPalette, Bool.or_true]
  | null | boolean | unsigned | integer | float | string | object =>
    change some (s.1, _) = some (s.1, _)
    rw [Metadata.addPalette, isArray, Bool.or_false, List.append_nil]
    all_goals rintro _ ⟨⟩

theorem readRootMember_respects (hmember : member.1 ≠ "BlocksList".toList) (isArray : Bool)
    (names : List (List Char)) (s : ℕ × Metadata) :
    readRootMember version (Prod.map id (fun m => m.addPalette isArray names) s) member =
      (readRootMember version s member).map (Prod.map id fun m => m.addPalette isArray names) := by
  rw [readRootMember, readRootMember, if_neg hmember, if_neg hmember]
  split
  · split
    case h_2 => rfl
    case h_1 chunks _ =>
      have hchunks := foldlM_map_state
        (fun s chunk (_ : chunk ∈ chunks) => (respects_addPalette version isArray names).readChunk s chunk)
        (s.1, { s.2 with buildSeen := true, buildIsArray := true })
      change (chunks.foldlM (metadataHooks version).readChunk (Prod.map id (fun m => m.addPalette isArray names)
        (s.1, { s.2 with buildSeen := true, buildIsArray := true })) >>= _) = _
      rw [hchunks]
      cases chunks.foldlM (metadataHooks version).readChunk
        (s.1, { s.2 with buildSeen := true, buildIsArray := true }) <;> rfl
  · rfl

theorem readRootMember_other (hlist : member.1 ≠ "BlocksList".toList) (hbuild : member.1 ≠ "FuHongBuild".toList)
    (s : ℕ × Metadata) : readRootMember version s member = .ok s := by
  rw [readRootMember, if_neg hlist, if_neg hbuild]

theorem swaps_blocksList (hfirst : first.1 = "BlocksList".toList) (hsecond : second.1 ≠ "BlocksList".toList) :
    Swaps (readRootMember version) first second := by
  intro s
  rw [toOption_bind, toOption_bind, readRootMember_blocksList version hfirst]
  have hcongr : ((readRootMember version s second).toOption.bind fun s =>
      (readRootMember version s first).toOption) = (readRootMember version s second).toOption.bind fun s =>
        (paletteNames first.2).map fun names => (s.1, s.2.addPalette (isArray first.2) names) :=
    Option.bind_congr fun s _ => readRootMember_blocksList version hfirst s
  rw [hcongr]
  cases paletteNames first.2 with
  | none => cases (readRootMember version s second).toOption <;> rfl
  | some names =>
    change (readRootMember version (Prod.map id (fun m => m.addPalette (isArray first.2) names) s)
      second).toOption = _
    rw [readRootMember_respects version hsecond, toOption_map]
    cases (readRootMember version s second).toOption <;> rfl

theorem swaps_readRootMember (hne : first.1 ≠ second.1) : Swaps (readRootMember version) first second := by
  by_cases hfirst : first.1 = "BlocksList".toList
  · exact swaps_blocksList version hfirst fun heq => hne (hfirst.trans heq.symm)
  · by_cases hsecond : second.1 = "BlocksList".toList
    · exact (swaps_blocksList version hsecond hfirst).symm
    · intro s
      by_cases hbuild : first.1 = "FuHongBuild".toList
      · have hother := readRootMember_other version hsecond fun heq => hne (hbuild.trans heq.symm)
        simp only [hother]
        exact congrArg _ (bind_pure _)
      · have hother := readRootMember_other version hfirst hbuild
        simp only [hother]
        exact congrArg _ (bind_pure _).symm

theorem readRootMember_build {name : List Char} (hname : name = "FuHongBuild".toList) (chunks : List Json)
    (s : ℕ × Metadata) : readRootMember version s (name, .array chunks) =
      (chunks.foldlM (metadataHooks version).readChunk
        (s.1, { s.2 with buildSeen := true, buildIsArray := true }) >>= fun s =>
          .ok (s.1, { s.2 with buildSeen := true })) := by
  rw [readRootMember, if_neg (hname.trans_ne build_ne_blocksList), if_pos hname]
  rfl

theorem readRootMember_reordered {member' : List Char × Json} (horder : ReorderedMember member member')
    (hkeys : ∀ chunks, member.2 = .array chunks → ∀ chunk ∈ chunks, ChunkKeysDiffer chunk) (s : ℕ × Metadata) :
    (readRootMember version s member).toOption = (readRootMember version s member').toOption := by
  cases horder with
  | same => rfl
  | chunks hchunks =>
    rw [readRootMember_build version rfl, readRootMember_build version rfl, toOption_bind, toOption_bind,
      (membersSwap_metadataHooks version).readChunks hchunks (hkeys _ rfl)]

theorem readMetadata_reordered {members between members' : List (List Char × Json)}
    (hkeys : RootKeysDiffer members) (hperm : members.Perm between)
    (horder : List.Forall₂ ReorderedMember between members') :
    (readMetadata version (.object members)).toOption = (readMetadata version (.object members')).toOption := by
  rw [readMetadata_object, readMetadata_object, toOption_bind, toOption_bind,
    toOption_root hkeys hperm horder (fun _ _ hne => swaps_readRootMember version hne)
      fun _ _ => readRootMember_reordered version]

end First

/-! ## The second pass -/

section Second

variable (registry : Registry) (dump : Json → List Char) (layout : Layout)

theorem membersSwap_payloadHooks : (payloadHooks registry dump layout).MembersSwap where
  member := fun _ _ _ _ _ _ _ _ => rfl
  tuple := fun _ _ _ _ _ _ _ => congrArg Except.toOption (bind_pure _)

theorem readPayloadMember_build {name : List Char} (hname : name = "FuHongBuild".toList) (chunks : List Json)
    (s : ℕ × Payload) : readPayloadMember registry dump layout s (name, .array chunks) =
      chunks.foldlM (payloadHooks registry dump layout).readChunk s := by
  rw [readPayloadMember, if_pos hname]

variable {member : List Char × Json}

theorem readPayloadMember_other (hbuild : member.1 ≠ "FuHongBuild".toList) (s : ℕ × Payload) :
    readPayloadMember registry dump layout s member = .ok s := by
  rw [readPayloadMember, if_neg hbuild]

theorem swaps_readPayloadMember {first second : List Char × Json} (hne : first.1 ≠ second.1) :
    Swaps (readPayloadMember registry dump layout) first second := by
  intro s
  by_cases hbuild : first.1 = "FuHongBuild".toList
  · have hother := readPayloadMember_other registry dump layout fun heq => hne (hbuild.trans heq.symm)
    simp only [hother]
    exact congrArg _ (bind_pure _)
  · have hother := readPayloadMember_other registry dump layout hbuild
    simp only [hother]
    exact congrArg _ (bind_pure _).symm

theorem readPayloadMember_reordered {member' : List Char × Json} (horder : ReorderedMember member member')
    (hkeys : ∀ chunks, member.2 = .array chunks → ∀ chunk ∈ chunks, ChunkKeysDiffer chunk) (s : ℕ × Payload) :
    (readPayloadMember registry dump layout s member).toOption =
      (readPayloadMember registry dump layout s member').toOption := by
  cases horder with
  | same => rfl
  | chunks hchunks =>
    rw [readPayloadMember_build registry dump layout rfl, readPayloadMember_build registry dump layout rfl,
      (membersSwap_payloadHooks registry dump layout).readChunks hchunks (hkeys _ rfl)]

theorem readPayload_reordered {members between members' : List (List Char × Json)}
    (hkeys : RootKeysDiffer members) (hperm : members.Perm between)
    (horder : List.Forall₂ ReorderedMember between members') :
    (readPayload registry dump layout (.object members)).toOption =
      (readPayload registry dump layout (.object members')).toOption := by
  rw [readPayload_object, readPayload_object, toOption_bind, toOption_bind,
    toOption_root hkeys hperm horder (fun _ _ hne => swaps_readPayloadMember registry dump layout hne)
      fun _ _ => readPayloadMember_reordered registry dump layout]

end Second

/-- No name is repeated in a document. -/
def KeysDiffer : Json → Prop
  | .object members => RootKeysDiffer members
  | _ => True

/-- Reading does not depend on the order of the members. -/
theorem readDocument_reordered (registry : Registry) (dump : Json → List Char) (version : Version)
    {document document' : Json} (hkeys : KeysDiffer document) (horder : Reordered document document') :
    (readDocument registry dump version document).toOption =
      (readDocument registry dump version document').toOption := by
  cases horder with
  | same => rfl
  | root hperm horder =>
    have hmapError {α : Type} (result : Except String α) (f : String → String) :
        (result.mapError f).toOption = result.toOption := by cases result <;> rfl
    rw [readDocument, readDocument, hmapError, hmapError, toOption_bind, toOption_bind,
      readMetadata_reordered version hkeys hperm horder]
    refine Option.bind_congr fun layout _ => ?_
    rw [toOption_bind, toOption_bind, readPayload_reordered registry dump layout hkeys hperm horder]

end FuHong

end WaterStructure
