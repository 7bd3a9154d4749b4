import WaterStructure.Formats.TimeBuilderReading

/-!
# What the passes over a TimeBuilder document do

The second pass finds the block types of the last list, and the last two passes go over the positions of
their last lists, each in the order of the document. All of them do what reading a finished document does.
-/

namespace WaterStructure

namespace TimeBuilder

open FuHong (Bounds Registry addBounds)
open GangBan (minimumOf)
open Json Json.Records LastValue NestedLoop StatefulRun
open NbtTag

/-! ## The block types -/

/-- A name or an aux value, as the second pass keeps it. -/
def keptMember (value : Json) : Json := detached (firstEvent value) (firstParsed value)

/-- What the second pass does at a member of a block type that is no list of positions. -/
def otherMember (name : List Char) (value : Json) (e : Entries) : Except String Entries :=
  .ok { e with current := entryMember name (firstEvent value) (firstParsed value) e.current }

def stepEntry (current : EntryMetadata) (member : List Char × Json) : EntryMetadata :=
  if member.1 = "pos".toList then { current with hasPos := true, finalPosIsArray := isArray member.2 }
  else entryMember member.1 (firstEvent member.2) (firstParsed member.2) current

/-- What the second pass keeps of a block type. -/
def metaOf (members : List (List Char × Json)) : EntryMetadata :=
  { members.foldl stepEntry {} with posOccurrences := countMembers "pos".toList members }

theorem others_entries {n : ℕ} (o : Root) (hinside : o.inside = true) (hactive : o.active = true) :
    Others entriesHooks (selectedCallback blockKey n entriesHooks) 2 o (fun _ => True) otherMember := by
  intro name value c s hname hs hkey
  refine (selectedCallback_follows hinside hactive).parseOther_dropped hs hname hkey value
    (fun _ _ => trivial) ?_
  change (if begins (firstEvent value) = true then _ else _) = _
  rw [if_pos (begins_firstEvent value)]
  rfl

/-- The refusal of an item that is no block type. -/
def notAnEntry (e : Entries) : Option String :=
  some ("block entry " ++ toString e.entries.length ++ ": entry is not an object")

theorem refuses_entries : Refuses entriesHooks (fun _ => True) notAnEntry where
  throws := by
    rintro e error - herror event hevent
    cases herror
    exact if_pos hevent
  passes := by
    rintro e - hnone
    cases hnone

theorem readMembers_entries (members : List (List Char × Json)) (n : ℕ) (e : Entries) :
    members.foldlM (readMember entriesHooks otherMember) (n, e) =
      .ok (n + countMembers "pos".toList members, { e with current := members.foldl stepEntry e.current }) := by
  induction members generalizing n e with
  | nil => rfl
  | cons member rest ih =>
    rw [List.foldlM_cons, List.foldl_cons, countMembers_cons, readMember]
    by_cases hname : member.1 = "pos".toList
    · have hlist : member.1 = entriesHooks.listKey := hname
      have hcount : n + (countMembers "pos".toList rest + 1) = n + 1 + countMembers "pos".toList rest := by
        omega
      rw [if_pos hlist, stepEntry, if_pos hname, if_pos hname, hcount]
      exact ih (n + 1) _
    · have hlist : member.1 ≠ entriesHooks.listKey := hname
      rw [if_neg hlist, stepEntry, if_neg hname, if_neg hname]
      exact ih n _

theorem readRecord_entries (members : List (List Char × Json)) (e : Entries) :
    readRecord entriesHooks otherMember members e =
      .ok ⟨e.entries ++ [metaOf members], members.foldl stepEntry {}⟩ := by
  rw [readRecord]
  change members.foldlM (readMember entriesHooks otherMember) (0, { e with current := {} }) >>= _ = _
  rw [readMembers_entries, ok_bind, Nat.zero_add]
  rfl

theorem append_ne_changed (rest : String) : "block entry " ++ rest ≠ changed := by
  intro h
  have hfirst : some 'b' = some 'T' := by
    have hheads := congrArg (fun s => s.toList.head?) h
    simp only [String.toList_append, List.head?_append] at hheads
    exact hheads
  exact absurd (Option.some.inj hfirst) (by decide)

theorem inEntry_ne_changed {α β : Type} {E : String → Prop} {R : α → β → Prop} {index : ℕ}
    {result : Except String α} {found : Option β} (h : Matches E R result found) :
    Matches (· ≠ changed) R (inEntry index result) found :=
  h.mapError fun text _ => by
    rw [String.append_assoc, String.append_assoc]
    exact append_ne_changed _

/-- The second pass finds the block types of the last list. -/
theorem matches_entries (items : List Json) : Matches (· ≠ changed)
    (fun e records => e.entries = records.map metaOf)
    (readList entriesHooks otherMember notAnEntry (.array items) {}) (items.mapM members?) := by
  have hstep (e : Entries) (found : List (List (List Char × Json))) (he : e.entries = found.map metaOf)
      (item : Json) : Matches (· ≠ changed) (fun e record => e.entries = (found ++ [record]).map metaOf)
        (readItem entriesHooks otherMember notAnEntry e item) item.members? := by
    rw [readItem]
    cases item.members? with
    | none =>
      refine .error ?_
      rw [String.append_assoc]
      exact append_ne_changed _
    | some members =>
      dsimp only
      rw [readRecord_entries]
      exact .ok (by rw [List.map_append, ← he]; rfl)
  have hloop := @Matches.foldlM_mapM _ _ _ _ (· ≠ changed)
    (fun (e : Entries) found => e.entries = found.map metaOf) (readItem entriesHooks otherMember notAnEntry)
    members? items (fun e found he item _ => hstep e found he item) {} [] rfl
  exact hloop

/-! ## The names of the block types -/

theorem cacheKey_inj {first second : List Char} {aux aux' : ℤ} (h : cacheKey first aux = cacheKey second aux') :
    first = second ∧ aux = aux' := by
  have hbar (aux : ℤ) : '|' ∉ decimal aux := by
    intro hmem
    rcases isDigit_of_mem_decimal hmem with hdigit | hsign
    · exact absurd hdigit (by decide)
    · exact absurd hsign (by decide)
  rw [cacheKey, cacheKey, List.append_eq_append_iff] at h
  rcases h with ⟨middle, hfirst, hrest⟩ | ⟨middle, hfirst, hrest⟩
  · cases middle with
    | nil =>
      rw [List.append_nil] at hfirst
      exact ⟨hfirst.symm, decimal_injective (List.cons.inj hrest).2⟩
    | cons c middle =>
      refine absurd ?_ (hbar aux)
      rw [(List.cons.inj hrest).2]
      exact List.mem_append_right _ List.mem_cons_self
  · cases middle with
    | nil =>
      rw [List.append_nil] at hfirst
      exact ⟨hfirst, decimal_injective (List.cons.inj hrest).2.symm⟩
    | cons c middle =>
      refine absurd ?_ (hbar aux')
      rw [(List.cons.inj hrest).2]
      exact List.mem_append_right _ List.mem_cons_self

/-- The palette cache holds what the registry answers. -/
def Sound (registry : Registry) (cache : PaletteCache) : Prop :=
  ∀ name aux runtime, cache.lookup (cacheKey name aux) = some runtime → runtime = resolve registry name aux

section Names

variable {registry : Registry}

/-- What is known of a palette cache that has been asked. -/
structure Asked (registry : Registry) (cache : PaletteCache) : Prop where
  sound : Sound registry cache
  nonempty : cache.keys ≠ []

theorem Sound.runtimeId {cache : PaletteCache} (h : Sound registry cache) (name : List Char) (aux : ℤ) :
    (runtimeId registry cache name aux).1 = resolve registry (trim name) aux ∧
      Asked registry (runtimeId registry cache name aux).2 := by
  rw [TimeBuilder.runtimeId]
  dsimp only
  split
  case h_1 runtime hfound =>
    refine ⟨h _ _ _ hfound, h, fun hnone => ?_⟩
    have hmem : cacheKey (trim name) aux ∈ cache := AList.lookup_isSome.mp (by rw [hfound]; rfl)
    have hnever : cacheKey (trim name) aux ∈ ([] : List (List Char)) := hnone ▸ AList.mem_keys.mp hmem
    cases hnever
  case h_2 =>
    refine ⟨rfl, fun other aux' runtime hruntime => ?_, ?_⟩
    · by_cases hkey : cacheKey other aux' = cacheKey (trim name) aux
      · rw [hkey, AList.lookup_insert] at hruntime
        obtain ⟨rfl, rfl⟩ := cacheKey_inj hkey
        exact (Option.some.inj hruntime).symm
      · rw [AList.lookup_insert_ne hkey] at hruntime
        exact h _ _ _ hruntime
    · rw [AList.keys_insert]
      exact List.cons_ne_nil _ _

theorem sound_empty : Sound registry ∅ := by
  intro name aux runtime hfound
  rw [AList.lookup_empty] at hfound
  cases hfound

end Names

theorem metaOf_name (members : List (List Char × Json)) :
    ((metaOf members).hasName, (metaOf members).name) =
      ((lastMember "name".toList members).map fun value => (true, keptMember value)).getD (false, .null) := by
  refine @observe_last _ _ "name".toList (fun current => (current.hasName, current.name)) _ stepEntry
    (fun current member => ?_) members {}
  rw [stepEntry, entryMember]
  by_cases hpos : member.1 = "pos".toList
  · rw [if_pos hpos, if_neg (hpos ▸ by decide)]
  · rw [if_neg hpos]
    split
    · rfl
    · split <;> rfl

theorem metaOf_aux (members : List (List Char × Json)) :
    ((metaOf members).hasAux, (metaOf members).aux) =
      ((lastMember "aux".toList members).map fun value => (true, keptMember value)).getD (false, .null) := by
  refine @observe_last _ _ "aux".toList (fun current => (current.hasAux, current.aux)) _ stepEntry
    (fun current member => ?_) members {}
  rw [stepEntry, entryMember]
  by_cases hpos : member.1 = "pos".toList
  · rw [if_pos hpos, if_neg (hpos ▸ by decide)]
  · rw [if_neg hpos]
    by_cases hname : member.1 = "name".toList
    · rw [if_pos hname, if_neg (hname ▸ by decide)]
    · rw [if_neg hname]
      split <;> rfl

theorem metaOf_pos (members : List (List Char × Json)) :
    ((metaOf members).hasPos, (metaOf members).finalPosIsArray) =
      ((lastMember "pos".toList members).map fun value => (true, isArray value)).getD (false, false) := by
  refine @observe_last _ _ "pos".toList (fun current => (current.hasPos, current.finalPosIsArray)) _ stepEntry
    (fun current member => ?_) members {}
  rw [stepEntry, entryMember]
  by_cases hpos : member.1 = "pos".toList
  · rw [if_pos hpos, if_pos hpos]
  · rw [if_neg hpos, if_neg hpos]
    split
    · rfl
    · split <;> rfl

theorem positions_memberEntry {members : List (List Char × Json)} {entry : Entry}
    (h : memberEntry members = some entry) : entry.positions = listed members := by
  obtain ⟨name, -, h⟩ := Option.bind_eq_some_iff.mp h
  obtain ⟨aux, -, h⟩ := Option.bind_eq_some_iff.mp h
  obtain ⟨-, h⟩ := then_of_some h
  cases h
  rfl

/-- A block type behind the second pass, with what its name stands for. -/
def finished (registry : Registry) (record : List (List Char × Json) × Entry) : EntryMetadata :=
  { metaOf record.1 with
    runtimeId := resolve registry (trim record.2.name) record.2.aux
    name := .null
    aux := .null }

theorem name_toOption (members : List (List Char × Json)) :
    (metaOf members).nameText.toOption =
      (lastMember "name".toList members).elim (some []) fun value => value.toText.toOption := by
  have hname := metaOf_name members
  rw [EntryMetadata.nameText]
  cases hlast : lastMember "name".toList members with
  | none =>
    rw [hlast] at hname
    rw [if_neg (by rw [(Prod.mk.inj hname).1]; decide)]
    rfl
  | some value =>
    rw [hlast] at hname
    rw [if_pos (Prod.mk.inj hname).1, (Prod.mk.inj hname).2]
    cases value <;> rfl

theorem aux_toOption (members : List (List Char × Json)) :
    (metaOf members).auxValue.toOption =
      (lastMember "aux".toList members).elim (some 0) fun value => (integer value "aux").toOption := by
  have haux := metaOf_aux members
  rw [EntryMetadata.auxValue]
  cases hlast : lastMember "aux".toList members with
  | none =>
    rw [hlast] at haux
    rw [if_neg (by rw [(Prod.mk.inj haux).1]; decide)]
    rfl
  | some value =>
    rw [hlast] at haux
    rw [if_pos (Prod.mk.inj haux).1, (Prod.mk.inj haux).2]
    cases value <;> rfl

theorem pos_iff (members : List (List Char × Json)) :
    ((metaOf members).hasPos ∧ ¬ (metaOf members).finalPosIsArray) ↔
      ¬ (lastMember "pos".toList members).elim true isArray = true := by
  have hpos := metaOf_pos members
  cases hlast : lastMember "pos".toList members with
  | none =>
    rw [hlast] at hpos
    rw [(Prod.mk.inj hpos).1]
    exact iff_of_false (fun h => Bool.false_ne_true h.1) fun h => h rfl
  | some value =>
    rw [hlast] at hpos
    rw [(Prod.mk.inj hpos).1, (Prod.mk.inj hpos).2]
    exact and_iff_right rfl

section Names

variable {registry : Registry}

/-- What is known behind some block types. -/
structure Resolved (registry : Registry) (s : List EntryMetadata × PaletteCache)
    (records : List (List (List Char × Json) × Entry)) : Prop where
  entries : s.1 = records.map (finished registry)
  sound : Sound registry s.2
  asked : records ≠ [] → s.2.keys ≠ []

theorem Resolved.resolveEntry {s : List EntryMetadata × PaletteCache}
    {records : List (List (List Char × Json) × Entry)} (h : Resolved registry s records)
    (members : List (List Char × Json)) (index : ℕ) :
    Matches (· ≠ changed) (fun s entry => Resolved registry s (records ++ [(members, entry)]))
      (resolveEntry registry s (metaOf members, index)) (memberEntry members) := by
  refine @inEntry_ne_changed _ _ (fun _ => True) _ index _ _ ?_
  have hname := matches_toOption (metaOf members).nameText
  have haux := matches_toOption (metaOf members).auxValue
  rw [name_toOption] at hname
  rw [aux_toOption] at haux
  refine hname.bind fun name name' hsame => ?_
  subst hsame
  refine haux.bind fun aux aux' hsame => ?_
  subst hsame
  obtain ⟨hfound, hasked⟩ := h.sound.runtimeId name aux
  by_cases harray : (lastMember "pos".toList members).elim true isArray = true
  · rw [if_neg (fun h => (pos_iff members).mp h harray), if_pos harray]
    refine .ok ⟨?_, hasked.sound, fun _ => hasked.nonempty⟩
    rw [List.map_append, ← h.entries]
    exact congrArg (fun runtime => s.1 ++ [{ metaOf members with runtimeId := runtime, name := .null, aux := .null }])
      hfound
  · rw [if_pos ((pos_iff members).mpr harray), if_neg harray]
    exact .error trivial

/-- The names of the block types are read as in a finished document. -/
theorem matches_resolve (records : List (List (List Char × Json))) :
    Matches (· ≠ changed) (Resolved registry)
      ((records.map metaOf).zipIdx.foldlM (resolveEntry registry) ([], ∅))
      (records.mapM fun members => (memberEntry members).map fun entry => (members, entry)) := by
  have hstart : Resolved registry ([], ∅) [] := ⟨rfl, sound_empty, fun h => absurd rfl h⟩
  have hloop := @Matches.foldlM_mapM _ _ _ _ (· ≠ changed) (Resolved registry)
    (fun s (record : List (List Char × Json) × ℕ) => resolveEntry registry s (metaOf record.1, record.2))
    (fun record => (memberEntry record.1).map fun entry => (record.1, entry)) records.zipIdx
    (fun s found h record _ => (h.resolveEntry record.1 record.2).map_right fun _ _ h => h) ([], ∅) [] hstart
  rw [List.zipIdx_map, List.foldlM_map]
  have hpairs : records.mapM (fun members => (memberEntry members).map fun entry => (members, entry)) =
      records.zipIdx.mapM fun record => (memberEntry record.1).map fun entry => (record.1, entry) := by
    conv_lhs => rw [← List.zipIdx_map_fst 0 records]
    rw [List.mapM_map]
    rfl
  rw [hpairs]
  exact hloop

end Names

/-! ## The positions -/

section Positions

variable {registry : Registry} {entries : List EntryMetadata} {materialize : Bool}

theorem others_positions {n : ℕ} (o : Root) (hinside : o.inside = true) (hactive : o.active = true) :
    Others (positionsHooks registry entries materialize)
      (selectedCallback blockKey n (positionsHooks registry entries materialize)) 2 o (fun _ => True)
        fun _ _ p => .ok p := by
  intro name value c s hname hs hkey
  exact (selectedCallback_follows hinside hactive).parseOther_dropped hs hname hkey value
    (fun _ _ => trivial) rfl

theorem refuses_positions : Refuses (positionsHooks registry entries materialize) (fun _ => True)
    fun _ => none where
  throws := by
    rintro p error - hno
    cases hno
  passes := by
    rintro p - - event -
    rfl

/-- The variables behind some positions. -/
def replay (registry : Registry) (materialize : Bool) (start : Positions) (placed : List Placement) : Positions :=
  placed.foldl (fun p placement => p.take registry materialize placement.1 placement.2) start

theorem take_fields (p : Positions) (world : BlockPos) (runtime : RuntimeId) (index : ℕ) :
    ({ p with entryIndex := index } : Positions).take registry materialize world runtime =
        { p.take registry materialize world runtime with entryIndex := index } ∧
      (p.take registry materialize world runtime).entryIndex = p.entryIndex ∧
      (p.take registry materialize world runtime).validPositionCount = p.validPositionCount + 1 := by
  cases materialize <;> exact ⟨rfl, rfl, rfl⟩

theorem replay_append (start : Positions) (placed : List Placement) (placement : Placement) :
    replay registry materialize start (placed ++ [placement]) =
      (replay registry materialize start placed).take registry materialize placement.1 placement.2 := by
  rw [replay, List.foldl_append]
  rfl

theorem replay_count (start : Positions) (placed : List Placement) :
    (replay registry materialize start placed).validPositionCount = start.validPositionCount + placed.length := by
  induction placed using List.reverseRecOn with
  | nil => rfl
  | append_singleton placed placement ih =>
    rw [replay_append, (take_fields _ _ _ 0).2.2, ih, List.length_append, List.length_singleton, Nat.add_assoc]

/-- What is known behind some positions and some block types. -/
structure Replays (registry : Registry) (materialize : Bool) (start : Positions) (index : ℕ) (p : Positions)
    (placed : List Placement) : Prop where
  eq : p = { replay registry materialize start placed with entryIndex := index }

variable {start p : Positions} {placed : List Placement} {records : List (List (List Char × Json))}

theorem Replays.consume {index : ℕ} (h : Replays registry materialize start index p placed)
    (hstart : start.validPositionCount = 0) (position : Json) :
    Matches (· ≠ changed) (Replays registry materialize start index)
      (consumePosition registry entries materialize position p)
      (addPosition (p.entry entries).runtimeId placed position) := by
  refine @inEntry_ne_changed _ _ (fun _ => True) _ p.entryIndex _ _ ?_
  have hcount : p.validPositionCount = placed.length := by
    rw [h.eq]
    exact (replay_count start placed).trans (by rw [hstart, Nat.zero_add])
  have hplace (world : BlockPos) (runtime : RuntimeId) : Replays registry materialize start index
      (p.take registry materialize world runtime) (placed ++ [(world, runtime)]) := by
    constructor
    rw [replay_append, h.eq]
    exact (take_fields _ world runtime index).1
  rw [addPosition]
  cases position with
  | array items =>
    rcases items with _ | ⟨first, _ | ⟨second, _ | ⟨third, rest⟩⟩⟩
    · exact .ok h
    · exact .ok h
    · exact .ok h
    · dsimp only [positionOf]
      cases i32 first "x" with
      | error => exact .error trivial
      | ok x =>
        cases i32 second "y" with
        | error => exact .error trivial
        | ok y =>
          cases i32 third "z" with
          | error => exact .error trivial
          | ok z =>
            change Matches _ _ (if p.validPositionCount ≥ uint32Max then _ else _)
              (if placed.length ≥ uint32Max then _ else _)
            rw [hcount]
            split
            · exact .error trivial
            · exact .ok (hplace _ _)
  | null | boolean | unsigned | integer | float | string | object => exact .error trivial

theorem readRecord_positions (members : List (List Char × Json)) (hindex : p.entryIndex < entries.length)
    (hcount : (p.entry entries).posOccurrences = countMembers "pos".toList members) :
    readRecord (positionsHooks registry entries materialize) (fun _ _ p => .ok p) members p =
      ((listed members).foldlM (fun p item => consumePosition registry entries materialize item p) p).map
        fun p => { p with entryIndex := p.entryIndex + 1 } := by
  have hlast := @foldlM_readMember_last _ (positionsHooks registry entries materialize) (fun _ _ => rfl) p
    (countMembers "pos".toList members) (fun n => by
      change (decide (n = (p.entry entries).posOccurrences) && true) = _
      rw [Bool.and_true, hcount]) members rfl
  have hstart : (positionsHooks registry entries materialize).startRecord p = .ok p :=
    if_neg (Nat.not_le.mpr hindex)
  have hlisted : (lastMember "pos".toList members).elim (.ok p)
      (fun value => takeItems (positionsHooks registry entries materialize) value p) =
        (listed members).foldlM (fun p item => consumePosition registry entries materialize item p) p := by
    rw [listed]
    cases lastMember "pos".toList members <;> rfl
  rw [readRecord, hstart, ok_bind, hlast]
  change Except.map _ ((lastMember "pos".toList members).elim (.ok p)
    (fun value => takeItems (positionsHooks registry entries materialize) value p)) >>= _ = _
  rw [hlisted]
  cases (listed members).foldlM (fun p item => consumePosition registry entries materialize item p) p <;> rfl

theorem Replays.consumeAll {start p : Positions} {index : ℕ} {placed : List Placement}
    (h : Replays registry materialize start index p placed) (hstart : start.validPositionCount = 0)
    (positions : List Json) :
    Matches (· ≠ changed) (Replays registry materialize start index)
      (positions.foldlM (fun p item => consumePosition registry entries materialize item p) p)
      (positions.foldlM (addPosition ((entries[index]?).getD {}).runtimeId) placed) := by
  refine Matches.foldlM (fun p placed h position _ => ?_) h
  have hruntime : (p.entry entries).runtimeId = ((entries[index]?).getD {}).runtimeId := by
    rw [Positions.entry, h.eq]
  rw [← hruntime]
  exact h.consume hstart position

/-- A block type of the last list. -/
theorem Replays.readEntry {records rest : List (List (List Char × Json) × Entry)}
    {record : List (List Char × Json) × Entry} (h : Replays registry materialize start records.length p placed)
    (hstart : start.validPositionCount = 0)
    (hentries : entries = (records ++ record :: rest).map (finished registry))
    (hrecord : memberEntry record.1 = some record.2) :
    Matches (· ≠ changed) (Replays registry materialize start (records.length + 1))
      (readRecord (positionsHooks registry entries materialize) (fun _ _ p => .ok p) record.1 p)
      (addEntry registry placed record.2) := by
  have hindex : p.entryIndex = records.length := by rw [h.eq]
  have hat : entries[records.length]? = some (finished registry record) := by
    rw [hentries, List.map_append, List.getElem?_append_right (by rw [List.length_map]), List.length_map,
      Nat.sub_self]
    rfl
  have hentry : p.entry entries = finished registry record := by
    rw [Positions.entry, hindex, hat]
    rfl
  have hlength : p.entryIndex < entries.length := by
    rw [hindex]
    exact (List.getElem?_eq_some_iff.mp hat).1
  have hlisted : record.2.positions = listed record.1 := positions_memberEntry hrecord
  have hall := @Replays.consumeAll registry entries materialize start p records.length placed h hstart
    (listed record.1)
  rw [hat] at hall
  change Matches _ _ _ ((listed record.1).foldlM
    (addPosition (resolve registry (trim record.2.name) record.2.aux)) placed) at hall
  rw [readRecord_positions record.1 hlength (by rw [hentry]; rfl), addEntry, hlisted]
  generalize (listed record.1).foldlM (fun p item => consumePosition registry entries materialize item p) p =
    result at hall ⊢
  generalize (listed record.1).foldlM (addPosition (resolve registry (trim record.2.name) record.2.aux)) placed =
    found at hall ⊢
  cases hall with
  | ok h => exact .ok ⟨by rw [h.eq]⟩
  | error h => exact .error h

/-- The block types of the last list, in their order. -/
theorem Replays.readEntries {records rest : List (List (List Char × Json) × Entry)} {start p : Positions}
    {placed : List Placement} (h : Replays registry materialize start records.length p placed)
    (hstart : start.validPositionCount = 0) (hentries : entries = (records ++ rest).map (finished registry))
    (hrest : ∀ record ∈ rest, memberEntry record.1 = some record.2) :
    Matches (· ≠ changed) (Replays registry materialize start entries.length)
      ((rest.map Prod.fst).foldlM
        (fun p members => readRecord (positionsHooks registry entries materialize) (fun _ _ p => .ok p) members p)
          p)
      ((rest.map Prod.snd).foldlM (addEntry registry) placed) := by
  induction rest generalizing records p placed with
  | nil =>
    rw [hentries, List.append_nil, List.length_map]
    exact .ok h
  | cons record rest ih =>
    rw [List.map_cons, List.map_cons, List.foldlM_cons, List.foldlM_cons]
    refine (h.readEntry hstart hentries (hrest record List.mem_cons_self)).bind fun p placed hnext => ?_
    have hlength : (records ++ [record]).length = records.length + 1 := by
      rw [List.length_append, List.length_singleton]
    rw [← hlength] at hnext
    refine ih hnext ?_ fun other hother => hrest other (List.mem_cons_of_mem record hother)
    rw [hentries, List.append_assoc, List.singleton_append]

theorem records_of_mapM {items : List Json} (h : items.mapM members? = some records) :
    items = records.map Json.object := by
  induction items generalizing records with
  | nil =>
    cases h
    rfl
  | cons item rest ih =>
    rw [List.mapM_cons] at h
    obtain ⟨members, hmembers, h⟩ := Option.bind_eq_some_iff.mp h
    obtain ⟨others, hothers, h⟩ := Option.bind_eq_some_iff.mp h
    cases h
    cases item with
    | object => cases hmembers; rw [List.map_cons, ← ih hothers]
    | null | boolean | unsigned | integer | float | string | array => cases hmembers

theorem entries_of_mapM {found : List (List (List Char × Json) × Entry)}
    (h : records.mapM (fun members => (memberEntry members).map fun entry => (members, entry)) = some found) :
    found.map Prod.fst = records ∧ records.mapM memberEntry = some (found.map Prod.snd) ∧
      ∀ record ∈ found, memberEntry record.1 = some record.2 := by
  induction records generalizing found with
  | nil =>
    cases h
    exact ⟨rfl, rfl, fun _ hno => absurd hno List.not_mem_nil⟩
  | cons members rest ih =>
    rw [List.mapM_cons] at h
    obtain ⟨record, hrecord, h⟩ := Option.bind_eq_some_iff.mp h
    obtain ⟨others, hothers, h⟩ := Option.bind_eq_some_iff.mp h
    obtain ⟨entry, hentry, rfl⟩ := Option.map_eq_some_iff.mp hrecord
    cases h
    obtain ⟨hfirst, hsecond, hall⟩ := ih hothers
    refine ⟨by rw [List.map_cons, hfirst], ?_, List.forall_mem_cons.mpr ⟨hentry, hall⟩⟩
    rw [List.mapM_cons, hentry, hsecond]
    rfl

theorem entries_of_mapM_none
    (h : records.mapM (fun members => (memberEntry members).map fun entry => (members, entry)) = none) :
    records.mapM memberEntry = none := by
  induction records with
  | nil => cases h
  | cons members rest ih =>
    rw [List.mapM_cons] at h ⊢
    cases hentry : memberEntry members with
    | none => rfl
    | some entry =>
      rw [hentry] at h
      cases hrest : rest.mapM fun members => (memberEntry members).map fun entry => (members, entry) with
      | none => rw [ih hrest]; rfl
      | some found =>
        rw [hrest] at h
        cases h

/-- A pass over the positions of a document. -/
theorem matches_streamPositions {members : List (List Char × Json)}
    {records : List (List (List Char × Json) × Entry)}
    (hlast : lastMember blockKey members = some (.array ((records.map Prod.fst).map Json.object)))
    (hrecords : ∀ record ∈ records, memberEntry record.1 = some record.2)
    (hentries : entries = records.map (finished registry)) (p : Positions) :
    Matches (· ≠ changed)
      (Replays registry materialize { p with entryIndex := 0, validPositionCount := 0 } entries.length)
      (streamPositions registry entries materialize (countMembers blockKey members) (.object members) p)
      ((records.map Prod.snd).foldlM (addEntry registry) []) := by
  have hparse := @parseWith_selected _ blockKey (countMembers blockKey members)
    (positionsHooks registry entries materialize) (fun _ _ p => .ok p) (fun _ => none)
    (fun o => others_positions o) refuses_positions members rfl
    { p with entryIndex := 0, validPositionCount := 0 }
  have hstart : Replays registry materialize { p with entryIndex := 0, validPositionCount := 0 }
      ([] : List (List (List Char × Json) × Entry)).length { p with entryIndex := 0, validPositionCount := 0 } [] := ⟨rfl⟩
  have hall := @Replays.readEntries registry entries materialize [] records _ _ [] hstart rfl hentries hrecords
  rw [hlast, Option.elim_some, readList] at hparse
  have hitems (records : List (List (List Char × Json))) (p : Positions) :
      ((Json.array (records.map Json.object)).items?.getD []).foldlM
        (readItem (positionsHooks registry entries materialize) (fun _ _ p => .ok p) fun _ => none) p =
      records.foldlM (fun p members =>
        readRecord (positionsHooks registry entries materialize) (fun _ _ p => .ok p) members p) p :=
    List.foldlM_map
  rw [hitems] at hparse
  rw [streamPositions]
  generalize parseWith (selectedCallback blockKey (countMembers blockKey members)
    (positionsHooks registry entries materialize)) (.object members)
      { outer := {}, acc := { p with entryIndex := 0, validPositionCount := 0 } } = result at hparse ⊢
  rw [← hparse] at hall
  cases result with
  | error error =>
    generalize (records.map Prod.snd).foldlM (addEntry registry) [] = found at hall ⊢
    cases hall with
    | error h => exact .error h
  | ok c =>
    obtain ⟨placed, hplaced, hreplays⟩ := hall.of_ok
    have hindex : c.acc.entryIndex = entries.length := by rw [hreplays.eq]
    rw [hplaced, ok_bind, if_neg (not_not_intro hindex)]
    exact .ok hreplays

end Positions

end TimeBuilder

end WaterStructure
