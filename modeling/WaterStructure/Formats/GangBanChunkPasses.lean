import WaterStructure.Formats.GangBanChunkReading

/-!
# Streaming the chunks of a GangBan document

Both passes over the blocks visit the entries of the chunks that the first pass has found, in their order.
So they accept the documents that reading the finished document accepts, and leave the same structure.
-/

namespace WaterStructure

namespace GangBan

open FuHong (Bounds BoundsOf Registry addBounds)
open Json Json.Records LastValue NestedLoop StatefulRun

/-! ## The entries that a pass visits -/

/-- The variables of a pass behind some chunks. -/
def Pass.behind (p : Pass) (chunks : ℕ) : Pass := { p with rootIndex := 2 + chunks, chunkIndex := chunks }

section Visits

variable (registry : Registry) (parseNbt : List Char → Except String Payload) (version : ChunkVersion)
  (settings : Settings) (materialize : Bool)

/-- What a pass does with an entry of a chunk. -/
def visitEntry (p : Pass) (entry : Chunk × Json) : Except String Pass :=
  (inBlock p.blockIndex
    (chunkBlock settings.palette entry.1.x entry.1.z p.blockIndex entry.2 >>= fun block =>
      placeBlock registry parseNbt version settings materialize block entry.2 p)).map fun p =>
    { p with blockIndex := p.blockIndex + 1 }

/-- What a pass does with some entries. -/
def visitEntries (entries : List (Chunk × Json)) (p : Pass) : Except String Pass :=
  entries.foldlM (visitEntry registry parseNbt version settings materialize) p

variable {registry parseNbt version settings materialize}

theorem put_behind (p : Pass) (n : ℕ) (pos : BlockPos) (runtime : RuntimeId) (nbt : Option Payload) :
    (p.behind n).put registry version pos runtime nbt = (p.put registry version pos runtime nbt).behind n := by
  rw [Pass.put, Pass.put]
  split
  case isTrue => rfl
  case isFalse =>
    split
    · rfl
    · change (if pos ∈ p.firstEntityPositions then _ else _) = _
      split <;> rfl

theorem placeBlock_behind (block : ChunkBlock) (entry : Json) (p : Pass) (n : ℕ) :
    placeBlock registry parseNbt version settings materialize block entry (p.behind n) =
      (placeBlock registry parseNbt version settings materialize block entry p).map fun p => p.behind n := by
  rw [placeBlock, placeBlock]
  split
  · rfl
  · dsimp only
    change Except.map _ (subtract block.world ((settings.declared.map Prod.fst).getD (minimumOf p.bounds))) = _
    cases subtract block.world ((settings.declared.map Prod.fst).getD (minimumOf p.bounds)) with
    | error error => rfl
    | ok pos => exact congrArg Except.ok (put_behind p n pos _ _)

variable {chunk : Chunk} {n occurrences : ℕ} {document : Json}
  {found : Json × Json × List (List (List Char × Json) × Chunk)} {size : Size} {p q : Pass}
  {placements : List Placement}

/-- An entry of a chunk that the first pass has found. -/
theorem consumeEntry_behind {metadata : List ChunkMetadata}
    (hchunk : metadata[n]? = some ⟨chunk.x, chunk.z, occurrences⟩) (entry : Json) (p : Pass) :
    consumeEntry registry parseNbt version settings metadata materialize entry (p.behind n) =
      (visitEntry registry parseNbt version settings materialize p (chunk, entry)).map fun p => p.behind n := by
  have hindex : ¬ (p.behind n).chunkIndex ≥ metadata.length :=
    Nat.not_le.mpr (List.getElem?_eq_some_iff.mp hchunk).1
  have hat : (p.behind n).chunk metadata = ⟨chunk.x, chunk.z, occurrences⟩ := by
    change (metadata[n]?).getD {} = _
    rw [hchunk]
    rfl
  rw [consumeEntry, if_neg hindex, hat, visitEntry]
  change (inBlock p.blockIndex (chunkBlock settings.palette chunk.x chunk.z p.blockIndex entry >>= fun block =>
    placeBlock registry parseNbt version settings materialize block entry (p.behind n))).map _ = _
  cases chunkBlock settings.palette chunk.x chunk.z p.blockIndex entry with
  | error error => rfl
  | ok block =>
    rw [ok_bind, ok_bind, placeBlock_behind]
    cases placeBlock registry parseNbt version settings materialize block entry p <;> rfl

theorem consumeEntries_behind {metadata : List ChunkMetadata}
    (hchunk : metadata[n]? = some ⟨chunk.x, chunk.z, occurrences⟩) (entries : List Json) (p : Pass) :
    entries.foldlM
        (fun p entry => consumeEntry registry parseNbt version settings metadata materialize entry p) (p.behind n) =
      (visitEntries registry parseNbt version settings materialize (entries.map fun entry => (chunk, entry)) p).map
        fun p => p.behind n := by
  induction entries generalizing p with
  | nil => rfl
  | cons entry rest ih =>
    rw [List.foldlM_cons, consumeEntry_behind hchunk, List.map_cons, visitEntries, List.foldlM_cons]
    cases visitEntry registry parseNbt version settings materialize p (chunk, entry) with
    | error error => rfl
    | ok next => exact ih next

theorem data_memberChunk {members : List (List Char × Json)} (h : memberChunk members = some chunk) :
    listedData members = some chunk.data := by
  obtain ⟨grids, -, h⟩ := Option.bind_eq_some_iff.mp h
  obtain ⟨place, -, h⟩ := Option.bind_eq_some_iff.mp h
  obtain ⟨data, hdata, h⟩ := Option.bind_eq_some_iff.mp h
  cases h
  exact hdata

/-- A chunk that the first pass has found. -/
theorem readRecord_behind {metadata : List ChunkMetadata} {record : List (List Char × Json) × Chunk}
    (hchunk : metadata[n]? = some (metadataOf record)) (hrecord : memberChunk record.1 = some record.2)
    (p : Pass) :
    readRecord (chunkHooks registry parseNbt version settings metadata materialize) (fun _ _ p => .ok p) record.1
        (p.behind n) =
      (visitEntries registry parseNbt version settings materialize
        (record.2.data.map fun entry => (record.2, entry)) p).map fun p => p.behind (n + 1) := by
  have hindex : n < metadata.length := (List.getElem?_eq_some_iff.mp hchunk).1
  have hat : (p.behind n).chunk metadata = metadataOf record := by
    change (metadata[n]?).getD {} = _
    rw [hchunk]
    rfl
  have hlast := @foldlM_readMember_last _ (chunkHooks registry parseNbt version settings metadata materialize)
    (fun _ _ => rfl) (p.behind n) (countMembers "data".toList record.1) (fun count => by
      change (true && decide (count = ((p.behind n).chunk metadata).dataOccurrences)) = _
      rw [hat, Bool.true_and, metadataOf]) record.1 rfl
  have hstart : (chunkHooks registry parseNbt version settings metadata materialize).startRecord (p.behind n) =
      .ok (p.behind n) := if_neg (Nat.not_le.mpr hindex)
  have hdata : (lastMember "data".toList record.1).elim (.ok (p.behind n))
      (fun value => takeItems (chunkHooks registry parseNbt version settings metadata materialize) value
        (p.behind n)) =
      record.2.data.foldlM (fun p entry => consumeEntry registry parseNbt version settings metadata materialize entry p)
        (p.behind n) := by
    obtain ⟨items, hitems, hsame⟩ := Option.map_eq_some_iff.mp (data_memberChunk hrecord)
    obtain ⟨value, hvalue, hitems⟩ := Option.bind_eq_some_iff.mp hitems
    rw [hvalue, ← hsame, Option.elim_some, takeItems, hitems]
    rfl
  rw [readRecord, hstart, ok_bind, hlast]
  change Except.map _ ((lastMember "data".toList record.1).elim (.ok (p.behind n)) fun value =>
    takeItems (chunkHooks registry parseNbt version settings metadata materialize) value (p.behind n)) >>= _ = _
  rw [hdata, consumeEntries_behind hchunk]
  cases visitEntries registry parseNbt version settings materialize
    (record.2.data.map fun entry => (record.2, entry)) p with
  | error error => rfl
  | ok next =>
    refine congrArg Except.ok ?_
    change ({ next with chunkIndex := n + 1, rootIndex := 2 + n + 1 } : Pass) = _
    rw [Nat.add_assoc]
    rfl

theorem visitEntries_append (first second : List (Chunk × Json)) (p : Pass) :
    visitEntries registry parseNbt version settings materialize (first ++ second) p =
      visitEntries registry parseNbt version settings materialize first p >>=
        visitEntries registry parseNbt version settings materialize second := List.foldlM_append

/-- The chunks that the first pass has found. -/
theorem readRecords_behind {before records : List (List (List Char × Json) × Chunk)}
    (hrecords : ∀ record ∈ records, memberChunk record.1 = some record.2) (p : Pass) :
    records.foldlM (fun p record =>
        readRecord
          (chunkHooks registry parseNbt version settings ((before ++ records).map metadataOf) materialize)
          (fun _ _ p => .ok p) record.1 p) (p.behind before.length) =
      (visitEntries registry parseNbt version settings materialize (chunkEntries (records.map Prod.snd)) p).map
        fun p => p.behind (before ++ records).length := by
  induction records generalizing before p with
  | nil =>
    rw [List.append_nil]
    rfl
  | cons record rest ih =>
    have hat : ((before ++ record :: rest).map metadataOf)[before.length]? = some (metadataOf record) := by
      rw [List.map_append, List.getElem?_append_right (by rw [List.length_map]), List.length_map, Nat.sub_self]
      rfl
    have hlength : before.length + 1 = (before ++ [record]).length := by
      rw [List.length_append, List.length_singleton]
    have hsplit : before ++ record :: rest = before ++ [record] ++ rest := by
      rw [List.append_assoc, List.singleton_append]
    have hentries : chunkEntries ((record :: rest).map Prod.snd) =
        (record.2.data.map fun entry => (record.2, entry)) ++ chunkEntries (rest.map Prod.snd) := by
      rw [chunkEntries, chunkEntries, List.map_cons, List.flatMap_cons]
    rw [List.foldlM_cons, readRecord_behind hat (hrecords record List.mem_cons_self), hentries,
      visitEntries_append]
    cases visitEntries registry parseNbt version settings materialize
      (record.2.data.map fun entry => (record.2, entry)) p with
    | error error => rfl
    | ok next =>
      rw [ok_bind, hlength, hsplit]
      exact ih (fun other hother => hrecords other (List.mem_cons_of_mem record hother)) next

/-! ## The document -/

section Document

variable {metadata : List ChunkMetadata}

theorem chunkCallback_follows (o : Bool) :
    Follows (chunkHooks registry parseNbt version settings metadata materialize)
      (chunkCallback registry parseNbt version settings metadata materialize) 1 o fun p => 2 ≤ p.rootIndex := by
  rintro depth event parsed c - hc
  rw [chunkCallback, if_neg (by omega), if_neg (Nat.not_lt.mpr hc), Nat.add_sub_cancel_left]

theorem consumeEntry_rootIndex {entry : Json} {p next : Pass}
    (h : consumeEntry registry parseNbt version settings metadata materialize entry p = .ok next) :
    next.rootIndex = p.rootIndex := by
  have hput (pos : BlockPos) (runtime : RuntimeId) (nbt : Option Payload) :
      (p.put registry version pos runtime nbt).rootIndex = p.rootIndex := by
    rw [Pass.put]
    split
    case isTrue => rfl
    case isFalse =>
      split
      · rfl
      · split <;> rfl
  rw [consumeEntry] at h
  obtain ⟨_, h⟩ := else_of_ok h
  obtain ⟨q, hq, rfl⟩ := exists_of_map_ok h
  obtain ⟨block, -, hq⟩ := exists_of_bind_ok (inBlock_ok.mp hq)
  rw [placeBlock] at hq
  split at hq
  · cases hq
    rfl
  · obtain ⟨pos, -, rfl⟩ := exists_of_map_ok hq
    exact hput pos _ _

theorem preserves_chunkHooks :
    Records.Preserves (chunkHooks registry parseNbt version settings metadata materialize) fun p =>
      2 ≤ p.rootIndex where
  startRecord := by
    rintro p next hp hnext
    change (if p.chunkIndex ≥ metadata.length then _ else _) = _ at hnext
    obtain ⟨-, hnext⟩ := else_of_ok hnext
    cases hnext
    exact hp
  list := fun _ _ hp => hp
  item := fun _ _ _ hp hnext => (consumeEntry_rootIndex hnext).symm ▸ hp
  endRecord := by
    rintro count p next hp hnext
    cases hnext
    exact Nat.le_succ_of_le hp

theorem others_chunks (o : Bool) :
    Others (chunkHooks registry parseNbt version settings metadata materialize)
      (chunkCallback registry parseNbt version settings metadata materialize) 1 o (fun p => 2 ≤ p.rootIndex)
        fun _ _ p => .ok p := by
  intro name value c s hname hs hkey
  refine (chunkCallback_follows o).parseOther_dropped hs hname hkey value ?_ rfl
  rintro p hp
  cases hp
  exact hs.inv

theorem refuses_chunks :
    Refuses (chunkHooks registry parseNbt version settings metadata materialize) (fun p => 2 ≤ p.rootIndex)
      fun _ => none where
  throws := by
    rintro p error - hno
    cases hno
  passes := fun _ _ _ _ _ => rfl

/-- The header or the palette is passed over. -/
theorem parse_passed (value : Json) {c : Cursor Bool Pass} (hc : c.acc.rootIndex < 2) :
    parseValue (chunkCallback registry parseNbt version settings metadata materialize) 1 true true value c =
      .ok (none, { c with acc := { c.acc with rootIndex := c.acc.rootIndex + 1 } }) := by
  have hevent (depth : ℕ) (hdepth : depth ≠ 0) (event : ParseEvent) (parsed : Json) :
      chunkCallback registry parseNbt version settings metadata materialize depth event parsed c =
        .ok (passHead depth event c) := by
    rw [chunkCallback, if_neg hdepth, if_pos hc]
  refine parseValue_passed value ?_ ?_ ?_
  · intro depth event parsed hdepth
    rw [hevent depth (by omega), passHead, if_neg (by omega)]
    exact ⟨_, rfl⟩
  · intro event hstart
    rw [hevent 1 (by decide), passHead, if_neg (by rcases hstart with rfl | rfl <;> decide)]
    rfl
  · intro event parsed hend
    rw [hevent 1 (by decide), passHead, if_pos ⟨rfl, by rcases hend with rfl | rfl | rfl <;> decide⟩]

end Document

theorem exists_of_layoutFound (h : layoutFound document = some found) :
    (∃ header rawPalette, document =
      .array (header :: rawPalette :: found.2.2.map fun record => Json.object record.1)) ∧
      ∀ record ∈ found.2.2, memberChunk record.1 = some record.2 := by
  cases document with
  | array items =>
    rcases items with _ | ⟨header, _ | ⟨rawPalette, items⟩⟩
    · cases h
    · cases h
    · obtain ⟨records, hrecords, rfl⟩ := Option.map_eq_some_iff.mp h
      obtain ⟨hitems, hall⟩ := records_of_foundRecord (Option.filter_eq_some_iff.mp hrecords).1
      exact ⟨⟨header, rawPalette, congrArg (fun items => Json.array (header :: rawPalette :: items)) hitems⟩, hall⟩
  | null | boolean | unsigned | integer | float | string | object => cases h

/-- The events of a document go over its chunks. -/
theorem parseWith_chunks {metadata : List ChunkMetadata} (header rawPalette : Json) (items : List Json) (p : Pass)
    (hp : p.rootIndex = 0) :
    Alike (fun c q => c.outer = true ∧ c.acc = q)
      (parseWith (chunkCallback registry parseNbt version settings metadata materialize)
        (.array (header :: rawPalette :: items)) { outer := false, acc := p })
      (items.foldlM
        (readItem (chunkHooks registry parseNbt version settings metadata materialize) (fun _ _ p => .ok p)
          fun _ => none) { p with rootIndex := 2 }) := by
  have hstart : AtRecord true (fun p : Pass => 2 ≤ p.rootIndex)
      { outer := true, acc := { p with rootIndex := 2 } } { p with rootIndex := 2 } :=
    ⟨rfl, rfl, rfl, rfl, Nat.le_refl 2⟩
  have hfirst : p.rootIndex < 2 := hp ▸ Nat.two_pos
  have hrecords := (@chunkCallback_follows registry parseNbt version settings materialize metadata true).parseRecords
    preserves_chunkHooks (others_chunks true) refuses_chunks hstart items []
  rw [parseWith, parseValue]
  change Alike _ ((parseItems (chunkCallback registry parseNbt version settings metadata materialize) 1 true true
    (header :: rawPalette :: items) [] { outer := true, acc := p } >>= fun r =>
      parseEnd (chunkCallback registry parseNbt version settings metadata materialize) 0 .arrayEnd true (.array r.1)
        r.2).map Prod.snd) _
  rw [parseItems, parse_passed header hfirst, ok_bind]
  dsimp only
  rw [parseItems, parse_passed rawPalette (show p.rootIndex + 1 < 2 by rw [hp]; exact Nat.one_lt_two), ok_bind, hp]
  change Alike _ ((parseItems (chunkCallback registry parseNbt version settings metadata materialize) 1 true true
    items [] { outer := true, acc := { p with rootIndex := 2 } } >>= fun r =>
      parseEnd (chunkCallback registry parseNbt version settings metadata materialize) 0 .arrayEnd true (.array r.1)
        r.2).map Prod.snd) _
  generalize parseItems (chunkCallback registry parseNbt version settings metadata materialize) 1 true true
    items [] { outer := true, acc := { p with rootIndex := 2 } } = result at hrecords ⊢
  generalize items.foldlM
    (readItem (chunkHooks registry parseNbt version settings metadata materialize) (fun _ _ p => .ok p)
      fun _ => none) { p with rootIndex := 2 } = plain at hrecords ⊢
  cases hrecords with
  | error error => exact .error error
  | @ok r q hr =>
    have houter : (r.2.outer || false) = true := by rw [hr.outer, Bool.true_or]
    exact .ok ⟨houter, hr.acc⟩

/-- A pass visits the entries of the chunks that the first pass has found, in their order. -/
theorem streamEntries_found (hfound : layoutFound document = some found) (p : Pass) :
    streamEntries registry parseNbt version settings (found.2.2.map metadataOf) materialize document p =
      (visitEntries registry parseNbt version settings materialize (chunkEntries (found.2.2.map Prod.snd))
        { p with blockIndex := 0 }).map fun p => p.behind found.2.2.length := by
  obtain ⟨⟨header, rawPalette, rfl⟩, hall⟩ := exists_of_layoutFound hfound
  have hrecords := @readRecords_behind registry parseNbt version settings materialize [] found.2.2 hall
    { p with blockIndex := 0 }
  have hparse : Alike (fun (c : Cursor Bool Pass) q => c.outer = true ∧ c.acc = q)
      (parseWith (chunkCallback registry parseNbt version settings (found.2.2.map metadataOf) materialize)
        (.array (header :: rawPalette :: found.2.2.map fun record => Json.object record.1))
        { outer := false, acc := { p with rootIndex := 0, chunkIndex := 0, blockIndex := 0 } })
      ((visitEntries registry parseNbt version settings materialize (chunkEntries (found.2.2.map Prod.snd))
        { p with blockIndex := 0 }).map fun p => p.behind found.2.2.length) := by
    have hitems := @parseWith_chunks registry parseNbt version settings materialize (found.2.2.map metadataOf)
      header rawPalette (found.2.2.map fun record => Json.object record.1)
      { p with rootIndex := 0, chunkIndex := 0, blockIndex := 0 } rfl
    rw [List.foldlM_map] at hitems
    rw [List.nil_append] at hrecords
    rw [← hrecords]
    exact hitems
  rw [streamEntries]
  generalize parseWith _ _ _ = result at hparse ⊢
  generalize visitEntries registry parseNbt version settings materialize (chunkEntries (found.2.2.map Prod.snd))
    { p with blockIndex := 0 } = visited at hparse ⊢
  cases visited with
  | error error =>
    cases hparse
    rfl
  | ok q =>
    cases hparse with
    | @ok c _ hc =>
      obtain ⟨houter, hacc⟩ := hc
      have hcount : c.acc.chunkIndex = (found.2.2.map metadataOf).length := by
        rw [hacc, List.length_map]
        rfl
      rw [ok_bind, if_neg, hacc]
      · rfl
      · rw [houter, hcount]
        exact fun h => h.elim (fun h => h rfl) fun h => h rfl

/-! ## What the visits leave -/

theorem inBlock_ne_changed {α β : Type} {E : String → Prop} {R : α → β → Prop} {index : ℕ}
    {result : Except String α} {found : Option β} (h : Matches E R result found) :
    Matches (· ≠ changed) R (inBlock index result) found :=
  h.mapError fun text _ => by
    rw [String.append_assoc, String.append_assoc]
    exact append_ne_changed (by decide) _

/-- The number of a block is for errors only. -/
theorem toOption_chunkBlock (palette : List (List Char)) (chunkX chunkZ : ℤ) (blockIndex : ℕ) (entry : Json) :
    (chunkBlock palette chunkX chunkZ blockIndex entry).toOption =
      (chunkBlock palette chunkX chunkZ 0 entry).toOption := by
  cases entry with
  | array items =>
    rcases items with _ | ⟨first, _ | ⟨second, _ | ⟨third, _ | ⟨fourth, _ | ⟨fifth, rest⟩⟩⟩⟩⟩
    · rfl
    · rfl
    · rfl
    · rfl
    · rfl
    · rw [chunkBlock, chunkBlock]
      cases jsonI32 first "palette index" with
      | error error => rfl
      | ok index =>
        rw [ok_bind, ok_bind, paletteName, paletteName]
        cases (if index < 0 then none else palette[index.toNat]?) <;> rfl
  | null | boolean | unsigned | integer | float | string | object => rfl

theorem matches_chunkBlock (palette : List (List Char)) (blockIndex : ℕ) (entry : Chunk × Json) :
    Matches (fun _ => True) Eq (chunkBlock palette entry.1.x entry.1.z blockIndex entry.2)
      (blockOf palette entry) := by
  have hresult := matches_toOption (chunkBlock palette entry.1.x entry.1.z blockIndex entry.2)
  rw [toOption_chunkBlock] at hresult
  exact hresult

/-- A block that is measured. -/
theorem matches_measure (q : Pass) (entry : Chunk × Json) :
    Matches (· ≠ changed)
      (fun r block => r = { q with blockIndex := q.blockIndex + 1, bounds := addBounds q.bounds block.world })
      (visitEntry registry parseNbt version settings false q entry) (blockOf settings.palette entry) := by
  have hplace : Matches (fun _ => True) (fun r block => r = { q with bounds := addBounds q.bounds block.world })
      (chunkBlock settings.palette entry.1.x entry.1.z q.blockIndex entry.2 >>= fun block =>
        placeBlock registry parseNbt version settings false block entry.2 q)
      ((blockOf settings.palette entry).bind some) := by
    refine (matches_chunkBlock settings.palette q.blockIndex entry).bind fun block block' hsame => ?_
    subst hsame
    exact .ok rfl
  rw [Option.bind_fun_some] at hplace
  refine (inBlock_ne_changed hplace).map_left fun r block hr => ?_
  rw [hr]

/-- The first pass over the blocks finds their bounds. -/
theorem matches_bounds (entries : List (Chunk × Json)) (p : Pass) :
    Matches (· ≠ changed)
      (fun q blocks => q =
        { p with
          blockIndex := p.blockIndex + blocks.length
          bounds := (blocks.map ChunkBlock.world).foldl addBounds p.bounds })
      (visitEntries registry parseNbt version settings false entries p)
      (entries.mapM (blockOf settings.palette)) := by
  have hloop := @Matches.foldlM_mapM _ _ _ _ (· ≠ changed)
    (fun (q : Pass) blocks => q =
      { p with
        blockIndex := p.blockIndex + blocks.length
        bounds := (blocks.map ChunkBlock.world).foldl addBounds p.bounds })
    (visitEntry registry parseNbt version settings false) (blockOf settings.palette) entries
    (fun q blocks hq entry _ => (matches_measure q entry).mono fun r block hr => by
      rw [hr, hq, List.length_append, List.length_singleton, List.map_append, List.foldl_append, Nat.add_assoc]
      rfl) p [] rfl
  exact hloop

/-- The place from which positions are counted. -/
def originOf (settings : Settings) (bounds : Option Bounds) : BlockPos :=
  (settings.declared.map Prod.fst).getD (minimumOf bounds)

/-- What is known of a pass that stores blocks. -/
structure Stores (registry : Registry) (size : Size) (p q : Pass) (placements : List Placement) : Prop where
  blockIndex : q.blockIndex = p.blockIndex + placements.length
  bounds : q.bounds = p.bounds
  store : q.store.HoldsPlaced registry.airRuntimeId size placements

theorem Stores.put (h : Stores registry size p q placements) (pos : BlockPos) (runtime : RuntimeId)
    (nbt : Option Payload) :
    Stores registry size p { q.put registry version pos runtime nbt with blockIndex := q.blockIndex + 1 }
      (placements ++ [(pos, runtime)]) := by
  have hstore := h.store.put pos runtime
  have hindex : q.blockIndex + 1 = p.blockIndex + (placements ++ [(pos, runtime)]).length := by
    rw [h.blockIndex, List.length_append, List.length_singleton, Nat.add_assoc]
  rw [Pass.put]
  split_ifs
  · exact ⟨hindex, h.bounds, hstore⟩
  · exact ⟨hindex, h.bounds, hstore.putEntity pos nbt⟩
  · exact ⟨hindex, h.bounds, hstore⟩
  · exact ⟨hindex, h.bounds, hstore.putEntity pos nbt⟩

/-- A block that is stored. -/
theorem Stores.visit (h : Stores registry size p q placements) (entry : Chunk × Json) :
    Matches (· ≠ changed) (fun r placement => Stores registry size p r (placements ++ [placement]))
      (visitEntry registry parseNbt version settings true q entry)
      ((blockOf settings.palette entry).bind (placed registry (originOf settings p.bounds))) := by
  have hplace : Matches (fun _ => True)
      (fun r placement => Stores registry size p { r with blockIndex := r.blockIndex + 1 }
        (placements ++ [placement]))
      (chunkBlock settings.palette entry.1.x entry.1.z q.blockIndex entry.2 >>= fun block =>
        placeBlock registry parseNbt version settings true block entry.2 q)
      ((blockOf settings.palette entry).bind (placed registry (originOf settings p.bounds))) := by
    refine (matches_chunkBlock settings.palette q.blockIndex entry).bind fun block block' hsame => ?_
    subst hsame
    rw [← h.bounds]
    refine (matches_toOption (subtract block.world (originOf settings q.bounds))).map fun pos pos' hsame => ?_
    subst hsame
    have hindex (nbt : Option Payload) : (q.put registry version pos
        (runtimeId registry block.name block.aux) nbt).blockIndex = q.blockIndex := by
      rw [Pass.put]
      split
      case isTrue => rfl
      case isFalse =>
        split
        · rfl
        · split <;> rfl
    rw [hindex]
    exact h.put pos _ _
  exact (inBlock_ne_changed hplace).map_left fun _ _ hr => hr

/-- The second pass over the blocks stores them. -/
theorem matches_store {size : Size} (entries : List (Chunk × Json)) {p : Pass}
    (hp : p.store.HoldsPlaced registry.airRuntimeId size []) :
    Matches (· ≠ changed) (Stores registry size p)
      (visitEntries registry parseNbt version settings true entries p)
      ((entries.mapM (blockOf settings.palette)).bind fun blocks =>
        blocks.mapM (placed registry (originOf settings p.bounds))) := by
  have hloop := @Matches.foldlM_mapM _ _ _ _ (· ≠ changed) (Stores registry size p)
    (visitEntry registry parseNbt version settings true)
    (fun entry => (blockOf settings.palette entry).bind (placed registry (originOf settings p.bounds))) entries
    (fun q placements hq entry _ => hq.visit entry) p [] ⟨rfl, rfl, hp⟩
  rw [mapM_bind] at hloop
  exact hloop

end Visits

/-! ## The structure -/

section Structure

variable {registry : Registry} {parseNbt : List Char → Except String Payload} {version : ChunkVersion}

/-- A structure that holds the blocks of a finished document. -/
structure ChunksReadFrom (registry : Registry) (result : ChunkStructure) (found : Size × List Placement) :
    Prop where
  size : result.store.originalSize = found.1
  content : ∀ cell, result.store.content registry.airRuntimeId cell =
    lastPlaced registry.airRuntimeId found.2 cell
  counted : result.nonAirBlocks = result.store.nonAirBlocks

theorem unchanged_boundsSize (bounds : Option Bounds) : Unchanged (boundsSize bounds) := by
  cases bounds with
  | none => exact unchanged_error (by decide)
  | some bounds =>
    rw [boundsSize]
    split
    · exact unchanged_error (by decide)
    · exact unchanged_ok _

/-- A store is made ready for the size of the structure. -/
theorem matches_extent (settings : Settings) (blocks : List ChunkBlock) :
    Matches (· ≠ changed)
      (fun store extent => store.HoldsPlaced registry.airRuntimeId extent.1 [] ∧
        extent.2 = originOf settings ((blocks.map ChunkBlock.world).foldl addBounds none))
      (sizedStore settings ((blocks.map ChunkBlock.world).foldl addBounds none) {})
      (extentOf settings blocks) := by
  rw [sizedStore, extentOf, originOf]
  cases settings.declared with
  | some declared => exact .ok ⟨SparseBlockStore.holdsPlaced_setSize _ declared.2 true, rfl⟩
  | none =>
    refine (unchanged_boundsSize _).matches.map fun size size' hsame => ?_
    subst hsame
    exact ⟨SparseBlockStore.holdsPlaced_setSize _ size false, rfl⟩

theorem placeBlocks_eq (settings : Settings) (blocks : List ChunkBlock) :
    placeBlocks registry settings blocks =
      if blocks = [] then none
      else (extentOf settings blocks).bind fun extent =>
        (blocks.mapM (placed registry extent.2)).bind fun placements => some (extent.1, placements) := by
  rw [placeBlocks]
  cases extentOf settings blocks with
  | none => split <;> rfl
  | some extent =>
    rw [Option.filter_some]
    by_cases hempty : blocks = []
    · rw [if_neg (by simp [hempty]), if_pos hempty]
      rfl
    · rw [if_pos (decide_eq_true hempty), if_neg hempty]
      rfl

variable {document : Json} {found : Json × Json × List (List (List Char × Json) × Chunk)}

/-- The second pass over the blocks of a document. -/
theorem matches_stored (settings : Settings) (hfound : layoutFound document = some found)
    {blocks : List ChunkBlock}
    (hblocks : (chunkEntries (found.2.2.map Prod.snd)).mapM (blockOf settings.palette) = some blocks)
    {size : Size} {p : Pass} (hp : p.store.HoldsPlaced registry.airRuntimeId size []) :
    Matches (· ≠ changed)
      (fun q placements => q.blockIndex = blocks.length ∧
        q.store.HoldsPlaced registry.airRuntimeId size placements)
      (streamEntries registry parseNbt version settings (found.2.2.map metadataOf) true document p)
      (blocks.mapM (placed registry (originOf settings p.bounds))) := by
  have hvisit := @matches_store registry parseNbt version settings size
    (chunkEntries (found.2.2.map Prod.snd)) { p with blockIndex := 0 } hp
  rw [hblocks, Option.bind_some] at hvisit
  rw [streamEntries_found hfound]
  cases hplacements : blocks.mapM (placed registry (originOf settings p.bounds)) with
  | none =>
    rw [hplacements] at hvisit
    obtain ⟨error, herror, hchanged⟩ := hvisit.of_none
    rw [herror]
    exact .error hchanged
  | some placements =>
    rw [hplacements] at hvisit
    obtain ⟨q, hq, hstores⟩ := hvisit.of_some
    have hlength : placements.length = blocks.length := (forall₂_of_mapM_some hplacements).length_eq.symm
    rw [hq, ← hlength]
    exact .ok ⟨hstores.blockIndex.trans (Nat.zero_add _), hstores.store⟩

/-- Both passes over the blocks of a document. -/
theorem matches_readEntries (settings : Settings) (hfound : layoutFound document = some found) :
    Matches (· ≠ changed) (ChunksReadFrom registry)
      (readEntries registry parseNbt version settings (found.2.2.map metadataOf) document)
      (((chunkEntries (found.2.2.map Prod.snd)).mapM (blockOf settings.palette)).bind
        (placeBlocks registry settings)) := by
  have hfirst := @matches_bounds registry parseNbt version settings (chunkEntries (found.2.2.map Prod.snd))
    { ({} : Pass) with blockIndex := 0 }
  rw [readEntries, streamEntries_found hfound]
  cases hall : (chunkEntries (found.2.2.map Prod.snd)).mapM (blockOf settings.palette) with
  | none =>
    rw [hall] at hfirst
    obtain ⟨error, herror, hchanged⟩ := hfirst.of_none
    rw [herror]
    exact .error hchanged
  | some blocks =>
    rw [hall] at hfirst
    obtain ⟨q, hq, hfirst⟩ := hfirst.of_some
    have hcount : (q.behind found.2.2.length).blockIndex = blocks.length := by
      rw [hfirst]
      exact Nat.zero_add _
    have hbounds : (q.behind found.2.2.length).bounds = (blocks.map ChunkBlock.world).foldl addBounds none := by
      rw [hfirst]
      rfl
    have hstore : (q.behind found.2.2.length).store = {} := by
      rw [hfirst]
      rfl
    rw [hq, Except.map, ok_bind, hcount, hbounds, hstore, Option.bind_some, placeBlocks_eq]
    by_cases hempty : blocks = []
    · rw [if_pos (by rw [hempty]; rfl), if_pos hempty]
      exact .error (by decide)
    · rw [if_neg (fun h => hempty (List.length_eq_zero_iff.mp h)), if_neg hempty]
      refine (@matches_extent registry settings blocks).bind fun store extent hextent => ?_
      obtain ⟨hready, horigin⟩ := hextent
      rw [horigin]
      refine (matches_stored settings hfound hall hready).bind fun r placements hr => ?_
      obtain ⟨hsame, hholds⟩ := hr
      rw [if_neg (not_not_intro hsame)]
      exact .ok ⟨hholds.originalSize, hholds.content, rfl⟩

/-- The passes over the events of a document do what reading the finished document does. -/
theorem matches_readChunkPasses (document : Json) :
    Matches (· ≠ changed) (ChunksReadFrom registry) (readChunkPasses registry parseNbt version document)
      (readDocument registry version document.normal) := by
  have hlayout := matches_layout document
  have hpasses : readChunkPasses registry parseNbt version document =
      (parseWith metadataCallback document { outer := {}, acc := {} } >>= layoutOf) >>= fun layout =>
        settingsOf version layout.header layout.rawPalette >>= fun settings =>
          readEntries registry parseNbt version settings layout.chunks document := by
    rw [readChunkPasses]
    cases parseWith metadataCallback document { outer := {}, acc := {} } <;> rfl
  rw [hpasses, readDocument_normal]
  cases hfound : layoutFound document with
  | none =>
    rw [hfound] at hlayout
    obtain ⟨error, herror, hchanged⟩ := hlayout.of_none
    rw [herror]
    exact .error hchanged
  | some found =>
    rw [hfound] at hlayout
    obtain ⟨layout, hok, rfl⟩ := hlayout.of_some
    rw [hok]
    refine (unchanged_settingsOf version found.1 found.2.1).matches.bind fun settings settings' hsame => ?_
    subst hsame
    exact matches_readEntries settings hfound

end Structure

/-! ## Reading a document -/

/-- The chunks of a finished document. -/
def chunksOf (document : Json) : Option (List Chunk) :=
  match document with
  | .array (_ :: _ :: items) => items.mapM chunkOf
  | _ => none

theorem chunksOf_normal {document : Json} {found : Json × Json × List (List (List Char × Json) × Chunk)}
    (h : layoutFound document = some found) : chunksOf document.normal = some (found.2.2.map Prod.snd) := by
  cases document with
  | array items =>
    rcases items with _ | ⟨header, _ | ⟨rawPalette, items⟩⟩
    · cases h
    · cases h
    · obtain ⟨records, hrecords, rfl⟩ := Option.map_eq_some_iff.mp h
      rw [Json.normal, normalItems_eq, List.map_cons, List.map_cons, chunksOf, mapM_chunkOf_normal,
        (Option.filter_eq_some_iff.mp hrecords).1]
      rfl
  | null | boolean | unsigned | integer | float | string | object => cases h

/-- GangBan documents of the versions 3 and 4 are read as if they were parsed as a whole. The passes over
the events accept a document exactly if reading the finished document does, which holds the last member of
a name, and leave its size and its blocks, of which the last one placed in a cell counts. Both passes over
the blocks visit the entries of the chunks of the finished document in their order, and no document is said
to have changed. -/
theorem readChunks_document (registry : Registry) (parseNbt : List Char → Except String Payload)
    (version : ChunkVersion) (document : Json) :
    ((∃ result, readChunks registry parseNbt version document = .ok result) ↔
      (readDocument registry version document.normal).isSome = true) ∧
    (∀ result, readChunks registry parseNbt version document = .ok result → ∃ found,
      readDocument registry version document.normal = some found ∧ ChunksReadFrom registry result found) ∧
    (∀ layout, (parseWith metadataCallback document { outer := {}, acc := {} } >>= layoutOf) = .ok layout →
      ∃ chunks, chunksOf document.normal = some chunks ∧ ∀ settings materialize p,
        streamEntries registry parseNbt version settings layout.chunks materialize document p =
          (visitEntries registry parseNbt version settings materialize (chunkEntries chunks)
            { p with blockIndex := 0 }).map fun p => p.behind chunks.length) ∧
    readChunks registry parseNbt version document ≠
      .error ("parse " ++ version.name ++ " failed: " ++ "GangBan chunk stream changed while parsing") := by
  have hprefixed : Matches (· ≠ "parse " ++ version.name ++ " failed: " ++ changed) (ChunksReadFrom registry)
      (readChunks registry parseNbt version document) (readDocument registry version document.normal) :=
    (matches_readChunkPasses document).mapError fun error herror h =>
      herror (String.append_right_inj _ |>.mp h)
  refine ⟨hprefixed.isSome, fun result hresult => ?_, fun layout hlayout => ?_, fun herror => ?_⟩
  · rw [hresult] at hprefixed
    exact hprefixed.of_ok
  · have hmatches := matches_layout document
    rw [hlayout] at hmatches
    obtain ⟨found, hfound, rfl⟩ := hmatches.of_ok
    refine ⟨found.2.2.map Prod.snd, chunksOf_normal hfound, fun settings materialize p => ?_⟩
    rw [List.length_map]
    exact streamEntries_found hfound p
  · rw [herror] at hprefixed
    exact hprefixed.of_error rfl

end GangBan

end WaterStructure
