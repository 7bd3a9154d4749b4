import WaterStructure.Formats.TimeBuilderPasses

/-!
# Streaming a TimeBuilder document

The four passes over the events of a document do what reading the finished document does: they accept the
same documents, and leave the same structure.
-/

namespace WaterStructure

namespace TimeBuilder

open FuHong (Bounds BoundsOf Registry addBounds)
open GangBan (boundsOf_foldl minimumOf)
open Json Json.Records LastValue NestedLoop StatefulRun
open NbtTag

variable {registry : Registry}

/-! ## The structure -/

theorem replay_bounds (start : Positions) (placed : List Placement) :
    (replay registry false start placed).bounds = (placed.map Prod.fst).foldl addBounds start.bounds ∧
      (replay registry false start placed).store = start.store := by
  induction placed using List.reverseRecOn with
  | nil => exact ⟨rfl, rfl⟩
  | append_singleton placed placement ih =>
    rw [replay_append, List.map_append, List.foldl_append, ← ih.1]
    exact ⟨rfl, ih.2⟩

theorem replay_store {size : Size} {start : Positions}
    (hstart : start.store.HoldsPlaced registry.airRuntimeId size []) (placed : List Placement) :
    (replay registry true start placed).bounds = start.bounds ∧
      (replay registry true start placed).store.HoldsPlaced registry.airRuntimeId size
        (placed.map fun placement => (placement.1.sub (minimumOf start.bounds), placement.2)) := by
  induction placed using List.reverseRecOn with
  | nil => exact ⟨rfl, hstart⟩
  | append_singleton placed placement ih =>
    obtain ⟨hbounds, hholds⟩ := ih
    rw [replay_append, List.map_append]
    refine ⟨hbounds, ?_⟩
    have hput := hholds.put (placement.1.sub (minimumOf start.bounds)) placement.2
    rw [← hbounds] at hput ⊢
    exact hput

theorem sizeOf_ne_changed {bounds : Option Bounds} {error : String} (h : sizeOf bounds = .error error) :
    error ≠ changed := by
  cases bounds with
  | none =>
    cases h
    decide
  | some bounds =>
    rw [sizeOf] at h
    cases hsize : bounds.size "TimeBuilder" with
    | error first =>
      rw [hsize] at h
      cases h
      rw [Bounds.size] at hsize
      split at hsize
      · cases hsize
        decide
      · cases hsize
    | ok size =>
      rw [hsize, ok_bind] at h
      split at h
      · cases h
        decide
      · cases h

/-- The size of some blocks holds them, without their minimum. -/
theorem contains_of_sizeOf {cells : List BlockPos} {size : Size}
    (h : sizeOf (cells.foldl addBounds none) = .ok size) {pos : BlockPos} (hpos : pos ∈ cells) :
    size.Contains (pos.sub (minimumOf (cells.foldl addBounds none))) := by
  have hbounds : BoundsOf cells (cells.foldl addBounds none) := by
    have hstart : BoundsOf [] (none : Option Bounds) := rfl
    exact boundsOf_foldl hstart
  cases hfound : cells.foldl addBounds none with
  | none =>
    rw [hfound] at hbounds
    rw [show cells = [] from hbounds] at hpos
    cases hpos
  | some bounds =>
    rw [hfound] at hbounds h
    obtain ⟨found, hsize, h⟩ := exists_of_bind_ok h
    obtain ⟨-, h⟩ := else_of_ok h
    cases h
    exact Bounds.Of.contains hbounds hsize hpos

/-- A structure that holds the blocks of a finished document. -/
structure ReadFrom (registry : Registry) (result : TimeBuilderStructure) (found : Size × List Placement) :
    Prop where
  size : result.store.originalSize = found.1
  content : ∀ cell, result.store.content registry.airRuntimeId cell =
    lastPlaced registry.airRuntimeId found.2 cell
  inBounds : result.store.InBounds registry.airRuntimeId
  counted : result.nonAirBlocks = result.store.nonAirBlocks

/-- Both passes over the positions of a document. -/
theorem matches_readPositions {members : List (List Char × Json)}
    {records : List (List (List Char × Json) × Entry)} {cache : PaletteCache}
    (hlast : lastMember blockKey members = some (.array ((records.map Prod.fst).map Json.object)))
    (hrecords : ∀ record ∈ records, memberEntry record.1 = some record.2)
    (hcache : records ≠ [] → cache.keys ≠ []) :
    Matches (· ≠ changed) (ReadFrom registry)
      (readPositions registry (records.map (finished registry)) cache (countMembers blockKey members)
        (.object members))
      (((records.map Prod.snd).foldlM (addEntry registry) []).bind fun placed =>
        if placed = [] then none else normalize placed) := by
  have hfirst := @matches_streamPositions registry _ false members records hlast hrecords rfl { store := {} }
  rw [readPositions]
  cases hplaced : (records.map Prod.snd).foldlM (addEntry registry) [] with
  | none =>
    rw [hplaced] at hfirst
    obtain ⟨error, herror, hchanged⟩ := hfirst.of_none
    rw [herror]
    exact .error hchanged
  | some placed =>
    rw [hplaced] at hfirst
    obtain ⟨valid, hvalid, hfirst⟩ := hfirst.of_some
    have hcount : valid.validPositionCount = placed.length := by
      rw [hfirst.eq]
      exact (replay_count _ placed).trans (Nat.zero_add _)
    have hbounds : valid.bounds = (placed.map Prod.fst).foldl addBounds none := by
      rw [hfirst.eq]
      exact (replay_bounds _ placed).1
    have hstore : valid.store = {} := by
      rw [hfirst.eq]
      exact (replay_bounds _ placed).2
    rw [hvalid, ok_bind, Option.bind_some]
    by_cases hempty : placed = []
    · have hzero : valid.validPositionCount = 0 := by
        rw [hcount, hempty]
        rfl
      rw [if_pos (.inl hzero), if_pos hempty]
      exact .error (by decide)
    have hnonempty : records ≠ [] := by
      rintro rfl
      cases hplaced
      exact hempty rfl
    have hsome : ¬ (valid.validPositionCount = 0 ∨ cache.keys = []) := by
      rw [hcount]
      exact fun h => h.elim (fun h => hempty (List.length_eq_zero_iff.mp h)) (hcache hnonempty)
    rw [if_neg hsome, if_neg hempty, normalize, ← hbounds]
    cases hsize : sizeOf valid.bounds with
    | error error => exact .error (sizeOf_ne_changed hsize)
    | ok size =>
      have hsecond := @matches_streamPositions registry _ true members records hlast hrecords rfl
        { valid with store := valid.store.setSize size }
      rw [hplaced] at hsecond
      obtain ⟨materialized, hmaterialized, hsecond⟩ := hsecond.of_some
      have hsame : materialized.validPositionCount = valid.validPositionCount := by
        rw [hcount, hsecond.eq]
        exact (replay_count _ placed).trans (Nat.zero_add _)
      rw [ok_bind, hmaterialized, ok_bind, if_neg (not_not_intro hsame)]
      refine .ok ?_
      have hholds := (@replay_store registry size { valid with
          entryIndex := 0, validPositionCount := 0, store := valid.store.setSize size }
        (by rw [hstore]; exact SparseBlockStore.holdsPlaced_setSize registry.airRuntimeId size false) placed).2
      have hresult : materialized.store = (replay registry true { valid with
          entryIndex := 0, validPositionCount := 0, store := valid.store.setSize size } placed).store := by
        rw [hsecond.eq]
      rw [← hresult] at hholds
      rw [hbounds] at hsize
      refine ⟨hholds.originalSize, hholds.content, hholds.inBounds fun placement hplacement => ?_, rfl⟩
      obtain ⟨source, hsource, rfl⟩ := List.mem_map.mp hplacement
      dsimp only
      rw [hbounds]
      exact contains_of_sizeOf hsize (List.mem_map_of_mem hsource)

/-! ## The document -/

theorem entriesOf_normal (members : List (List Char × Json)) : entriesOf (object members).normal =
    (blockItems members).bind fun items => (items.mapM members?).bind fun records =>
      records.mapM memberEntry := by
  rw [entriesOf, blockItems, member?_normal_last members "block"]
  by_cases hversion : isTimeBuilder (object members).normal = true
  · rw [if_pos hversion]
    change _ = ((lastMember "block".toList members).bind items?).bind _
    cases lastMember "block".toList members with
    | none => rfl
    | some value =>
      rw [Option.map_some, Option.filter_some_pos (p := fun _ => isTimeBuilder (object members).normal) hversion]
      change (value.normal.items?.bind fun items => items.mapM entryOf) = value.items?.bind _
      rw [items?_normal]
      cases value.items? with
      | none => rfl
      | some items => exact mapM_entryOf_normal items
  · rw [if_neg hversion, Option.filter_eq_none_iff.mpr fun _ _ => hversion]
    rfl

theorem metadataMember_rootIsObject (event : ParseEvent) (parsed : Json) (m : Metadata) :
    (metadataMember event parsed m).rootIsObject = m.rootIsObject := by
  rw [metadataMember]
  split
  case isTrue =>
    split
    · rfl
    · split <;> rfl
  case isFalse => split <;> rfl

theorem preserves_metadataCallback :
    Json.Preserves metadataCallback (· ≠ changed) fun m => m.rootIsObject = false := by
  intro depth event parsed m hdepth hm
  rw [metadataCallback, if_neg (by omega)]
  split_ifs
  · cases parsed with
    | string text => exact .ok hm
    | null | boolean | unsigned | integer | float | array | object => exact .error (by decide)
  · exact .ok hm
  · exact .ok ((metadataMember_rootIsObject event parsed m).trans hm)

/-- A document that is no object is refused. -/
theorem readPasses_other {document : Json} (h : document.members? = none) :
    ∃ error, readPasses registry document = .error error ∧ error ≠ changed := by
  have hroot (event : ParseEvent) (parsed : Json) (m : Metadata)
      (hevent : event = firstEvent document ∨ event = .arrayEnd ∨ event = .objectEnd)
      (hm : m.rootIsObject = false) :
      Yields (· ≠ changed) (fun m => m.rootIsObject = false) (metadataCallback 0 event parsed m) := by
    have hstart : event ≠ .objectStart := by
      rcases hevent with rfl | rfl | rfl
      · cases document with
        | object members => cases h
        | null | boolean | unsigned | integer | float | string | array => exact fun h => by cases h
      · exact fun h => by cases h
      · exact fun h => by cases h
    rw [metadataCallback, if_neg fun h => hstart h.2, if_neg (by simp), if_pos (by decide)]
    exact .ok hm
  have hparse := preserves_metadataCallback.parseWith hroot (s := {}) rfl
  rw [readPasses]
  generalize parseWith metadataCallback document {} = result at hparse ⊢
  cases result with
  | error error =>
    cases hparse with
    | error h => exact ⟨error, rfl, h⟩
  | ok m =>
    cases hparse with
    | ok hm =>
      refine ⟨"unsupported TimeBuilder version", ?_, by decide⟩
      have hcheck : checkMetadata m = .error "unsupported TimeBuilder version" := by
        rw [checkMetadata]
        cases m.version with
        | string version => exact if_pos (.inl (Bool.eq_false_iff.mp hm))
        | null | boolean | unsigned | integer | float | array | object => rfl
      rw [ok_bind, hcheck]
      rfl

/-- The passes over the events of an object do what reading the finished object does. -/
theorem matches_readPasses (members : List (List Char × Json)) :
    Matches (· ≠ changed) (ReadFrom registry) (readPasses registry (.object members))
      (readDocument registry (object members).normal) := by
  have hstage : readDocument registry (object members).normal =
      (blockItems members).bind fun items => (items.mapM members?).bind fun records =>
        (records.mapM memberEntry).bind fun entries => (entries.foldlM (addEntry registry) []).bind fun placed =>
          if placed = [] then none else normalize placed := by
    rw [readDocument, entriesOf_normal]
    cases blockItems members with
    | none => rfl
    | some items =>
      rw [Option.bind_some, Option.bind_some]
      cases items.mapM members? <;> rfl
  rw [readPasses, parse_metadata, ok_bind, hstage]
  refine (matches_checkMetadata members).bind fun n items hblock => ?_
  obtain ⟨rfl, hlast⟩ := hblock
  have hparse := @parseWith_selected _ blockKey (countMembers blockKey members) entriesHooks otherMember
    notAnEntry (fun o => others_entries o) refuses_entries members rfl {}
  rw [hlast, Option.elim_some] at hparse
  have hentries := matches_entries items
  rw [← hparse] at hentries
  rw [entriesCallback]
  generalize parseWith (selectedCallback blockKey (countMembers blockKey members) entriesHooks)
    (.object members) { outer := {}, acc := {} } = result at hentries ⊢
  cases result with
  | error error =>
    generalize items.mapM members? = records at hentries ⊢
    cases hentries with
    | error h => exact .error h
  | ok c =>
    obtain ⟨records, hrecords, hc⟩ := hentries.of_ok
    rw [hrecords, ok_bind, Option.bind_some, hc]
    have hresolve := @matches_resolve registry records
    cases hfound : records.mapM fun members => (memberEntry members).map fun entry => (members, entry) with
    | none =>
      rw [hfound] at hresolve
      obtain ⟨error, herror, hchanged⟩ := hresolve.of_none
      rw [herror, entries_of_mapM_none hfound]
      exact .error hchanged
    | some found =>
      rw [hfound] at hresolve
      obtain ⟨s, hs, hresolved⟩ := hresolve.of_some
      obtain ⟨hfirst, hsecond, hall⟩ := entries_of_mapM hfound
      rw [hs, hsecond, ok_bind, Option.bind_some, hresolved.entries]
      refine matches_readPositions ?_ hall hresolved.asked
      rw [hfirst, ← records_of_mapM hrecords]
      exact hlast

/-- TimeBuilder documents are read as if they were parsed as a whole. The passes over the events accept a
document exactly if reading the finished document does, which holds the last member of a name, and leave
its size and its blocks, of which the last one placed in a cell counts. All blocks are inside of the size,
and no document is said to have changed. -/
theorem read_timeBuilder (registry : Registry) (document : Json) :
    ((∃ result, read registry document = .ok result) ↔
      (readDocument registry document.normal).isSome = true) ∧
    (∀ result, read registry document = .ok result → ∃ found,
      readDocument registry document.normal = some found ∧ ReadFrom registry result found) ∧
    read registry document ≠ .error "parse TimeBuilderV1 failed: TimeBuilder changed while parsing" := by
  have hread : Matches (· ≠ changed) (ReadFrom registry) (readPasses registry document)
      (readDocument registry document.normal) := by
    have hother := @readPasses_other registry document
    cases document with
    | object members => exact matches_readPasses members
    | null | boolean | unsigned | integer | float | string | array =>
      obtain ⟨error, herror, hchanged⟩ := hother rfl
      rw [herror]
      exact .error hchanged
  have hprefixed : Matches (· ≠ "parse TimeBuilderV1 failed: " ++ changed) (ReadFrom registry)
      (read registry document) (readDocument registry document.normal) :=
    hread.mapError fun error herror h => herror (String.append_right_inj _ |>.mp h)
  refine ⟨hprefixed.isSome, fun result hresult => ?_, fun herror => ?_⟩
  · rw [hresult] at hprefixed
    exact hprefixed.of_ok
  · rw [herror] at hprefixed
    exact hprefixed.of_error rfl

end TimeBuilder

end WaterStructure
