import WaterStructure.Formats.FuHong

/-!
# The passes over a FuHong document as loops

What the events of a document do to the variables of a pass is what plain loops over the members of the
root, the chunks, their members and their tuples do. A tuple is taken when it is complete; events of
members that a pass does not know change nothing but the key that was read last.
-/

namespace WaterStructure

namespace FuHong

open Json NestedLoop StatefulRun

/-- The variables of a pass while it reads the members of a chunk. -/
structure ChunkState (α : Type) where
  hasBlockList : Bool
  entryIndex : ℕ
  acc : α

section Chunks

variable {α : Type} (hooks : Hooks α)

def Hooks.readTuple (chunkIndex : ℕ) (s : ChunkState α) (tuple : Json) :
    Except String (ChunkState α) := do
  let acc ← hooks.tuple chunkIndex s.entryIndex tuple.normal s.acc
  return { s with entryIndex := s.entryIndex + 1, acc }

def Hooks.readMember (chunkIndex : ℕ) (s : ChunkState α) (member : List Char × Json) :
    Except String (ChunkState α) :=
  if member.1 = "block".toList then
    match member.2 with
    | .array tuples => tuples.foldlM (hooks.readTuple chunkIndex) { s with hasBlockList := true }
    | _ => blockListMissing chunkIndex
  else do
    let acc ← hooks.member member.1 (firstEvent member.2) (firstParsed member.2) s.acc
    return { s with acc }

/-- The loop body over the items of `FuHongBuild`, with the number of the chunk. -/
def Hooks.readChunk (s : ℕ × α) : Json → Except String (ℕ × α)
  | .object members => do
    let acc ← hooks.startChunk s.1 s.2
    let chunk ← members.foldlM (hooks.readMember s.1) ⟨false, 0, acc⟩
    let acc ← hooks.finishChunk s.1 chunk.hasBlockList chunk.acc
    return (s.1 + 1, acc)
  | _ => blockListMissing s.1

/-- Where a pass stands inside of `FuHongBuild`. -/
structure InBuild (c : Cursor α) : Prop where
  root : c.rootIsObject = true
  build : c.inBuild = true
  palette : c.inPalette = false
  rootKey : c.rootKey = "FuHongBuild".toList

/-- The variables inside of a chunk, between two of its members. -/
structure AtMember (chunkIndex : ℕ) (c : Cursor α) (s : ChunkState α) : Prop extends InBuild c where
  chunk : c.inChunk = true
  list : c.inBlockList = false
  index : c.chunkIndex = chunkIndex
  has : c.chunkHasBlockList = s.hasBlockList
  entry : c.entryIndex = s.entryIndex
  acc : c.acc = s.acc

/-- The variables between two tuples. -/
structure AtTuple (chunkIndex : ℕ) (c : Cursor α) (s : ChunkState α) : Prop extends InBuild c where
  chunk : c.inChunk = true
  list : c.inBlockList = true
  key : c.chunkKey = "block".toList
  index : c.chunkIndex = chunkIndex
  has : c.chunkHasBlockList = s.hasBlockList
  entry : c.entryIndex = s.entryIndex
  acc : c.acc = s.acc

/-- The variables between two chunks. -/
structure AtChunk (c : Cursor α) (s : ℕ × α) : Prop extends InBuild c where
  index : c.chunkIndex = s.1
  acc : c.acc = s.2

/-- A callback that does inside of `FuHongBuild` what the hooks say. -/
def Follows (callback : Callback (Cursor α)) : Prop :=
  ∀ depth event parsed c, 2 ≤ depth → InBuild c →
    callback depth event parsed c = buildEvent hooks depth event parsed c

variable {hooks} {callback : Callback (Cursor α)} {c : Cursor α} {chunkIndex : ℕ} {s : ChunkState α}

theorem Follows.keeps_tuple (h : Follows hooks callback) (hc : InBuild c) (hchunk : c.inChunk = true) :
    Keeps callback 4 c := by
  intro depth event parsed hdepth
  rw [h depth event parsed c (by omega) hc, buildEvent, if_neg (by omega), if_neg (by simp [hchunk]),
    if_neg (by omega), if_neg (by omega)]

theorem Follows.parseTuple (h : Follows hooks callback) (hs : AtTuple chunkIndex c s) (tuple : Json) :
    Alike (fun r t => AtTuple chunkIndex r.2 t) (parseValue callback 4 true true tuple c)
      (hooks.readTuple chunkIndex s tuple) := by
  have hevent (event : ParseEvent) (parsed : Json) :
      callback 4 event parsed c = tupleEvent hooks event parsed c := by
    rw [h 4 event parsed c (by omega) hs.toInBuild, buildEvent, if_neg (by omega),
      if_neg (by simp [hs.chunk]), if_neg (by omega), if_pos ⟨hs.list, rfl⟩]
  have htake := @parseValue_taken _ callback tuple 4 c
    (fun value c => (hooks.tuple c.chunkIndex c.entryIndex value c.acc).map fun acc =>
      { c with entryIndex := c.entryIndex + 1, acc }) (h.keeps_tuple hs.toInBuild hs.chunk) (by
        rintro event parsed (rfl | rfl)
        · exact hevent _ _
        · exact hevent _ _) (by
        rintro event parsed (rfl | rfl | rfl) <;>
        · rw [hevent, tupleEvent, if_pos (by decide)]
          cases hooks.tuple c.chunkIndex c.entryIndex parsed c.acc <;> rfl)
  rw [htake, Hooks.readTuple, hs.index, hs.entry, hs.acc]
  cases hooks.tuple chunkIndex s.entryIndex tuple.normal s.acc with
  | error error => exact .error error
  | ok acc =>
    exact .ok { hs with index := rfl, entry := rfl, acc := rfl }

theorem Follows.memberEvent (h : Follows hooks callback) (hc : InBuild c) (hchunk : c.inChunk = true)
    (event : ParseEvent) (parsed : Json) : callback 3 event parsed c = memberEvent hooks event parsed c := by
  rw [h 3 event parsed c (by omega) hc, buildEvent, if_neg (by omega), if_neg (by simp [hchunk]),
    if_pos rfl]

/-- A value that is no array in the place of the block list. -/
theorem Follows.parseBlock_missing (h : Follows hooks callback) (hs : AtMember chunkIndex c s)
    (hkey : c.chunkKey = "block".toList) {value : Json} (hvalue : ∀ tuples, value ≠ .array tuples) :
    parseValue callback 3 true true value c = blockListMissing chunkIndex := by
  have hevent (event : ParseEvent) (hevent : event = .objectStart ∨ event = .value) (parsed : Json) :
      callback 3 event parsed c = blockListMissing chunkIndex := by
    rw [h.memberEvent hs.toInBuild hs.chunk]
    rcases hevent with rfl | rfl <;> simp [FuHong.memberEvent, blockListEvent, hkey, hs.index]
  cases value with
  | array tuples => exact absurd rfl (hvalue tuples)
  | object members =>
    rw [parseValue, hevent _ (.inl rfl)]
    rfl
  | null | boolean | unsigned | integer | float | string =>
    rw [parseValue, parseScalar, if_pos rfl, hevent _ (.inr rfl)]
    · rfl
    all_goals rintro _ ⟨⟩

theorem Follows.parseBlock (h : Follows hooks callback) (hs : AtMember chunkIndex c s)
    (hkey : c.chunkKey = "block".toList) (value : Json) :
    Alike (fun r t => AtMember chunkIndex r.2 t) (parseValue callback 3 true true value c)
      (hooks.readMember chunkIndex s ("block".toList, value)) := by
  rw [Hooks.readMember, if_pos rfl]
  cases value with
  | array tuples =>
    obtain ⟨inside, hinside⟩ : ∃ inside : Cursor α,
        inside = { c with chunkHasBlockList := true, inBlockList := true } := ⟨_, rfl⟩
    have hstart : callback 3 .arrayStart .null c = .ok (true, inside) := by
      rw [h.memberEvent hs.toInBuild hs.chunk, FuHong.memberEvent, if_neg (by decide), if_pos hkey, hinside]
      rfl
    have hat : AtTuple chunkIndex inside { s with hasBlockList := true } := by
      subst hinside
      exact { hs with list := rfl, key := hkey, has := rfl }
    have hitems := @parseItems_alike _ callback _ (AtTuple chunkIndex) 4 true true
      (hooks.readTuple chunkIndex) tuples (fun tuple _ c s hs => h.parseTuple hs tuple) [] inside _ hat
    rw [parseValue, hstart, ok_bind]
    refine hitems.bind_left fun r t ht => ?_
    have hend : callback 3 .arrayEnd (.array r.1) r.2 = .ok (false, { r.2 with inBlockList := false }) := by
      rw [h.memberEvent ht.toInBuild ht.chunk, FuHong.memberEvent, if_neg (by decide), if_pos ht.key]
      rfl
    dsimp only
    rw [parseEnd, Bool.and_self, if_pos rfl, hend]
    exact .ok { ht with list := rfl }
  | null | boolean | unsigned | integer | float | string | object =>
    rw [h.parseBlock_missing hs hkey (by rintro _ ⟨⟩)]
    exact .error _

theorem firstEvent_ne_key (value : Json) : firstEvent value ≠ .key := by
  cases value <;> exact nofun

theorem Follows.idle_member (h : Follows hooks callback) (hc : InBuild c) (hchunk : c.inChunk = true)
    (hlist : c.inBlockList = false) : Idle callback 3 c := by
  intro depth event parsed hdepth
  refine ⟨true, ?_⟩
  rw [h depth event parsed c (by omega) hc, buildEvent, if_neg (by omega), if_neg (by simp [hchunk]),
    if_neg (by omega), if_neg (by simp [hlist])]

theorem Follows.parseOther (h : Follows hooks callback) (hs : AtMember chunkIndex c s)
    (hkey : c.chunkKey ≠ "block".toList) (placed : Bool) (value : Json) :
    Alike (fun r t => AtMember chunkIndex r.2 t) (parseValue callback 3 true placed value c)
      (hooks.readMember chunkIndex s (c.chunkKey, value)) := by
  have hafter (acc : α) : AtMember chunkIndex { c with acc } { s with acc } := { hs with acc := rfl }
  obtain ⟨result, hresult⟩ : ∃ result,
      hooks.member c.chunkKey (firstEvent value) (firstParsed value) s.acc = result := ⟨_, rfl⟩
  have hfirst : callback 3 (firstEvent value) (firstParsed value) c =
      (result.map fun acc => { c with acc }).map fun t => (false, t) := by
    rw [h.memberEvent hs.toInBuild hs.chunk]
    unfold FuHong.memberEvent
    rw [if_neg (firstEvent_ne_key value), if_neg hkey, hs.acc, hresult]
    cases result <;> rfl
  have hidle (t : Cursor α) (ht : (result.map fun acc => { c with acc }) = .ok t) : Idle callback 3 t := by
    cases result with
    | error error => cases ht
    | ok acc =>
      cases ht
      exact h.idle_member (hafter acc).toInBuild hs.chunk hs.list
  rw [Hooks.readMember, if_neg hkey, parseValue_dropped value placed hfirst hidle, hresult]
  cases result with
  | error error => exact .error error
  | ok acc => exact .ok (hafter acc)

theorem Follows.parseMember (h : Follows hooks callback) (hs : AtMember chunkIndex c s)
    (member : List Char × Json) (kept : List (List Char × Json)) :
    Alike (fun r t => AtMember chunkIndex r.2 t) (parseMember callback 3 true true member kept c)
      (hooks.readMember chunkIndex s member) := by
  obtain ⟨name, value⟩ := member
  have hname : callback 3 .key (.string name) c = .ok (true, { c with chunkKey := name }) := by
    rw [h.memberEvent hs.toInBuild hs.chunk]
    rfl
  have hnamed : AtMember chunkIndex { c with chunkKey := name } s := { hs with }
  have hvalue : Alike (fun r t => AtMember chunkIndex r.2 t)
      (parseValue callback 3 true true value { c with chunkKey := name })
      (hooks.readMember chunkIndex s (name, value)) := by
    by_cases hblock : name = "block".toList
    · subst hblock
      exact h.parseBlock hnamed rfl value
    · exact h.parseOther hnamed hblock true value
  rw [Json.parseMember, hname, ok_bind]
  exact hvalue.bind_left fun r t hr => .ok hr

/-- The events of a chunk do what `readChunk` does. -/
theorem Follows.parseChunk (h : Follows hooks callback) {s : ℕ × α} (hs : AtChunk c s) (chunk : Json) :
    Alike (fun r t => AtChunk r.2 t) (parseValue callback 2 true true chunk c)
      (hooks.readChunk s chunk) := by
  have hevent (c : Cursor α) (hc : InBuild c) (event : ParseEvent) (parsed : Json) :
      callback 2 event parsed c = chunkEvent hooks event c := by
    rw [h 2 event parsed c le_rfl hc, buildEvent, if_pos rfl]
  cases chunk with
  | object members =>
    rw [parseValue, hevent c hs.toInBuild, chunkEvent, Hooks.readChunk, hs.index, hs.acc]
    cases hstart : hooks.startChunk s.1 s.2 with
    | error error => exact .error error
    | ok acc =>
      have hat : AtMember s.1 { c with
          inChunk := true, inBlockList := false, chunkHasBlockList := false, chunkKey := [],
          chunkIndex := s.1, entryIndex := 0, acc } ⟨false, 0, acc⟩ :=
        { hs with chunk := rfl, list := rfl, index := rfl, has := rfl, entry := rfl, acc := rfl }
      have hmembers := @parseMembers_alike _ callback _ (AtMember s.1) 3 true true
        (hooks.readMember s.1) members (fun member _ kept c s hs => h.parseMember hs member kept) [] _ _ hat
      refine hmembers.bind fun r t ht => ?_
      dsimp only
      rw [parseEnd, Bool.and_self, if_pos rfl, hevent r.2 ht.toInBuild, chunkEvent, ht.index, ht.has, ht.acc]
      cases hooks.finishChunk s.1 t.hasBlockList t.acc with
      | error error => exact .error error
      | ok acc => exact .ok { ht with index := rfl, acc := rfl }
  | array items =>
    rw [parseValue, hevent c hs.toInBuild, chunkEvent, hs.index]
    · exact .error _
    all_goals rintro ⟨⟩
  | null | boolean | unsigned | integer | float | string =>
    change Alike _ (parseScalar callback 2 true true _ c) _
    rw [parseScalar, if_pos rfl, hevent c hs.toInBuild, chunkEvent, hs.index]
    · exact .error _
    all_goals rintro ⟨⟩

/-- The events of all chunks. -/
theorem Follows.parseChunks (h : Follows hooks callback) {s : ℕ × α} (hs : AtChunk c s) (chunks : List Json) :
    Alike (fun r t => AtChunk r.2 t) (parseItems callback 2 true true chunks [] c)
      (chunks.foldlM hooks.readChunk s) :=
  @parseItems_alike _ callback _ AtChunk 2 true true hooks.readChunk chunks
    (fun chunk _ _ _ hs => h.parseChunk hs chunk) [] c s hs

theorem build_ne_blocksList : "FuHongBuild".toList ≠ "BlocksList".toList := by decide

/-- What a callback does at the root of a document. -/
structure Roots (callback : Callback (Cursor α)) : Prop where
  root : ∀ event parsed c, callback 0 event parsed c =
    if event = .objectStart then .ok (true, { c with rootIsObject := true }) else .ok (false, c)
  other : ∀ depth event parsed c, depth ≠ 0 → c.rootIsObject = false →
    callback depth event parsed c = .ok (false, c)

/-- The events of a document that is an object. -/
theorem Roots.parseObject {τ : Type} (h : Roots callback) {R : Cursor α → τ → Prop}
    {step : τ → List Char × Json → Except String τ}
    (hmember : ∀ member kept c t, R c t → Alike (fun r t => R r.2 t)
      (Json.parseMember callback 1 true true member kept c) (step t member)) {t : τ}
    (hrel : R { c with rootIsObject := true } t) (members : List (List Char × Json)) :
    Alike R (parseWith callback (.object members) c) (members.foldlM step t) := by
  have hvalue : Alike (fun r t => R r.2 t) (parseValue callback 0 true true (.object members) c)
      (members.foldlM step t) := by
    rw [parseValue, h.root, if_pos rfl, ok_bind]
    have hmembers := @parseMembers_alike _ callback _ R 1 true true step members
      (fun member _ => hmember member) [] _ _ hrel
    refine hmembers.bind_left fun r t ht => ?_
    dsimp only
    rw [parseEnd, Bool.and_self, if_pos rfl, h.root, if_neg (by decide)]
    exact .ok ht
  rw [parseWith]
  generalize parseValue callback 0 true true (.object members) c = first at hvalue
  generalize members.foldlM step t = second at hvalue
  cases hvalue with
  | ok ht => exact .ok ht
  | error error => exact .error error

/-- Another document leaves the variables as they are. -/
theorem Roots.parseOther (h : Roots callback) (hc : c.rootIsObject = false) {document : Json}
    (hdocument : ∀ members, document ≠ .object members) : parseWith callback document c = .ok c := by
  have hfirst : callback 0 (firstEvent document) (firstParsed document) c =
      (Except.ok c).map fun c => (false, c) := by
    rw [h.root, if_neg]
    · rfl
    · cases document with
      | object members => exact absurd rfl (hdocument members)
      | null | boolean | unsigned | integer | float | string | array => exact nofun
  have hidle (t : Cursor α) (ht : Except.ok c = (.ok t : Except String _)) : Idle callback 0 t := by
    cases ht
    exact fun depth event parsed hdepth => ⟨false, h.other depth event parsed c (by omega) hc⟩
  rw [parseWith, parseValue_dropped document true hfirst hidle]
  rfl

/-- The variables between two members of the root. -/
structure AtRoot (c : Cursor α) (s : ℕ × α) : Prop where
  root : c.rootIsObject = true
  build : c.inBuild = false
  palette : c.inPalette = false
  index : c.chunkIndex = s.1
  acc : c.acc = s.2

end Chunks

/-! ## The first pass -/

section First

variable (version : Version)

def readName (m : Metadata) : Json → Except String Metadata
  | .string name => .ok { m with palette := m.palette ++ [name] }
  | _ => notAName m.palette

/-- The loop body over the members of the root in the first pass. -/
def readRootMember (s : ℕ × Metadata) (member : List Char × Json) : Except String (ℕ × Metadata) :=
  if member.1 = "BlocksList".toList then
    match member.2 with
    | .array names => do
      let m ← names.foldlM readName { s.2 with paletteSeen := true, paletteIsArray := true }
      return (s.1, { m with paletteSeen := true })
    | _ => .ok (s.1, { s.2 with paletteSeen := true })
  else if member.1 = "FuHongBuild".toList then
    match member.2 with
    | .array chunks => do
      let s ← chunks.foldlM (metadataHooks version).readChunk
        (s.1, { s.2 with buildSeen := true, buildIsArray := true })
      return (s.1, { s.2 with buildSeen := true })
    | _ => .ok (s.1, { s.2 with buildSeen := true })
  else .ok s

theorem follows_metadataCallback : Follows (metadataHooks version) (metadataCallback version) := by
  intro depth event parsed c hdepth hc
  simp [metadataCallback, show depth ≠ 0 by omega, show depth ≠ 1 by omega, hc.root, hc.build, hc.palette]

theorem roots_metadataCallback : Roots (metadataCallback version) where
  root := fun event parsed c => rfl
  other := fun depth event parsed c hdepth hc => by simp [metadataCallback, hdepth, hc]

variable {c : Cursor Metadata} {s : ℕ × Metadata}

theorem metadataCallback_one (hc : c.rootIsObject = true) (event : ParseEvent) (parsed : Json) :
    metadataCallback version 1 event parsed c = metadataRootEvent event parsed c := by
  simp [metadataCallback, hc]

/-- The variables between two names of the palette. -/
structure AtName (chunkIndex : ℕ) (c : Cursor Metadata) (m : Metadata) : Prop where
  root : c.rootIsObject = true
  build : c.inBuild = false
  palette : c.inPalette = true
  key : c.rootKey = "BlocksList".toList
  index : c.chunkIndex = chunkIndex
  acc : c.acc = m

theorem parseName {chunkIndex : ℕ} {m : Metadata} (hc : AtName chunkIndex c m) (item : Json) :
    Alike (fun r m => AtName chunkIndex r.2 m)
      (parseValue (metadataCallback version) 2 true true item c) (readName m item) := by
  have hstart (event : ParseEvent) (hevent : event = .objectStart ∨ event = .arrayStart) (parsed : Json) :
      metadataCallback version 2 event parsed c = notAName m.palette := by
    rcases hevent with rfl | rfl <;> simp [metadataCallback, hc.root, hc.palette, hc.acc]
  have hvalue (parsed : Json) : metadataCallback version 2 .value parsed c = paletteEvent parsed c := by
    simp [metadataCallback, hc.root, hc.palette]
  cases item with
  | array items =>
    rw [parseValue, hstart _ (.inr rfl)]
    exact .error _
  | object members =>
    rw [parseValue, hstart _ (.inl rfl)]
    exact .error _
  | string name =>
    change Alike _ (parseScalar (metadataCallback version) 2 true true (.string name) c) _
    rw [parseScalar, if_pos rfl, hvalue, paletteEvent, hc.acc]
    exact .ok { hc with acc := rfl }
  | null | boolean | unsigned | integer | float =>
    change Alike _ (parseScalar (metadataCallback version) 2 true true _ c) _
    rw [parseScalar, if_pos rfl, hvalue]
    simp only [paletteEvent, hc.acc]
    exact .error _

variable {α : Type} {callback : Callback (Cursor α)} {value : Json} {event : ParseEvent}

/-- A member of the root that is dropped at its first event. -/
theorem parseRoot_dropped {c : Cursor α} {s : ℕ × α}
    (hidle : ∀ depth event parsed c, 2 ≤ depth → c.rootIsObject = true → c.inBuild = false →
      c.inPalette = false → callback depth event parsed c = .ok (false, c)) (hc : AtRoot c s) {acc : α}
    (hfirst : callback 1 (firstEvent value) (firstParsed value) c = .ok (false, { c with acc })) :
    Alike (fun r t => AtRoot r.2 t) (parseValue callback 1 true true value c) (.ok (s.1, acc)) := by
  have hfirst' : callback 1 (firstEvent value) (firstParsed value) c =
      (Except.ok { c with acc }).map fun t => (false, t) := hfirst
  rw [parseValue_dropped value true hfirst']
  · exact .ok { hc with acc := rfl }
  · intro t ht
    cases ht
    exact fun depth event parsed hdepth =>
      ⟨false, hidle depth event parsed _ hdepth hc.root hc.build hc.palette⟩

theorem parseRoot_unchanged {c : Cursor α} {s : ℕ × α}
    (hidle : ∀ depth event parsed c, 2 ≤ depth → c.rootIsObject = true → c.inBuild = false →
      c.inPalette = false → callback depth event parsed c = .ok (false, c)) (hc : AtRoot c s)
    (hfirst : callback 1 (firstEvent value) (firstParsed value) c = .ok (false, c)) :
    Alike (fun r t => AtRoot r.2 t) (parseValue callback 1 true true value c) (.ok s) := by
  obtain ⟨index, acc⟩ := s
  obtain rfl := hc.acc
  exact parseRoot_dropped hidle hc hfirst

theorem metadataCallback_idle (depth : ℕ) (event : ParseEvent) (parsed : Json) (c : Cursor Metadata)
    (hdepth : 2 ≤ depth) (hroot : c.rootIsObject = true) (hbuild : c.inBuild = false)
    (hpalette : c.inPalette = false) : metadataCallback version depth event parsed c = .ok (false, c) := by
  simp [metadataCallback, show depth ≠ 0 by omega, show depth ≠ 1 by omega, hroot, hbuild, hpalette]

theorem blocksListEvent_eq (hc : c.rootIsObject = true) (hkey : c.rootKey = "BlocksList".toList)
    (hevent : event ≠ .key) (parsed : Json) :
    metadataCallback version 1 event parsed c = .ok (blocksListEvent event c) := by
  rw [metadataCallback_one version hc, metadataRootEvent, if_neg hevent, if_pos hkey]

theorem buildListEvent_eq (hc : c.rootIsObject = true) (hkey : c.rootKey = "FuHongBuild".toList)
    (hevent : event ≠ .key) (parsed : Json) :
    metadataCallback version 1 event parsed c = .ok (buildListEvent event c) := by
  rw [metadataCallback_one version hc, metadataRootEvent, if_neg hevent,
    if_neg (hkey.trans_ne build_ne_blocksList), if_pos hkey]

theorem parseBlocksList (hc : AtRoot c s) (hkey : c.rootKey = "BlocksList".toList) (value : Json) :
    Alike (fun r t => AtRoot r.2 t) (parseValue (metadataCallback version) 1 true true value c)
      (readRootMember version s (c.rootKey, value)) := by
  rw [readRootMember, if_pos hkey]
  have hevent {event : ParseEvent} (hevent : event ≠ .key) (parsed : Json) :=
    blocksListEvent_eq version hc.root hkey hevent parsed
  cases value with
  | array names =>
    rw [parseValue, hevent (by decide), ok_bind, blocksListEvent, hc.acc]
    have hnames := @parseItems_alike _ (metadataCallback version) _ (AtName s.1) 2 true true readName
      names (fun name _ c m hc => parseName version hc name) [] { c with
        inPalette := true, acc := { s.2 with paletteSeen := true, paletteIsArray := true } }
      { s.2 with paletteSeen := true, paletteIsArray := true } { hc with palette := rfl, key := hkey, acc := rfl }
    refine hnames.bind fun r m hm => ?_
    dsimp only
    rw [parseEnd, Bool.and_self, if_pos rfl, blocksListEvent_eq version hm.root hm.key (by decide),
      blocksListEvent, hm.acc]
    exact .ok { hm with palette := rfl, acc := rfl }
  | null | boolean | unsigned | integer | float | string | object =>
    refine parseRoot_dropped (metadataCallback_idle version) hc ?_
    rw [hevent (firstEvent_ne_key _), ← hc.acc]
    rfl

theorem parseBuildList (hc : AtRoot c s) (hkey : c.rootKey = "FuHongBuild".toList) (value : Json) :
    Alike (fun r t => AtRoot r.2 t) (parseValue (metadataCallback version) 1 true true value c)
      (readRootMember version s (c.rootKey, value)) := by
  rw [readRootMember, if_neg (hkey.trans_ne build_ne_blocksList), if_pos hkey]
  have hevent {event : ParseEvent} (hevent : event ≠ .key) (parsed : Json) :=
    buildListEvent_eq version hc.root hkey hevent parsed
  cases value with
  | array chunks =>
    rw [parseValue, hevent (by decide), ok_bind, buildListEvent, hc.acc]
    have hat : AtChunk { c with
        inBuild := true, acc := { s.2 with buildSeen := true, buildIsArray := true } }
        (s.1, { s.2 with buildSeen := true, buildIsArray := true }) :=
      { hc with build := rfl, rootKey := hkey, acc := rfl }
    refine ((follows_metadataCallback version).parseChunks hat chunks).bind fun r t ht => ?_
    dsimp only
    rw [parseEnd, Bool.and_self, if_pos rfl, buildListEvent_eq version ht.root ht.rootKey (by decide),
      buildListEvent, ht.acc]
    exact .ok { ht with build := rfl, acc := rfl }
  | null | boolean | unsigned | integer | float | string | object =>
    refine parseRoot_dropped (metadataCallback_idle version) hc ?_
    rw [hevent (firstEvent_ne_key _), ← hc.acc]
    rfl

theorem parseRootMember (hc : AtRoot c s) (member : List Char × Json) (kept : List (List Char × Json)) :
    Alike (fun r t => AtRoot r.2 t)
      (Json.parseMember (metadataCallback version) 1 true true member kept c)
      (readRootMember version s member) := by
  obtain ⟨name, value⟩ := member
  have hname : metadataCallback version 1 .key (.string name) c = .ok (true, { c with rootKey := name }) := by
    rw [metadataCallback_one version hc.root]
    rfl
  have hnamed : AtRoot { c with rootKey := name } s := { hc with }
  have hvalue : Alike (fun r t => AtRoot r.2 t)
      (parseValue (metadataCallback version) 1 true true value { c with rootKey := name })
      (readRootMember version s (name, value)) := by
    by_cases hlist : name = "BlocksList".toList
    · exact parseBlocksList version hnamed hlist value
    · by_cases hbuild : name = "FuHongBuild".toList
      · exact parseBuildList version hnamed hbuild value
      · rw [readRootMember, if_neg hlist, if_neg hbuild]
        refine parseRoot_unchanged (metadataCallback_idle version) hnamed ?_
        rw [metadataCallback_one version hnamed.root, metadataRootEvent, if_neg (firstEvent_ne_key _),
          if_neg hlist, if_neg hbuild]
  rw [Json.parseMember, hname, ok_bind]
  exact hvalue.bind_left fun r t hr => .ok hr

/-- The first pass over an object. -/
theorem parseMetadata (members : List (List Char × Json)) :
    Alike AtRoot (parseWith (metadataCallback version) (.object members) { acc := {} })
      (members.foldlM (readRootMember version) (0, {})) :=
  (roots_metadataCallback version).parseObject
    (fun member kept _ _ hc => parseRootMember version hc member kept)
    ⟨rfl, rfl, rfl, rfl, rfl⟩ members

theorem readMetadata_object (members : List (List Char × Json)) :
    readMetadata version (.object members) =
      members.foldlM (readRootMember version) (0, {}) >>= fun s => layoutOf version true s.2 := by
  refine ((parseMetadata version members).bind fun c s hc => ?_).eq
  rw [hc.root, hc.acc]
  exact .refl (fun _ => rfl) _

end First

/-! ## The second pass -/

section Second

variable (registry : Registry) (dump : Json → List Char) (layout : Layout)

/-- The loop body over the members of the root in the second pass. -/
def readPayloadMember (s : ℕ × Payload) (member : List Char × Json) : Except String (ℕ × Payload) :=
  if member.1 = "FuHongBuild".toList then
    match member.2 with
    | .array chunks => chunks.foldlM (payloadHooks registry dump layout).readChunk s
    | _ => .ok s
  else .ok s

theorem follows_payloadCallback :
    Follows (payloadHooks registry dump layout) (payloadCallback registry dump layout) := by
  intro depth event parsed c hdepth hc
  simp [payloadCallback, show depth ≠ 0 by omega, show depth ≠ 1 by omega, hc.root, hc.build]

theorem roots_payloadCallback : Roots (payloadCallback registry dump layout) where
  root := fun event parsed c => rfl
  other := fun depth event parsed c hdepth hc => by simp [payloadCallback, hdepth, hc]

variable {c : Cursor Payload}

theorem payloadCallback_one (hc : c.rootIsObject = true) (event : ParseEvent) (parsed : Json) :
    payloadCallback registry dump layout 1 event parsed c = payloadRootEvent event parsed c := by
  simp [payloadCallback, hc]

theorem payloadCallback_idle (depth : ℕ) (event : ParseEvent) (parsed : Json) (c : Cursor Payload)
    (hdepth : 2 ≤ depth) (hroot : c.rootIsObject = true) (hbuild : c.inBuild = false)
    (_ : c.inPalette = false) :
    payloadCallback registry dump layout depth event parsed c = .ok (false, c) := by
  simp [payloadCallback, show depth ≠ 0 by omega, show depth ≠ 1 by omega, hroot, hbuild]

variable {s : ℕ × Payload}

theorem parsePayloadBuild (hc : AtRoot c s) (hkey : c.rootKey = "FuHongBuild".toList) (chunks : List Json) :
    Alike (fun r t => AtRoot r.2 t)
      (parseValue (payloadCallback registry dump layout) 1 true true (.array chunks) c)
      (chunks.foldlM (payloadHooks registry dump layout).readChunk s) := by
  have hat : AtChunk { c with inBuild := true } s := { hc with build := rfl, rootKey := hkey }
  have hchunks := (follows_payloadCallback registry dump layout).parseChunks hat chunks
  rw [parseValue, payloadCallback_one registry dump layout hc.root, payloadRootEvent,
    if_neg (by decide), if_pos ⟨hkey, rfl⟩, ok_bind]
  refine hchunks.bind_left fun r t ht => ?_
  have hend (parsed : Json) : payloadCallback registry dump layout 1 .arrayEnd parsed r.2 =
      .ok (false, { r.2 with inBuild := false }) := by
    rw [payloadCallback_one registry dump layout ht.root, payloadRootEvent, if_neg (by decide),
      if_neg (fun h => by cases h.2), if_pos ⟨ht.rootKey, rfl⟩]
  dsimp only
  rw [parseEnd, Bool.and_self, if_pos rfl, hend]
  exact .ok { ht with build := rfl }

theorem parsePayloadMember (hc : AtRoot c s) (member : List Char × Json) (kept : List (List Char × Json)) :
    Alike (fun r t => AtRoot r.2 t)
      (Json.parseMember (payloadCallback registry dump layout) 1 true true member kept c)
      (readPayloadMember registry dump layout s member) := by
  obtain ⟨name, value⟩ := member
  have hname : payloadCallback registry dump layout 1 .key (.string name) c =
      .ok (true, { c with rootKey := name }) := by
    rw [payloadCallback_one registry dump layout hc.root]
    rfl
  have hnamed : AtRoot { c with rootKey := name } s := { hc with }
  have hdropped (hother : ¬ (name = "FuHongBuild".toList ∧ firstEvent value = .arrayStart)) :
      Alike (fun r t => AtRoot r.2 t)
        (parseValue (payloadCallback registry dump layout) 1 true true value { c with rootKey := name })
        (.ok s) := by
    refine parseRoot_unchanged (payloadCallback_idle registry dump layout) hnamed ?_
    have hend : firstEvent value ≠ .arrayEnd := by cases value <;> exact nofun
    rw [payloadCallback_one registry dump layout hnamed.root, payloadRootEvent,
      if_neg (firstEvent_ne_key _), if_neg hother, if_neg fun h => hend h.2]
  have hvalue : Alike (fun r t => AtRoot r.2 t)
      (parseValue (payloadCallback registry dump layout) 1 true true value { c with rootKey := name })
      (readPayloadMember registry dump layout s (name, value)) := by
    rw [readPayloadMember]
    by_cases hbuild : name = "FuHongBuild".toList
    · rw [if_pos hbuild]
      cases value with
      | array chunks => exact parsePayloadBuild registry dump layout hnamed hbuild chunks
      | null | boolean | unsigned | integer | float | string | object =>
        exact hdropped fun h => nomatch h.2
    · rw [if_neg hbuild]
      exact hdropped fun h => hbuild h.1
  rw [Json.parseMember, hname, ok_bind]
  exact hvalue.bind_left fun r t hr => .ok hr

/-- The second pass over an object. -/
theorem parsePayload (members : List (List Char × Json)) {p : Payload} :
    Alike AtRoot (parseWith (payloadCallback registry dump layout) (.object members) { acc := p })
      (members.foldlM (readPayloadMember registry dump layout) (0, p)) :=
  (roots_payloadCallback registry dump layout).parseObject
    (fun member kept _ _ hc => parsePayloadMember registry dump layout hc member kept)
    ⟨rfl, rfl, rfl, rfl, rfl⟩ members

theorem readPayload_object (members : List (List Char × Json)) :
    readPayload registry dump layout (.object members) =
      members.foldlM (readPayloadMember registry dump layout)
        (0, { store := SparseBlockStore.setSize {} layout.size }) >>= fun s =>
          if s.1 ≠ layout.chunkOrigins.length then .error "FuHongBuild changed between parse passes"
          else .ok s.2 := by
  refine ((parsePayload registry dump layout members).bind fun c s hc => ?_).eq
  rw [hc.index, hc.acc]
  exact .refl (fun _ => rfl) _

end Second

end FuHong

end WaterStructure
