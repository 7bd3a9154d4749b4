import WaterStructure.Formats.GangBanChunks

/-!
# What the passes over the chunks of a GangBan document do

A finished document holds the last member of a name. Reading it takes the chunks in their order, and the
blocks of each. The first pass finds these chunks, and the passes over the blocks visit their entries in the
same order.
-/

namespace WaterStructure

namespace GangBan

open FuHong (Bounds BoundsOf Registry addBounds)
open Json Json.Records LastValue NestedLoop StatefulRun

/-! ## Reading a finished document -/

/-- A chunk: its place and the entries of its blocks. -/
structure Chunk where
  x : ℤ
  z : ℤ
  data : List Json

/-- The place of a chunk. -/
def placeOf (grids : Json) : Option (ℤ × ℤ) := do
  let rawX ← grids.member? "x"
  let x ← (jsonI32 rawX "grids.x").toOption
  let rawZ ← grids.member? "z"
  let z ← (jsonI32 rawZ "grids.z").toOption
  return (x, z)

/-- A chunk of a finished document. -/
def chunkOf (item : Json) : Option Chunk := do
  let grids ← item.member? "grids"
  let place ← placeOf grids
  let data ← (item.member? "data").bind items?
  return ⟨place.1, place.2, data⟩

/-- The entries of the blocks of some chunks. -/
def chunkEntries (chunks : List Chunk) : List (Chunk × Json) :=
  chunks.flatMap fun chunk => chunk.data.map fun entry => (chunk, entry)

def blockOf (palette : List (List Char)) (entry : Chunk × Json) : Option ChunkBlock :=
  (chunkBlock palette entry.1.x entry.1.z 0 entry.2).toOption

/-- The place of a block in the structure. -/
def placed (registry : Registry) (origin : BlockPos) (block : ChunkBlock) : Option Placement :=
  (subtract block.world origin).toOption.map fun pos => (pos, runtimeId registry block.name block.aux)

/-- The size of the structure, and the place from which positions are counted. -/
def extentOf (settings : Settings) (blocks : List ChunkBlock) : Option (Size × BlockPos) :=
  match settings.declared with
  | some declared => some (declared.2, declared.1)
  | none =>
    let bounds := (blocks.map ChunkBlock.world).foldl addBounds none
    (boundsSize bounds).toOption.map fun size => (size, minimumOf bounds)

/-- The size of the structure, and its blocks in the order in which they are placed. -/
def placeBlocks (registry : Registry) (settings : Settings) (blocks : List ChunkBlock) :
    Option (Size × List Placement) := do
  let extent ← (extentOf settings blocks).filter fun _ => blocks ≠ []
  let placements ← blocks.mapM (placed registry extent.2)
  return (extent.1, placements)

/-- What a finished document says. -/
def readDocument (registry : Registry) (version : ChunkVersion) (document : Json) :
    Option (Size × List Placement) :=
  match document with
  | .array (header :: rawPalette :: items) => do
    let chunks ← (items.mapM chunkOf).filter fun chunks => chunks ≠ [] ∧ header.isObject
    let settings ← (settingsOf version header rawPalette).toOption
    let blocks ← (chunkEntries chunks).mapM (blockOf settings.palette)
    placeBlocks registry settings blocks
  | _ => none

/-! ## The chunks by their members -/

/-- The entries that a chunk lists last. -/
def listedData (members : List (List Char × Json)) : Option (List Json) :=
  ((lastMember "data".toList members).bind items?).map (List.map Json.normal)

def memberChunk (members : List (List Char × Json)) : Option Chunk := do
  let grids ← lastMember "grids".toList members
  let place ← placeOf grids.normal
  let data ← listedData members
  return ⟨place.1, place.2, data⟩

theorem chunkOf_normal (item : Json) : chunkOf item.normal = item.members?.bind memberChunk := by
  cases item with
  | object members =>
    have hdata : ((object members).normal.member? "data").bind items? = listedData members := by
      rw [member?_normal_last members "data", listedData]
      cases lastMember "data".toList members with
      | none => rfl
      | some value => exact items?_normal value
    rw [chunkOf, member?_normal_last members "grids", hdata]
    change _ = memberChunk members
    rw [memberChunk]
    cases lastMember "grids".toList members <;> rfl
  | null | boolean | unsigned | integer | float | string | array => rfl

/-- A record that is a chunk. -/
def recordOf : Json → Option (List (List Char × Json) × Chunk) := foundRecord memberChunk

theorem mapM_chunkOf_normal (items : List Json) :
    (items.map Json.normal).mapM chunkOf = (items.mapM recordOf).map (List.map Prod.snd) :=
  mapM_foundRecord chunkOf_normal items

/-! ## Errors -/

/-- The error that tells of a changed document. -/
def changed : String := "GangBan chunk stream changed while parsing"

theorem append_ne_changed {first : String} (hfirst : (first.toList.head?.any (· ≠ 'G')) = true) (rest : String) :
    first ++ rest ≠ changed := by
  intro h
  have hheads := congrArg (fun s => s.toList.head?) h
  simp only [String.toList_append, List.head?_append] at hheads
  cases hhead : first.toList.head? with
  | none =>
    rw [hhead] at hfirst
    cases hfirst
  | some c =>
    rw [hhead] at hfirst hheads
    have hc : c = 'G' := Option.some.inj hheads
    rw [hc] at hfirst
    exact absurd hfirst (by decide)

/-- The computation does not tell of a changed document. -/
def Unchanged {α : Type} (result : Except String α) : Prop := ∀ error, result = .error error → error ≠ changed

section Unchanged

variable {α β : Type}

theorem unchanged_ok (a : α) : Unchanged (.ok a) := by
  intro error h
  cases h

theorem unchanged_error {error : String} (h : error ≠ changed) : Unchanged (.error error : Except String α) := by
  intro other hother
  cases hother
  exact h

theorem Unchanged.bind {first : Except String α} {next : α → Except String β} (h : Unchanged first)
    (hnext : ∀ a, Unchanged (next a)) : Unchanged (first >>= next) := by
  cases first with
  | ok a => exact hnext a
  | error error => exact unchanged_error (h error rfl)

theorem Unchanged.map {first : Except String α} (h : Unchanged first) (f : α → β) : Unchanged (first.map f) := by
  cases first with
  | ok a => exact unchanged_ok (f a)
  | error error => exact unchanged_error (h error rfl)

/-- Such a computation and its result. -/
theorem Unchanged.matches {result : Except String α} (h : Unchanged result) :
    Matches (· ≠ changed) Eq result result.toOption := by
  cases result with
  | ok a => exact .ok rfl
  | error error => exact .error (h error rfl)

end Unchanged

theorem unchanged_jsonI32 (value : Json) {field : String}
    (hfield : (field.toList.head?.any (· ≠ 'G')) = true) : Unchanged (jsonI32 value field) := by
  have hfirst (rest : String) : Unchanged (.error (field ++ rest) : Except String ℤ) :=
    unchanged_error (append_ne_changed hfield rest)
  have hinteger : Unchanged (jsonInteger value field) := by
    cases value with
    | integer | unsigned => exact unchanged_ok _
    | float number =>
      rw [jsonInteger]
      split
      · exact unchanged_ok _
      · exact hfirst _
    | string text =>
      rw [jsonInteger]
      split
      case h_1 => exact unchanged_ok _
      case h_2 => exact hfirst _
    | null | boolean | array | object => exact hfirst _
  refine hinteger.bind fun number => ?_
  split
  · exact unchanged_ok _
  · exact hfirst _

theorem unchanged_required (value : Json) (name : String) : Unchanged (value.required name) := by
  rw [Json.required]
  cases value.member? name with
  | none => exact unchanged_error (by decide)
  | some member => exact unchanged_ok member

theorem toOption_required (value : Json) (name : String) :
    (value.required name).toOption = value.member? name := by
  rw [Json.required]
  cases value.member? name <;> rfl

theorem unchanged_mapM {α β : Type} {f : α → Except String β} (hf : ∀ item, Unchanged (f item)) (items : List α) :
    Unchanged (items.mapM f) := by
  induction items with
  | nil => exact unchanged_ok []
  | cons item rest ih =>
    rw [List.mapM_cons]
    exact (hf item).bind fun first => ih.bind fun others => unchanged_ok _

theorem unchanged_parseV3Palette (encoded : List Char) : Unchanged (parseV3Palette encoded) := by
  rw [parseV3Palette]
  dsimp only
  split
  · exact unchanged_error (by decide)
  · refine unchanged_mapM (fun index => ?_) _
    split
    case h_1 => exact unchanged_ok _
    case h_2 => exact unchanged_error (append_ne_changed (by decide) _)

theorem unchanged_stringPalette (value : Json) : Unchanged (stringPalette value "V4 palette") := by
  have hnames (index : ℕ) (items : List Json) : Unchanged (paletteNames "V4 palette" index items) := by
    induction items generalizing index with
    | nil => exact unchanged_ok []
    | cons item rest ih =>
      cases item with
      | string name => exact (ih (index + 1)).map _
      | null | boolean | unsigned | integer | float | array | object =>
        refine unchanged_error ?_
        rw [String.append_assoc, String.append_assoc]
        exact append_ne_changed (by decide) _
  cases value with
  | array items =>
    cases items with
    | nil => exact unchanged_error (append_ne_changed (by decide) _)
    | cons item rest => exact hnames 0 (item :: rest)
  | null | boolean | unsigned | integer | float | string | object =>
    exact unchanged_error (append_ne_changed (by decide) _)

theorem unchanged_headerNumber (header : Json) (name : String) : Unchanged (headerNumber header name) := by
  refine (unchanged_required header name).bind fun raw => unchanged_jsonI32 raw ?_
  rw [String.toList_append]
  rfl

theorem unchanged_settingsOf (version : ChunkVersion) (header rawPalette : Json) :
    Unchanged (settingsOf version header rawPalette) := by
  cases version with
  | V3 =>
    cases rawPalette with
    | string encoded =>
      refine (unchanged_parseV3Palette encoded).bind fun palette => ?_
      refine (unchanged_headerNumber header "x").bind fun x => ?_
      refine (unchanged_headerNumber header "y").bind fun y => ?_
      refine (unchanged_headerNumber header "z").bind fun z => ?_
      refine (unchanged_headerNumber header "xcha").bind fun width => ?_
      refine (unchanged_headerNumber header "ycha").bind fun height => ?_
      refine (unchanged_headerNumber header "zcha").bind fun length => ?_
      split
      · exact unchanged_error (by decide)
      · exact unchanged_ok _
    | null | boolean | unsigned | integer | float | array | object => exact unchanged_error (by decide)
  | V4 => exact (unchanged_stringPalette rawPalette).map _

/-! ## A chunk in the first pass -/

/-- What the first pass keeps of a member named `grids`. -/
def keptGrids : Json → Json
  | .array _ => .array []
  | value => value.normal

def otherChunk (name : List Char) (value : Json) (c : Chunks) : Except String Chunks :=
  .ok (if name = "grids".toList then { c with hasGrids := true, gridsRaw := keptGrids value } else c)

/-- The header and the palette are behind the pass. -/
def BehindHead (c : Chunks) : Prop := 2 ≤ c.rootIndex

theorem metadataCallback_follows (o : Head) : Follows metadataHooks metadataCallback 1 o BehindHead := by
  rintro depth event parsed c - hc
  rw [metadataCallback, if_neg (by omega), if_neg (Nat.not_lt.mpr hc), Nat.add_sub_cancel_left]

theorem preserves_metadataHooks : Records.Preserves metadataHooks BehindHead where
  startRecord := by
    rintro c next hc hnext
    cases hnext
    exact hc
  list := fun _ _ hc => hc
  item := by
    rintro value c next hc hnext
    cases hnext
    exact hc
  endRecord := by
    rintro count c next hc hnext
    change finishChunk count c = .ok next at hnext
    rw [finishChunk] at hnext
    obtain ⟨-, hnext⟩ := else_of_ok hnext
    obtain ⟨rawX, -, hnext⟩ := exists_of_bind_ok hnext
    obtain ⟨x, -, hnext⟩ := exists_of_bind_ok hnext
    obtain ⟨rawZ, -, hnext⟩ := exists_of_bind_ok hnext
    obtain ⟨z, -, hnext⟩ := exists_of_bind_ok hnext
    cases hnext
    exact Nat.le_succ_of_le hc

/-- A list of the chunk that is an object is kept until it is complete. -/
theorem parse_grids {o : Head} {c : Cursor Head Chunks} {s : ℕ × Chunks} (hs : AtMember o BehindHead c s)
    (hkey : c.key = "grids".toList) (members : List (List Char × Json)) :
    parseValue metadataCallback 2 true true (.object members) c =
      .ok (none, { c with acc := { s.2 with hasGrids := true, gridsRaw := (Json.object members).normal } }) := by
  have hmember (event : ParseEvent) (hnotKey : event ≠ .key) (parsed : Json) {d : Cursor Head Chunks}
      {t : ℕ × Chunks} (hd : AtMember o BehindHead d t) (hdkey : d.key = "grids".toList) :
      metadataCallback 2 event parsed d =
        .ok ((gridsMember "grids".toList event parsed t.2).1,
          { d with acc := (gridsMember "grids".toList event parsed t.2).2 }) := by
    have hinv : BehindHead d.acc := hd.acc ▸ hd.inv
    have hlist : d.key ≠ metadataHooks.listKey := by rw [hdkey]; decide
    rw [(metadataCallback_follows o).memberEvent hd.outer hinv hd.inRecord, memberEvent, if_neg hnotKey,
      if_neg (by simp [hd.inList]), if_neg fun h => hlist h.1, hdkey, hd.acc]
    rfl
  obtain ⟨opened, hopened⟩ : ∃ opened : Chunks, opened = { s.2 with hasGrids := true } := ⟨_, rfl⟩
  have hopen : AtMember o BehindHead { c with acc := opened } (s.1, opened) :=
    { hs with acc := rfl, inv := hopened ▸ hs.inv }
  have hkeeps := (metadataCallback_follows o).keeps_member hopen.outer hopen.inv hopen.inRecord hopen.inList
  have hstart : metadataCallback 2 .objectStart .null c = .ok (true, { c with acc := opened }) := by
    rw [hmember .objectStart (by decide) .null hs hkey, hopened]
    rfl
  have hend (parsed : Json) : metadataCallback 2 .objectEnd parsed { c with acc := opened } =
      .ok (false, { c with acc := { s.2 with hasGrids := true, gridsRaw := parsed } }) := by
    rw [hmember .objectEnd (by decide) parsed hopen hkey, hopened]
    rfl
  rw [parseValue, hstart, ok_bind]
  dsimp only
  rw [Bool.and_self, parseMembers_kept (fun name => hkeeps _ .key _ (Nat.lt_succ_self 2))
    fun member _ => parseValue_kept member.2 hkeeps, ok_bind]
  change parseEnd metadataCallback 2 .objectEnd true (.object (normalMembers members [])) _ = _
  rw [parseEnd, if_pos rfl, hend]
  rfl

theorem others_metadata (o : Head) : Others metadataHooks metadataCallback 1 o BehindHead otherChunk := by
  intro name value c s hname hs hkey
  have hdropped (hact : gridsMember name (firstEvent value) (firstParsed value) s.2 =
      (false, if name = "grids".toList then { s.2 with hasGrids := true, gridsRaw := keptGrids value } else s.2)) :
      Alike (fun r t => AtMember o BehindHead r.2 t) (parseValue metadataCallback 2 true true value c)
        ((otherChunk name value s.2).map fun acc => (s.1, acc)) := by
    refine (metadataCallback_follows o).parseOther_dropped hs hname hkey value ?_ ?_
    · rintro acc hacc
      cases hacc
      split
      · exact hs.inv
      · exact hs.inv
    · exact congrArg Except.ok hact
  by_cases hgrids : name = "grids".toList
  · subst hgrids
    cases value with
    | object members =>
      rw [parse_grids hs hkey members, otherChunk, if_pos rfl]
      exact .ok { hs with acc := rfl, inv := hs.inv }
    | null | boolean | unsigned | integer | float | string | array => exact hdropped rfl
  · refine hdropped ?_
    rw [if_neg hgrids, gridsMember, if_neg hgrids]
    cases value <;> rfl

/-- What the first pass does at a member of a chunk. -/
def stepChunk (c : Chunks) (member : List Char × Json) : Chunks :=
  if member.1 = "data".toList then { c with finalDataIsArray := isArray member.2 }
  else if member.1 = "grids".toList then { c with hasGrids := true, gridsRaw := keptGrids member.2 }
  else c

theorem readMembers_chunk (members : List (List Char × Json)) (n : ℕ) (c : Chunks) :
    members.foldlM (readMember metadataHooks otherChunk) (n, c) =
      .ok (n + countMembers "data".toList members, members.foldl stepChunk c) := by
  induction members generalizing n c with
  | nil => rfl
  | cons member rest ih =>
    rw [List.foldlM_cons, List.foldl_cons, countMembers_cons, readMember]
    by_cases hname : member.1 = "data".toList
    · have hlist : member.1 = metadataHooks.listKey := hname
      have hcount : n + (countMembers "data".toList rest + 1) = n + 1 + countMembers "data".toList rest := by
        omega
      rw [if_pos hlist, stepChunk, if_pos hname, if_pos hname, hcount]
      exact ih (n + 1) _
    · have hlist : member.1 ≠ metadataHooks.listKey := hname
      rw [if_neg hlist, stepChunk, if_neg hname, if_neg hname]
      exact ih n _

/-- The variables of the first pass at the start of a chunk. -/
def Chunks.cleared (c : Chunks) : Chunks :=
  { c with gridsRaw := .null, hasGrids := false, finalDataIsArray := false }

theorem readRecord_chunk (members : List (List Char × Json)) (c : Chunks) :
    readRecord metadataHooks otherChunk members c =
      finishChunk (countMembers "data".toList members) (members.foldl stepChunk c.cleared) := by
  rw [readRecord]
  change members.foldlM (readMember metadataHooks otherChunk) (0, c.cleared) >>= _ = _
  rw [readMembers_chunk, ok_bind, Nat.zero_add]
  rfl

theorem stepChunk_grids (members : List (List Char × Json)) (c : Chunks) :
    ((members.foldl stepChunk c).hasGrids, (members.foldl stepChunk c).gridsRaw) =
      ((lastMember "grids".toList members).map fun value => (true, keptGrids value)).getD
        (c.hasGrids, c.gridsRaw) := by
  refine @observe_last _ _ "grids".toList (fun c => (c.hasGrids, c.gridsRaw)) _ stepChunk
    (fun c member => ?_) members c
  rw [stepChunk]
  by_cases hdata : member.1 = "data".toList
  · rw [if_pos hdata, if_neg (hdata ▸ by decide)]
  · rw [if_neg hdata]
    split <;> rfl

theorem stepChunk_data (members : List (List Char × Json)) (c : Chunks) :
    (members.foldl stepChunk c).finalDataIsArray =
      ((lastMember "data".toList members).map isArray).getD c.finalDataIsArray := by
  refine @observe_last _ _ "data".toList Chunks.finalDataIsArray _ stepChunk (fun c member => ?_) members c
  rw [stepChunk]
  split
  · rfl
  · split <;> rfl

theorem stepChunk_frame (members : List (List Char × Json)) (c : Chunks) :
    (members.foldl stepChunk c).rootIndex = c.rootIndex ∧
      (members.foldl stepChunk c).chunkMetadata = c.chunkMetadata := by
  refine List.foldlRecOn members stepChunk
    (motive := fun d => d.rootIndex = c.rootIndex ∧ d.chunkMetadata = c.chunkMetadata) ⟨rfl, rfl⟩
    fun d hd member _ => ?_
  rw [stepChunk]
  split_ifs
  · exact hd
  · exact hd
  · exact hd

theorem invalidChunk_ne_changed (rootIndex : ℕ) :
    "chunk index " ++ toString (rootIndex - 2) ++ " is invalid" ≠ changed := by
  rw [String.append_assoc]
  exact append_ne_changed (by decide) _

/-- The place of a chunk is read as in a finished document. -/
theorem matches_place {α β : Type} {R : α → β → Prop} (grids : Json) {next : ℤ → ℤ → Except String α}
    {next' : ℤ × ℤ → Option β} (h : ∀ x z, Matches (· ≠ changed) R (next x z) (next' (x, z))) :
    Matches (· ≠ changed) R
      (do
        let rawX ← grids.required "x"
        let x ← jsonI32 rawX "grids.x"
        let rawZ ← grids.required "z"
        let z ← jsonI32 rawZ "grids.z"
        next x z)
      ((placeOf grids).bind next') := by
  have hfield (name : String) : Matches (· ≠ changed) Eq (grids.required name) (grids.member? name) := by
    rw [← toOption_required]
    exact (unchanged_required grids name).matches
  have hplace : (placeOf grids).bind next' = (grids.member? "x").bind fun rawX =>
      (jsonI32 rawX "grids.x").toOption.bind fun x => (grids.member? "z").bind fun rawZ =>
        (jsonI32 rawZ "grids.z").toOption.bind fun z => next' (x, z) := by
    rw [placeOf]
    simp only [Option.bind_eq_bind, Option.pure_def, Option.bind_assoc, Option.bind_some]
  rw [hplace]
  refine (hfield "x").bind fun rawX rawX' hsame => ?_
  subst hsame
  refine (unchanged_jsonI32 rawX (by decide)).matches.bind fun x x' hsame => ?_
  subst hsame
  refine (hfield "z").bind fun rawZ rawZ' hsame => ?_
  subst hsame
  refine (unchanged_jsonI32 rawZ (by decide)).matches.bind fun z z' hsame => ?_
  subst hsame
  exact h x z

/-- A chunk that is not complete is none. -/
theorem memberChunk_none {members : List (List Char × Json)}
    (h : ((lastMember "grids".toList members).any Json.isObject &&
      (lastMember "data".toList members).any isArray) = false) : memberChunk members = none := by
  rw [memberChunk, listedData]
  cases hgrids : lastMember "grids".toList members with
  | none => rfl
  | some grids =>
    rw [hgrids] at h
    cases grids with
    | object members' =>
      have hnone : (placeOf (Json.object members').normal).bind (fun _ => (none : Option Chunk)) = none :=
        Option.bind_fun_none _
      cases hdata : lastMember "data".toList members with
      | none => exact hnone
      | some value =>
        rw [hdata] at h
        cases value with
        | array items => cases h
        | null | boolean | unsigned | integer | float | string | object => exact hnone
    | null | boolean | unsigned | integer | float | string | array => rfl

/-- The first pass finds the place of a chunk and how often the chunk lists blocks. -/
theorem matches_readChunk (members : List (List Char × Json)) (c : Chunks) :
    Matches (· ≠ changed)
      (fun next chunk => next.rootIndex = c.rootIndex + 1 ∧ next.chunkMetadata =
        c.chunkMetadata ++ [⟨chunk.x, chunk.z, countMembers "data".toList members⟩])
      (readRecord metadataHooks otherChunk members c) (memberChunk members) := by
  obtain ⟨hroot, hmetadata⟩ := stepChunk_frame members c.cleared
  have hgrids := stepChunk_grids members c.cleared
  have hdata := stepChunk_data members c.cleared
  rw [readRecord_chunk]
  generalize members.foldl stepChunk c.cleared = d at hroot hmetadata hgrids hdata ⊢
  by_cases hcomplete : ((lastMember "grids".toList members).any Json.isObject &&
      (lastMember "data".toList members).any isArray) = true
  · rw [Bool.and_eq_true] at hcomplete
    obtain ⟨hobject, harray⟩ := hcomplete
    obtain ⟨grids, hlast, hobject⟩ := (Option.any_eq_true _ _).mp hobject
    obtain ⟨value, hlastData, harray⟩ := (Option.any_eq_true _ _).mp harray
    have hcount : countMembers "data".toList members ≠ 0 := fun h => by
      rw [lastMember_eq_none.mpr h] at hlastData
      cases hlastData
    rw [hlast] at hgrids
    rw [hlastData] at hdata
    cases grids with
    | object members' =>
      cases value with
      | array items =>
        obtain ⟨hhas, hraw⟩ := Prod.mk.inj hgrids
        have hfinal : d.finalDataIsArray = true := hdata
        have hpass : ¬ (¬ d.hasGrids ∨ ¬ d.gridsRaw.isObject ∨ countMembers "data".toList members = 0 ∨
            ¬ d.finalDataIsArray) := by
          rw [hhas, hraw, hfinal]
          rintro (h | h | h | h)
          · exact h rfl
          · exact h rfl
          · exact hcount h
          · exact h rfl
        rw [finishChunk, if_neg hpass, hraw, memberChunk, listedData, hlast, hlastData]
        refine matches_place _ fun x z => .ok ⟨?_, ?_⟩
        · rw [hroot]
          rfl
        · rw [hmetadata]
          rfl
      | null | boolean | unsigned | integer | float | string | object => cases harray
    | null | boolean | unsigned | integer | float | string | array => cases hobject
  · rw [memberChunk_none (Bool.eq_false_iff.mpr hcomplete), finishChunk, if_pos]
    · exact .error (invalidChunk_ne_changed d.rootIndex)
    · by_contra hno
      simp only [not_or, not_not] at hno
      obtain ⟨hhas, hobject, -, hfinal⟩ := hno
      refine hcomplete (Bool.and_eq_true _ _ ▸ ⟨?_, ?_⟩)
      · cases hlast : lastMember "grids".toList members with
        | none =>
          rw [hlast] at hgrids
          rw [(Prod.mk.inj hgrids).1] at hhas
          cases hhas
        | some grids =>
          rw [hlast] at hgrids
          rw [(Prod.mk.inj hgrids).2] at hobject
          cases grids with
          | object => rfl
          | null | boolean | unsigned | integer | float | string | array => cases hobject
      · cases hlastData : lastMember "data".toList members with
        | none =>
          rw [hlastData] at hdata
          rw [hdata] at hfinal
          cases hfinal
        | some value =>
          rw [hlastData] at hdata
          rw [hdata] at hfinal
          exact hfinal

/-! ## The first pass -/

/-- What the first pass keeps of a chunk. -/
def metadataOf (record : List (List Char × Json) × Chunk) : ChunkMetadata :=
  ⟨record.2.x, record.2.z, countMembers "data".toList record.1⟩

/-- The refusal of an item that is no chunk. -/
def invalidItem (c : Chunks) : Option String := some ("chunk index " ++ toString (c.rootIndex - 2) ++ " is invalid")

theorem refuses_metadata : Refuses metadataHooks BehindHead invalidItem where
  throws := by
    rintro c error - herror event hevent
    cases herror
    change (if event = .value ∨ event = .arrayStart then _ else _) = _
    rw [if_pos hevent]
    rfl
  passes := by
    rintro c - hnone
    cases hnone

/-- What is known behind some chunks. -/
structure Found (c : Chunks) (records : List (List (List Char × Json) × Chunk)) : Prop where
  rootIndex : c.rootIndex = 2 + records.length
  chunkMetadata : c.chunkMetadata = records.map metadataOf

theorem matches_chunks (items : List Json) :
    Matches (· ≠ changed) Found (items.foldlM (readItem metadataHooks otherChunk invalidItem) { rootIndex := 2 })
      (items.mapM recordOf) := by
  have hstep (c : Chunks) (found : List (List (List Char × Json) × Chunk)) (hc : Found c found) (item : Json) :
      Matches (· ≠ changed) (fun c record => Found c (found ++ [record]))
        (readItem metadataHooks otherChunk invalidItem c item) (recordOf item) := by
    rw [readItem, recordOf, foundRecord]
    cases item.members? with
    | none => exact .error (invalidChunk_ne_changed c.rootIndex)
    | some members =>
      refine (matches_readChunk members c).map_right fun next chunk hnext => ⟨?_, ?_⟩
      · rw [hnext.1, hc.rootIndex, List.length_append, List.length_singleton, Nat.add_assoc]
      · rw [hnext.2, hc.chunkMetadata, List.map_append]
        rfl
  have hloop := @Matches.foldlM_mapM _ _ _ _ (· ≠ changed) Found (readItem metadataHooks otherChunk invalidItem)
    recordOf items (fun c found hc item _ => hstep c found hc item) { rootIndex := 2 } [] ⟨rfl, rfl⟩
  exact hloop

/-- The header or the palette. -/
theorem parse_head (value : Json) {c : Cursor Head Chunks} (hc : c.acc.rootIndex < 2) :
    parseValue metadataCallback 1 true true value c =
      .ok (none, { c with
        outer := keepHead c.acc.rootIndex value.normal c.outer
        acc := { c.acc with rootIndex := c.acc.rootIndex + 1 } }) := by
  have hevent (depth : ℕ) (hdepth : depth ≠ 0) (event : ParseEvent) (parsed : Json) :
      metadataCallback depth event parsed c = .ok (headEvent depth event parsed c) := by
    rw [metadataCallback, if_neg hdepth, if_pos hc]
  refine @parseValue_taken _ metadataCallback value 1 c (fun value c => .ok { c with
      outer := keepHead c.acc.rootIndex value c.outer
      acc := { c.acc with rootIndex := c.acc.rootIndex + 1 } }) ?_ ?_ ?_
  · intro depth event parsed hdepth
    rw [hevent depth (by omega), headEvent, if_neg (by omega)]
  · intro event parsed hstart
    rw [hevent 1 (by decide), headEvent, if_neg (by rcases hstart with rfl | rfl <;> decide)]
  · intro event parsed hend
    rw [hevent 1 (by decide), headEvent, if_pos ⟨rfl, by rcases hend with rfl | rfl | rfl <;> decide⟩]
    rfl

/-- The variables of the first pass behind the header and the palette. -/
def headOf (header rawPalette : Json) : Head := ⟨true, some header.normal, some rawPalette.normal⟩

theorem parseWith_metadata (items : List Json) :
    parseWith metadataCallback (.array items) { outer := {}, acc := {} } =
      (parseItems metadataCallback 1 true true items [] { outer := ⟨true, none, none⟩, acc := {} }).map Prod.snd := by
  rw [parseWith, parseValue]
  change ((parseItems metadataCallback 1 true true items [] { outer := ⟨true, none, none⟩, acc := {} } >>=
    fun r => parseEnd metadataCallback 0 .arrayEnd true (.array r.1) r.2).map Prod.snd) = _
  cases parseItems metadataCallback 1 true true items [] { outer := ⟨true, none, none⟩, acc := {} } <;> rfl

/-- The first pass finds the header, the palette and the chunks. -/
theorem matches_metadata (header rawPalette : Json) (items : List Json) :
    Matches (· ≠ changed) (fun c records => c.outer = headOf header rawPalette ∧ Found c.acc records)
      (parseWith metadataCallback (.array (header :: rawPalette :: items)) { outer := {}, acc := {} })
      (items.mapM recordOf) := by
  have hstart : AtRecord (headOf header rawPalette) BehindHead
      { outer := headOf header rawPalette, acc := { rootIndex := 2 } } { rootIndex := 2 } :=
    ⟨rfl, rfl, rfl, rfl, Nat.le_refl 2⟩
  have hrecords := (metadataCallback_follows (headOf header rawPalette)).parseRecords preserves_metadataHooks
    (others_metadata _) refuses_metadata hstart items []
  have hmatches := hrecords.matches (matches_chunks items)
    (T := fun r records => r.2.outer = headOf header rawPalette ∧ Found r.2.acc records)
    fun r a records hr ha => ⟨hr.outer, hr.acc ▸ ha⟩
  rw [parseWith_metadata, parseItems, parse_head header Nat.two_pos, ok_bind]
  dsimp only
  rw [parseItems, parse_head rawPalette Nat.one_lt_two, ok_bind]
  change Matches _ _ ((parseItems metadataCallback 1 true true items []
    { outer := headOf header rawPalette, acc := { rootIndex := 2 } }).map Prod.snd) _
  generalize parseItems metadataCallback 1 true true items []
    { outer := headOf header rawPalette, acc := { rootIndex := 2 } } = result at hmatches ⊢
  generalize items.mapM recordOf = records at hmatches ⊢
  cases hmatches with
  | ok h => exact .ok h
  | error h => exact .error h

/-! ## Other documents -/

theorem unchanged_invalidChunk {α : Type} (rootIndex : ℕ) : Unchanged (invalidChunk rootIndex : Except String α) :=
  unchanged_error (invalidChunk_ne_changed rootIndex)

theorem unchanged_finishChunk (count : ℕ) (c : Chunks) : Unchanged (finishChunk count c) := by
  rw [finishChunk]
  split
  · exact unchanged_invalidChunk _
  · refine (unchanged_required c.gridsRaw "x").bind fun rawX => ?_
    refine (unchanged_jsonI32 rawX (by decide)).bind fun x => ?_
    refine (unchanged_required c.gridsRaw "z").bind fun rawZ => ?_
    exact (unchanged_jsonI32 rawZ (by decide)).bind fun z => unchanged_ok _

theorem errs_metadataHooks : Errs metadataHooks (· ≠ changed) where
  text := by decide
  startRecord := fun c => unchanged_ok _
  otherRecord := fun event c => by
    change Unchanged (if event = .value ∨ event = .arrayStart then _ else _)
    split
    · exact unchanged_invalidChunk _
    · split <;> exact unchanged_ok _
  item := fun _ c => unchanged_ok c
  member := fun _ _ _ c => unchanged_ok _
  endRecord := unchanged_finishChunk

theorem preserves_metadataCallback :
    Json.Preserves metadataCallback (· ≠ changed) fun c => c.outer.rootIsArray = false := by
  intro depth event parsed c hdepth hc
  rw [metadataCallback, if_neg (by omega)]
  split
  · refine .ok ?_
    rw [headEvent]
    split
    · change (keepHead c.acc.rootIndex parsed c.outer).rootIsArray = false
      rw [keepHead]
      split <;> exact hc
    · exact hc
  · have hevent := event_yields errs_metadataHooks (depth - 1) event parsed c
    generalize Records.event metadataHooks (depth - 1) event parsed c = result at hevent ⊢
    cases hevent with
    | @ok r h =>
      refine .ok ?_
      rw [h]
      exact hc
    | error h => exact .error h

/-- The header, the palette and the chunks of a document. -/
def layoutFound (document : Json) : Option (Json × Json × List (List (List Char × Json) × Chunk)) :=
  match document with
  | .array (header :: rawPalette :: items) =>
    ((items.mapM recordOf).filter fun records => records ≠ [] ∧ header.normal.isObject).map fun records =>
      (header.normal, rawPalette.normal, records)
  | _ => none

/-- What the first pass finds of a document. -/
def LayoutIs (layout : Layout) (found : Json × Json × List (List (List Char × Json) × Chunk)) : Prop :=
  layout = ⟨found.1, found.2.1, found.2.2.map metadataOf⟩

theorem incomplete_ne_changed : "header/chunk array is incomplete" ≠ changed := by decide

/-- The first pass refuses a document that is no array. -/
theorem matches_layout_other {document : Json} (h : document.items? = none) :
    Matches (· ≠ changed) LayoutIs (parseWith metadataCallback document { outer := {}, acc := {} } >>= layoutOf)
      none := by
  have hroot (event : ParseEvent) (parsed : Json) (c : Cursor Head Chunks)
      (hevent : event = firstEvent document ∨ event = .arrayEnd ∨ event = .objectEnd)
      (hc : c.outer.rootIsArray = false) :
      Yields (· ≠ changed) (fun c => c.outer.rootIsArray = false) (metadataCallback 0 event parsed c) := by
    have hstart : event ≠ .arrayStart := by
      rcases hevent with rfl | rfl | rfl
      · cases document with
        | array items => cases h
        | null | boolean | unsigned | integer | float | string | object => exact fun h => by cases h
      · exact fun h => by cases h
      · exact fun h => by cases h
    rw [metadataCallback, if_pos rfl, if_neg hstart]
    exact .ok hc
  have hparse := @Json.Preserves.parseWith _ _ _ _ preserves_metadataCallback document hroot
    { outer := {}, acc := {} } rfl
  generalize parseWith metadataCallback document { outer := {}, acc := {} } = result at hparse ⊢
  cases result with
  | error error =>
    cases hparse with
    | error h => exact .error h
  | ok c =>
    cases hparse with
    | ok hc =>
      have hlayout : layoutOf c = .error "header/chunk array is incomplete" := by
        rw [layoutOf]
        split
        case h_1 => exact if_pos (.inl (Bool.eq_false_iff.mp hc))
        case h_2 => rfl
      rw [ok_bind, hlayout]
      exact .error incomplete_ne_changed

/-- The first pass finds the layout of a document. -/
theorem matches_layout (document : Json) :
    Matches (· ≠ changed) LayoutIs (parseWith metadataCallback document { outer := {}, acc := {} } >>= layoutOf)
      (layoutFound document) := by
  cases document with
  | array items =>
    rcases items with _ | ⟨header, _ | ⟨rawPalette, items⟩⟩
    · exact .error incomplete_ne_changed
    · rw [parseWith_metadata, parseItems, parse_head header Nat.two_pos]
      exact .error incomplete_ne_changed
    · have hlayout : layoutFound (.array (header :: rawPalette :: items)) =
          (items.mapM recordOf).bind fun records =>
            if records ≠ [] ∧ header.normal.isObject then some (header.normal, rawPalette.normal, records)
            else none := by
        rw [layoutFound]
        cases items.mapM recordOf with
        | none => rfl
        | some records =>
          rw [Option.filter_some, Option.bind_some]
          simp only [decide_eq_true_eq]
          split <;> rfl
      rw [hlayout]
      refine (matches_metadata header rawPalette items).bind fun c records hc => ?_
      obtain ⟨houter, hfound⟩ := hc
      have hroot : c.acc.rootIndex < 3 ↔ records = [] := by
        rw [hfound.rootIndex, ← List.length_eq_zero_iff]
        omega
      rw [layoutOf, houter]
      change Matches _ _ (if ¬ true = true ∨ c.acc.rootIndex < 3 ∨ c.acc.chunkMetadata = [] ∨
        ¬ header.normal.isObject = true then _ else _) _
      by_cases hkeep : records ≠ [] ∧ header.normal.isObject
      · have hpass : ¬ (¬ true = true ∨ c.acc.rootIndex < 3 ∨ c.acc.chunkMetadata = [] ∨
            ¬ header.normal.isObject = true) := by
          rw [hroot, hfound.chunkMetadata, List.map_eq_nil_iff]
          rintro (h | h | h | h)
          · exact h rfl
          · exact hkeep.1 h
          · exact hkeep.1 h
          · exact h hkeep.2
        rw [if_neg hpass, if_pos hkeep, hfound.chunkMetadata]
        exact .ok rfl
      · rw [if_neg hkeep, if_pos]
        · exact .error incomplete_ne_changed
        · rw [hroot]
          by_cases hnone : records = []
          · exact .inr (.inl hnone)
          · exact .inr (.inr (.inr fun hobject => hkeep ⟨hnone, hobject⟩))
  | null | boolean | unsigned | integer | float | string | object => exact matches_layout_other rfl

/-- Reading a finished document, by the layout of the document. -/
theorem readDocument_normal (registry : Registry) (version : ChunkVersion) (document : Json) :
    readDocument registry version document.normal = (layoutFound document).bind fun found =>
      (settingsOf version found.1 found.2.1).toOption.bind fun settings =>
        ((chunkEntries (found.2.2.map Prod.snd)).mapM (blockOf settings.palette)).bind fun blocks =>
          placeBlocks registry settings blocks := by
  cases document with
  | array items =>
    have hnormal : (Json.array items).normal = .array (items.map Json.normal) := by
      rw [Json.normal, normalItems_eq]
    rw [hnormal]
    rcases items with _ | ⟨header, _ | ⟨rawPalette, items⟩⟩
    · rfl
    · rfl
    · rw [List.map_cons, List.map_cons, readDocument, mapM_chunkOf_normal, layoutFound]
      cases items.mapM recordOf with
      | none => rfl
      | some records =>
        have hiff : (records.map Prod.snd ≠ [] ∧ header.normal.isObject = true) ↔
            (records ≠ [] ∧ header.normal.isObject = true) := by
          rw [Ne, List.map_eq_nil_iff]
        rw [Option.map_some, Option.filter_some, Option.filter_some]
        simp only [decide_eq_true_eq, hiff]
        split <;> rfl
  | null | boolean | unsigned | integer | float | string | object => rfl

end GangBan

end WaterStructure
