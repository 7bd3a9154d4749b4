import WaterStructure.Library.JsonSyntax

/-!
# The entries of a GangBan document

The reader goes over a document by its events and keeps no document: an entry of the root array is built
from its events, handed over as soon as it is complete, and forgotten. A JSON text has no binary values.
-/

namespace WaterStructure

namespace GangBan

open Json (SaxEvent events itemsEvents membersEvents normalItems normalMembers)
open NestedLoop

/-- `sax_parse`: the events in their order, until one is refused. -/
def saxParse {σ : Type} (handle : SaxEvent → σ → Except String (Bool × σ)) :
    List SaxEvent → σ → Except String (Bool × σ)
  | [], s => .ok (true, s)
  | event :: rest, s =>
    handle event s >>= fun r => if r.1 then saxParse handle rest r.2 else .ok (false, r.2)

theorem saxParse_append {σ : Type} {handle : SaxEvent → σ → Except String (Bool × σ)}
    (first second : List SaxEvent) (s : σ) :
    saxParse handle (first ++ second) s =
      saxParse handle first s >>= fun r => if r.1 then saxParse handle second r.2 else .ok (false, r.2) := by
  induction first generalizing s with
  | nil => rfl
  | cons event rest ih =>
    rw [List.cons_append, saxParse, saxParse]
    cases handle event s with
    | error error => rfl
    | ok r =>
      change (if r.1 then _ else _) = (if r.1 then _ else _) >>= _
      by_cases hmore : r.1 = true
      · rw [if_pos hmore, if_pos hmore, ih]
      · rw [if_neg hmore, if_neg hmore]
        rfl

/-- `Frame`: a container that is not complete. -/
structure Frame where
  value : Json
  key : List Char := []
  hasKey : Bool := false

/-- What is done with an entry, given its place. -/
abbrev Callback (σ : Type) := ℕ → Json → σ → Except String σ

/-- `RootArrayEntrySax`, with the variables of the callback. The innermost frame comes first. -/
structure RootArrayEntrySax (σ : Type) where
  frames : List Frame := []
  index : ℕ := 0
  rootStarted : Bool := false
  rootEnded : Bool := false
  error : String := ""
  acc : σ

namespace RootArrayEntrySax

variable {σ : Type} (callback : Callback σ)

def fail (sax : RootArrayEntrySax σ) (message : String) : Bool × RootArrayEntrySax σ :=
  (false, if sax.error = "" then { sax with error := message } else sax)

/-- A complete value goes into the container around it; an entry goes to the callback. -/
def append (value : Json) (sax : RootArrayEntrySax σ) : Except String (Bool × RootArrayEntrySax σ) :=
  match sax.frames with
  | [] => (callback sax.index value sax.acc).map fun acc => (true, { sax with index := sax.index + 1, acc })
  | ⟨.array items, key, hasKey⟩ :: outer =>
    .ok (true, { sax with frames := ⟨.array (items ++ [value]), key, hasKey⟩ :: outer })
  | ⟨.object members, key, true⟩ :: outer =>
    .ok (true, { sax with frames := ⟨.object (SortedMap.setEntry key value members), [], false⟩ :: outer })
  | _ => .ok (sax.fail "object value is missing its key")

def scalar (value : Json) (sax : RootArrayEntrySax σ) : Except String (Bool × RootArrayEntrySax σ) :=
  if ¬ sax.rootStarted then .ok (sax.fail "root is not an array")
  else if sax.rootEnded then .ok (sax.fail "JSON value follows the root array")
  else append callback value sax

def startObject (sax : RootArrayEntrySax σ) : Bool × RootArrayEntrySax σ :=
  if ¬ sax.rootStarted then sax.fail "root is not an array"
  else if sax.rootEnded then sax.fail "JSON value follows the root array"
  else (true, { sax with frames := ⟨.object [], [], false⟩ :: sax.frames })

def key (name : List Char) (sax : RootArrayEntrySax σ) : Bool × RootArrayEntrySax σ :=
  match sax.frames with
  | ⟨.object members, _, _⟩ :: outer =>
    (true, { sax with frames := ⟨.object members, name, true⟩ :: outer })
  | _ => sax.fail "object key appears outside an object"

def endObject (sax : RootArrayEntrySax σ) : Except String (Bool × RootArrayEntrySax σ) :=
  match sax.frames with
  | ⟨.object members, _, _⟩ :: outer => append callback (.object members) { sax with frames := outer }
  | _ => .ok (sax.fail "mismatched object terminator")

def startArray (sax : RootArrayEntrySax σ) : Bool × RootArrayEntrySax σ :=
  if ¬ sax.rootStarted then (true, { sax with rootStarted := true })
  else if sax.rootEnded then sax.fail "JSON value follows the root array"
  else (true, { sax with frames := ⟨.array [], [], false⟩ :: sax.frames })

def endArray (sax : RootArrayEntrySax σ) : Except String (Bool × RootArrayEntrySax σ) :=
  match sax.frames with
  | [] =>
    if ¬ sax.rootStarted ∨ sax.rootEnded then .ok (sax.fail "mismatched array terminator")
    else .ok (true, { sax with rootEnded := true })
  | ⟨.array items, _, _⟩ :: outer => append callback (.array items) { sax with frames := outer }
  | _ => .ok (sax.fail "mismatched array terminator")

/-- The callbacks of the parser. -/
def handle : SaxEvent → RootArrayEntrySax σ → Except String (Bool × RootArrayEntrySax σ)
  | .null, sax => scalar callback .null sax
  | .boolean value, sax => scalar callback (.boolean value) sax
  | .numberInteger value, sax => scalar callback (.integer value) sax
  | .numberUnsigned value, sax => scalar callback (.unsigned value) sax
  | .numberFloat value, sax => scalar callback (.float value) sax
  | .string value, sax => scalar callback (.string value) sax
  | .startObject, sax => .ok sax.startObject
  | .key name, sax => .ok (sax.key name)
  | .endObject, sax => endObject callback sax
  | .startArray, sax => .ok sax.startArray
  | .endArray, sax => endArray callback sax
  | .binary, sax => .ok (sax.fail "JSON parse error")
  | .parseError, sax => .ok (sax.fail "JSON parse error")

/-- `finish`: the variables of the callback behind a complete root array. -/
def finish (sax : RootArrayEntrySax σ) : Except String σ :=
  if sax.error ≠ "" then .error sax.error
  else if ¬ sax.rootStarted ∨ ¬ sax.rootEnded ∨ sax.frames ≠ [] then .error "root array is incomplete"
  else .ok sax.acc

end RootArrayEntrySax

open RootArrayEntrySax

/-- `for_each_root_entry`. -/
def forEachRootEntry {σ : Type} (callback : Callback σ) (document : Json) (s : σ) : Except String σ :=
  saxParse (handle callback) document.events { acc := s } >>= fun r =>
    if ¬ r.1 then .error (if r.2.error = "" then "cannot parse GangBan root array" else r.2.error)
    else r.2.finish

/-- An error with a text in front of it is an error. -/
theorem mapError_ok {α : Type} {result : Except String α} {f : String → String} {a : α} :
    result.mapError f = .ok a ↔ result = .ok a := by
  cases result with
  | error error => exact iff_of_false (fun h => by cases h) (fun h => by cases h)
  | ok b => exact Iff.rfl

/-! ## What the callback is given -/

section Entries

variable {σ : Type} {callback : Callback σ}

/-- Between the brackets of the root array. -/
structure InRoot (sax : RootArrayEntrySax σ) : Prop where
  started : sax.rootStarted = true
  ended : sax.rootEnded = false

theorem InRoot.scalar {sax : RootArrayEntrySax σ} (h : InRoot sax) (value : Json) :
    RootArrayEntrySax.scalar callback value sax = append callback value sax := by
  rw [RootArrayEntrySax.scalar, if_neg (by simp [h.started]), if_neg (by simp [h.ended])]

theorem saxParse_single {σ : Type} {handle : SaxEvent → σ → Except String (Bool × σ)} (event : SaxEvent)
    (s : σ) : saxParse handle [event] s = handle event s := by
  rw [saxParse]
  cases handle event s with
  | error error => rfl
  | ok r =>
    obtain ⟨more, t⟩ := r
    cases more <;> rfl

theorem InRoot.items {items : List Json} (hitems : ∀ item ∈ items, ∀ sax : RootArrayEntrySax σ, InRoot sax →
      saxParse (handle callback) item.events sax = append callback item.normal sax)
    {sax : RootArrayEntrySax σ} (h : InRoot sax) (kept : List Json) (outer : List Frame) :
    saxParse (handle callback) (itemsEvents items) { sax with frames := ⟨.array kept, [], false⟩ :: outer } =
      .ok (true, { sax with frames := ⟨.array (kept ++ normalItems items), [], false⟩ :: outer }) := by
  induction items generalizing kept with
  | nil => rw [normalItems, List.append_nil]; rfl
  | cons item rest ih =>
    have hitem := hitems item List.mem_cons_self
      { sax with frames := ⟨.array kept, [], false⟩ :: outer } ⟨h.started, h.ended⟩
    have hrest := ih (fun other hother => hitems other (List.mem_cons_of_mem item hother))
      (kept ++ [item.normal])
    have hkept : kept ++ item.normal :: normalItems rest = kept ++ [item.normal] ++ normalItems rest := by
      rw [List.append_assoc, List.singleton_append]
    rw [itemsEvents, saxParse_append, hitem, normalItems, hkept]
    exact hrest

theorem InRoot.members {members : List (List Char × Json)} (hmembers : ∀ member ∈ members,
      ∀ sax : RootArrayEntrySax σ, InRoot sax →
        saxParse (handle callback) member.2.events sax = append callback member.2.normal sax)
    {sax : RootArrayEntrySax σ} (h : InRoot sax) (kept : List (List Char × Json)) (outer : List Frame) :
    saxParse (handle callback) (membersEvents members)
        { sax with frames := ⟨.object kept, [], false⟩ :: outer } =
      .ok (true, { sax with frames := ⟨.object (normalMembers members kept), [], false⟩ :: outer }) := by
  induction members generalizing kept with
  | nil => rfl
  | cons member rest ih =>
    obtain ⟨name, value⟩ := member
    have hvalue := hmembers (name, value) List.mem_cons_self
      { sax with frames := ⟨.object kept, name, true⟩ :: outer } ⟨h.started, h.ended⟩
    have hrest := ih (fun other hother => hmembers other (List.mem_cons_of_mem _ hother))
      (SortedMap.setEntry name value.normal kept)
    rw [membersEvents, Json.memberEvents, List.cons_append, saxParse]
    change saxParse (handle callback) (value.events ++ membersEvents rest)
      { sax with frames := ⟨.object kept, name, true⟩ :: outer } = _
    rw [saxParse_append, hvalue]
    exact hrest

/-- The events of a value hand it over, with the last member of a name. -/
theorem InRoot.value (value : Json) {sax : RootArrayEntrySax σ} (h : InRoot sax) :
    saxParse (handle callback) value.events sax = append callback value.normal sax := by
  have hscalar (sax : RootArrayEntrySax σ) (h : InRoot sax) (event : SaxEvent) (value : Json)
      (hevent : handle callback event sax = RootArrayEntrySax.scalar callback value sax) :
      saxParse (handle callback) [event] sax = append callback value sax := by
    rw [saxParse_single, hevent, h.scalar]
  induction value using Json.inductionOn generalizing sax with
  | hnull | hboolean | hunsigned | hinteger | hfloat | hstring => exact hscalar sax h _ _ rfl
  | harray items ih =>
    have hstart : handle callback .startArray sax =
        .ok (true, { sax with frames := ⟨.array [], [], false⟩ :: sax.frames }) := by
      rw [handle, RootArrayEntrySax.startArray, if_neg (by simp [h.started]), if_neg (by simp [h.ended])]
    rw [Json.events, saxParse, hstart, ok_bind]
    change saxParse (handle callback) (itemsEvents items ++ [.endArray])
      { sax with frames := ⟨.array [], [], false⟩ :: sax.frames } = _
    rw [saxParse_append, InRoot.items (fun item hitem sax h => ih item hitem h) h, ok_bind]
    exact saxParse_single .endArray _
  | hobject members ih =>
    have hstart : handle callback .startObject sax =
        .ok (true, { sax with frames := ⟨.object [], [], false⟩ :: sax.frames }) := by
      rw [handle, RootArrayEntrySax.startObject, if_neg (by simp [h.started]), if_neg (by simp [h.ended])]
    rw [Json.events, saxParse, hstart, ok_bind]
    change saxParse (handle callback) (membersEvents members ++ [.endObject])
      { sax with frames := ⟨.object [], [], false⟩ :: sax.frames } = _
    rw [saxParse_append, InRoot.members (fun member hmember sax h => ih member hmember h) h, ok_bind]
    exact saxParse_single .endObject _

/-- The entries of the root array go to the callback in their order. -/
theorem saxParse_entries (callback : Callback σ) (items : List Json) (index : ℕ) (acc : σ) :
    saxParse (handle callback) (itemsEvents items) { index, rootStarted := true, acc } =
      (((items.map Json.normal).zipIdx index).foldlM
        (fun s (entry : Json × ℕ) => callback entry.2 entry.1 s) acc).map
          fun acc => (true, { index := index + items.length, rootStarted := true, acc }) := by
  induction items generalizing index acc with
  | nil => rfl
  | cons item rest ih =>
    have hitem := @InRoot.value σ callback item { index, rootStarted := true, acc } ⟨rfl, rfl⟩
    rw [itemsEvents, saxParse_append, hitem, append, List.map_cons, List.zipIdx_cons, List.foldlM_cons]
    cases callback index item.normal acc with
    | error error => rfl
    | ok next =>
      have hlength : index + (item :: rest).length = index + 1 + rest.length := by
        rw [List.length_cons]
        omega
      rw [hlength]
      exact ih (index + 1) next

theorem forEachRootEntry_array (callback : Callback σ) (items : List Json) (s : σ) :
    forEachRootEntry callback (.array items) s =
      (items.map Json.normal).zipIdx.foldlM (fun s entry => callback entry.2 entry.1 s) s := by
  rw [forEachRootEntry, Json.events, saxParse]
  change (saxParse (handle callback) (itemsEvents items ++ [.endArray]) { rootStarted := true, acc := s }
    >>= _) = _
  rw [saxParse_append, saxParse_entries]
  cases (items.map Json.normal).zipIdx.foldlM (fun s entry => callback entry.2 entry.1 s) s <;> rfl

end Entries

end GangBan

end WaterStructure
