import Mathlib.Data.Char
import Mathlib.Data.List.Lex
import WaterStructure.Library.Json
import WaterStructure.Library.NestedLoop
import WaterStructure.Library.SortedMap
import WaterStructure.Library.StatefulRun

/-!
# Parsing JSON with a callback

The parser calls back at every event, with the nesting depth of the event and with what it has parsed,
and the callback says whether to keep it. What is not kept is dropped from the value around it. Inside
of a container that is not wanted there are no events for its values, and the end of a container
without a place is no event either.
-/

namespace Json

open StatefulRun

/-- Induction over a value, with the values inside of it as lists. -/
theorem inductionOn {P : Json → Prop} (hnull : P .null) (hboolean : ∀ value, P (.boolean value))
    (hunsigned : ∀ value, P (.unsigned value)) (hinteger : ∀ value, P (.integer value))
    (hfloat : ∀ value, P (.float value)) (hstring : ∀ value, P (.string value))
    (harray : ∀ items, (∀ item ∈ items, P item) → P (.array items))
    (hobject : ∀ members, (∀ member ∈ members, P member.2) → P (.object members)) (value : Json) :
    P value := by
  refine Json.rec (motive_1 := P) (motive_2 := fun items => ∀ item ∈ items, P item)
    (motive_3 := fun members => ∀ member ∈ members, P member.2) (motive_4 := fun member => P member.2)
    hnull hboolean hunsigned hinteger hfloat hstring harray hobject (fun _ h => nomatch h) ?_
    (fun _ h => nomatch h) ?_ (fun _ _ h => h) value
  · exact fun item items hitem hitems => List.forall_mem_cons.mpr ⟨hitem, hitems⟩
  · exact fun member members hmember hmembers => List.forall_mem_cons.mpr ⟨hmember, hmembers⟩

/-- `parse_event_t`. -/
inductive ParseEvent where
  | objectStart
  | objectEnd
  | arrayStart
  | arrayEnd
  | key
  | value
  deriving DecidableEq

/-- What to do at an event, given its depth and what has been parsed. -/
abbrev Callback (σ : Type) := ℕ → ParseEvent → Json → σ → Except String (Bool × σ)

/-- The members parsed so far and one more; a member that is not kept takes an older one of its name
with it. -/
def storeMember (kept : List (List Char × Json)) (name : List Char) :
    Option Json → List (List Char × Json)
  | some value => SortedMap.setEntry name value kept
  | none => kept.filter fun member => member.1 ≠ name

mutual

/-- A value as the parser returns it when everything is kept: members are in key order, and the last
one of a name counts. -/
def normal : Json → Json
  | .array items => .array (normalItems items)
  | .object members => .object (normalMembers members [])
  | value => value
termination_by structural value => value

def normalItems : List Json → List Json
  | [] => []
  | item :: rest => item.normal :: normalItems rest
termination_by structural items => items

def normalMembers : List (List Char × Json) → List (List Char × Json) → List (List Char × Json)
  | [], kept => kept
  | member :: rest, kept => normalMembers rest (normalMember member kept)
termination_by structural members => members

def normalMember : List Char × Json → List (List Char × Json) → List (List Char × Json)
  | (name, value), kept => storeMember kept name (some value.normal)
termination_by structural member => member

end

section Parser

variable {σ : Type} (callback : Callback σ)

/-- The end of a container, which is an event if the container has a place. -/
def parseEnd (depth : ℕ) (event : ParseEvent) (placed : Bool) (value : Json) (s : σ) :
    Except String (Option Json × σ) :=
  if placed then (callback depth event value s).map fun r => (if r.1 then some value else none, r.2)
  else .ok (none, s)

/-- A value that is no container. -/
def parseScalar (depth : ℕ) (wanted placed : Bool) (value : Json) (s : σ) :
    Except String (Option Json × σ) :=
  if wanted then
    (callback depth .value value s).map fun r => (if r.1 && placed then some value else none, r.2)
  else .ok (none, s)

mutual

/-- Parse a value in a container that is `wanted` or not, to a place or to none. -/
def parseValue (depth : ℕ) (wanted placed : Bool) : Json → σ → Except String (Option Json × σ)
  | .array items, s => do
    let (inner, s) ← callback depth .arrayStart .null s
    let (kept, s) ← parseItems (depth + 1) inner (inner && placed) items [] s
    parseEnd callback depth .arrayEnd (inner && placed) (.array kept) s
  | .object members, s => do
    let (inner, s) ← callback depth .objectStart .null s
    let (kept, s) ← parseMembers (depth + 1) inner (inner && placed) members [] s
    parseEnd callback depth .objectEnd (inner && placed) (.object kept) s
  | value, s => parseScalar callback depth wanted placed value s
termination_by structural value => value

def parseItems (depth : ℕ) (wanted placed : Bool) :
    List Json → List Json → σ → Except String (List Json × σ)
  | [], kept, s => .ok (kept, s)
  | item :: rest, kept, s => do
    let (value, s) ← parseValue depth wanted placed item s
    parseItems depth wanted placed rest (kept ++ value.toList) s
termination_by structural items => items

def parseMembers (depth : ℕ) (wanted placed : Bool) :
    List (List Char × Json) → List (List Char × Json) → σ →
      Except String (List (List Char × Json) × σ)
  | [], kept, s => .ok (kept, s)
  | member :: rest, kept, s => do
    let (kept, s) ← parseMember depth wanted placed member kept s
    parseMembers depth wanted placed rest kept s
termination_by structural members => members

def parseMember (depth : ℕ) (wanted placed : Bool) :
    List Char × Json → List (List Char × Json) → σ →
      Except String (List (List Char × Json) × σ)
  | (name, value), kept, s => do
    let (named, s) ← callback depth .key (.string name) s
    let (value, s) ← parseValue depth wanted (placed && named) value s
    return (if named then storeMember kept name value else kept, s)
termination_by structural member => member

end

/-- `parse` with a callback: the state that the events leave. -/
def parseWith (document : Json) (s : σ) : Except String σ :=
  (parseValue callback 0 true true document s).map Prod.snd

variable {callback}

/-- The events inside of a value at a depth do not change the state. -/
def Idle (callback : Callback σ) (depth : ℕ) (s : σ) : Prop :=
  ∀ other event parsed, depth < other → ∃ keep, callback other event parsed s = .ok (keep, s)

variable {s : σ}

theorem Idle.succ {depth : ℕ} (h : Idle callback depth s) : Idle callback (depth + 1) s :=
  fun other event parsed hother => h other event parsed (Nat.lt_of_succ_lt hother)

theorem Idle.scalar {depth : ℕ} (h : Idle callback depth s) (wanted placed : Bool) (value : Json) :
    ∃ kept, parseScalar callback (depth + 1) wanted placed value s = .ok (kept, s) := by
  obtain ⟨keep, hkeep⟩ := h (depth + 1) .value value (Nat.lt_succ_self depth)
  rw [parseScalar, hkeep]
  cases wanted
  · exact ⟨none, rfl⟩
  · exact ⟨_, rfl⟩

theorem Idle.end {depth : ℕ} (h : Idle callback depth s) (event : ParseEvent) (placed : Bool) (value : Json) :
    ∃ kept, parseEnd callback (depth + 1) event placed value s = .ok (kept, s) := by
  obtain ⟨keep, hkeep⟩ := h (depth + 1) event value (Nat.lt_succ_self depth)
  rw [parseEnd, hkeep]
  cases placed
  · exact ⟨none, rfl⟩
  · exact ⟨_, rfl⟩

theorem parseItems_idle {items : List Json} {depth : ℕ} {wanted placed : Bool} {s : σ}
    (h : ∀ item ∈ items, ∃ kept, parseValue callback depth wanted placed item s = .ok (kept, s))
    (kept : List Json) :
    ∃ result, parseItems callback depth wanted placed items kept s = .ok (result, s) := by
  induction items generalizing kept with
  | nil => exact ⟨kept, rfl⟩
  | cons item rest ih =>
    obtain ⟨value, hvalue⟩ := h item List.mem_cons_self
    rw [parseItems, hvalue]
    exact ih (fun other hother => h other (List.mem_cons_of_mem item hother)) _

variable {members : List (List Char × Json)}

theorem parseMembers_idle {depth : ℕ} {wanted placed : Bool}
    (hkey : ∀ name, ∃ named, callback depth .key (.string name) s = .ok (named, s))
    (h : ∀ member ∈ members, ∀ placed, ∃ kept,
      parseValue callback depth wanted placed member.2 s = .ok (kept, s)) (kept : List (List Char × Json)) :
    ∃ result, parseMembers callback depth wanted placed members kept s = .ok (result, s) := by
  induction members generalizing kept with
  | nil => exact ⟨kept, rfl⟩
  | cons member rest ih =>
    obtain ⟨name, content⟩ := member
    obtain ⟨named, hnamed⟩ := hkey name
    obtain ⟨value, hvalue⟩ := h (name, content) List.mem_cons_self (placed && named)
    rw [parseMembers, parseMember, hnamed, NestedLoop.ok_bind]
    dsimp only
    rw [hvalue]
    exact ih (fun other hother => h other (List.mem_cons_of_mem _ hother)) _

/-- Parsing a value inside of one that changes nothing. -/
theorem parseValue_idle (value : Json) {depth : ℕ} (h : Idle callback depth s) (wanted placed : Bool) :
    ∃ kept, parseValue callback (depth + 1) wanted placed value s = .ok (kept, s) := by
  induction value using inductionOn generalizing depth wanted placed with
  | hnull | hboolean | hunsigned | hinteger | hfloat | hstring => exact h.scalar wanted placed _
  | harray items ih =>
    obtain ⟨inner, hstart⟩ := h (depth + 1) .arrayStart .null (Nat.lt_succ_self depth)
    obtain ⟨kept, hkept⟩ := parseItems_idle (fun item hitem => ih item hitem h.succ inner (inner && placed)) []
    obtain ⟨result, hresult⟩ := h.end .arrayEnd (inner && placed) (.array kept)
    refine ⟨result, ?_⟩
    rw [parseValue, hstart, NestedLoop.ok_bind]
    dsimp only
    rw [hkept]
    exact hresult
  | hobject members ih =>
    obtain ⟨inner, hstart⟩ := h (depth + 1) .objectStart .null (Nat.lt_succ_self depth)
    obtain ⟨kept, hkept⟩ := parseMembers_idle
      (fun name => h.succ (depth + 2) .key (.string name) (Nat.lt_succ_self (depth + 1)))
      (fun member hmember placed => ih member hmember h.succ inner placed) []
    obtain ⟨result, hresult⟩ := h.end .objectEnd (inner && placed) (.object kept)
    refine ⟨result, ?_⟩
    rw [parseValue, hstart, NestedLoop.ok_bind]
    dsimp only
    rw [hkept]
    exact hresult

/-- The first event of a value. -/
def firstEvent : Json → ParseEvent
  | .array _ => .arrayStart
  | .object _ => .objectStart
  | _ => .value

/-- What the first event of a value is given. -/
def firstParsed : Json → Json
  | .array _ => .null
  | .object _ => .null
  | value => value

/-- Parsing a value that is dropped at its first event. -/
theorem parseValue_dropped (value : Json) {depth : ℕ} {s : σ} {act : Except String σ} (placed : Bool)
    (hfirst : callback depth (firstEvent value) (firstParsed value) s = act.map fun t => (false, t))
    (hidle : ∀ t, act = .ok t → Idle callback depth t) :
    parseValue callback depth true placed value s = act.map fun t => (none, t) := by
  cases value with
  | array items =>
    dsimp only [firstEvent, firstParsed] at hfirst
    rw [parseValue, hfirst]
    cases hact : act with
    | error error => rfl
    | ok t =>
      obtain ⟨kept, hkept⟩ := parseItems_idle
        (fun item _ => parseValue_idle item (hidle t hact) false (false && placed)) []
      change parseItems callback (depth + 1) false (false && placed) items [] t >>= _ = _
      rw [hkept]
      rfl
  | object members =>
    dsimp only [firstEvent, firstParsed] at hfirst
    rw [parseValue, hfirst]
    cases hact : act with
    | error error => rfl
    | ok t =>
      obtain ⟨kept, hkept⟩ := parseMembers_idle
        (fun name => hidle t hact (depth + 1) .key (.string name) (Nat.lt_succ_self depth))
        (fun member _ placed => parseValue_idle member.2 (hidle t hact) false placed) []
      change parseMembers callback (depth + 1) false (false && placed) members [] t >>= _ = _
      rw [hkept]
      rfl
  | null | boolean | unsigned | integer | float | string =>
    change callback depth .value _ s = _ at hfirst
    change parseScalar callback depth true placed _ s = _
    rw [parseScalar, if_pos rfl]
    simp only [firstParsed] at hfirst
    rw [hfirst]
    cases act <;> rfl

/-- Everything inside of a value at a depth is kept, and does not change the state. -/
def Keeps (callback : Callback σ) (depth : ℕ) (s : σ) : Prop :=
  ∀ other event parsed, depth < other → callback other event parsed s = .ok (true, s)

theorem Keeps.succ {depth : ℕ} (h : Keeps callback depth s) : Keeps callback (depth + 1) s :=
  fun other event parsed hother => h other event parsed (Nat.lt_of_succ_lt hother)

theorem parseItems_kept {items : List Json} {depth : ℕ}
    (h : ∀ item ∈ items, parseValue callback depth true true item s = .ok (some item.normal, s))
    (kept : List Json) :
    parseItems callback depth true true items kept s = .ok (kept ++ normalItems items, s) := by
  induction items generalizing kept with
  | nil => rw [parseItems, normalItems, List.append_nil]
  | cons item rest ih =>
    rw [parseItems, h item List.mem_cons_self, NestedLoop.ok_bind]
    dsimp only
    rw [ih fun other hother => h other (List.mem_cons_of_mem item hother), normalItems,
      Option.toList_some, List.append_assoc, List.singleton_append]

theorem parseMembers_kept {depth : ℕ} (hkey : ∀ name, callback depth .key (.string name) s = .ok (true, s))
    (h : ∀ member ∈ members, parseValue callback depth true true member.2 s = .ok (some member.2.normal, s))
    (kept : List (List Char × Json)) :
    parseMembers callback depth true true members kept s = .ok (normalMembers members kept, s) := by
  induction members generalizing kept with
  | nil => rfl
  | cons member rest ih =>
    obtain ⟨name, content⟩ := member
    have hcontent := h (name, content) List.mem_cons_self
    dsimp only at hcontent
    rw [parseMembers, parseMember, hkey name, NestedLoop.ok_bind]
    dsimp only
    rw [Bool.and_self, hcontent, normalMembers, normalMember]
    exact ih (fun other hother => h other (List.mem_cons_of_mem _ hother)) _

/-- Parsing a value inside of one that is kept. -/
theorem parseValue_kept (value : Json) {depth : ℕ} (h : Keeps callback depth s) :
    parseValue callback (depth + 1) true true value s = .ok (some value.normal, s) := by
  have hevent (depth : ℕ) (h : Keeps callback depth s) (event : ParseEvent) (parsed : Json) :
      callback (depth + 1) event parsed s = .ok (true, s) :=
    h (depth + 1) event parsed (Nat.lt_succ_self depth)
  have hscalar (depth : ℕ) (h : Keeps callback depth s) (value : Json) :
      parseScalar callback (depth + 1) true true value s = .ok (some value, s) := by
    rw [parseScalar, if_pos rfl, hevent depth h]
    rfl
  have hend (depth : ℕ) (h : Keeps callback depth s) (event : ParseEvent) (value : Json) :
      parseEnd callback (depth + 1) event true value s = .ok (some value, s) := by
    rw [parseEnd, if_pos rfl, hevent depth h]
    rfl
  induction value using inductionOn generalizing depth with
  | hnull | hboolean | hunsigned | hinteger | hfloat | hstring => exact hscalar depth h _
  | harray items ih =>
    rw [parseValue, hevent depth h, NestedLoop.ok_bind]
    dsimp only
    rw [Bool.and_self, parseItems_kept fun item hitem => ih item hitem h.succ, NestedLoop.ok_bind]
    exact hend depth h .arrayEnd _
  | hobject members ih =>
    rw [parseValue, hevent depth h, NestedLoop.ok_bind]
    dsimp only
    rw [Bool.and_self, parseMembers_kept (fun name => hevent (depth + 1) h.succ .key (.string name))
      fun member hmember => ih member hmember h.succ, NestedLoop.ok_bind]
    exact hend depth h .objectEnd _

/-- Parsing a value that is kept until it is complete, and then taken and dropped. -/
theorem parseValue_taken (value : Json) {depth : ℕ} {s : σ} {take : Json → σ → Except String σ}
    (h : Keeps callback depth s)
    (hstart : ∀ event parsed, event = .arrayStart ∨ event = .objectStart →
      callback depth event parsed s = .ok (true, s))
    (htake : ∀ event parsed, event = .arrayEnd ∨ event = .objectEnd ∨ event = .value →
      callback depth event parsed s = (take parsed s).map fun s => (false, s)) :
    parseValue callback depth true true value s = (take value.normal s).map fun s => (none, s) := by
  have hdrop (event : ParseEvent) (hevent : event = .arrayEnd ∨ event = .objectEnd ∨ event = .value)
      (parsed : Json) : ((callback depth event parsed s).map fun r =>
        (if r.1 then some parsed else none, r.2)) = (take parsed s).map fun s => (none, s) := by
    rw [htake event parsed hevent]
    cases take parsed s <;> rfl
  cases value with
  | array items =>
    rw [parseValue, hstart .arrayStart .null (.inl rfl), NestedLoop.ok_bind]
    dsimp only
    rw [Bool.and_self, parseItems_kept fun item _ => parseValue_kept item h, NestedLoop.ok_bind]
    exact hdrop .arrayEnd (.inl rfl) _
  | object members =>
    rw [parseValue, hstart .objectStart .null (.inr rfl), NestedLoop.ok_bind]
    dsimp only
    rw [Bool.and_self, parseMembers_kept (fun name => h _ .key _ (Nat.lt_succ_self depth))
      fun member _ => parseValue_kept member.2 h, NestedLoop.ok_bind]
    exact hdrop .objectEnd (.inr (.inl rfl)) _
  | null | boolean | unsigned | integer | float | string =>
    have hvalue := fun parsed => hdrop .value (.inr (.inr rfl)) parsed
    simpa [parseValue, parseScalar, normal] using hvalue _

/-- Parsing a value that is passed over and dropped at its end. -/
theorem parseValue_passed (value : Json) {depth : ℕ} {t : σ} (h : Idle callback depth s)
    (hstart : ∀ event, event = .arrayStart ∨ event = .objectStart →
      callback depth event .null s = .ok (true, s))
    (hend : ∀ event parsed, event = .arrayEnd ∨ event = .objectEnd ∨ event = .value →
      callback depth event parsed s = .ok (false, t)) :
    parseValue callback depth true true value s = .ok (none, t) := by
  cases value with
  | array items =>
    obtain ⟨kept, hkept⟩ := parseItems_idle (fun item _ => parseValue_idle item h true true) []
    rw [parseValue, hstart .arrayStart (.inl rfl), NestedLoop.ok_bind]
    dsimp only
    rw [Bool.and_self, hkept, NestedLoop.ok_bind]
    change parseEnd callback depth .arrayEnd true (.array kept) s = _
    rw [parseEnd, if_pos rfl, hend .arrayEnd _ (.inl rfl)]
    rfl
  | object members =>
    obtain ⟨kept, hkept⟩ := parseMembers_idle
      (fun name => h (depth + 1) .key (.string name) (Nat.lt_succ_self depth))
      (fun member _ placed => parseValue_idle member.2 h true placed) []
    rw [parseValue, hstart .objectStart (.inr rfl), NestedLoop.ok_bind]
    dsimp only
    rw [Bool.and_self, hkept, NestedLoop.ok_bind]
    change parseEnd callback depth .objectEnd true (.object kept) s = _
    rw [parseEnd, if_pos rfl, hend .objectEnd _ (.inr (.inl rfl))]
    rfl
  | null | boolean | unsigned | integer | float | string =>
    change parseScalar callback depth true true _ s = _
    rw [parseScalar, if_pos rfl, hend .value _ (.inr (.inr rfl))]
    rfl

section Alike

variable {τ : Type} {R : σ → τ → Prop} {depth : ℕ} {wanted placed : Bool}

/-- The loop over the items of an array, when a plain loop does what the events of an item do. -/
theorem parseItems_alike {step : τ → Json → Except String τ} {items : List Json}
    (h : ∀ item ∈ items, ∀ s t, R s t → Alike (fun r t => R r.2 t)
      (parseValue callback depth wanted placed item s) (step t item))
    {kept : List Json} {s : σ} {t : τ} (hrel : R s t) :
    Alike (fun r t => R r.2 t) (parseItems callback depth wanted placed items kept s)
      (items.foldlM step t) := by
  induction items generalizing kept s t with
  | nil => exact .ok hrel
  | cons item rest ih =>
    rw [parseItems, List.foldlM_cons]
    exact (h item List.mem_cons_self s t hrel).bind fun r t hr =>
      ih (fun other hother => h other (List.mem_cons_of_mem item hother)) hr

/-- The loop over the members of an object. -/
theorem parseMembers_alike {step : τ → List Char × Json → Except String τ}
    {members : List (List Char × Json)}
    (h : ∀ member ∈ members, ∀ kept s t, R s t → Alike (fun r t => R r.2 t)
      (parseMember callback depth wanted placed member kept s) (step t member))
    {kept : List (List Char × Json)} {s : σ} {t : τ} (hrel : R s t) :
    Alike (fun r t => R r.2 t) (parseMembers callback depth wanted placed members kept s)
      (members.foldlM step t) := by
  induction members generalizing kept s t with
  | nil => exact .ok hrel
  | cons member rest ih =>
    rw [parseMembers, List.foldlM_cons]
    exact (h member List.mem_cons_self kept s t hrel).bind fun r t hr =>
      ih (fun other hother => h other (List.mem_cons_of_mem member hother)) hr

/-- An object whose members are dropped at their first events. -/
theorem parseWith_members {named : List Char → σ → σ} {act : Json → σ → Except String σ} {start first : σ}
    (hstart : callback 0 .objectStart .null start = .ok (true, first))
    (hkey : ∀ name s, callback 1 .key (.string name) s = .ok (true, named name s))
    (hvalue : ∀ value s, callback 1 (firstEvent value) (firstParsed value) s =
      (act value s).map fun t => (false, t))
    (hidle : ∀ s, Idle callback 1 s)
    (hend : ∀ value s, ∃ keep, callback 0 .objectEnd value s = .ok (keep, s))
    (members : List (List Char × Json)) :
    parseWith callback (.object members) start =
      members.foldlM (fun s member => act member.2 (named member.1 s)) first := by
  have hmember (member : List Char × Json) (kept : List (List Char × Json)) (s t : σ) (hs : s = t) :
      Alike (fun r t => r.2 = t) (parseMember callback 1 true true member kept s)
        (act member.2 (named member.1 t)) := by
    obtain ⟨name, value⟩ := member
    subst hs
    rw [parseMember, hkey, NestedLoop.ok_bind]
    dsimp only
    rw [Bool.and_self, parseValue_dropped value true (hvalue value _) fun t _ => hidle t]
    cases act value (named name s) with
    | error error => exact .error error
    | ok t => exact .ok rfl
  have hmembers := @parseMembers_alike _ callback _ (fun s t => s = t) 1 true true _ members
    (fun member _ => hmember member) [] first first rfl
  rw [parseWith, parseValue, hstart, NestedLoop.ok_bind]
  change (parseMembers callback 1 true true members [] first >>=
    fun r => parseEnd callback 0 .objectEnd true (.object r.1) r.2).map Prod.snd = _
  generalize parseMembers callback 1 true true members [] first = result at hmembers ⊢
  generalize members.foldlM (fun s member => act member.2 (named member.1 s)) first = plain at hmembers ⊢
  cases hmembers with
  | error error => rfl
  | @ok r t h =>
    obtain ⟨keep, hkeep⟩ := hend (.object r.1) r.2
    change (parseEnd callback 0 .objectEnd true (.object r.1) r.2).map Prod.snd = _
    rw [parseEnd, if_pos rfl, hkeep, h]
    rfl

end Alike

/-! ## What all events keep -/

/-- The state behind a computation has a property, or its error does. -/
inductive Yields {β : Type} (E : String → Prop) (Inv : σ → Prop) : Except String (β × σ) → Prop
  | ok {r : β × σ} (h : Inv r.2) : Yields E Inv (.ok r)
  | error {e : String} (h : E e) : Yields E Inv (.error e)

/-- The events below the root keep an invariant. -/
def Preserves (callback : Callback σ) (E : String → Prop) (Inv : σ → Prop) : Prop :=
  ∀ depth event parsed s, 0 < depth → Inv s → Yields E Inv (callback depth event parsed s)

section Preserves

variable {E : String → Prop} {Inv : σ → Prop}

theorem Yields.bind {β γ : Type} {first : Except String (β × σ)} {next : β × σ → Except String (γ × σ)}
    (h : Yields E Inv first) (hnext : ∀ r, Inv r.2 → Yields E Inv (next r)) :
    Yields E Inv (first >>= next) := by
  cases h with
  | ok h => exact hnext _ h
  | error h => exact .error h

theorem Yields.map {β γ : Type} {first : Except String (β × σ)} {f : β × σ → γ × σ} (h : Yields E Inv first)
    (hf : ∀ r, (f r).2 = r.2) : Yields E Inv (first.map f) := by
  cases h with
  | @ok r h => exact .ok ((hf r).symm ▸ h)
  | error h => exact .error h

variable {depth : ℕ} {s : σ} {value : Json} {wanted placed : Bool}

theorem yields_scalar (hs : Inv s) (h : Yields E Inv (callback depth .value value s)) (wanted placed : Bool) :
    Yields E Inv (parseScalar callback depth wanted placed value s) := by
  rw [parseScalar]
  cases wanted with
  | true => exact h.map fun _ => rfl
  | false => exact .ok hs

theorem yields_end {event : ParseEvent} (hs : Inv s) (h : Yields E Inv (callback depth event value s))
    (placed : Bool) : Yields E Inv (parseEnd callback depth event placed value s) := by
  rw [parseEnd]
  cases placed with
  | true => exact h.map fun _ => rfl
  | false => exact .ok hs

theorem parseItems_yields {items : List Json}
    (h : ∀ item ∈ items, ∀ s, Inv s → Yields E Inv (parseValue callback depth wanted placed item s))
    (kept : List Json) (hs : Inv s) : Yields E Inv (parseItems callback depth wanted placed items kept s) := by
  induction items generalizing kept s with
  | nil => exact .ok hs
  | cons item rest ih =>
    rw [parseItems]
    exact (h item List.mem_cons_self s hs).bind fun r hr =>
      ih (fun other hother => h other (List.mem_cons_of_mem item hother)) _ hr

theorem Preserves.parseMembers (hpreserves : Preserves callback E Inv) {members : List (List Char × Json)}
    (hdepth : 0 < depth) (h : ∀ member ∈ members, ∀ placed s, Inv s →
      Yields E Inv (parseValue callback depth wanted placed member.2 s)) (kept : List (List Char × Json))
    (hs : Inv s) : Yields E Inv (parseMembers callback depth wanted placed members kept s) := by
  induction members generalizing kept s with
  | nil => exact .ok hs
  | cons member rest ih =>
    obtain ⟨name, content⟩ := member
    rw [Json.parseMembers, parseMember]
    refine Yields.bind ?_ fun r hr =>
      ih (fun other hother => h other (List.mem_cons_of_mem _ hother)) _ hr
    refine (hpreserves depth .key (.string name) s hdepth hs).bind fun named hnamed => ?_
    exact (h (name, content) List.mem_cons_self (placed && named.1) named.2 hnamed).bind fun r hr => .ok hr

/-- Parsing a value below the root keeps the invariant. -/
theorem Preserves.parseValue (h : Preserves callback E Inv) (value : Json) (hdepth : 0 < depth)
    (wanted placed : Bool) (hs : Inv s) : Yields E Inv (parseValue callback depth wanted placed value s) := by
  have hscalar (depth : ℕ) (hdepth : 0 < depth) (wanted placed : Bool) (s : σ) (hs : Inv s) (value : Json) :
      Yields E Inv (parseScalar callback depth wanted placed value s) :=
    yields_scalar hs (h depth .value value s hdepth hs) wanted placed
  induction value using inductionOn generalizing depth wanted placed s with
  | hnull | hboolean | hunsigned | hinteger | hfloat | hstring =>
    exact hscalar depth hdepth wanted placed s hs _
  | harray items ih =>
    rw [Json.parseValue]
    refine (h depth .arrayStart .null s hdepth hs).bind fun first hfirst => ?_
    refine Yields.bind (parseItems_yields (fun item hitem s hs =>
      ih item hitem (Nat.succ_pos depth) first.1 (first.1 && placed) hs) [] hfirst) fun inner hinner => ?_
    exact yields_end hinner (h depth .arrayEnd _ inner.2 hdepth hinner) _
  | hobject members ih =>
    rw [Json.parseValue]
    refine (h depth .objectStart .null s hdepth hs).bind fun first hfirst => ?_
    refine Yields.bind (h.parseMembers (Nat.succ_pos depth) (fun member hmember placed s hs =>
      ih member hmember (Nat.succ_pos depth) first.1 placed hs) [] hfirst) fun inner hinner => ?_
    exact yields_end hinner (h depth .objectEnd _ inner.2 hdepth hinner) _

/-- Parsing a document whose root events keep the invariant as well. -/
theorem Preserves.parseWith (h : Preserves callback E Inv) {document : Json}
    (hroot : ∀ event parsed s, event = firstEvent document ∨ event = .arrayEnd ∨ event = .objectEnd →
      Inv s → Yields E Inv (callback 0 event parsed s)) {s : σ} (hs : Inv s) :
    Yields E Inv ((parseWith callback document s).map fun t => ((), t)) := by
  have hvalue : Yields E Inv (Json.parseValue callback 0 true true document s) := by
    cases document with
    | array items =>
      rw [Json.parseValue]
      refine (hroot .arrayStart .null s (.inl rfl) hs).bind fun first hfirst => ?_
      refine Yields.bind (parseItems_yields (fun item _ s hs =>
        h.parseValue item Nat.one_pos first.1 (first.1 && true) hs) [] hfirst) fun inner hinner => ?_
      exact yields_end hinner (hroot .arrayEnd _ inner.2 (.inr (.inl rfl)) hinner) _
    | object members =>
      rw [Json.parseValue]
      refine (hroot .objectStart .null s (.inl rfl) hs).bind fun first hfirst => ?_
      refine Yields.bind (h.parseMembers Nat.one_pos (fun member _ placed s hs =>
        h.parseValue member.2 Nat.one_pos first.1 placed hs) [] hfirst) fun inner hinner => ?_
      exact yields_end hinner (hroot .objectEnd _ inner.2 (.inr (.inr rfl)) hinner) _
    | null | boolean | unsigned | integer | float | string =>
      exact yields_scalar hs (hroot .value _ s (.inl rfl) hs) true true
  rw [Json.parseWith]
  generalize Json.parseValue callback 0 true true document s = result at hvalue ⊢
  cases hvalue with
  | ok h => exact .ok h
  | error h => exact .error h

end Preserves

end Parser

end Json
