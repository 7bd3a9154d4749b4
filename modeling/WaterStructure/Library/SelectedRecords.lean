import WaterStructure.Library.Records

/-!
# The records of a member of a document

A document may repeat the member that lists the records. A first pass has counted how often it occurs; a
later one goes over the records of the last list only, which it knows by its number.
-/

namespace Json

namespace Records

open LastValue NestedLoop StatefulRun

/-- The variables of a pass at the members of a document. -/
structure Root where
  key : List Char := []
  inside : Bool := false
  active : Bool := false
  occurrence : ℕ := 0

section Events

variable {α : Type} (name : List Char) (total : ℕ) (hooks : Hooks α)

/-- An event of a member of a document. -/
def rootEvent (event : ParseEvent) (parsed : Json) (root : Root) : Except String (Bool × Root) :=
  if event = .key then parsed.toText.map fun key => (true, { root with key })
  else if root.key = name ∧ begins event then
    let occurrence := root.occurrence + 1
    let inside := decide (event = .arrayStart)
    .ok (inside, { root with inside, active := inside && decide (occurrence = total), occurrence })
  else if root.inside ∧ event = .arrayEnd then .ok (false, { root with inside := false, active := false })
  else .ok (false, root)

/-- The callback of a pass over the records of the last list of a name, given how often it occurs. -/
def selectedCallback : Callback (Cursor Root α) := fun depth event parsed c =>
  if depth = 0 then .ok (true, c)
  else if depth = 1 then (rootEvent name total event parsed c.outer).map fun r => (r.1, { c with outer := r.2 })
  else if depth = 2 ∧ ¬ c.outer.inside then .ok (true, c)
  else if depth = 2 ∧ ¬ c.outer.active then .ok (decide (event = .key), c)
  else Records.event hooks (depth - 2) event parsed c

/-- The variables between two members of a document. -/
structure AtRoot (c : Cursor Root α) (s : ℕ × α) : Prop where
  inside : c.outer.inside = false
  active : c.outer.active = false
  occurrence : c.outer.occurrence = s.1
  inRecord : c.inRecord = false
  inList : c.inList = false
  acc : c.acc = s.2

end Events

section Simulation

variable {α : Type} {name : List Char} {total : ℕ} {hooks : Hooks α} {c : Cursor Root α} {s : ℕ × α}

/-- Outside of a record, nothing happens below the list of records. -/
theorem selectedCallback_keeps (hrecord : c.inRecord = false) :
    Keeps (selectedCallback name total hooks) 2 c := by
  intro depth event parsed hdepth
  rw [selectedCallback, if_neg (by omega), if_neg (by omega), if_neg (by omega), if_neg (by omega),
    Records.event, if_neg (by omega), if_pos (by simp [hrecord])]

/-- Outside of a list, nothing happens below the members of the document. -/
theorem AtRoot.keeps (hs : AtRoot c s) : Keeps (selectedCallback name total hooks) 1 c := by
  intro depth event parsed hdepth
  by_cases htwo : depth = 2
  · subst htwo
    rw [selectedCallback, if_neg (by decide), if_neg (by decide), if_pos ⟨rfl, by simp [hs.inside]⟩]
  · exact selectedCallback_keeps hs.inRecord depth event parsed (by omega)

theorem selectedCallback_root (c : Cursor Root α) (event : ParseEvent) (parsed : Json) :
    selectedCallback name total hooks 1 event parsed c =
      (rootEvent name total event parsed c.outer).map fun r => (r.1, { c with outer := r.2 }) := rfl

/-- An item of a list that is not the last one. -/
theorem parseItem_passive {c : Cursor Root α} (hinside : c.outer.inside = true)
    (hactive : c.outer.active = false) (hrecord : c.inRecord = false) (item : Json) :
    parseValue (selectedCallback name total hooks) 2 true true item c = .ok (none, c) := by
  have hevent : firstEvent item ≠ .key := by cases item <;> exact fun h => by cases h
  have hfirst : selectedCallback name total hooks 2 (firstEvent item) (firstParsed item) c =
      (Except.ok c).map fun t => (false, t) := by
    rw [selectedCallback, if_neg (by decide), if_neg (by decide), if_neg (by simp [hinside]),
      if_pos ⟨rfl, by simp [hactive]⟩, decide_eq_false hevent]
    rfl
  rw [parseValue_dropped item true hfirst]
  · rfl
  · intro t ht
    cases ht
    exact Keeps.idle (selectedCallback_keeps hrecord)

/-- In the last list, the callback does what the hooks say. -/
theorem selectedCallback_follows {o : Root} (hinside : o.inside = true) (hactive : o.active = true) :
    Follows hooks (selectedCallback name total hooks) 2 o fun _ => True := by
  rintro depth event parsed c rfl -
  rw [selectedCallback, if_neg (by omega), if_neg (by omega), if_neg (by simp [hinside]),
    if_neg (by simp [hactive]), Nat.add_sub_cancel_left]

variable {other : List Char → Json → α → Except String α} {refusal : α → Option String}

/-- The records of a list. -/
def readList (hooks : Hooks α) (other : List Char → Json → α → Except String α) (refusal : α → Option String)
    (value : Json) (acc : α) : Except String α :=
  (value.items?.getD []).foldlM (readItem hooks other refusal) acc

/-- A member of the document with the name of the list. -/
theorem parseValue_list (hothers : ∀ o : Root, o.inside = true → o.active = true →
      Others hooks (selectedCallback name total hooks) 2 o (fun _ => True) other)
    (hrefuses : Refuses hooks (fun _ => True) refusal) (hs : AtRoot c s) (hkey : c.outer.key = name)
    (value : Json) :
    Alike (fun r t => AtRoot r.2 t)
      (parseValue (selectedCallback name total hooks) 1 true true value c)
      ((if s.1 + 1 = total then readList hooks other refusal value s.2 else .ok s.2).map fun acc =>
        (s.1 + 1, acc)) := by
  have hstart (event : ParseEvent) (hbegins : begins event = true) (parsed : Json) :
      selectedCallback name total hooks 1 event parsed c =
        .ok (decide (event = .arrayStart),
          { c with outer :=
            { c.outer with
              inside := decide (event = .arrayStart)
              active := decide (event = .arrayStart) && decide (s.1 + 1 = total)
              occurrence := s.1 + 1 } }) := by
    have hnotKey : event ≠ .key := by
      rintro rfl
      cases hbegins
    rw [selectedCallback_root, rootEvent, if_neg hnotKey, if_pos ⟨hkey, hbegins⟩, hs.occurrence]
    rfl
  have hother (value : Json) (hbegins : begins (firstEvent value) = true)
      (hevent : firstEvent value ≠ .arrayStart) (hitems : value.items? = none) :
      Alike (fun r t => AtRoot r.2 t)
        (parseValue (selectedCallback name total hooks) 1 true true value c)
        ((if s.1 + 1 = total then readList hooks other refusal value s.2 else .ok s.2).map fun acc =>
          (s.1 + 1, acc)) := by
    have hfirst := hstart (firstEvent value) hbegins (firstParsed value)
    rw [decide_eq_false hevent] at hfirst
    have hnext : AtRoot
        { c with outer :=
          { c.outer with
            inside := false
            active := false && decide (s.1 + 1 = total)
            occurrence := s.1 + 1 } } (s.1 + 1, s.2) :=
      { hs with inside := rfl, active := rfl, occurrence := rfl }
    have hnothing : readList hooks other refusal value s.2 = .ok s.2 := by
      rw [readList, hitems]
      rfl
    rw [hnothing, ite_self, @parseValue_dropped _ (selectedCallback name total hooks) value 1 c (.ok _) true
      hfirst]
    · exact .ok hnext
    · intro t ht
      cases ht
      exact Keeps.idle hnext.keeps
  cases value with
  | array items =>
    obtain ⟨next, hdef⟩ : ∃ next : Cursor Root α, next =
        { c with outer :=
          { c.outer with
            inside := true
            active := decide (s.1 + 1 = total)
            occurrence := s.1 + 1 } } := ⟨_, rfl⟩
    have hfirst : selectedCallback name total hooks 1 .arrayStart .null c = .ok (true, next) := by
      rw [hstart .arrayStart rfl .null, hdef]
      rfl
    have hinner : Alike (fun r t => r.2.outer = next.outer ∧ r.2.inRecord = false ∧ r.2.inList = false ∧
          r.2.acc = t)
        (parseItems (selectedCallback name total hooks) 2 true true items [] next)
        (if s.1 + 1 = total then readList hooks other refusal (.array items) s.2 else .ok s.2) := by
      by_cases hlast : s.1 + 1 = total
      · have hinside : next.outer.inside = true := by rw [hdef]
        have hactive : next.outer.active = true := by rw [hdef]; exact decide_eq_true hlast
        have hat : AtRecord next.outer (fun _ => True) next s.2 := by
          subst hdef
          exact ⟨rfl, hs.inRecord, hs.inList, hs.acc, trivial⟩
        have hrecords := (@selectedCallback_follows _ name total hooks _ hinside hactive).parseRecords ⟨fun _ _ _ _ => trivial, fun _ _ _ => trivial, fun _ _ _ _ _ => trivial,
            fun _ _ _ _ _ => trivial⟩ (hothers next.outer hinside hactive) hrefuses hat
            items []
        rw [if_pos hlast]
        exact hrecords.mono fun r t ht => ⟨ht.outer, ht.inRecord, ht.inList, ht.acc⟩
      · have hpassive (item : Json) := @parseItem_passive _ name total hooks next (by rw [hdef])
          (by rw [hdef]; exact decide_eq_false hlast) (by rw [hdef]; exact hs.inRecord) item
        obtain ⟨kept, hkept⟩ := @parseItems_idle _ (selectedCallback name total hooks) items 2 true true next
          (fun item _ => ⟨none, hpassive item⟩) []
        rw [if_neg hlast, hkept]
        subst hdef
        exact .ok ⟨rfl, hs.inRecord, hs.inList, hs.acc⟩
    rw [parseValue, hfirst, ok_bind]
    change Alike _ (parseItems (selectedCallback name total hooks) 2 true true items [] next >>= _) _
    generalize parseItems (selectedCallback name total hooks) 2 true true items [] next = result at hinner ⊢
    generalize (if s.1 + 1 = total then readList hooks other refusal (.array items) s.2 else .ok s.2) = plain
      at hinner ⊢
    cases hinner with
    | error error => exact .error error
    | @ok r t ht =>
      obtain ⟨kept, d⟩ := r
      obtain ⟨houter, hrecord, hlist, hacc⟩ := ht
      have hinside : d.outer.inside = true := by rw [houter, hdef]
      have hoccurrence : d.outer.occurrence = s.1 + 1 := by rw [houter, hdef]
      change Alike _ (parseEnd (selectedCallback name total hooks) 1 .arrayEnd true (.array kept) d) _
      rw [parseEnd, if_pos rfl, selectedCallback_root, rootEvent, if_neg (by decide),
        if_neg (fun h => by cases h.2), if_pos ⟨hinside, rfl⟩]
      exact .ok ⟨rfl, rfl, hoccurrence, hrecord, hlist, hacc⟩
  | null | boolean | unsigned | integer | float | string | object =>
    exact hother _ rfl (fun hevent => by cases hevent) rfl

/-- A member of the document with another name. -/
theorem parseValue_otherRoot (hs : AtRoot c s) (hkey : c.outer.key ≠ name) (value : Json) :
    Alike (fun r t => AtRoot r.2 t) (parseValue (selectedCallback name total hooks) 1 true true value c)
      (.ok s) := by
  have hnotKey : firstEvent value ≠ .key := by cases value <;> exact fun h => by cases h
  have hfirst : selectedCallback name total hooks 1 (firstEvent value) (firstParsed value) c =
      (Except.ok c).map fun t => (false, t) := by
    rw [selectedCallback_root, rootEvent, if_neg hnotKey, if_neg (fun h => hkey h.1),
      if_neg (by simp [hs.inside])]
    rfl
  rw [parseValue_dropped value true hfirst]
  · exact .ok hs
  · intro t ht
    cases ht
    exact Keeps.idle hs.keeps

/-- The pass over a document goes over the records of the last list of the name. -/
theorem parseWith_selected (hothers : ∀ o : Root, o.inside = true → o.active = true →
      Others hooks (selectedCallback name total hooks) 2 o (fun _ => True) other)
    (hrefuses : Refuses hooks (fun _ => True) refusal) {members : List (List Char × Json)}
    (hcount : countMembers name members = total) (a : α) :
    (parseWith (selectedCallback name total hooks) (.object members) { outer := {}, acc := a }).map
        Cursor.acc =
      (lastMember name members).elim (.ok a) fun value => readList hooks other refusal value a := by
  have hmember (member : List Char × Json) (kept : List (List Char × Json)) (c : Cursor Root α)
      (s : ℕ × α) (hs : AtRoot c s) : Alike (fun r t => AtRoot r.2 t)
        (parseMember (selectedCallback name total hooks) 1 true true member kept c)
        (if member.1 = name then
          (if s.1 + 1 = total then readList hooks other refusal member.2 s.2 else .ok s.2).map fun acc =>
            (s.1 + 1, acc)
        else .ok s) := by
    have hnamed : AtRoot { c with outer := { c.outer with key := member.1 } } s := { hs with }
    have hkey : selectedCallback name total hooks 1 .key (.string member.1) c =
        .ok (true, { c with outer := { c.outer with key := member.1 } }) := rfl
    rw [parseMember, hkey, ok_bind]
    refine Alike.bind_left (R := fun r t => AtRoot r.2 t) ?_ fun r t ht => .ok ht
    by_cases hname : member.1 = name
    · rw [if_pos hname]
      exact parseValue_list hothers hrefuses hnamed hname member.2
    · rw [if_neg hname]
      exact parseValue_otherRoot hnamed hname member.2
  have hstart : AtRoot ({ outer := {}, acc := a } : Cursor Root α) (0, a) := ⟨rfl, rfl, rfl, rfl, rfl, rfl⟩
  have hmembers := @parseMembers_alike _ (selectedCallback name total hooks) _ (fun c s => AtRoot c s) 1 true
    true _ members (fun member _ => hmember member) [] _ _ hstart
  have hloop := @foldlM_last _ name (readList hooks other refusal)
    (fun s member => if member.1 = name then
      (if s.1 + 1 = total then readList hooks other refusal member.2 s.2 else .ok s.2).map fun acc =>
        (s.1 + 1, acc)
      else .ok s) a 0 total (fun s member hname => if_neg hname) (fun n member hname => if_pos hname) members
    ((Nat.zero_add _).trans hcount)
  rw [hloop] at hmembers
  rw [parseWith, parseValue]
  change ((parseMembers (selectedCallback name total hooks) 1 true true members [] { outer := {}, acc := a } >>=
    fun r => parseEnd (selectedCallback name total hooks) 0 .objectEnd true (.object r.1) r.2).map
      Prod.snd).map Cursor.acc = _
  generalize parseMembers (selectedCallback name total hooks) 1 true true members [] { outer := {}, acc := a } =
    result at hmembers ⊢
  generalize (lastMember name members).elim (.ok a) (fun value => readList hooks other refusal value a) = plain
    at hmembers ⊢
  cases plain with
  | error error =>
    cases hmembers
    rfl
  | ok acc =>
    cases hmembers with
    | ok hs => exact congrArg Except.ok hs.acc

end Simulation

end Records

end Json
