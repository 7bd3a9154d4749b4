import WaterStructure.Library.JsonSyntax

/-!
# Passes over records

A pass over a list of objects, the records, of which each has a list as one of its members. A record may
repeat that member, so a pass counts how often it occurs, and takes the items of one occurrence as soon as
they are complete. What the events of a record do is what plain loops over its members and the items of
its list do.
-/

namespace Json

namespace Records

open LastValue NestedLoop StatefulRun

/-- The variables of a pass over records; the outer ones do not change inside of the list of records. -/
structure Cursor (ρ α : Type) where
  outer : ρ
  inRecord : Bool := false
  inList : Bool := false
  active : Bool := false
  key : List Char := []
  occurrences : ℕ := 0
  acc : α

/-- What a pass does at the events of a record: the name of its list, which variables it clears at the
start of a record, and what it does there, at an item that is no record, at the list, given whether it is
an array, at an item of the list, at another member and at the end, given how often the list occurred.
An array is gone through if it is entered, and its items are taken if it is selected. -/
structure Hooks (α : Type) where
  listKey : List Char
  clearsList : Bool
  clearsKey : Bool
  startRecord : α → Except String α
  otherRecord : ParseEvent → α → Except String (Bool × α)
  list : Bool → α → α
  enters : ℕ → α → Bool
  selects : ℕ → α → Bool
  item : Json → α → Except String α
  member : List Char → ParseEvent → Json → α → Except String (Bool × α)
  endRecord : ℕ → α → Except String α

section Events

variable {ρ α : Type} (hooks : Hooks α)

/-- The event with which a value begins. -/
def begins (event : ParseEvent) : Bool :=
  event = .value || event = .objectStart || event = .arrayStart

theorem begins_firstEvent (value : Json) : begins (firstEvent value) = true := by
  cases value <;> rfl

/-- An event of an item of the list of records. -/
def recordEvent (event : ParseEvent) (c : Cursor ρ α) : Except String (Bool × Cursor ρ α) :=
  if event = .objectStart then
    (hooks.startRecord c.acc).map fun acc => (true,
      { c with
        inRecord := true
        inList := c.inList && !hooks.clearsList
        active := c.active && !hooks.clearsList
        key := if hooks.clearsKey then [] else c.key
        occurrences := 0
        acc })
  else if event = .objectEnd ∧ c.inRecord then
    (hooks.endRecord c.occurrences c.acc).map fun acc => (false, { c with inRecord := false, acc })
  else (hooks.otherRecord event c.acc).map fun r => (r.1, { c with acc := r.2 })

/-- An event of a member of a record. -/
def memberEvent (event : ParseEvent) (parsed : Json) (c : Cursor ρ α) : Except String (Bool × Cursor ρ α) :=
  if event = .key then parsed.toText.map fun key => (true, { c with key })
  else if c.inList ∧ event = .arrayEnd then .ok (false, { c with inList := false, active := false })
  else if c.key = hooks.listKey ∧ begins event then
    let occurrences := c.occurrences + 1
    let inside := decide (event = .arrayStart) && hooks.enters occurrences c.acc
    .ok (inside,
      { c with
        inList := inside
        active := inside && hooks.selects occurrences c.acc
        occurrences
        acc := hooks.list (event = .arrayStart) c.acc })
  else (hooks.member c.key event parsed c.acc).map fun r => (r.1, { c with acc := r.2 })

/-- An event of an item of the list of a record. -/
def itemEvent (event : ParseEvent) (parsed : Json) (c : Cursor ρ α) : Except String (Bool × Cursor ρ α) :=
  if event = .objectStart ∨ event = .arrayStart then .ok (c.active, c)
  else if event = .key then .ok (true, c)
  else if c.active then (hooks.item parsed c.acc).map fun acc => (false, { c with acc })
  else .ok (false, c)

/-- An event at a depth below the list of records. -/
def event (depth : ℕ) (event : ParseEvent) (parsed : Json) (c : Cursor ρ α) :
    Except String (Bool × Cursor ρ α) :=
  if depth = 0 then recordEvent hooks event c
  else if ¬ c.inRecord then .ok (true, c)
  else if depth = 1 then memberEvent hooks event parsed c
  else if depth = 2 ∧ c.inList then itemEvent hooks event parsed c
  else .ok (true, c)

/-! ## Plain loops -/

def isArray : Json → Bool
  | .array _ => true
  | _ => false

/-- The items of a list that are taken. -/
def takeItems (value : Json) (acc : α) : Except String α :=
  ((value.items?.getD []).map Json.normal).foldlM (fun acc item => hooks.item item acc) acc

variable (other : List Char → Json → α → Except String α)

/-- A member of a record, with the number of the lists before it; `other` is what the pass does with a
member that is not the list. -/
def readMember (s : ℕ × α) (member : List Char × Json) : Except String (ℕ × α) :=
  if member.1 = hooks.listKey then
    (if hooks.enters (s.1 + 1) s.2 && hooks.selects (s.1 + 1) s.2 then
      takeItems hooks member.2 (hooks.list (isArray member.2) s.2)
    else .ok (hooks.list (isArray member.2) s.2)).map fun acc => (s.1 + 1, acc)
  else (other member.1 member.2 s.2).map fun acc => (s.1, acc)

/-- A record, as its members. -/
def readRecord (members : List (List Char × Json)) (acc : α) : Except String α := do
  let acc ← hooks.startRecord acc
  let s ← members.foldlM (readMember hooks other) (0, acc)
  hooks.endRecord s.1 s.2

end Events

/-! ## What the events of a record do -/

section Simulation

variable {ρ α : Type} {hooks : Hooks α} {callback : Callback (Cursor ρ α)} {base : ℕ} {o : ρ}
  {Inv : α → Prop}

/-- The callback does what the hooks say, as long as an invariant holds. -/
def Follows (hooks : Hooks α) (callback : Callback (Cursor ρ α)) (base : ℕ) (o : ρ) (Inv : α → Prop) : Prop :=
  ∀ depth event parsed c, c.outer = o → Inv c.acc →
    callback (base + depth) event parsed c = Records.event hooks depth event parsed c

/-- The variables between two records. -/
structure AtRecord (o : ρ) (Inv : α → Prop) (c : Cursor ρ α) (a : α) : Prop where
  outer : c.outer = o
  inRecord : c.inRecord = false
  inList : c.inList = false
  acc : c.acc = a
  inv : Inv a

/-- The variables between two members of a record. -/
structure AtMember (o : ρ) (Inv : α → Prop) (c : Cursor ρ α) (s : ℕ × α) : Prop where
  outer : c.outer = o
  inRecord : c.inRecord = true
  inList : c.inList = false
  occurrences : c.occurrences = s.1
  acc : c.acc = s.2
  inv : Inv s.2

/-- The variables between two items of a list. -/
structure AtItem (o : ρ) (Inv : α → Prop) (active : Bool) (c : Cursor ρ α) (s : ℕ × α) : Prop where
  outer : c.outer = o
  inRecord : c.inRecord = true
  inList : c.inList = true
  active : c.active = active
  occurrences : c.occurrences = s.1
  acc : c.acc = s.2
  inv : Inv s.2

/-- The hooks keep an invariant. -/
structure Preserves (hooks : Hooks α) (Inv : α → Prop) : Prop where
  startRecord : ∀ acc next, Inv acc → hooks.startRecord acc = .ok next → Inv next
  list : ∀ array acc, Inv acc → Inv (hooks.list array acc)
  item : ∀ value acc next, Inv acc → hooks.item value acc = .ok next → Inv next
  endRecord : ∀ count acc next, Inv acc → hooks.endRecord count acc = .ok next → Inv next

variable {c : Cursor ρ α} {s : ℕ × α} {a : α}

theorem Follows.memberEvent (h : Follows hooks callback base o Inv) (houter : c.outer = o) (hinv : Inv c.acc)
    (hrecord : c.inRecord = true) (event : ParseEvent) (parsed : Json) :
    callback (base + 1) event parsed c = Records.memberEvent hooks event parsed c := by
  rw [h 1 event parsed c houter hinv, Records.event, if_neg (by decide), if_neg (by simp [hrecord]),
    if_pos rfl]

theorem Follows.itemEvent (h : Follows hooks callback base o Inv) (houter : c.outer = o) (hinv : Inv c.acc)
    (hrecord : c.inRecord = true) (hlist : c.inList = true) (event : ParseEvent) (parsed : Json) :
    callback (base + 2) event parsed c = Records.itemEvent hooks event parsed c := by
  rw [h 2 event parsed c houter hinv, Records.event, if_neg (by decide), if_neg (by simp [hrecord]),
    if_neg (by decide), if_pos ⟨rfl, hlist⟩]

/-- Nothing happens below the items of a list. -/
theorem Follows.keeps_item (h : Follows hooks callback base o Inv) (houter : c.outer = o) (hinv : Inv c.acc)
    (hrecord : c.inRecord = true) : Keeps callback (base + 2) c := by
  intro depth event parsed hdepth
  obtain ⟨more, rfl⟩ := Nat.exists_eq_add_of_le (show base ≤ depth by omega)
  rw [h more event parsed c houter hinv, Records.event, if_neg (by omega), if_neg (by simp [hrecord]),
    if_neg (by omega), if_neg (by omega)]

/-- Nothing happens below a member that is not the list. -/
theorem Follows.keeps_member (h : Follows hooks callback base o Inv) (houter : c.outer = o) (hinv : Inv c.acc)
    (hrecord : c.inRecord = true) (hlist : c.inList = false) : Keeps callback (base + 1) c := by
  intro depth event parsed hdepth
  obtain ⟨more, rfl⟩ := Nat.exists_eq_add_of_le (show base ≤ depth by omega)
  rw [h more event parsed c houter hinv, Records.event, if_neg (by omega), if_neg (by simp [hrecord]),
    if_neg (by omega), if_neg (by simp [hlist])]

theorem Keeps.idle {σ : Type} {callback : Callback σ} {depth : ℕ} {s : σ} (h : Keeps callback depth s) :
    Idle callback depth s :=
  fun other event parsed hother => ⟨true, h other event parsed hother⟩

/-- An item of a list that is taken. -/
theorem Follows.parseItem_active (h : Follows hooks callback base o Inv) (hpreserves : Preserves hooks Inv)
    (hs : AtItem o Inv true c s) (item : Json) :
    Alike (fun r t => AtItem o Inv true r.2 t) (parseValue callback (base + 2) true true item c)
      ((hooks.item item.normal s.2).map fun acc => (s.1, acc)) := by
  have hinv : Inv c.acc := hs.acc ▸ hs.inv
  have htake := @parseValue_taken _ callback item (base + 2) c
    (fun value c => (hooks.item value c.acc).map fun acc => { c with acc })
    (h.keeps_item hs.outer hinv hs.inRecord) (by
      rintro event parsed (rfl | rfl) <;>
      · rw [h.itemEvent hs.outer hinv hs.inRecord hs.inList, Records.itemEvent, if_pos (by decide),
          hs.active]) (by
      rintro event parsed (rfl | rfl | rfl) <;>
      · rw [h.itemEvent hs.outer hinv hs.inRecord hs.inList, Records.itemEvent, if_neg (by decide),
          if_neg (by decide), if_pos hs.active]
        cases hooks.item parsed c.acc <;> rfl)
  rw [htake, hs.acc]
  cases hitem : hooks.item item.normal s.2 with
  | error error => exact .error error
  | ok acc => exact .ok { hs with acc := rfl, inv := hpreserves.item _ _ _ hs.inv hitem }

/-- An item of a list that is not taken. -/
theorem Follows.parseItem_idle (h : Follows hooks callback base o Inv) (hs : AtItem o Inv false c s)
    (item : Json) :
    Alike (fun r t => AtItem o Inv false r.2 t) (parseValue callback (base + 2) true true item c)
      (.ok s) := by
  have hinv : Inv c.acc := hs.acc ▸ hs.inv
  have hfirst : callback (base + 2) (firstEvent item) (firstParsed item) c =
      (Except.ok c).map fun t => (false, t) := by
    rw [h.itemEvent hs.outer hinv hs.inRecord hs.inList, Records.itemEvent, hs.active]
    cases item <;> rfl
  rw [parseValue_dropped item true hfirst]
  · exact .ok hs
  · intro t ht
    cases ht
    exact Keeps.idle (h.keeps_item hs.outer hinv hs.inRecord)

/-- A loop that carries a number along. -/
theorem foldlM_carried {β : Type} (step : α → β → Except String α) (items : List β) (s : ℕ × α) :
    items.foldlM (fun s item => (step s.2 item).map fun acc => (s.1, acc)) s =
      (items.foldlM step s.2).map fun acc => (s.1, acc) := by
  induction items generalizing s with
  | nil => rfl
  | cons item rest ih =>
    rw [List.foldlM_cons, List.foldlM_cons]
    cases step s.2 item with
    | error error => rfl
    | ok next => exact ih (s.1, next)

/-- A loop that does nothing. -/
theorem foldlM_idle {σ β : Type} (items : List β) (s : σ) :
    items.foldlM (fun s _ => Except.ok (ε := String) s) s = .ok s := by
  induction items with
  | nil => rfl
  | cons item rest ih =>
    rw [List.foldlM_cons, ok_bind]
    exact ih

/-- The loop over the items of a list. -/
theorem Follows.parseItems (h : Follows hooks callback base o Inv) (hpreserves : Preserves hooks Inv)
    {active : Bool} (hs : AtItem o Inv active c s) (items : List Json) :
    Alike (fun r t => AtItem o Inv active r.2 t)
      (Json.parseItems callback (base + 2) true true items [] c)
      ((if active then takeItems hooks (.array items) s.2 else .ok s.2).map fun acc => (s.1, acc)) := by
  cases active with
  | true =>
    have hitems := @parseItems_alike _ callback _ (AtItem o Inv true) (base + 2) true true
      (fun s item => (hooks.item item.normal s.2).map fun acc => (s.1, acc)) items
      (fun item _ c s hs => h.parseItem_active hpreserves hs item) [] c s hs
    have htake : takeItems hooks (.array items) s.2 =
        items.foldlM (fun acc item => hooks.item item.normal acc) s.2 := List.foldlM_map
    rw [if_pos rfl, htake, ← foldlM_carried]
    exact hitems
  | false =>
    have hitems := @parseItems_alike _ callback _ (AtItem o Inv false) (base + 2) true true
      (fun s _ => .ok s) items (fun item _ c s hs => h.parseItem_idle hs item) [] c s hs
    rw [foldlM_idle] at hitems
    exact hitems

/-- The list of a record. -/
theorem Follows.parseList (h : Follows hooks callback base o Inv) (hpreserves : Preserves hooks Inv)
    (hs : AtMember o Inv c s) (hkey : c.key = hooks.listKey) (value : Json) :
    Alike (fun r t => AtMember o Inv r.2 t) (parseValue callback (base + 1) true true value c)
      ((if hooks.enters (s.1 + 1) s.2 && hooks.selects (s.1 + 1) s.2 then
        takeItems hooks value (hooks.list (isArray value) s.2)
      else .ok (hooks.list (isArray value) s.2)).map fun acc => (s.1 + 1, acc)) := by
  have hinv : Inv c.acc := hs.acc ▸ hs.inv
  have hstart (event : ParseEvent) (hbegins : begins event = true) (parsed : Json) :
      callback (base + 1) event parsed c =
        let inside := decide (event = .arrayStart) && hooks.enters (s.1 + 1) s.2
        .ok (inside,
          { c with
            inList := inside
            active := inside && hooks.selects (s.1 + 1) s.2
            occurrences := s.1 + 1
            acc := hooks.list (event = .arrayStart) s.2 }) := by
    have hnotKey : event ≠ .key := by
      rintro rfl
      cases hbegins
    rw [h.memberEvent hs.outer hinv hs.inRecord, Records.memberEvent, if_neg hnotKey,
      if_neg (by simp [hs.inList]), if_pos ⟨hkey, hbegins⟩, hs.acc, hs.occurrences]
  have hdropped (value : Json) (hbegins : begins (firstEvent value) = true)
      (hout : (decide (firstEvent value = .arrayStart) && hooks.enters (s.1 + 1) s.2) = false) :
      Alike (fun r t => AtMember o Inv r.2 t) (parseValue callback (base + 1) true true value c)
        (.ok (s.1 + 1, hooks.list (decide (firstEvent value = .arrayStart)) s.2)) := by
    have hfirst := hstart (firstEvent value) hbegins (firstParsed value)
    rw [hout] at hfirst
    have hnext : AtMember o Inv
        { c with
          inList := false
          active := false && hooks.selects (s.1 + 1) s.2
          occurrences := s.1 + 1
          acc := hooks.list (decide (firstEvent value = .arrayStart)) s.2 }
        (s.1 + 1, hooks.list (decide (firstEvent value = .arrayStart)) s.2) :=
      { hs with inList := rfl, occurrences := rfl, acc := rfl, inv := hpreserves.list _ _ hs.inv }
    rw [@parseValue_dropped _ callback value (base + 1) c (.ok _) true hfirst]
    · exact .ok hnext
    · intro t ht
      cases ht
      exact Keeps.idle (h.keeps_member hnext.outer hnext.inv hnext.inRecord rfl)
  have hother (value : Json) (hbegins : begins (firstEvent value) = true)
      (hevent : firstEvent value ≠ .arrayStart) (harray : isArray value = false)
      (hitems : value.items? = none) :
      Alike (fun r t => AtMember o Inv r.2 t) (parseValue callback (base + 1) true true value c)
        ((if hooks.enters (s.1 + 1) s.2 && hooks.selects (s.1 + 1) s.2 then
          takeItems hooks value (hooks.list (isArray value) s.2)
        else .ok (hooks.list (isArray value) s.2)).map fun acc => (s.1 + 1, acc)) := by
    have hresult := hdropped value hbegins (by rw [decide_eq_false hevent, Bool.false_and])
    have hnothing (acc : α) : takeItems hooks value acc = .ok acc := by
      rw [takeItems, hitems]
      rfl
    rw [decide_eq_false hevent] at hresult
    rw [harray, hnothing, ite_self]
    exact hresult
  cases value with
  | array items =>
    by_cases henters : hooks.enters (s.1 + 1) s.2 = true
    · obtain ⟨next, hdef⟩ : ∃ next : Cursor ρ α, next =
          { c with
            inList := true
            active := hooks.selects (s.1 + 1) s.2
            occurrences := s.1 + 1
            acc := hooks.list true s.2 } := ⟨_, rfl⟩
      have hnext : AtItem o Inv (hooks.selects (s.1 + 1) s.2) next (s.1 + 1, hooks.list true s.2) := by
        subst hdef
        exact { hs with inList := rfl, active := rfl, occurrences := rfl, acc := rfl
                        inv := hpreserves.list _ _ hs.inv }
      have hfirst : callback (base + 1) .arrayStart .null c = .ok (true, next) := by
        rw [hstart .arrayStart rfl .null, henters, hdef]
        rfl
      rw [parseValue, hfirst, ok_bind, henters, Bool.true_and]
      refine Alike.bind_left (h.parseItems hpreserves hnext items) fun r t ht => ?_
      have hinv' : Inv r.2.acc := ht.acc ▸ ht.inv
      have hend := h.memberEvent ht.outer hinv' ht.inRecord .arrayEnd (.array r.1)
      rw [Records.memberEvent, if_neg (by decide), if_pos ⟨ht.inList, rfl⟩] at hend
      change Alike _ (parseEnd callback (base + 1) .arrayEnd true (.array r.1) r.2) _
      rw [parseEnd, if_pos rfl, hend]
      exact .ok ⟨ht.outer, ht.inRecord, rfl, ht.occurrences, ht.acc, ht.inv⟩
    · have hout := Bool.eq_false_iff.mpr henters
      have hresult := hdropped (.array items) rfl (by rw [hout, Bool.and_false])
      rw [hout, Bool.false_and, if_neg Bool.false_ne_true]
      exact hresult
  | null | boolean | unsigned | integer | float | string | object =>
    exact hother _ rfl (fun hevent => by cases hevent) rfl rfl

variable {other : List Char → Json → α → Except String α}

/-- What the pass does at a member that is not the list. -/
def Others (hooks : Hooks α) (callback : Callback (Cursor ρ α)) (base : ℕ) (o : ρ) (Inv : α → Prop)
    (other : List Char → Json → α → Except String α) : Prop :=
  ∀ name value c s, name ≠ hooks.listKey → AtMember o Inv c s → c.key = name →
    Alike (fun r t => AtMember o Inv r.2 t) (parseValue callback (base + 1) true true value c)
      ((other name value s.2).map fun acc => (s.1, acc))

/-- A member that is dropped at its first event. -/
theorem Follows.parseOther_dropped (h : Follows hooks callback base o Inv) (hs : AtMember o Inv c s)
    {name : List Char} (hname : name ≠ hooks.listKey) (hkey : c.key = name) (value : Json)
    {act : Except String α} (hact : ∀ acc, act = .ok acc → Inv acc)
    (hmember : hooks.member name (firstEvent value) (firstParsed value) s.2 =
      act.map fun acc => (false, acc)) :
    Alike (fun r t => AtMember o Inv r.2 t) (parseValue callback (base + 1) true true value c)
      (act.map fun acc => (s.1, acc)) := by
  have hinv : Inv c.acc := hs.acc ▸ hs.inv
  have hfirst : callback (base + 1) (firstEvent value) (firstParsed value) c =
      (act.map fun acc => { c with acc }).map fun t => (false, t) := by
    have hnotKey : firstEvent value ≠ .key := by cases value <;> exact fun h => by cases h
    rw [h.memberEvent hs.outer hinv hs.inRecord, Records.memberEvent, if_neg hnotKey,
      if_neg (by simp [hs.inList]), if_neg (by simp [hkey, hname]), hkey, hs.acc, hmember]
    cases act <;> rfl
  rw [parseValue_dropped value true hfirst]
  · cases act with
    | error error => exact .error error
    | ok acc => exact .ok { hs with acc := rfl, inv := hact acc rfl }
  · intro t ht
    obtain ⟨acc, hacc, rfl⟩ := exists_of_map_ok ht
    exact Keeps.idle (h.keeps_member hs.outer (hact acc hacc) hs.inRecord hs.inList)

/-- A member of a record. -/
theorem Follows.parseMember (h : Follows hooks callback base o Inv) (hpreserves : Preserves hooks Inv)
    (hothers : Others hooks callback base o Inv other) (hs : AtMember o Inv c s) (member : List Char × Json)
    (kept : List (List Char × Json)) :
    Alike (fun r t => AtMember o Inv r.2 t)
      (Json.parseMember callback (base + 1) true true member kept c) (readMember hooks other s member) := by
  obtain ⟨name, value⟩ := member
  have hinv : Inv c.acc := hs.acc ▸ hs.inv
  have hnamed : AtMember o Inv { c with key := name } s := { hs with }
  have hvalue : Alike (fun r t => AtMember o Inv r.2 t)
      (parseValue callback (base + 1) true true value { c with key := name })
      (readMember hooks other s (name, value)) := by
    rw [readMember]
    by_cases hlist : name = hooks.listKey
    · rw [if_pos hlist]
      exact h.parseList hpreserves hnamed hlist value
    · rw [if_neg hlist]
      exact hothers name value _ s hlist hnamed rfl
  have hkey : callback (base + 1) .key (.string name) c = .ok (true, { c with key := name }) := by
    rw [h.memberEvent hs.outer hinv hs.inRecord, Records.memberEvent, if_pos rfl]
    rfl
  rw [Json.parseMember, hkey, ok_bind]
  exact hvalue.bind_left fun r t ht => .ok ht

/-- A record. -/
theorem Follows.parseRecord (h : Follows hooks callback base o Inv) (hpreserves : Preserves hooks Inv)
    (hothers : Others hooks callback base o Inv other) (hs : AtRecord o Inv c a)
    (members : List (List Char × Json)) :
    Alike (fun r t => AtRecord o Inv r.2 t) (parseValue callback base true true (.object members) c)
      (readRecord hooks other members a) := by
  have hrecord (c : Cursor ρ α) (houter : c.outer = o) (hinv : Inv c.acc) (event : ParseEvent)
      (parsed : Json) : callback base event parsed c = recordEvent hooks event c :=
    (h 0 event parsed c houter hinv).trans (if_pos rfl)
  have hstart : callback base .objectStart .null c = _ := hrecord c hs.outer (hs.acc ▸ hs.inv) _ _
  rw [recordEvent, if_pos rfl, hs.acc] at hstart
  rw [parseValue, hstart, readRecord]
  cases hacc : hooks.startRecord a with
  | error error => exact .error error
  | ok acc =>
    have hinside : AtMember o Inv
        { c with
          inRecord := true
          inList := c.inList && !hooks.clearsList
          active := c.active && !hooks.clearsList
          key := if hooks.clearsKey then [] else c.key
          occurrences := 0
          acc } (0, acc) :=
      ⟨hs.outer, rfl, by rw [hs.inList, Bool.false_and], rfl, rfl, hpreserves.startRecord _ _ hs.inv hacc⟩
    have hmembers := @parseMembers_alike _ callback _ (AtMember o Inv) (base + 1) true true _ members
      (fun member _ kept c s hs => h.parseMember hpreserves hothers hs member kept) [] _ _ hinside
    refine hmembers.bind fun r t ht => ?_
    change Alike _ (parseEnd callback base .objectEnd true (.object r.1) r.2) _
    rw [parseEnd, if_pos rfl, hrecord r.2 ht.outer (ht.acc ▸ ht.inv), recordEvent, if_neg (by decide),
      if_pos ⟨rfl, ht.inRecord⟩, ht.occurrences, ht.acc]
    cases hend : hooks.endRecord t.1 t.2 with
    | error error => exact .error error
    | ok final => exact .ok ⟨ht.outer, rfl, ht.inList, rfl, hpreserves.endRecord _ _ _ ht.inv hend⟩

/-- What the pass does with an item that is no record: it throws, or passes over it. -/
structure Refuses (hooks : Hooks α) (Inv : α → Prop) (refusal : α → Option String) : Prop where
  throws : ∀ acc error, Inv acc → refusal acc = some error → ∀ event,
    event = .value ∨ event = .arrayStart → hooks.otherRecord event acc = .error error
  passes : ∀ acc, Inv acc → refusal acc = none → ∀ event,
    event = .value ∨ event = .arrayStart ∨ event = .arrayEnd → hooks.otherRecord event acc = .ok (true, acc)

/-- An item of the list of records. -/
def readItem (hooks : Hooks α) (other : List Char → Json → α → Except String α)
    (refusal : α → Option String) (acc : α) (item : Json) : Except String α :=
  match item.members? with
  | some members => readRecord hooks other members acc
  | none => (refusal acc).elim (.ok acc) .error

/-- An item that is no record. -/
theorem Follows.parseOtherItem (h : Follows hooks callback base o Inv) {refusal : α → Option String}
    (hrefuses : Refuses hooks Inv refusal) (hs : AtRecord o Inv c a) {item : Json}
    (hitem : item.members? = none) :
    Alike (fun r t => AtRecord o Inv r.2 t) (parseValue callback base true true item c)
      ((refusal a).elim (.ok a) .error) := by
  have hinv : Inv c.acc := hs.acc ▸ hs.inv
  have hevent (event : ParseEvent) (hstart : event ≠ .objectStart) (hend : event ≠ .objectEnd)
      (parsed : Json) : callback base event parsed c =
        (hooks.otherRecord event a).map fun r => (r.1, { c with acc := r.2 }) := by
    refine (h 0 _ _ c hs.outer hinv).trans ?_
    rw [Records.event, if_pos rfl, recordEvent, if_neg hstart, if_neg fun h => hend h.1, hs.acc]
  have hkeeps : Keeps callback base c := by
    intro depth event parsed hdepth
    obtain ⟨more, rfl⟩ := Nat.exists_eq_add_of_le (show base ≤ depth by omega)
    rw [h more event parsed c hs.outer hinv, Records.event, if_neg (by omega), if_pos (by simp [hs.inRecord])]
  cases hrefusal : refusal a with
  | some error =>
    have hthrows := hrefuses.throws a error hs.inv hrefusal
    cases item with
    | object members => cases hitem
    | array items =>
      rw [parseValue, hevent .arrayStart (by decide) (by decide), hthrows .arrayStart (.inr rfl)]
      exact .error error
    | null | boolean | unsigned | integer | float | string =>
      change Alike _ (parseScalar callback base true true _ c) _
      rw [parseScalar, if_pos rfl, hevent .value (by decide) (by decide), hthrows .value (.inl rfl)]
      exact .error error
  | none =>
    have hpasses (event : ParseEvent) (h : event = .value ∨ event = .arrayStart ∨ event = .arrayEnd)
        (parsed : Json) : callback base event parsed c = .ok (true, c) := by
      rw [hevent event (by rintro rfl; simp at h) (by rintro rfl; simp at h),
        hrefuses.passes a hs.inv hrefusal event h, ← hs.acc]
      rfl
    cases item with
    | object members => cases hitem
    | array items =>
      rw [parseValue, hpasses .arrayStart (.inr (.inl rfl)), ok_bind]
      dsimp only
      rw [Bool.and_self, parseItems_kept fun item _ => parseValue_kept item hkeeps, ok_bind]
      change Alike _ (parseEnd callback base .arrayEnd true _ c) _
      rw [parseEnd, if_pos rfl, hpasses .arrayEnd (.inr (.inr rfl))]
      exact .ok hs
    | null | boolean | unsigned | integer | float | string =>
      change Alike _ (parseScalar callback base true true _ c) _
      rw [parseScalar, if_pos rfl, hpasses .value (.inl rfl)]
      exact .ok hs

/-- The loop over a list of records. -/
theorem Follows.parseRecords (h : Follows hooks callback base o Inv) (hpreserves : Preserves hooks Inv)
    (hothers : Others hooks callback base o Inv other) {refusal : α → Option String}
    (hrefuses : Refuses hooks Inv refusal) (hs : AtRecord o Inv c a) (items kept : List Json) :
    Alike (fun r t => AtRecord o Inv r.2 t) (Json.parseItems callback base true true items kept c)
      (items.foldlM (readItem hooks other refusal) a) := by
  refine parseItems_alike (fun item hitem c a hs => ?_) hs
  cases hmembers : item.members? with
  | some members =>
    cases item with
    | object members' =>
      cases hmembers
      exact h.parseRecord hpreserves hothers hs _
    | null | boolean | unsigned | integer | float | string | array => cases hmembers
  | none =>
    rw [readItem, hmembers]
    exact h.parseOtherItem hrefuses hs hmembers

end Simulation

/-! ## Errors -/

section Errors

variable {ρ α : Type} {hooks : Hooks α} {E : String → Prop}

/-- The errors of a pass have a property. -/
structure Errs (hooks : Hooks α) (E : String → Prop) : Prop where
  text : E "type must be string"
  startRecord : ∀ acc error, hooks.startRecord acc = .error error → E error
  otherRecord : ∀ event acc error, hooks.otherRecord event acc = .error error → E error
  item : ∀ value acc error, hooks.item value acc = .error error → E error
  member : ∀ key event parsed acc error, hooks.member key event parsed acc = .error error → E error
  endRecord : ∀ count acc error, hooks.endRecord count acc = .error error → E error

theorem yields_map {σ β : Type} {Inv : σ → Prop} {result : Except String β} {f : β → Bool × σ}
    (herror : ∀ error, result = .error error → E error) (hf : ∀ b, Inv (f b).2) :
    Yields E Inv (result.map f) := by
  cases result with
  | error error => exact .error (herror error rfl)
  | ok b => exact .ok (hf b)

/-- The events below the list of records leave the outer variables alone. -/
theorem event_yields (h : Errs hooks E) (depth : ℕ) (event : ParseEvent) (parsed : Json) (c : Cursor ρ α) :
    Yields E (fun next : Cursor ρ α => next.outer = c.outer) (Records.event hooks depth event parsed c) := by
  have hrecord : Yields E (fun next : Cursor ρ α => next.outer = c.outer) (recordEvent hooks event c) := by
    rw [recordEvent]
    split
    case isTrue => exact yields_map (h.startRecord c.acc) fun _ => rfl
    case isFalse =>
      split
      · exact yields_map (h.endRecord c.occurrences c.acc) fun _ => rfl
      · exact yields_map (h.otherRecord event c.acc) fun _ => rfl
  have hmember : Yields E (fun next : Cursor ρ α => next.outer = c.outer)
      (memberEvent hooks event parsed c) := by
    have htext (error : String) (herror : parsed.toText = .error error) : E error := by
      cases parsed with
      | string => cases herror
      | null | boolean | unsigned | integer | float | array | object =>
        cases herror
        exact h.text
    rw [memberEvent]
    split_ifs
    · exact yields_map htext fun _ => rfl
    · exact .ok rfl
    · exact .ok rfl
    · exact yields_map (h.member c.key event parsed c.acc) fun _ => rfl
  have hitem : Yields E (fun next : Cursor ρ α => next.outer = c.outer) (itemEvent hooks event parsed c) := by
    rw [itemEvent]
    split_ifs
    · exact .ok rfl
    · exact .ok rfl
    · exact yields_map (h.item parsed c.acc) fun _ => rfl
    · exact .ok rfl
  rw [Records.event]
  split
  case isTrue => exact hrecord
  case isFalse =>
    split
    · exact .ok rfl
    · split_ifs
      · exact hmember
      · exact hitem
      · exact .ok rfl

end Errors

/-! ## Records of a list -/

section Found

variable {γ : Type} {find : List (List Char × Json) → Option γ}

/-- A record of which something has been found. -/
def foundRecord (find : List (List Char × Json) → Option γ) (item : Json) :
    Option (List (List Char × Json) × γ) :=
  item.members?.bind fun members => (find members).map fun found => (members, found)

/-- What is found of a finished list, by the members of its records. -/
theorem mapM_foundRecord {ofItem : Json → Option γ}
    (h : ∀ item : Json, ofItem item.normal = item.members?.bind find) (items : List Json) :
    (items.map Json.normal).mapM ofItem = (items.mapM (foundRecord find)).map (List.map Prod.snd) := by
  rw [List.mapM_map, ← mapM_map_result]
  refine congrArg (fun find => items.mapM find) (funext fun item => (h item).trans ?_)
  rw [foundRecord]
  cases item.members? with
  | none => rfl
  | some members =>
    change find members = ((find members).map _).map _
    cases find members <;> rfl

/-- A list of which something has been found is one of records. -/
theorem records_of_foundRecord {items : List Json} {records : List (List (List Char × Json) × γ)}
    (h : items.mapM (foundRecord find) = some records) :
    items = records.map (fun record => Json.object record.1) ∧
      ∀ record ∈ records, find record.1 = some record.2 := by
  have hall := forall₂_of_mapM_some h
  clear h
  induction hall with
  | nil => exact ⟨rfl, fun _ hno => absurd hno List.not_mem_nil⟩
  | @cons item record items records hfirst _ ih =>
    obtain ⟨members, hmembers, hfirst⟩ := Option.bind_eq_some_iff.mp hfirst
    obtain ⟨found, hfound, rfl⟩ := Option.map_eq_some_iff.mp hfirst
    refine ⟨?_, List.forall_mem_cons.mpr ⟨hfound, ih.2⟩⟩
    rw [List.map_cons, ← ih.1]
    cases item with
    | object => cases hmembers; rfl
    | null | boolean | unsigned | integer | float | string | array => cases hmembers

end Found

/-! ## The last list of a record -/

section Last

variable {α : Type} {hooks : Hooks α}

/-- The list that a record ends with. -/
def lastMember (name : List Char) (members : List (List Char × Json)) : Option Json :=
  lastValue (fun member => if member.1 = name then some member.2 else none) members

def countMembers (name : List Char) (members : List (List Char × Json)) : ℕ :=
  members.countP fun member => member.1 = name

theorem lastMember_cons (name : List Char) (member : List Char × Json) (rest : List (List Char × Json)) :
    lastMember name (member :: rest) =
      (lastMember name rest).or (if member.1 = name then some member.2 else none) := rfl

theorem countMembers_cons (name : List Char) (member : List Char × Json)
    (rest : List (List Char × Json)) :
    countMembers name (member :: rest) = countMembers name rest + if member.1 = name then 1 else 0 := by
  rw [countMembers, countMembers, List.countP_cons]
  simp only [decide_eq_true_eq]

theorem lastMember_eq_none {name : List Char} {members : List (List Char × Json)} :
    lastMember name members = none ↔ countMembers name members = 0 := by
  rw [lastMember, lastValue_eq_none, countMembers, List.countP_eq_zero]
  simp only [ite_eq_right_iff, reduceCtorEq, imp_false, decide_eq_true_eq]

/-- A variable that the members of a name set holds what the last of them sets. -/
theorem observe_last {σ β : Type} {name : List Char} {observe : σ → β} {value : Json → β}
    {step : σ → List Char × Json → σ}
    (hstep : ∀ s member, observe (step s member) = if member.1 = name then value member.2 else observe s)
    (members : List (List Char × Json)) (s : σ) :
    observe (members.foldl step s) = ((lastMember name members).map value).getD (observe s) := by
  rw [lastMember, ← lastValue_map_value]
  refine foldl_observe observe _ step members s fun s member _ => ?_
  rw [hstep]
  by_cases hname : member.1 = name
  · rw [if_pos hname, if_pos hname, Option.map_some, Option.getD_some]
  · rw [if_neg hname, if_neg hname, Option.map_none, Option.getD_none]

/-- A variable that counts the members of a name. -/
theorem observe_count {σ : Type} {name : List Char} {observe : σ → ℕ} {step : σ → List Char × Json → σ}
    (hstep : ∀ s member, observe (step s member) = if member.1 = name then observe s + 1 else observe s)
    (members : List (List Char × Json)) (s : σ) :
    observe (members.foldl step s) = observe s + countMembers name members := by
  induction members generalizing s with
  | nil => rfl
  | cons member rest ih =>
    rw [List.foldl_cons, ih, hstep, countMembers_cons]
    split <;> omega

/-- The member of a finished object is the last one of its name. -/
theorem member?_normal_last (members : List (List Char × Json)) (name : String) :
    (object members).normal.member? name = (lastMember name.toList members).map normal := by
  rw [member?_normal, lastMember, ← lastValue_map_value]
  refine lastValue_congr fun member _ => ?_
  by_cases hname : member.1 = name.toList
  · rw [if_pos hname, if_pos hname, Option.map_some]
  · rw [if_neg hname, if_neg hname, Option.map_none]

/-- A loop over members that counts those of a name, and does something at the last of them, which it knows
by its number. -/
theorem foldlM_last {name : List Char} {take : Json → α → Except String α}
    {step : ℕ × α → List Char × Json → Except String (ℕ × α)} {a : α} {n total : ℕ}
    (hskip : ∀ s member, member.1 ≠ name → step s member = .ok s)
    (hstep : ∀ n member, member.1 = name →
      step (n, a) member = (if n + 1 = total then take member.2 a else .ok a).map fun acc => (n + 1, acc))
    {members : List (List Char × Json)} (hcount : n + countMembers name members = total) :
    members.foldlM step (n, a) =
      ((lastMember name members).elim (.ok a) fun value => take value a).map fun acc => (total, acc) := by
  have hnone (members : List (List Char × Json)) (hcount : countMembers name members = 0) (s : ℕ × α) :
      members.foldlM step s = .ok s := by
    induction members with
    | nil => rfl
    | cons member rest ih =>
      rw [countMembers_cons] at hcount
      have hname : member.1 ≠ name := by
        intro hname
        rw [if_pos hname] at hcount
        cases hcount
      rw [if_neg hname] at hcount
      rw [List.foldlM_cons, hskip s member hname]
      exact ih hcount
  induction members generalizing n with
  | nil =>
    obtain rfl : n = total := hcount
    rfl
  | cons member rest ih =>
    rw [countMembers_cons] at hcount
    rw [List.foldlM_cons, lastMember_cons]
    by_cases hname : member.1 = name
    · rw [if_pos hname] at hcount
      rw [hstep n member hname, if_pos hname]
      by_cases hlast : n + 1 = total
      · have hrest : countMembers name rest = 0 := by omega
        rw [if_pos hlast, lastMember_eq_none.mpr hrest, Option.none_or, hlast]
        change _ = (take member.2 a).map _
        cases take member.2 a with
        | error error => rfl
        | ok acc => exact hnone rest hrest (total, acc)
      · obtain ⟨value, hvalue⟩ : ∃ value, lastMember name rest = some value := by
          refine Option.ne_none_iff_exists'.mp fun hnone => hlast ?_
          have hrest := lastMember_eq_none.mp hnone
          omega
        have hnext := @ih (n + 1) (by omega)
        rw [hvalue] at hnext
        rw [if_neg hlast, hvalue, Option.some_or]
        exact hnext
    · rw [if_neg hname] at hcount
      rw [hskip (n, a) member hname, if_neg hname, Option.or_none]
      exact ih hcount

/-- A pass that takes the items of the last list of a record only. -/
theorem foldlM_readMember_last (hlist : ∀ array acc, hooks.list array acc = acc) {a : α} {total : ℕ}
    (hselect : ∀ n, (hooks.enters n a && hooks.selects n a) = decide (n = total))
    {members : List (List Char × Json)} (hcount : countMembers hooks.listKey members = total) :
    members.foldlM (readMember hooks fun _ _ acc => .ok acc) (0, a) =
      ((lastMember hooks.listKey members).elim (.ok a) fun value => takeItems hooks value a).map fun acc =>
        (total, acc) := by
  refine foldlM_last (fun s member hname => ?_) (fun n member hname => ?_) ((Nat.zero_add _).trans hcount)
  · rw [readMember, if_neg hname]
    rfl
  · rw [readMember, if_pos hname, hlist, hselect]
    simp only [decide_eq_true_eq]

end Last

end Records

end Json
