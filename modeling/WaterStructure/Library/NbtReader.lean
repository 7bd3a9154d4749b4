import WaterStructure.Library.ByteReader
import WaterStructure.Library.TagTree

/-!
# Reading tags from bytes

`readPayload` builds the whole tree of a tag. Its compounds are maps, so of the entries with one key the
first one stays. A reader that goes through the same bytes and keeps less is compared with it by `Follows`,
which composes along binds and along the loops over the items of a list and the entries of a compound. A
reader is given the number of levels that it may still go down.
-/

namespace NbtReader

open ByteReader NbtTag

section Following

variable {α β γ δ : Type}

/-- Where the first reader succeeds, the second one takes the same bytes and gives a related value. -/
def Follows (r : Reader α) (s : Reader β) (R : α → β → Prop) : Prop :=
  ∀ input a rest, r input = .ok (a, rest) → ∃ b, s input = .ok (b, rest) ∧ R a b

variable {r : Reader α} {b : β} {R : α → β → Prop} {s : Reader β} {next : α → Reader γ} {S : γ → δ → Prop}

theorem exists_of_bind {next : α → Reader β} {input rest : Input} (h : (r >>= next) input = .ok (b, rest)) :
    ∃ a middle, r input = .ok (a, middle) ∧ next a middle = .ok (b, rest) := by
  rw [bind_eq] at h
  cases hr : r input with
  | error error =>
    rw [hr] at h
    cases h
  | ok result =>
    rw [hr] at h
    exact ⟨result.1, result.2, rfl, h⟩

theorem Follows.pure {a : α} (h : R a b) : Follows (Pure.pure a : Reader α) (Pure.pure b : Reader β) R := by
  rintro input a' rest heq
  cases heq
  exact ⟨b, rfl, h⟩

theorem Follows.refl (r : Reader α) : Follows r r Eq := fun _ a _ h => ⟨a, h, rfl⟩

theorem Follows.bind {next' : β → Reader δ} (h : Follows r s R)
    (hnext : ∀ a b, R a b → Follows (next a) (next' b) S) : Follows (r >>= next) (s >>= next') S := by
  intro input c rest hc
  obtain ⟨a, middle, ha, hc⟩ := exists_of_bind hc
  obtain ⟨b, hb, hab⟩ := h input a middle ha
  rw [bind_of_ok hb]
  exact hnext a b hab middle c rest hc

/-- Both readers begin alike. -/
theorem Follows.bind_left (r : Reader α) {next' : α → Reader δ} (hnext : ∀ a, Follows (next a) (next' a) S) :
    Follows (r >>= next) (r >>= next') S :=
  (Follows.refl r).bind fun a _ hab => hab ▸ hnext a

/-- A value that is changed after it has been read. -/
theorem Follows.map {r : Reader α} {s : Reader β} {R : α → β → Prop} {f : α → γ} {g : β → δ}
    {S : γ → δ → Prop} (h : Follows r s R) (himp : ∀ a b, R a b → S (f a) (g b)) :
    Follows (r >>= fun a => Pure.pure (f a)) (s >>= fun b => Pure.pure (g b)) S :=
  h.bind fun a b hab => .pure (himp a b hab)

/-- A value that only the first reader changes. -/
theorem Follows.map_left {f : α → γ} {S : γ → β → Prop} (h : Follows r s R) (himp : ∀ a b, R a b → S (f a) b) :
    Follows (r >>= fun a => Pure.pure (f a)) s S := by
  intro input c rest hc
  obtain ⟨a, middle, ha, hc⟩ := exists_of_bind hc
  cases hc
  exact (h input a rest ha).imp fun b hb => ⟨hb.1, himp a b hb.2⟩

theorem Follows.fail {message : String} {s : Reader β} {R : α → β → Prop} :
    Follows (ByteReader.fail message) s R := nofun

end Following

section Loops

variable {σ τ : Type}

/-- A number of turns. -/
def times (body : σ → Reader σ) : ℕ → σ → Reader σ
  | 0, state => pure state
  | count + 1, state => do
    let next ← body state
    times body count next

theorem Follows.times {body : σ → Reader σ} {body' : τ → Reader τ} {R : σ → τ → Prop}
    (hbody : ∀ s t, R s t → Follows (body s) (body' t) R) (count : ℕ) {s : σ} {t : τ} (h : R s t) :
    Follows (NbtReader.times body count s) (NbtReader.times body' count t) R := by
  induction count generalizing s t with
  | zero => exact .pure h
  | succ count ih => exact (hbody s t h).bind fun s' t' h' => ih h'

end Loops

/-- The number that a tag type is written as. -/
def typeOf : ℕ → Option TagType
  | 0 => some .End
  | 1 => some .Byte
  | 2 => some .Short
  | 3 => some .Int
  | 4 => some .Long
  | 5 => some .Float
  | 6 => some .Double
  | 7 => some .ByteArray
  | 8 => some .String
  | 9 => some .List
  | 10 => some .Compound
  | 11 => some .IntArray
  | 12 => some .LongArray
  | _ => none

def typeName : TagType → String
  | .End => "end"
  | .Byte => "byte"
  | .Short => "short"
  | .Int => "int"
  | .Long => "long"
  | .Float => "float"
  | .Double => "double"
  | .ByteArray => "byte_array"
  | .String => "string"
  | .List => "list"
  | .Compound => "compound"
  | .IntArray => "int_array"
  | .LongArray => "long_array"

/-- `read_type` -/
def readType (allowEnd : Bool) : Reader TagType
  | [] => .error "Error reading tag type"
  | byte :: rest =>
    match typeOf byte.toNat with
    | none => .error ("Invalid tag type: " ++ toString byte.toNat)
    | some type =>
      if type = .End ∧ allowEnd = false then .error ("Invalid tag type: " ++ toString byte.toNat)
      else .ok (type, rest)

/-- `read_num`, with the high bytes first. -/
def number (width : ℕ) (message : String) : Reader ℕ := fun input =>
  if input.length < width then .error message
  else .ok ((input.take width).foldl (fun value byte => value * 256 + byte.toNat) 0, input.drop width)

def signed (width : ℕ) (message : String) : Reader ℤ := do
  let value ← number width message
  pure (Int.bmod value (256 ^ width))

/-- Some characters, each of which stands for a byte. -/
def chars (count : ℕ) (message : String) : Reader (List Char) := fun input =>
  if input.length < count then .error message
  else .ok ((input.take count).map fun byte => Char.ofNat byte.toNat, input.drop count)

/-- `read_string` -/
def readString (message : String) : Reader (List Char) := do
  let length ← number 2 message
  chars length message

/-- The length of a list or an array. -/
def readLength (message : String) : Reader ℕ := do
  let length ← signed 4 message
  failIf (length < 0) message
  pure length.toNat

/-- The numbers of an array. -/
def readValues (width : ℕ) (message : String) (count : ℕ) : Reader (List ℤ) :=
  times (fun values => do
    let value ← signed width message
    pure (values ++ [value])) count []

/-- The message of an error does not matter. -/
theorem follows_number (width : ℕ) (message message' : String) :
    Follows (number width message) (number width message') Eq := by
  intro input value rest h
  rw [number] at h ⊢
  split at h
  case isTrue => cases h
  case isFalse hlength => exact ⟨value, (if_neg hlength).trans h, rfl⟩

theorem follows_chars (count : ℕ) (message message' : String) :
    Follows (chars count message) (chars count message') Eq := by
  intro input text rest h
  rw [chars] at h ⊢
  split at h
  case isTrue => cases h
  case isFalse hlength => exact ⟨text, (if_neg hlength).trans h, rfl⟩

theorem follows_readString (message message' : String) :
    Follows (readString message) (readString message') Eq := by
  refine (follows_number 2 message message').bind ?_
  rintro length _ rfl
  exact follows_chars length message message'

section Entries

variable {σ τ : Type}

/-- The turns of a loop over entries up to the end tag. Each of them takes a byte at least. -/
def readEntriesFrom (keyMessage : TagType → String) (entry : σ → List Char → TagType → Reader σ) :
    ℕ → σ → Reader σ
  | 0, _ => fail "Error reading tag type"
  | turns + 1, state => do
    let type ← readType true
    if type = .End then pure state
    else do
      let key ← readString (keyMessage type)
      let next ← entry state key type
      readEntriesFrom keyMessage entry turns next

/-- The loop over the entries of a compound; `entry` reads the tag under a key. -/
def readEntries (keyMessage : TagType → String) (entry : σ → List Char → TagType → Reader σ) (state : σ) :
    Reader σ := fun input => readEntriesFrom keyMessage entry (input.length + 1) state input

variable {keyMessage keyMessage' : TagType → String} {entry : σ → List Char → TagType → Reader σ}
  {entry' : τ → List Char → TagType → Reader τ} {R : σ → τ → Prop} {s : σ} {t : τ}

theorem Follows.entriesFrom (hentry : ∀ s t key type, R s t → Follows (entry s key type) (entry' t key type) R)
    (turns : ℕ) (h : R s t) :
    Follows (readEntriesFrom keyMessage entry turns s) (readEntriesFrom keyMessage' entry' turns t) R := by
  induction turns generalizing s t with
  | zero => exact .fail
  | succ turns ih =>
    refine .bind_left _ fun type => ?_
    split
    · exact .pure h
    · refine (follows_readString _ _).bind ?_
      rintro key _ rfl
      exact (hentry s t key type h).bind fun s' t' h' => ih h'

theorem Follows.entries (hentry : ∀ s t key type, R s t → Follows (entry s key type) (entry' t key type) R)
    (h : R s t) : Follows (readEntries keyMessage entry s) (readEntries keyMessage' entry' t) R :=
  fun input => Follows.entriesFrom hentry (input.length + 1) h input

end Entries

section Trees

/-- One entry of a compound; a key that is there keeps its tag. -/
def treeEntry (read : TagType → Reader Tag) (map : Compound) (key : List Char) (type : TagType) :
    Reader Compound := do
  let tag ← read type
  pure (map.emplace key tag)

/-- One item of a list. -/
def treeItem (read : Reader Tag) (items : List Tag) : Reader (List Tag) := do
  let item ← read
  pure (items ++ [item])

def treeKeyMessage (type : TagType) : String := "Error reading key of tag_" ++ typeName type

/-- `read_payload`, with `++depth > MAX_DEPTH` as no levels left. -/
def readPayload : (room : ℕ) → TagType → Reader Tag
  | 0, _ => fail "Too deeply nested"
  | room + 1, type =>
    match type with
    | .End => fail "Invalid tag type"
    | .Byte => do
      let value ← signed 1 "Error reading tag_byte"
      pure (.byte value)
    | .Short => do
      let value ← signed 2 "Error reading tag_short"
      pure (.short value)
    | .Int => do
      let value ← signed 4 "Error reading tag_int"
      pure (.int value)
    | .Long => do
      let value ← signed 8 "Error reading tag_long"
      pure (.long value)
    | .Float => do
      let bits ← number 4 "Error reading tag_float"
      pure (.float (UInt32.ofNat bits))
    | .Double => do
      let bits ← number 8 "Error reading tag_double"
      pure (.double (UInt64.ofNat bits))
    | .ByteArray => do
      let length ← readLength "Error reading length of tag_byte_array"
      let values ← readValues 1 "Error reading contents of tag_byte_array" length
      pure (.byteArray values)
    | .String => do
      let value ← readString "Error reading tag_string"
      pure (.string value)
    | .List => do
      let element ← readType true
      let length ← readLength "Error reading length of tag_list"
      if element = .End then pure (.list .End [])
      else do
        let items ← times (treeItem (readPayload room element)) length []
        pure (.list element items)
    | .Compound => do
      let map ← readEntries treeKeyMessage (treeEntry (readPayload room)) {}
      pure (.compound map.entries)
    | .IntArray => do
      let length ← readLength "Error reading length of generic array tag"
      let values ← readValues 4 "Error reading contents of generic array tag" length
      pure (.intArray values)
    | .LongArray => do
      let length ← readLength "Error reading length of tag_long_array"
      let values ← readValues 8 "Error reading contents of tag_long_array" length
      pure (.longArray values)

/-- `read_compound`, of a whole document. -/
def readCompound : Reader (List Char × Compound) := do
  let type ← readType false
  failIf (type ≠ .Compound) "Tag is not a compound"
  let name ← readString "Error reading string"
  let map ← readEntries treeKeyMessage (treeEntry (readPayload maxDepth)) .empty
  pure (name, map)

/-- A tag may be read with more levels left. -/
theorem readPayload_mono {room room' : ℕ} (hroom : room ≤ room') (type : TagType) :
    Follows (readPayload room type) (readPayload room' type) Eq := by
  induction room generalizing room' type with
  | zero => exact .fail
  | succ room ih =>
    obtain ⟨room', rfl⟩ := Nat.exists_eq_add_of_le' (Nat.lt_of_succ_le hroom)
    have hle := Nat.le_of_succ_le_succ hroom
    cases type with
    | List =>
      refine .bind_left _ fun element => .bind_left _ fun length => ?_
      split
      · exact .refl _
      · refine .map (.times (R := Eq) ?_ length rfl) fun items _ h => h ▸ rfl
        rintro items _ rfl
        exact (ih hle element).map fun item _ h => h ▸ rfl
    | Compound =>
      refine .map (.entries (R := Eq) ?_ rfl) fun map _ h => h ▸ rfl
      rintro map _ key type rfl
      exact (ih hle type).map fun tag _ h => h ▸ rfl
    | _ => exact .refl _

end Trees

end NbtReader
