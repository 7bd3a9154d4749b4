import WaterStructure.Core.Decimal
import WaterStructure.Core.Text
import WaterStructure.Formats.CuboidCommand
import WaterStructure.Library.Memo

/-!
# The text of a command line

A line is a list of bytes, given as characters. `fill` and `setblock` lines carry six or three
coordinates, a block name and possibly a bracketed list of properties; other lines are skipped.
The block state registry is a parameter that answers for names and states.
-/

namespace WaterStructure.McFunction

def kMaxStateProperties : ℕ := 128

def kMaxRuntimeCacheEntries : ℕ := 65536

/-- What the readers ask of the block state registry. -/
structure BlockRegistry where
  find : List Char → List BlockStateProperty → Option RuntimeId
  legacyStateRuntimeId : List Char → List BlockStateProperty → Option RuntimeId
  legacyRuntimeId : List Char → ℕ → Option RuntimeId
  compatibleJavaRuntimeId : List Char → Option RuntimeId
  airRuntimeId : RuntimeId

def trimView (value : List Char) : List Char := trimBy isBlank value

def coordinate (token : List Char) : Option ℤ :=
  match token with
  | [] => none
  | '~' :: [] => some 0
  | '~' :: number => fromChars number
  | number => fromChars number

/-- The parts of a property list between commas that are not quoted, with the part so far;
`none` when a quote is left open. -/
def splitParts : Bool → Bool → List Char → List Char → Option (List (List Char))
  | quoted, escaped, part, [] => if quoted || escaped then none else some [part]
  | quoted, escaped, part, c :: rest =>
    if quoted && escaped then splitParts quoted false (part ++ [c]) rest
    else if quoted && c = '\\' then splitParts quoted true (part ++ [c]) rest
    else if c = '"' then splitParts (!quoted) escaped (part ++ [c]) rest
    else if c = ',' && !quoted then (splitParts false false [] rest).map (part :: ·)
    else splitParts quoted escaped (part ++ [c]) rest

/-- A name or a value without blanks and quotes at both ends. -/
def trimProperty (text : List Char) : List Char := trimBy (fun c => isBlank c || c = '"') text

/-- One part `name=value`, with the type that the value suggests. -/
def parseProperty (part : List Char) : Option BlockStateProperty :=
  let name := part.takeWhile fun c => c ≠ '='
  match part.dropWhile fun c => c ≠ '=' with
  | [] => none
  | _ :: value =>
    if name.isEmpty then none
    else
      let name := trimProperty name
      let value := trimProperty value
      if name.isEmpty || value.isEmpty then none
      else if value = "true".toList then some ⟨name, .Byte, ['1']⟩
      else if value = "false".toList then some ⟨name, .Byte, ['0']⟩
      else some ⟨name, if (fromChars value).isSome then .Int else .String, value⟩

/-- `states`: the properties of a bracketed list; an empty text has none. -/
def states (text : List Char) : Option (List BlockStateProperty) :=
  match text with
  | [] => some []
  | first :: rest =>
    if first ≠ '[' || (first :: rest).getLast? ≠ some ']' then none
    else do
      let parts ← splitParts false false [] rest.dropLast
      let properties := parts.filter fun part => !part.isEmpty
      if properties.length > kMaxStateProperties then none else properties.mapM parseProperty

/-- The scan behind an opening bracket: the text up to the bracket that closes it. -/
def scanState : Bool → Bool → List Char → Option (List Char)
  | _, _, [] => none
  | quoted, escaped, c :: rest =>
    if quoted && escaped then (scanState quoted false rest).map (c :: ·)
    else if quoted && c = '\\' then (scanState quoted true rest).map (c :: ·)
    else if c = '"' then (scanState (!quoted) escaped rest).map (c :: ·)
    else if c = ']' && !quoted then some [c]
    else (scanState quoted escaped rest).map (c :: ·)

/-- The block name and the state text behind the coordinates; what follows them is ignored. -/
def parseTarget (rest : List Char) : Except String (List Char × List Char) :=
  let rest := rest.dropWhile isSpace
  let blockName := rest.takeWhile fun c => c ≠ '[' && !isSpace c
  if blockName.isEmpty then .error "缺少方块名"
  else
    match (rest.dropWhile fun c => c ≠ '[' && !isSpace c).dropWhile isSpace with
    | '[' :: rest =>
      match scanState false false rest with
      | none => .error "状态格式无效"
      | some stateText => .ok (blockName, '[' :: stateText)
    | _ => .ok (blockName, [])

/-- Whether a line is a `fill` or a `setblock`, and what follows; `none` for every other line. -/
def commandFields (rawLine : List Char) : Option (Bool × List Char) :=
  let view := trimView rawLine
  if view.isEmpty || view.head? = some '#' then none
  else
    match nextField view with
    | none => none
    | some (command, rest) =>
      if asciiIequals command "fill".toList then some (true, rest)
      else if asciiIequals command "setblock".toList then some (false, rest)
      else none

/-- `lookup_key` of a name and a state text. -/
def lookupKey (name stateText : List Char) : List Char := name ++ stateText

/-- The runtime id of a name and a state text; `none` when the state text is invalid. -/
def resolve (registry : BlockRegistry) (name stateText : List Char) : Option RuntimeId :=
  (states stateText).map fun parsedStates =>
    let runtime := (registry.find name parsedStates).or
      ((if parsedStates.isEmpty then none
        else registry.legacyStateRuntimeId name parsedStates).or
        (if parsedStates.isEmpty then registry.legacyRuntimeId name 0 else none))
    (runtime.or (registry.compatibleJavaRuntimeId (lookupKey name stateText))).getD
      ((registry.find "minecraft:unknown".toList []).getD registry.airRuntimeId)

/-- `runtime_cache`. -/
abbrev RuntimeCache := AList fun _ : List Char => RuntimeId

/-- The name in a key: a name has no bracket, and a state text starts with one. -/
def keyName (key : List Char) : List Char := key.takeWhile (· ≠ '[')

def keyState (key : List Char) : List Char := key.dropWhile (· ≠ '[')

/-- Look an id up, or resolve it and keep it. -/
def resolveCached (registry : BlockRegistry) (cache : RuntimeCache) (name stateText : List Char) :
    RuntimeCache × Option RuntimeId :=
  match cache.lookup (lookupKey name stateText) with
  | some runtime => (cache, some runtime)
  | none =>
    match resolve registry name stateText with
    | none => (cache, none)
    | some runtime =>
      (if cache.keys.length < kMaxRuntimeCacheEntries then
        cache.insert (lookupKey name stateText) runtime
      else cache, some runtime)

/-- The answer under a key. -/
def resolveKey (registry : BlockRegistry) (key : List Char) : Option RuntimeId :=
  resolve registry (keyName key) (keyState key)

/-- A name as the readers cut it, and a state text behind it. -/
structure IsTarget (name stateText : List Char) : Prop where
  name : '[' ∉ name
  state : stateText = [] ∨ ∃ rest, stateText = '[' :: rest

variable {name stateText : List Char} {registry : BlockRegistry}

/-- The key of a name and a state text tells them apart. -/
theorem IsTarget.key (h : IsTarget name stateText) :
    keyName (lookupKey name stateText) = name ∧ keyState (lookupKey name stateText) = stateText := by
  have hname : ∀ c ∈ name, (decide (c ≠ '[')) = true := by
    intro c hc
    rw [decide_eq_true_eq]
    intro heq
    exact h.name (heq ▸ hc)
  rw [keyName, keyState, lookupKey, List.takeWhile_append_of_pos hname,
    List.dropWhile_append_of_pos hname]
  rcases h.state with rfl | ⟨rest, rfl⟩
  · simp
  · simp

/-- What `parseTarget` finds are a name and a state text. -/
theorem isTarget_of_parseTarget {rest : List Char} (h : parseTarget rest = .ok (name, stateText)) :
    IsTarget name stateText := by
  rw [parseTarget] at h
  obtain ⟨_, h⟩ := NestedLoop.else_of_ok h
  have hname : '[' ∉ (rest.dropWhile isSpace).takeWhile fun c => c ≠ '[' && !isSpace c := by
    intro hmem
    have hkept := List.mem_takeWhile_imp hmem
    simp at hkept
  split at h
  case h_1 =>
    split at h
    case h_1 => cases h
    case h_2 =>
      cases h
      exact ⟨hname, .inr ⟨_, rfl⟩⟩
  case h_2 =>
    cases h
    exact ⟨hname, .inl rfl⟩

/-- For a name and a state text the cache is a cache of the answers under keys. -/
theorem resolveCached_eq (h : IsTarget name stateText) (cache : RuntimeCache) :
    resolveCached registry cache name stateText =
      Memo.memo kMaxRuntimeCacheEntries (resolveKey registry) cache (lookupKey name stateText) := by
  rw [resolveCached, Memo.memo, resolveKey, h.key.1, h.key.2]
  cases cache.lookup (lookupKey name stateText) with
  | some runtime => rfl
  | none => cases resolve registry name stateText <;> rfl

/-- A cache that holds answers of the registry. -/
def CacheSound (registry : BlockRegistry) (cache : RuntimeCache) : Prop :=
  Memo.Sound (resolveKey registry) cache

/-- Resolving through a sound cache is resolving. -/
theorem CacheSound.resolveCached {cache : RuntimeCache} (h : CacheSound registry cache)
    (htarget : IsTarget name stateText) :
    (resolveCached registry cache name stateText).2 = resolve registry name stateText ∧
      CacheSound registry (resolveCached registry cache name stateText).1 := by
  rw [resolveCached_eq htarget, Memo.memo_snd h, resolveKey, htarget.key.1, htarget.key.2]
  exact ⟨rfl, Memo.Sound.memo h _⟩

/-- A field between blanks. -/
theorem nextField_append {blanks token : List Char} (hblanks : ∀ c ∈ blanks, isSpace c = true)
    (hne : token ≠ []) (htoken : ∀ c ∈ token, isSpace c = false) (rest : List Char) :
    nextField (blanks ++ token ++ ' ' :: rest) = some (token, ' ' :: rest) := by
  obtain ⟨c, tail, rfl⟩ := List.exists_cons_of_ne_nil hne
  have hfirst : isSpace c = false := htoken c List.mem_cons_self
  have hdrop : (blanks ++ (c :: tail) ++ ' ' :: rest).dropWhile isSpace =
      (c :: tail) ++ ' ' :: rest := by
    rw [List.append_assoc, List.dropWhile_append_of_pos hblanks, List.cons_append,
      List.dropWhile_cons_of_neg (by rw [hfirst]; decide)]
  have hkeep : ∀ x ∈ c :: tail, (!isSpace x) = true := by
    intro x hx
    rw [htoken x hx]
    rfl
  rw [nextField, hdrop, List.cons_append]
  dsimp only
  rw [← List.cons_append, List.takeWhile_append_of_pos hkeep, List.dropWhile_append_of_pos hkeep]
  have hspace : (!isSpace ' ') = false := by decide
  rw [List.takeWhile_cons_of_neg (by rw [hspace]; decide),
    List.dropWhile_cons_of_neg (by rw [hspace]; decide), List.append_nil]

end WaterStructure.McFunction
