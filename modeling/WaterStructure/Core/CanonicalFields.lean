import WaterStructure.Core.CanonicalNbt
import WaterStructure.Core.StateKeys
import WaterStructure.Core.Text

/-!
# The fields of NBT

Every node below the root of a compound is listed with its bytes under a path of keys and indices. A key
is escaped, so that the slashes of a path are those between its steps. The nodes of one tree have paths of
their own.
-/

namespace WaterStructure.Canonical

open ByteReader NbtTag NestedLoop SelfDelimiting

structure CanonicalNbtField where
  path : List Char
  encoded : List UInt8

/-- What stands for a character of a key. -/
def escapeChar (c : Char) : List Char :=
  if c = '~' then ['~', '0'] else if c = '/' then ['~', '1'] else [c]

/-- `escape_json_pointer` -/
def escapeJsonPointer (value : List Char) : List Char := value.flatMap escapeChar

/-- The fields of the children of a compound, in the order of the keys. -/
def inKeyOrder (children : List (List Char × List CanonicalNbtField)) : List CanonicalNbtField :=
  (children.mergeSort fun left right => decide (left.1 ≤ right.1)).flatMap Prod.snd

mutual

/-- `collect_nbt_fields` -/
def collectNbtFields (path : List Char) : Tag → Except String (List CanonicalNbtField)
  | .compound entries => do
    let encoded ← appendTag (.compound entries)
    let children ← collectEntries path entries
    return ⟨path, encoded⟩ :: inKeyOrder children
  | .list element items => do
    let encoded ← appendTag (.list element items)
    let fields ← collectItems path 0 items
    return ⟨path, encoded⟩ :: fields
  | tag => do
    let encoded ← appendTag tag
    return [⟨path, encoded⟩]
termination_by structural tag => tag

def collectItems (path : List Char) (index : ℕ) : List Tag → Except String (List CanonicalNbtField)
  | [] => .ok []
  | item :: rest => do
    let first ← collectNbtFields (path ++ '/' :: decimal index) item
    let fields ← collectItems path (index + 1) rest
    return first ++ fields
termination_by structural items => items

def collectEntries (path : List Char) :
    List (List Char × Tag) → Except String (List (List Char × List CanonicalNbtField))
  | [] => .ok []
  | entry :: rest => do
    let child ← collectEntry path entry
    let children ← collectEntries path rest
    return child :: children
termination_by structural entries => entries

def collectEntry (path : List Char) : List Char × Tag → Except String (List Char × List CanonicalNbtField)
  | (key, tag) => (collectNbtFields (path ++ '/' :: escapeJsonPointer key) tag).map (key, ·)
termination_by structural entry => entry

end

/-- `canonical_nbt_fields`, on the compound that has been read. -/
def canonicalNbtFields (root : Compound) : Except String (List CanonicalNbtField) :=
  ((collectEntries [] root.entries).map inKeyOrder).mapError ("canonical NBT 字段失败: " ++ ·)

/-- A step as it stands in a path. -/
def stepText : Step → List Char
  | .key key => '/' :: escapeJsonPointer key
  | .index index => '/' :: decimal index

def pathText (steps : List Step) : List Char := steps.flatMap stepText

/-- The field shows the node that the steps lead to. -/
def FieldAt (root : Tag) (before : List Char) (steps : List Step) (field : CanonicalNbtField) : Prop :=
  field.path = before ++ pathText steps ∧
    ∃ node, root.at steps = some node ∧ appendTag node = .ok field.encoded

section Paths

/-- What stands for a character of a key, in front of any rest, fixes it. -/
theorem escapeChar_append {c d : Char} {s t : List Char}
    (h : escapeChar c ++ s = escapeChar d ++ t) : c = d ∧ s = t := by
  have hcases (c : Char) : (c = '~' ∧ escapeChar c = ['~', '0']) ∨ (c = '/' ∧ escapeChar c = ['~', '1']) ∨
      (c ≠ '~' ∧ escapeChar c = [c]) := by
    rw [escapeChar]
    split_ifs with hc hslash
    · exact .inl ⟨hc, rfl⟩
    · exact .inr (.inl ⟨hslash, rfl⟩)
    · exact .inr (.inr ⟨hc, rfl⟩)
  rcases hcases c with ⟨htilde, hc⟩ | ⟨hslash, hc⟩ | ⟨hne, hc⟩
  · rcases hcases d with ⟨htilde', hd⟩ | ⟨hslash', hd⟩ | ⟨hne', hd⟩
    · rw [hc, hd] at h
      exact ⟨htilde.trans htilde'.symm, List.append_cancel_left h⟩
    · rw [hc, hd] at h
      simp at h
    · rw [hc, hd] at h
      exact absurd (List.cons.inj h).1.symm hne'
  · rcases hcases d with ⟨htilde', hd⟩ | ⟨hslash', hd⟩ | ⟨hne', hd⟩
    · rw [hc, hd] at h
      simp at h
    · rw [hc, hd] at h
      exact ⟨hslash.trans hslash'.symm, List.append_cancel_left h⟩
    · rw [hc, hd] at h
      exact absurd (List.cons.inj h).1.symm hne'
  · rcases hcases d with ⟨htilde', hd⟩ | ⟨hslash', hd⟩ | ⟨hne', hd⟩
    · rw [hc, hd] at h
      exact absurd (List.cons.inj h).1 hne
    · rw [hc, hd] at h
      exact absurd (List.cons.inj h).1 hne
    · rw [hc, hd] at h
      exact List.cons.inj h

theorem escapeJsonPointer_cons (c : Char) (value : List Char) :
    escapeJsonPointer (c :: value) = escapeChar c ++ escapeJsonPointer value := List.flatMap_cons

theorem escapeChar_ne_nil (c : Char) : escapeChar c ≠ [] := by
  rw [escapeChar]
  split
  · exact List.cons_ne_nil _ _
  · split <;> exact List.cons_ne_nil _ _

theorem escapeJsonPointer_injective : Function.Injective escapeJsonPointer := by
  intro value
  induction value with
  | nil =>
    intro other h
    cases other with
    | nil => rfl
    | cons d other =>
      rw [escapeJsonPointer_cons] at h
      exact absurd (List.append_eq_nil_iff.mp h.symm).1 (escapeChar_ne_nil d)
  | cons c value ih =>
    intro other h
    cases other with
    | nil =>
      rw [escapeJsonPointer_cons] at h
      exact absurd (List.append_eq_nil_iff.mp h).1 (escapeChar_ne_nil c)
    | cons d other =>
      rw [escapeJsonPointer_cons, escapeJsonPointer_cons] at h
      obtain ⟨rfl, hrest⟩ := escapeChar_append h
      rw [ih hrest]

theorem notMem_escapeJsonPointer (value : List Char) : '/' ∉ escapeJsonPointer value := by
  intro hmem
  obtain ⟨c, -, hc⟩ := List.mem_flatMap.mp hmem
  rw [escapeChar] at hc
  split_ifs at hc with _ hslash
  · exact absurd hc (by decide)
  · exact absurd hc (by decide)
  · exact hslash (List.mem_singleton.mp hc).symm

theorem notMem_decimal (value : ℤ) : '/' ∉ decimal value := by
  intro hmem
  rcases isDigit_of_mem_decimal hmem with h | h
  · exact absurd h (by decide)
  · exact absurd h (by decide)

/-- A text up to the first slash or the end. -/
theorem eq_of_append_slash {body body' more more' : List Char} (h : '/' ∉ body) (h' : '/' ∉ body')
    (hmore : ∀ c ∈ more.head?, c = '/') (hmore' : ∀ c ∈ more'.head?, c = '/')
    (heq : body ++ more = body' ++ more') : body = body' ∧ more = more' := by
  induction body generalizing body' with
  | nil =>
    cases body' with
    | nil => exact ⟨rfl, heq⟩
    | cons d body' =>
      rw [List.nil_append] at heq
      exact absurd (hmore d (by rw [heq]; rfl)) fun hd => h' (hd ▸ List.mem_cons_self)
  | cons c body ih =>
    cases body' with
    | nil =>
      rw [List.nil_append] at heq
      exact absurd (hmore' c (by rw [← heq]; rfl)) fun hc => h (hc ▸ List.mem_cons_self)
    | cons d body' =>
      rw [List.cons_append, List.cons_append] at heq
      obtain ⟨rfl, htail⟩ := List.cons.inj heq
      obtain ⟨rfl, hrest⟩ := ih (fun hmem => h (List.mem_cons_of_mem _ hmem))
        (fun hmem => h' (List.mem_cons_of_mem _ hmem)) htail
      exact ⟨rfl, hrest⟩

theorem stepText_eq (step : Step) : ∃ body, stepText step = '/' :: body ∧ '/' ∉ body := by
  cases step with
  | key key => exact ⟨_, rfl, notMem_escapeJsonPointer key⟩
  | index index => exact ⟨_, rfl, notMem_decimal index⟩

theorem head?_pathText (steps : List Step) : ∀ c ∈ (pathText steps).head?, c = '/' := by
  cases steps with
  | nil => nofun
  | cons step rest =>
    obtain ⟨body, hbody, -⟩ := stepText_eq step
    intro c hc
    rw [pathText, List.flatMap_cons, hbody, List.cons_append] at hc
    exact (Option.some.inj hc).symm

/-- The text of a step ends where the next one begins. -/
theorem stepText_append {step step' : Step} {rest rest' : List Step}
    (h : stepText step ++ pathText rest = stepText step' ++ pathText rest') :
    stepText step = stepText step' ∧ pathText rest = pathText rest' := by
  obtain ⟨body, hbody, hnot⟩ := stepText_eq step
  obtain ⟨body', hbody', hnot'⟩ := stepText_eq step'
  rw [hbody, hbody', List.cons_append, List.cons_append] at h
  obtain ⟨rfl, hrest⟩ := eq_of_append_slash hnot hnot' (head?_pathText rest) (head?_pathText rest')
    (List.cons.inj h).2
  exact ⟨hbody.trans hbody'.symm, hrest⟩

/-- The children of one tag have texts of their own. -/
theorem stepText_child {tag : Tag} {step step' : Step} (h : (tag.child step).isSome = true)
    (h' : (tag.child step').isSome = true) (heq : stepText step = stepText step') : step = step' := by
  have hbody := fun body body' : List Char => @List.cons_inj_right _ '/' body body'
  cases tag with
  | compound entries =>
    cases step with
    | index => cases h
    | key key =>
      cases step' with
      | index => cases h'
      | key key' => rw [escapeJsonPointer_injective ((hbody _ _).mp heq)]
  | list element items =>
    cases step with
    | key => cases h
    | index index =>
      cases step' with
      | key => cases h'
      | index index' =>
        have hindex := decimal_injective ((hbody _ _).mp heq)
        rw [Int.ofNat_inj.mp hindex]
  | _ => cases step <;> cases h

/-- The nodes of one tree have paths of their own. -/
theorem pathText_injOn {tag : Tag} {steps steps' : List Step} (h : (tag.at steps).isSome = true)
    (h' : (tag.at steps').isSome = true) (heq : pathText steps = pathText steps') : steps = steps' := by
  induction steps generalizing tag steps' with
  | nil =>
    cases steps' with
    | nil => rfl
    | cons step' rest' =>
      obtain ⟨body, hbody, -⟩ := stepText_eq step'
      rw [pathText, pathText, List.flatMap_cons, hbody] at heq
      cases heq
  | cons step rest ih =>
    cases steps' with
    | nil =>
      obtain ⟨body, hbody, -⟩ := stepText_eq step
      rw [pathText, pathText, List.flatMap_cons, hbody] at heq
      cases heq
    | cons step' rest' =>
      rw [Tag.at_cons] at h h'
      obtain ⟨hstep, hrest⟩ := stepText_append heq
      cases hchild : tag.child step with
      | none =>
        rw [hchild] at h
        cases h
      | some child =>
        cases hchild' : tag.child step' with
        | none =>
          rw [hchild'] at h'
          cases h'
        | some child' =>
          obtain rfl := stepText_child (by rw [hchild]; rfl) (by rw [hchild']; rfl) hstep
          obtain rfl := Option.some.inj (hchild.symm.trans hchild')
          rw [hchild, Option.bind_some] at h
          rw [hchild, Option.bind_some] at h'
          rw [ih h h' hrest]

end Paths

section Fields

variable {limit : ℕ} {tag : Tag}

/-- Children that stand in the order of their keys stay where they are. -/
theorem inKeyOrder_of_sorted {children : List (List Char × List CanonicalNbtField)}
    (h : (children.map Prod.fst).Pairwise (· < ·)) : inKeyOrder children = children.flatMap Prod.snd := by
  rw [inKeyOrder, List.mergeSort_of_pairwise]
  exact (List.pairwise_map.mp h).imp fun hlt => decide_eq_true (le_of_lt hlt)

/-- The fields of a tag show its nodes, in the order of the paths. -/
def Collects (tag : Tag) : Prop :=
  ∀ before, ∃ fields, collectNbtFields before tag = .ok fields ∧
    List.Forall₂ (FieldAt tag before) tag.paths fields

/-- The fields of a child, seen from the tag above it. -/
theorem fieldAt_child {tag child : Tag} {step : Step} (hchild : tag.child step = some child)
    {before : List Char} {paths : List (List Step)} {fields : List CanonicalNbtField}
    (h : List.Forall₂ (FieldAt child (before ++ stepText step)) paths fields) :
    List.Forall₂ (FieldAt tag before) (paths.map (step :: ·)) fields := by
  rw [List.forall₂_map_left_iff]
  refine h.imp fun steps field hfield => ?_
  obtain ⟨hpath, node, hnode, hcode⟩ := hfield
  refine ⟨?_, node, ?_, hcode⟩
  · rw [hpath, pathText, pathText, List.flatMap_cons, List.append_assoc]
  · rw [Tag.at_cons, hchild, Option.bind_some, hnode]

/-- The node itself. -/
theorem fieldAt_self {tag : Tag} (before : List Char) {code : List UInt8} (h : appendTag tag = .ok code) :
    FieldAt tag before [] ⟨before, code⟩ :=
  ⟨(List.append_nil _).symm, tag, rfl, h⟩

theorem collects_items {element : TagType} {before items : List Tag} (before' : List Char)
    (h : ∀ item ∈ items, Collects item) :
    ∃ fields, collectItems before' before.length items = .ok fields ∧
      List.Forall₂ (FieldAt (.list element (before ++ items)) before') (pathsItems before.length items)
        fields := by
  induction items generalizing before with
  | nil => exact ⟨[], rfl, .nil⟩
  | cons item rest ih =>
    obtain ⟨hitem, hrest⟩ := List.forall_mem_cons.mp h
    obtain ⟨first, hfirst, hshown⟩ := hitem (before' ++ '/' :: decimal before.length)
    obtain ⟨fields, hfields, hrests⟩ := @ih (before ++ [item]) hrest
    rw [List.length_append, List.length_singleton] at hfields hrests
    rw [List.append_assoc, List.singleton_append] at hrests
    refine ⟨first ++ fields, ?_, ?_⟩
    · rw [collectItems, hfirst, ok_bind, hfields, ok_bind]
      rfl
    · have hchild : (Tag.list element (before ++ item :: rest)).child (.index before.length) = some item := by
        rw [Tag.child, List.getElem?_append_right le_rfl, Nat.sub_self]
        rfl
      exact List.rel_append (fieldAt_child hchild hshown) hrests

theorem collects_entries {entries some : Entries} (before : List Char)
    (hsorted : entries.Pairwise fun first second => first.1 < second.1) (hsub : ∀ entry ∈ some, entry ∈ entries)
    (h : ∀ entry ∈ some, Collects entry.2) :
    ∃ children, collectEntries before some = .ok children ∧
      children.map Prod.fst = some.map Prod.fst ∧
      List.Forall₂ (FieldAt (.compound entries) before) (pathsEntries some) (children.flatMap Prod.snd) := by
  induction some with
  | nil => exact ⟨[], rfl, rfl, .nil⟩
  | cons entry rest ih =>
    obtain ⟨hentry, hrest⟩ := List.forall_mem_cons.mp h
    obtain ⟨hmem, hsub⟩ := List.forall_mem_cons.mp hsub
    obtain ⟨fields, hfields, hshown⟩ := hentry (before ++ '/' :: escapeJsonPointer entry.1)
    obtain ⟨children, hchildren, hkeys, hrests⟩ := ih hsub hrest
    refine ⟨(entry.1, fields) :: children, ?_, ?_, ?_⟩
    · rw [collectEntries, collectEntry, hfields, hchildren]
      rfl
    · rw [List.map_cons, List.map_cons, hkeys]
    · rw [pathsEntries, pathsEntry_eq, List.flatMap_cons]
      have hchild : (Tag.compound entries).child (.key entry.1) = Option.some entry.2 :=
        (find_eq_some_iff hsorted).mpr hmem
      exact List.rel_append (fieldAt_child hchild hshown) hrests

/-- A tag without tags below it is its only node. -/
theorem collects_leaf (h : Stored limit tag) (hpaths : tag.paths = [[]])
    (hfields : ∀ before, collectNbtFields before tag = do
      let encoded ← appendTag tag
      return [⟨before, encoded⟩]) : Collects tag := by
  intro before
  obtain ⟨code, hcode⟩ := appendTag_ok h
  refine ⟨[⟨before, code⟩], ?_, ?_⟩
  · rw [hfields, hcode, ok_bind]
    rfl
  · rw [hpaths]
    exact .cons (fieldAt_self before hcode) .nil

/-- A tag in memory is shown node by node. -/
theorem collects_of_stored (h : Stored limit tag) : Collects tag := by
  induction h with
  | list hlength hitem hitems ih =>
    intro before
    obtain ⟨code, hcode⟩ := appendTag_ok (Stored.list hlength hitem hitems)
    obtain ⟨fields, hfields, hshown⟩ := @collects_items _ [] _ before ih
    exact ⟨⟨before, code⟩ :: fields, by rw [collectNbtFields, hcode, ok_bind]; exact congrArg (· >>= _) hfields,
      .cons (fieldAt_self before hcode) hshown⟩
  | compound hlength hsorted hkeys htags ih =>
    intro before
    obtain ⟨code, hcode⟩ := appendTag_ok (Stored.compound hlength hsorted hkeys htags)
    obtain ⟨children, hchildren, hnames, hshown⟩ := collects_entries before hsorted (fun _ => id) ih
    have horder : inKeyOrder children = children.flatMap Prod.snd :=
      inKeyOrder_of_sorted (hnames ▸ List.pairwise_map.mpr hsorted)
    refine ⟨⟨before, code⟩ :: inKeyOrder children, ?_, ?_⟩
    · rw [collectNbtFields, hcode, ok_bind, hchildren, ok_bind]
      rfl
    · rw [horder]
      exact .cons (fieldAt_self before hcode) hshown
  | byte hvalue => exact @collects_leaf limit _ (.byte hvalue) rfl fun _ => rfl
  | short hvalue => exact @collects_leaf limit _ (.short hvalue) rfl fun _ => rfl
  | int hvalue => exact @collects_leaf limit _ (.int hvalue) rfl fun _ => rfl
  | long hvalue => exact @collects_leaf limit _ (.long hvalue) rfl fun _ => rfl
  | float bits => exact @collects_leaf limit _ (.float bits) rfl fun _ => rfl
  | double bits => exact @collects_leaf limit _ (.double bits) rfl fun _ => rfl
  | byteArray hlength hvalues => exact @collects_leaf limit _ (.byteArray hlength hvalues) rfl fun _ => rfl
  | string hvalue => exact @collects_leaf limit _ (.string hvalue) rfl fun _ => rfl
  | intArray hlength hvalues => exact @collects_leaf limit _ (.intArray hlength hvalues) rfl fun _ => rfl
  | longArray hlength hvalues => exact @collects_leaf limit _ (.longArray hlength hvalues) rfl fun _ => rfl

/-- The nodes below the root are listed once each, under paths of their own. -/
theorem canonicalNbtFields_spec {root : Compound} (h : Stored limit (.compound root.entries)) :
    ∃ paths fields, canonicalNbtFields root = .ok fields ∧ paths.Nodup ∧
      (∀ steps, steps ∈ paths ↔ steps ≠ [] ∧ ((Tag.compound root.entries).at steps).isSome = true) ∧
      List.Forall₂ (FieldAt (.compound root.entries) []) paths fields ∧
      (fields.map CanonicalNbtField.path).Nodup := by
  have hnodup := h.nodup_paths
  have hmem := fun steps => @Stored.mem_paths _ _ h steps
  cases h with
  | compound hlength hsorted hkeys htags =>
    obtain ⟨children, hchildren, hnames, hshown⟩ := collects_entries [] hsorted (fun _ => id)
      fun entry hentry => collects_of_stored (htags entry hentry)
    have horder : inKeyOrder children = children.flatMap Prod.snd :=
      inKeyOrder_of_sorted (hnames ▸ List.pairwise_map.mpr hsorted)
    rw [Tag.paths, List.nodup_cons] at hnodup
    have hnode (steps : List Step) : steps ∈ pathsEntries root.entries ↔
        steps ≠ [] ∧ ((Tag.compound root.entries).at steps).isSome = true := by
      rw [← hmem steps, Tag.paths, List.mem_cons]
      constructor
      · exact fun hsteps => ⟨fun hnil => hnodup.1 (hnil ▸ hsteps), .inr hsteps⟩
      · exact fun hsteps => hsteps.2.resolve_left hsteps.1
    refine ⟨pathsEntries root.entries, inKeyOrder children, ?_, hnodup.2, hnode, horder ▸ hshown, ?_⟩
    · rw [canonicalNbtFields, hchildren]
      rfl
    · -- Nodes with the same text would be reached by the same steps.
      have htexts : (inKeyOrder children).map CanonicalNbtField.path =
          (pathsEntries root.entries).map pathText := by
        rw [horder, eq_comm, ← List.forall₂_eq_eq_eq, List.forall₂_map_left_iff, List.forall₂_map_right_iff]
        exact hshown.imp fun steps field hfield => hfield.1.symm
      rw [htexts]
      refine hnodup.2.map_on fun steps hsteps steps' hsteps' htext => ?_
      exact pathText_injOn ((hnode steps).mp hsteps).2 ((hnode steps').mp hsteps').2 htext

/-- Equal bytes mean equal trees exactly as long as the numbers of entries fit into four bytes; the fields
show the nodes at any size. -/
theorem canonicalNbt_faithful (limit : ℕ) :
    ((∀ left right : Compound, Stored limit (.compound left.entries) →
      Stored limit (.compound right.entries) →
      ((∃ bytes, canonicalNbt left = .ok bytes ∧ canonicalNbt right = .ok bytes) ↔
        (Tag.compound left.entries).plain = (Tag.compound right.entries).plain)) ↔ limit < 4294967296) ∧
    ∀ root : Compound, Stored limit (.compound root.entries) →
      ∃ paths fields, canonicalNbtFields root = .ok fields ∧ paths.Nodup ∧
        (∀ steps, steps ∈ paths ↔ steps ≠ [] ∧ ((Tag.compound root.entries).at steps).isSome = true) ∧
        List.Forall₂ (FieldAt (.compound root.entries) []) paths fields ∧
        (fields.map CanonicalNbtField.path).Nodup := by
  refine ⟨⟨fun hexact => ?_, fun hlimit left right => canonicalNbt_eq_iff hlimit⟩,
    fun root => canonicalNbtFields_spec⟩
  by_contra hlarge
  obtain ⟨left, right, hleft, hright, hsame, hplain⟩ := exists_collision (Nat.le_of_not_lt hlarge)
  exact hplain ((hexact left right hleft hright).mp hsame)

/-- A compound whose keys look like steps of a path. -/
def slashes (element : TagType) : Compound where
  entries := [([], .list element []), ("a".toList, .compound [("/0".toList, .byte 1)]),
    ("a/".toList, .compound [("0".toList, .byte 1)])]
  sorted := by simp

theorem stored_slashes (element : TagType) : Stored 3 (.compound (slashes element).entries) := by
  have htext : ∀ key ∈ [[], "a".toList, "a/".toList, "/0".toList, "0".toList], StoredText key := by decide
  have hone : IsSigned 1 1 := by
    unfold IsSigned
    decide
  have hbelow (key : List Char) (h : StoredText key) : Stored 3 (.compound [(key, .byte 1)]) :=
    .compound (Nat.le_of_ble_eq_true rfl) (List.pairwise_singleton _ _) (List.forall_mem_singleton.mpr h)
      (List.forall_mem_singleton.mpr (.byte hone))
  refine .compound (Nat.le_of_ble_eq_true rfl) (slashes element).sorted ?_ ?_
  · exact List.forall_mem_cons.mpr ⟨htext [] (by decide),
      List.forall_mem_cons.mpr ⟨htext "a".toList (by decide),
        List.forall_mem_singleton.mpr (htext "a/".toList (by decide))⟩⟩
  · exact List.forall_mem_cons.mpr ⟨.list (Nat.zero_le _) nofun nofun,
      List.forall_mem_cons.mpr ⟨hbelow _ (htext _ (by decide)),
        List.forall_mem_singleton.mpr (hbelow _ (htext _ (by decide)))⟩⟩

theorem canonicalNbt_faithful_slashes :
    ((∃ bytes, canonicalNbt (slashes .End) = .ok bytes ∧ canonicalNbt (slashes .Int) = .ok bytes) ↔
      (Tag.compound (slashes .End).entries).plain = (Tag.compound (slashes .Int).entries).plain) ∧
    ∃ paths fields, canonicalNbtFields (slashes .End) = .ok fields ∧ paths.Nodup ∧
      (∀ steps, steps ∈ paths ↔
        steps ≠ [] ∧ ((Tag.compound (slashes .End).entries).at steps).isSome = true) ∧
      List.Forall₂ (FieldAt (.compound (slashes .End).entries) []) paths fields ∧
      (fields.map CanonicalNbtField.path).Nodup :=
  ⟨(canonicalNbt_faithful 3).1.mpr (by decide) _ _ (stored_slashes .End) (stored_slashes .Int),
    (canonicalNbt_faithful 3).2 _ (stored_slashes .End)⟩

/-- Two compounds in memory share their bytes and are different trees. -/
theorem canonicalNbt_not_injective :
    ¬ ∀ left right : Compound, (∃ limit, Stored limit (.compound left.entries)) →
      (∃ limit, Stored limit (.compound right.entries)) →
      ((∃ bytes, canonicalNbt left = .ok bytes ∧ canonicalNbt right = .ok bytes) ↔
        (Tag.compound left.entries).plain = (Tag.compound right.entries).plain) := by
  intro hexact
  obtain ⟨left, right, hleft, hright, hsame, hplain⟩ := exists_collision (le_refl 4294967296)
  exact hplain ((hexact left right ⟨_, hleft⟩ ⟨_, hright⟩).mp hsame)

end Fields

end WaterStructure.Canonical
