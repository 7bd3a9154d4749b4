import Mathlib.Data.List.Infix
import Mathlib.Data.Nat.Notation

/-!
# Paths of a file system

A path is what iterating over its elements gives: whether it starts at the root, and then its names,
with an empty name at the end if it ends with a separator. Without symbolic links the place that a path
names only depends on its normal form, in which `.` is dropped and `..` takes back the name before it.
Appending a relative path without `..` stays below the place it is appended to.
-/

/-- A name, as bytes. -/
abbrev FileName : Type := List UInt8

structure FsPath where
  rooted : Bool
  parts : List FileName
  deriving DecidableEq

/-- A place in the file system: the names of a path in normal form. -/
structure Location where
  rooted : Bool
  names : List FileName
  deriving DecidableEq

/-- The place is the base or below it. -/
def Location.Inside (base place : Location) : Prop :=
  place.rooted = base.rooted ∧ base.names <+: place.names

namespace FsPath

def slash : UInt8 := 47

def dot : FileName := [46]

def dotDot : FileName := [46, 46]

/-- The elements of a path that is given by its text; repeated separators count once. -/
def parse (text : List UInt8) : FsPath :=
  let pieces := text.splitOnP (· == slash)
  let names := pieces.filter (· ≠ [])
  { rooted := text.head? = some slash
    parts := if names ≠ [] ∧ pieces.getLast? = some [] then names ++ [[]] else names }

/-- The text of a path, with `/` between its elements. -/
def genericString (path : FsPath) : List UInt8 :=
  (if path.rooted then [slash] else []) ++ List.intercalate [slash] path.parts

/-- The names so far, innermost first, after another element. -/
def enter (rooted : Bool) (names : List FileName) (part : FileName) : List FileName :=
  if part = [] ∨ part = dot then names
  else if part = dotDot then
    match names with
    | [] => if rooted then [] else [dotDot]
    | last :: rest => if last = dotDot then dotDot :: last :: rest else rest
  else part :: names

def location (path : FsPath) : Location :=
  ⟨path.rooted, (path.parts.foldl (enter path.rooted) []).reverse⟩

/-- `lexically_normal` -/
def lexicallyNormal (path : FsPath) : FsPath :=
  let names := path.location.names
  if path.parts = [] then path
  else if names = [] then ⟨path.rooted, if path.rooted then [] else [dot]⟩
  else
    let last := path.parts.getLast?
    if (last = some [] ∨ last = some dot ∨ last = some dotDot) ∧ names.getLast? ≠ some dotDot then
      ⟨path.rooted, names ++ [[]]⟩
    else ⟨path.rooted, names⟩

/-- `base / path` -/
def append (base path : FsPath) : FsPath :=
  if path.rooted then path
  else
    let parts := if base.parts.getLast? = some [] then base.parts.dropLast else base.parts
    ⟨base.rooted, parts ++ if path.parts = [] then [[]] else path.parts⟩

def parent (path : FsPath) : FsPath := ⟨path.rooted, path.parts.dropLast⟩

/-- The paths that lead to a path, the path itself last. -/
def prefixes (path : FsPath) : List FsPath :=
  (path.parts.inits.filter (· ≠ [])).map fun parts => ⟨path.rooted, parts⟩

/-- An element that names something. -/
def Named (part : FileName) : Prop := part ≠ [] ∧ part ≠ dot

instance (part : FileName) : Decidable (Named part) := inferInstanceAs (Decidable (_ ∧ _))

theorem enter_skip {part : FileName} (h : ¬ Named part) (rooted : Bool) (names : List FileName) :
    enter rooted names part = names := by
  rw [Named, ← not_or, not_not] at h
  unfold enter
  exact if_pos h

theorem enter_name {part : FileName} (h : Named part) (hne : part ≠ dotDot) (rooted : Bool)
    (names : List FileName) : enter rooted names part = part :: names := by
  rw [Named, ← not_or] at h
  unfold enter
  rw [if_neg h, if_neg hne]

variable {parts : List FileName} {path other q : FsPath} {α : Type} {pieces : List (List α)}

/-- Elements without `..` are entered one after the other. -/
theorem foldl_enter (h : dotDot ∉ parts) (rooted : Bool) (names : List FileName) :
    parts.foldl (enter rooted) names = (parts.filter fun part => Named part).reverse ++ names := by
  induction parts generalizing names with
  | nil => rfl
  | cons part rest ih =>
    rw [List.mem_cons, not_or] at h
    rw [List.foldl_cons, ih h.2, List.filter_cons]
    by_cases hpart : Named part
    · rw [enter_name hpart (Ne.symm h.1), if_pos (decide_eq_true hpart), List.reverse_cons,
        List.append_assoc]
      rfl
    · rw [enter_skip hpart, if_neg (by simpa using hpart)]

theorem location_names (h : dotDot ∉ path.parts) :
    path.location.names = path.parts.filter fun part => Named part := by
  rw [location, foldl_enter h, List.append_nil, List.reverse_reverse]

/-- The elements that are kept when another path is appended. -/
def base (path : FsPath) : List FileName :=
  if path.parts.getLast? = some [] then path.parts.dropLast else path.parts

theorem base_prefix (path : FsPath) : path.base <+: path.parts := by
  rw [base]
  split
  · exact List.dropLast_prefix _
  · exact List.prefix_refl _

/-- The separator at the end does not change the place. -/
theorem foldl_enter_base (path : FsPath) :
    (path.base.foldl (enter path.rooted) []).reverse = path.location.names := by
  rw [base, location]
  split_ifs with h
  · obtain ⟨front, hfront⟩ := List.getLast?_eq_some_iff.mp h
    rw [hfront, List.dropLast_concat, List.foldl_append, List.foldl_cons, List.foldl_nil,
      enter_skip (fun hnamed => hnamed.1 rfl)]
  · rfl

/-- Going on from a base along elements without `..`. -/
theorem inside_base (h : dotDot ∉ parts) :
    path.location.Inside (FsPath.location ⟨path.rooted, path.base ++ parts⟩) := by
  refine ⟨rfl, ?_⟩
  change _ <+: ((path.base ++ parts).foldl (enter path.rooted) []).reverse
  rw [List.foldl_append, foldl_enter h, List.reverse_append, List.reverse_reverse, foldl_enter_base]
  exact List.prefix_append _ _

theorem append_eq (h : other.rooted = false) :
    path.append other =
      ⟨path.rooted, path.base ++ if other.parts = [] then [[]] else other.parts⟩ := by
  rw [append, h]
  rfl

theorem dotDot_notMem_appended (h : dotDot ∉ other.parts) :
    dotDot ∉ if other.parts = [] then [[]] else other.parts := by
  split
  · decide
  · exact h

/-- A relative path without `..` stays inside. -/
theorem inside_append (hrooted : other.rooted = false) (h : dotDot ∉ other.parts) :
    path.location.Inside (path.append other).location := by
  rw [append_eq hrooted]
  exact inside_base (dotDot_notMem_appended h)

theorem mem_prefixes :
    q ∈ path.prefixes ↔ q.rooted = path.rooted ∧ q.parts <+: path.parts ∧ q.parts ≠ [] := by
  obtain ⟨rooted, parts⟩ := q
  simp only [prefixes, List.mem_map, List.mem_filter, List.mem_inits, decide_eq_true_eq,
    FsPath.mk.injEq]
  constructor
  · rintro ⟨other, ⟨hinit, hne⟩, rfl, rfl⟩
    exact ⟨rfl, hinit, hne⟩
  · rintro ⟨rfl, hinit, hne⟩
    exact ⟨parts, ⟨hinit, hne⟩, rfl, rfl⟩

/-- What leads to an appended path leads to the base or is inside it. -/
theorem prefixes_append (hrooted : other.rooted = false) (h : dotDot ∉ other.parts)
    (hq : q ∈ (path.append other).prefixes) : q ∈ path.prefixes ∨ path.location.Inside q.location := by
  rw [append_eq hrooted, mem_prefixes] at hq
  obtain ⟨hroot, hinit, hne⟩ := hq
  rcases List.prefix_or_prefix_of_prefix hinit (List.prefix_append path.base _) with hbase | hmore
  · exact .inl (mem_prefixes.mpr ⟨hroot, hbase.trans path.base_prefix, hne⟩)
  · refine .inr ?_
    obtain ⟨rooted, parts⟩ := q
    obtain ⟨more, rfl⟩ := hmore
    dsimp only at hroot
    rw [hroot]
    have hrest := (List.prefix_append_right_inj path.base).mp hinit
    exact inside_base fun hmem => dotDot_notMem_appended h (hrest.subset hmem)

theorem prefixes_parent (hq : q ∈ path.parent.prefixes) : q ∈ path.prefixes := by
  rw [mem_prefixes] at hq ⊢
  exact ⟨hq.1, hq.2.1.trans (List.dropLast_prefix _), hq.2.2⟩

theorem dotDot_notMem_lexicallyNormal (h : dotDot ∉ path.parts) :
    dotDot ∉ path.lexicallyNormal.parts := by
  have hnames : dotDot ∉ path.location.names := by
    rw [location_names h]
    exact fun hmem => h (List.mem_of_mem_filter hmem)
  rw [lexicallyNormal]
  split
  · exact h
  · split
    · dsimp only
      split
      · exact List.not_mem_nil
      · decide
    · dsimp only
      split
      · rw [List.mem_append, not_or]
        exact ⟨hnames, by decide⟩
      · exact hnames

/-- A relative path of names is in normal form. -/
theorem lexicallyNormal_names (h : ∀ part ∈ parts, Named part ∧ part ≠ dotDot) :
    lexicallyNormal ⟨false, parts⟩ = ⟨false, parts⟩ := by
  have hdots : dotDot ∉ parts := fun hmem => (h dotDot hmem).2 rfl
  have hnames : (location ⟨false, parts⟩).names = parts := by
    rw [location_names hdots]
    exact List.filter_eq_self.mpr fun part hpart => decide_eq_true (h part hpart).1
  rw [lexicallyNormal]
  dsimp only
  rw [hnames]
  by_cases hempty : parts = []
  · rw [if_pos hempty]
  · have hlast : ¬ ((parts.getLast? = some [] ∨ parts.getLast? = some dot ∨
        parts.getLast? = some dotDot) ∧ parts.getLast? ≠ some dotDot) := by
      rintro ⟨hlast, -⟩
      rcases hlast with hlast | hlast | hlast
      · exact (h _ (List.mem_of_getLast? hlast)).1.1 rfl
      · exact (h _ (List.mem_of_getLast? hlast)).1.2 rfl
      · exact (h _ (List.mem_of_getLast? hlast)).2 rfl
    rw [if_neg hempty, if_neg hempty, if_neg hlast]

theorem lexicallyNormal_rooted (path : FsPath) : path.lexicallyNormal.rooted = path.rooted := by
  rw [lexicallyNormal]
  split
  · rfl
  · split
    · rfl
    · dsimp only
      split <;> rfl

/-- Splitting what has been joined. -/
theorem splitOnP_intercalate {α : Type} {p : α → Bool} {separator : α} (hseparator : p separator = true)
    {pieces : List (List α)} (hne : pieces ≠ []) (h : ∀ piece ∈ pieces, ∀ a ∈ piece, p a = false) :
    (List.intercalate [separator] pieces).splitOnP p = pieces := by
  induction pieces with
  | nil => exact absurd rfl hne
  | cons piece rest ih =>
    have hpiece := h piece List.mem_cons_self
    cases rest with
    | nil =>
      rw [List.intercalate_singleton]
      exact List.splitOnP_eq_singleton hpiece
    | cons other more =>
      rw [List.intercalate_cons_cons, List.append_assoc, List.singleton_append,
        List.splitOnP_append_cons_of_forall_mem hpiece separator hseparator,
        ih (List.cons_ne_nil _ _) fun piece hmem => h piece (List.mem_cons_of_mem _ hmem)]

theorem head?_intercalate (separator : α) {piece : List α} (h : piece ≠ []) (rest : List (List α)) :
    (List.intercalate [separator] (piece :: rest)).head? = piece.head? := by
  cases rest with
  | nil => rw [List.intercalate_singleton]
  | cons other more =>
    rw [List.intercalate_cons_cons, List.append_assoc, List.head?_append_of_ne_nil _ h]

theorem intercalate_ne_nil (separator : α) (hne : pieces ≠ []) (h : ∀ piece ∈ pieces, piece ≠ []) :
    List.intercalate [separator] pieces ≠ [] := by
  cases pieces with
  | nil => exact absurd rfl hne
  | cons piece rest =>
    have hpiece := h piece List.mem_cons_self
    exact fun hempty => hpiece (List.head?_eq_none_iff.mp (by
      rw [← head?_intercalate separator hpiece rest, hempty, List.head?_nil]))

/-- What has been joined ends like its last piece. -/
theorem getLast?_intercalate (separator : α) (h : ∀ piece ∈ pieces, piece ≠ []) :
    (List.intercalate [separator] pieces).getLast? = pieces.getLast?.bind List.getLast? := by
  induction pieces with
  | nil => rfl
  | cons piece rest ih =>
    have hrest : ∀ piece ∈ rest, piece ≠ [] := fun piece hmem => h piece (List.mem_cons_of_mem _ hmem)
    cases rest with
    | nil => rw [List.intercalate_singleton, List.getLast?_singleton, Option.bind_some]
    | cons other more =>
      rw [List.intercalate_cons_cons, List.getLast?_append_of_ne_nil _
        (intercalate_ne_nil separator (List.cons_ne_nil _ _) hrest), ih hrest, List.getLast?_cons_cons]

theorem mem_intercalate {separator a : α} (h : a ∈ List.intercalate [separator] pieces) :
    a = separator ∨ ∃ piece ∈ pieces, a ∈ piece := by
  induction pieces with
  | nil => exact absurd h List.not_mem_nil
  | cons piece rest ih =>
    cases rest with
    | nil =>
      rw [List.intercalate_singleton] at h
      exact .inr ⟨piece, List.mem_cons_self, h⟩
    | cons other more =>
      rw [List.intercalate_cons_cons, List.mem_append, List.mem_append, List.mem_singleton] at h
      rcases h with (h | h) | h
      · exact .inr ⟨piece, List.mem_cons_self, h⟩
      · exact .inl h
      · exact (ih h).imp_right fun ⟨found, hmem, ha⟩ => ⟨found, List.mem_cons_of_mem _ hmem, ha⟩

/-- The text of a relative path is parsed back. -/
theorem parse_intercalate (hne : parts ≠ []) (h : ∀ part ∈ parts, part ≠ [] ∧ slash ∉ part) :
    parse (List.intercalate [slash] parts) = ⟨false, parts⟩ := by
  have hsplit : (List.intercalate [slash] parts).splitOnP (· == slash) = parts :=
    @splitOnP_intercalate _ (· == slash) slash (beq_self_eq_true slash) _ hne fun part hpart byte hbyte =>
      beq_eq_false_iff_ne.mpr fun heq => (h part hpart).2 (heq ▸ hbyte)
  have hpieces : parts.filter (· ≠ []) = parts :=
    List.filter_eq_self.mpr fun part hpart => decide_eq_true (h part hpart).1
  have hlast : parts.getLast? ≠ some [] := fun hlast => (h [] (List.mem_of_getLast? hlast)).1 rfl
  have hhead : (List.intercalate [slash] parts).head? ≠ some slash := by
    cases parts with
    | nil => exact absurd rfl hne
    | cons part rest =>
      obtain ⟨hpart, hslash⟩ := h part List.mem_cons_self
      rw [head?_intercalate slash hpart]
      exact fun hhead => hslash (List.mem_of_mem_head? hhead)
  rw [parse, hsplit, hpieces, if_neg fun hends => hlast hends.2, decide_eq_false hhead]

theorem dotDot_notMem_parse {text : List UInt8} (h : dotDot ∉ text.splitOnP (· == slash)) :
    dotDot ∉ (parse text).parts := by
  have hnames : dotDot ∉ (text.splitOnP (· == slash)).filter (· ≠ []) := fun hmem =>
    h (List.mem_of_mem_filter hmem)
  rw [parse]
  dsimp only
  split
  · rw [List.mem_append, not_or]
    exact ⟨hnames, by decide⟩
  · exact hnames

end FsPath
