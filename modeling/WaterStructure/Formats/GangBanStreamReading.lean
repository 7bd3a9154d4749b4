import WaterStructure.Formats.GangBanStreamForm

/-!
# Reading a GangBan stream

The passes over a stream find the blocks that its form gives it. The reader accepts a document exactly
when it has the form of its version, has a block, all blocks are valid and no two of them are too far
apart for the size of a structure.
-/

namespace WaterStructure

namespace GangBan

open FuHong (Bounds BoundsOf Registry addBounds)
open NestedLoop

section Passes

variable {registry : Registry} {palette : List (List Char)} {materialize : Bool} {streamEnd : ℕ}

/-! ## The fifth version -/

/-- A pass over some entries of a stream of fields. -/
def readFields (registry : Registry) (palette : List (List Char)) (materialize : Bool) (streamEnd index : ℕ)
    (entries : List Json) (c : FieldCursor) : Except String FieldCursor :=
  (entries.zipIdx index).foldlM
    (fun c entry => fieldEntry registry palette materialize streamEnd entry.2 entry.1 c) c

theorem readFields_cons (index : ℕ) (entry : Json) (rest : List Json) (c : FieldCursor) :
    readFields registry palette materialize streamEnd index (entry :: rest) c =
      fieldEntry registry palette materialize streamEnd index entry c >>=
        readFields registry palette materialize streamEnd (index + 1) rest := by
  rw [readFields, List.zipIdx_cons, List.foldlM_cons]
  rfl

theorem readFields_append (index : ℕ) (first second : List Json) (c : FieldCursor) :
    readFields registry palette materialize streamEnd index (first ++ second) c =
      readFields registry palette materialize streamEnd index first c >>=
        readFields registry palette materialize streamEnd (index + first.length) second := by
  rw [readFields, List.zipIdx_append, List.foldlM_append]
  rfl

theorem inBlock_ok {α : Type} {blockIndex : ℕ} {result : Except String α} {a : α} :
    inBlock blockIndex result = .ok a ↔ result = .ok a := mapError_ok

variable {rest : List Json} {base : List ℤ} {index : ℕ} {c : FieldCursor} {entry : Json} {entries : List Json}
  {blocks : List Block}

theorem fieldNumbers_cons {field : Json} :
    fieldNumbers (field :: rest) = .ok base ↔ ∃ number others, jsonI32 field "V5 block field" = .ok number ∧
      fieldNumbers rest = .ok others ∧ base = number :: others := by
  rw [fieldNumbers, List.mapM_cons]
  constructor
  · intro h
    obtain ⟨number, hnumber, h⟩ := exists_of_bind_ok h
    obtain ⟨others, hothers, h⟩ := exists_of_bind_ok h
    cases h
    exact ⟨number, others, hnumber, hothers, rfl⟩
  · rintro ⟨number, others, hnumber, hothers, rfl⟩
    rw [fieldNumbers] at hothers
    rw [hnumber, ok_bind, hothers]
    rfl

theorem fieldNumbers_nil : fieldNumbers [] = .ok base ↔ base = [] := by
  constructor
  · rintro ⟨⟩
    rfl
  · rintro rfl
    rfl

theorem length_fieldNumbers {fields : List Json} (h : fieldNumbers fields = .ok base) :
    base.length = fields.length := (forall₂_of_mapM_ok h).length_eq.symm

/-- An entry becomes the next field of a block. -/
theorem fieldEntry_ok {field : Json} {c' : FieldCursor} (hlength : c.base.length < 6)
    (hindex : index < streamEnd) (hleft : c.base = [] → index + 6 ≤ streamEnd) :
    fieldEntry registry palette materialize streamEnd index field c = .ok c' ↔
      ∃ number, jsonI32 field "V5 block field" = .ok number ∧ c' = { c with base := c.base ++ [number] } := by
  have hwhole : ¬ (c.base = [] ∧ streamEnd - index < 6) := fun hshort => by
    have := hleft hshort.1
    omega
  rw [fieldEntry, if_neg (by omega), if_neg (by omega), takeField, if_neg hwhole]
  constructor
  · intro h
    obtain ⟨number, hnumber, h⟩ := exists_of_bind_ok h
    cases h
    exact ⟨number, inBlock_ok.mp hnumber, rfl⟩
  · rintro ⟨number, hnumber, rfl⟩
    rw [inBlock_ok.mpr hnumber]
    rfl

/-- Entries that are fields of one block. -/
theorem readFields_numbers {fields : List Json} {index : ℕ} {c c' : FieldCursor}
    (hlength : c.base.length + fields.length ≤ 6) (hend : index + fields.length ≤ streamEnd)
    (hleft : c.base = [] → index + 6 ≤ streamEnd) :
    readFields registry palette materialize streamEnd index fields c = .ok c' ↔
      ∃ base, fieldNumbers fields = .ok base ∧ c' = { c with base := c.base ++ base } := by
  induction fields generalizing index c with
  | nil =>
    constructor
    · rintro ⟨⟩
      exact ⟨[], rfl, by rw [List.append_nil]⟩
    · rintro ⟨base, hbase, rfl⟩
      rw [fieldNumbers_nil.mp hbase, List.append_nil]
      rfl
  | cons field rest ih =>
    rw [List.length_cons] at hlength hend
    have hrest (number : ℤ) := @ih (index + 1) { c with base := c.base ++ [number] }
      (by rw [List.length_append, List.length_singleton]; omega) (by omega)
      (fun hempty => absurd hempty (List.append_ne_nil_of_right_ne_nil _ (List.cons_ne_nil _ _)))
    rw [readFields_cons]
    constructor
    · intro h
      obtain ⟨next, hnext, h⟩ := exists_of_bind_ok h
      obtain ⟨number, hnumber, rfl⟩ := (fieldEntry_ok (by omega) (by omega) hleft).mp hnext
      obtain ⟨others, hothers, rfl⟩ := (hrest number).mp h
      refine ⟨number :: others, fieldNumbers_cons.mpr ⟨number, others, hnumber, hothers, rfl⟩, ?_⟩
      dsimp only
      rw [List.append_assoc, List.singleton_append]
    · rintro ⟨base, hbase, rfl⟩
      obtain ⟨number, others, hnumber, hothers, rfl⟩ := fieldNumbers_cons.mp hbase
      rw [(fieldEntry_ok (by omega) (by omega) hleft).mpr ⟨number, hnumber, rfl⟩, ok_bind]
      refine (hrest number).mpr ⟨others, hothers, ?_⟩
      dsimp only
      rw [List.append_assoc, List.singleton_append]

theorem finishBlock_ok {payload : Option Json} {c' : FieldCursor} :
    finishBlock registry palette materialize payload c = .ok c' ↔
      ∃ stream, place registry palette materialize (blockOfFields c.base payload) c.blockIndex c.stream =
        .ok stream ∧ c' = ⟨[], c.blockIndex + 1, stream⟩ := by
  rw [finishBlock]
  constructor
  · intro h
    obtain ⟨stream, hstream, h⟩ := exists_of_bind_ok h
    cases h
    exact ⟨stream, inBlock_ok.mp hstream, rfl⟩
  · rintro ⟨stream, hstream, rfl⟩
    rw [inBlock_ok.mpr hstream]
    rfl

/-- An entry that is no container, behind the last field of a block. -/
theorem readFields_bare (hlength : c.base.length = 6) (hindex : index < streamEnd)
    (hentry : isContainer entry = false) :
    readFields registry palette materialize streamEnd index (entry :: rest) c =
      finishBlock registry palette materialize none c >>=
        readFields registry palette materialize streamEnd index (entry :: rest) := by
  rw [readFields_cons, fieldEntry, if_neg (by omega), if_pos hlength, if_neg (by simp [hentry])]
  cases hfinish : finishBlock registry palette materialize none c with
  | error error => rfl
  | ok next =>
    obtain ⟨stream, -, rfl⟩ := finishBlock_ok.mp hfinish
    rw [ok_bind, ok_bind, readFields_cons, fieldEntry, if_neg (by omega), if_neg (by simp)]

theorem jsonI32_container (h : isContainer entry = true) (field : String) (number : ℤ) :
    jsonI32 entry field ≠ .ok number := by
  intro hnumber
  cases entry with
  | array items => cases hnumber
  | object members => cases hnumber
  | null | boolean | unsigned | integer | float | string => cases h

/-- The first six entries of a stream are the fields of its first block. -/
theorem FieldStream.fields (h : FieldStream entries blocks) (hne : entries ≠ []) :
    ∃ fields rest base, entries = fields ++ rest ∧ fields.length = 6 ∧
      fieldNumbers fields = .ok base := by
  cases h with
  | nil => exact absurd rfl hne
  | @bare fields rest base _ hfields hlength => exact ⟨fields, rest, base, rfl, hlength, hfields⟩
  | @payload fields rest base payload _ hfields hlength =>
    exact ⟨fields, payload :: rest, base, rfl, hlength, hfields⟩

theorem FieldStream.not_container (h : FieldStream (entry :: rest) blocks) : isContainer entry = false := by
  obtain ⟨fields, others, base, hentries, hlength, hfields⟩ := h.fields (List.cons_ne_nil _ _)
  obtain ⟨first, fields, rfl⟩ := List.exists_cons_of_length_pos (by omega : 0 < fields.length)
  obtain ⟨rfl, -⟩ := List.cons.inj hentries
  obtain ⟨number, numbers, hnumber, -⟩ := fieldNumbers_cons.mp hfields
  exact Bool.eq_false_iff.mpr fun hcontainer => jsonI32_container hcontainer _ _ hnumber

/-- The first block of a stream, with its payload or without one. -/
theorem fieldStream_append {fields : List Json} (hlength : fields.length = 6)
    (hfields : fieldNumbers fields = .ok base) :
    FieldStream (fields ++ rest) blocks ↔
      (∃ others, FieldStream rest others ∧ blocks = blockOfFields base none :: others) ∨
      ∃ payload tail others, rest = payload :: tail ∧ isContainer payload = true ∧
        FieldStream tail others ∧ blocks = blockOfFields base (some payload) :: others := by
  constructor
  · intro h
    generalize hentries : fields ++ rest = entries at h
    cases h with
    | nil =>
      have := congrArg List.length hentries
      simp [hlength] at this
    | @bare fields' rest' base' others hfields' hlength' hrest =>
      obtain ⟨rfl, rfl⟩ := List.append_inj hentries (hlength.trans hlength'.symm)
      rw [hfields] at hfields'
      cases hfields'
      exact .inl ⟨others, hrest, rfl⟩
    | @payload fields' rest' base' payload others hfields' hlength' hpayload hrest =>
      obtain ⟨rfl, rfl⟩ := List.append_inj hentries (hlength.trans hlength'.symm)
      rw [hfields] at hfields'
      cases hfields'
      exact .inr ⟨payload, rest', others, rfl, hpayload, hrest, rfl⟩
  · rintro (⟨others, hrest, rfl⟩ | ⟨payload, tail, others, rfl, hpayload, hrest, rfl⟩)
    · exact .bare hfields hlength hrest
    · exact .payload hfields hlength hpayload hrest

theorem FieldStream.eq_nil (h : FieldStream [] blocks) : blocks = [] := by
  generalize hentries : ([] : List Json) = entries at h
  cases h with
  | nil => rfl
  | bare hfields hlength =>
    have hempty := List.append_eq_nil_iff.mp hentries.symm
    rw [hempty.1] at hlength
    cases hlength
  | payload hfields hlength =>
    exact absurd hentries.symm (List.append_ne_nil_of_right_ne_nil _ (List.cons_ne_nil _ _))

/-- A block is placed, and then those behind it. -/
theorem finishBlock_bind {payload : Option Json} {base : List ℤ} {c : FieldCursor} {rest : List Json}
    {run : FieldCursor → Except String (ℕ × Stream)} {count : ℕ} {t : Stream}
    (hrest : ∀ stream, run ⟨[], c.blockIndex + 1, stream⟩ = .ok (count, t) ↔
      ∃ blocks, FieldStream rest blocks ∧ count = c.blockIndex + 1 + blocks.length ∧
        visit registry palette materialize (c.blockIndex + 1) blocks stream = .ok t) :
    (finishBlock registry palette materialize payload { c with base } >>= run) = .ok (count, t) ↔
      ∃ others, FieldStream rest others ∧
        count = c.blockIndex + (blockOfFields base payload :: others).length ∧
        visit registry palette materialize c.blockIndex (blockOfFields base payload :: others) c.stream =
          .ok t := by
  constructor
  · intro h
    obtain ⟨next, hnext, h⟩ := exists_of_bind_ok h
    obtain ⟨stream, hstream, rfl⟩ := finishBlock_ok.mp hnext
    obtain ⟨others, hothers, rfl, hvisit⟩ := (hrest stream).mp h
    refine ⟨others, hothers, by rw [List.length_cons]; omega, ?_⟩
    rw [visit_cons, hstream]
    exact hvisit
  · rintro ⟨others, hothers, rfl, hvisit⟩
    rw [visit_cons] at hvisit
    obtain ⟨stream, hstream, hvisit⟩ := exists_of_bind_ok hvisit
    have hfinish : finishBlock registry palette materialize payload { c with base } =
        .ok ⟨[], c.blockIndex + 1, stream⟩ := finishBlock_ok.mpr ⟨stream, hstream, rfl⟩
    rw [hfinish, ok_bind]
    exact (hrest stream).mpr ⟨others, hothers, by rw [List.length_cons]; omega, hvisit⟩

/-- The entries behind the six fields of a block. -/
theorem readFields_full (hlength : base.length = 6) (hend : index + rest.length = streamEnd) {count : ℕ}
    {t : Stream} (hstreams : ∀ entries (index : ℕ) (c : FieldCursor), entries.length ≤ rest.length →
      index + entries.length = streamEnd → c.base = [] →
      ((readFields registry palette materialize streamEnd index entries c >>=
          finishFields registry palette materialize) = .ok (count, t) ↔
        ∃ blocks, FieldStream entries blocks ∧ count = c.blockIndex + blocks.length ∧
          visit registry palette materialize c.blockIndex blocks c.stream = .ok t)) :
    (readFields registry palette materialize streamEnd index rest { c with base } >>=
        finishFields registry palette materialize) = .ok (count, t) ↔
      ∃ blocks, ((∃ others, FieldStream rest others ∧ blocks = blockOfFields base none :: others) ∨
          ∃ payload tail others, rest = payload :: tail ∧ isContainer payload = true ∧
            FieldStream tail others ∧ blocks = blockOfFields base (some payload) :: others) ∧
        count = c.blockIndex + blocks.length ∧
        visit registry palette materialize c.blockIndex blocks c.stream = .ok t := by
  have hbare (hnone : ∀ payload tail, rest = payload :: tail → isContainer payload = false) :
      (readFields registry palette materialize streamEnd index rest { c with base } >>=
          finishFields registry palette materialize) =
        finishBlock registry palette materialize none { c with base } >>= fun c =>
          readFields registry palette materialize streamEnd index rest c >>=
            finishFields registry palette materialize := by
    cases rest with
    | nil =>
      change finishFields registry palette materialize { c with base } = _
      rw [finishFields, if_pos hlength]
      cases hfinish : finishBlock registry palette materialize none { c with base } with
      | error error => rfl
      | ok next =>
        obtain ⟨stream, -, rfl⟩ := finishBlock_ok.mp hfinish
        rfl
    | cons entry tail =>
      rw [List.length_cons] at hend
      rw [readFields_bare hlength (by omega) (hnone entry tail rfl), bind_assoc]
  by_cases hcontainer : ∃ payload tail, rest = payload :: tail ∧ isContainer payload = true
  · obtain ⟨payload, tail, rfl, hpayload⟩ := hcontainer
    rw [List.length_cons] at hend hstreams
    rw [readFields_cons, fieldEntry, if_neg (by omega), if_pos hlength, if_pos hpayload, bind_assoc,
      @finishBlock_bind _ _ _ _ _ _ tail]
    · constructor
      · rintro ⟨others, hothers, hcount, hvisit⟩
        exact ⟨_, .inr ⟨payload, tail, others, rfl, hpayload, hothers, rfl⟩, hcount, hvisit⟩
      · rintro ⟨blocks, ⟨others, hothers, -⟩ | ⟨_, _, others, hsame, -, hothers, rfl⟩, hcount, hvisit⟩
        · rw [hothers.not_container] at hpayload
          cases hpayload
        · cases hsame
          exact ⟨others, hothers, hcount, hvisit⟩
    · exact fun stream => hstreams tail (index + 1) _ (by omega) (by omega) rfl
  · have hnone (payload : Json) (tail : List Json) (hrest : rest = payload :: tail) :
        isContainer payload = false :=
      Bool.eq_false_iff.mpr fun hpayload => hcontainer ⟨payload, tail, hrest, hpayload⟩
    rw [hbare hnone, @finishBlock_bind _ _ _ _ _ _ rest]
    · constructor
      · rintro ⟨others, hothers, hcount, hvisit⟩
        exact ⟨_, .inl ⟨others, hothers, rfl⟩, hcount, hvisit⟩
      · rintro ⟨blocks, ⟨others, hothers, rfl⟩ | ⟨payload, tail, _, hrest, hpayload, -⟩, hcount, hvisit⟩
        · exact ⟨others, hothers, hcount, hvisit⟩
        · exact absurd ⟨payload, tail, hrest, hpayload⟩ hcontainer
    · exact fun stream => hstreams rest index _ le_rfl hend rfl

/-- A pass over a stream of fields places the blocks of its form. -/
theorem readFields_ok (hbase : c.base = []) (hend : index + entries.length = streamEnd) {count : ℕ} {t : Stream} :
    (readFields registry palette materialize streamEnd index entries c >>=
        finishFields registry palette materialize) = .ok (count, t) ↔
      ∃ blocks, FieldStream entries blocks ∧ count = c.blockIndex + blocks.length ∧
        visit registry palette materialize c.blockIndex blocks c.stream = .ok t := by
  induction hsize : entries.length using Nat.strong_induction_on generalizing entries index c with
  | _ size ih =>
    by_cases hshort : entries.length < 6
    · cases entries with
      | nil =>
        change finishFields registry palette materialize c = _ ↔ _
        rw [finishFields, if_neg (by simp [hbase])]
        constructor
        · rintro ⟨⟩
          exact ⟨[], .nil, rfl, rfl⟩
        · rintro ⟨blocks, hblocks, rfl, hvisit⟩
          cases hblocks.eq_nil
          cases hvisit
          rfl
      | cons entry rest =>
        -- The first entry begins a block that is not whole.
        rw [readFields_cons, fieldEntry, if_neg (by simp at hend; omega), if_neg (by simp [hbase]), takeField,
          if_pos ⟨hbase, by omega⟩]
        refine iff_of_false (fun hno => by cases hno) ?_
        rintro ⟨blocks, hblocks, -⟩
        obtain ⟨fields, others, -, hentries, hlength, -⟩ := hblocks.fields (List.cons_ne_nil _ _)
        rw [hentries, List.length_append] at hshort
        omega
    · obtain ⟨fields, rest, rfl, hlength⟩ : ∃ fields rest, entries = fields ++ rest ∧ fields.length = 6 :=
        ⟨entries.take 6, entries.drop 6, (List.take_append_drop 6 entries).symm, by
          rw [List.length_take]; omega⟩
      rw [List.length_append] at hend hsize
      have hfields {c' : FieldCursor} := @readFields_numbers registry palette materialize streamEnd fields
        index c c' (by rw [hbase, List.length_nil]; omega) (by omega) (by omega)
      rw [readFields_append, bind_assoc]
      cases hbase' : fieldNumbers fields with
      | error error =>
        refine iff_of_false (fun h => ?_) ?_
        · obtain ⟨next, hnext, -⟩ := exists_of_bind_ok h
          obtain ⟨base, hnumbers, -⟩ := hfields.mp hnext
          rw [hbase'] at hnumbers
          cases hnumbers
        · rintro ⟨blocks, hblocks, -⟩
          obtain ⟨fields', others, base, hentries, hlength', hnumbers⟩ := hblocks.fields
            (List.append_ne_nil_of_left_ne_nil (List.ne_nil_of_length_pos (by omega)) _)
          obtain ⟨rfl, -⟩ := List.append_inj hentries (hlength.trans hlength'.symm)
          rw [hbase'] at hnumbers
          cases hnumbers
      | ok base =>
        rw [hfields.mpr ⟨base, hbase', rfl⟩, ok_bind, hbase, List.nil_append, hlength,
          readFields_full ((length_fieldNumbers hbase').trans hlength) (by omega)
            (fun entries index c hle hend hc => ih entries.length (by omega) hc hend rfl)]
        simp only [fieldStream_append hlength hbase']

theorem FieldStream.unique {others : List Block} (h : FieldStream entries blocks)
    (hothers : FieldStream entries others) : others = blocks := by
  induction h generalizing others with
  | nil => exact hothers.eq_nil
  | bare hfields hlength hrest ih =>
    rcases (fieldStream_append hlength hfields).mp hothers with
      ⟨rest, hstream, rfl⟩ | ⟨payload, tail, rest, rfl, hpayload, -⟩
    · rw [ih hstream]
    · rw [hrest.not_container] at hpayload
      cases hpayload
  | payload hfields hlength hpayload hrest ih =>
    rcases (fieldStream_append hlength hfields).mp hothers with
      ⟨rest, hstream, -⟩ | ⟨payload, tail, rest, hsame, -, hstream, rfl⟩
    · rw [hstream.not_container] at hpayload
      cases hpayload
    · cases hsame
      rw [ih hstream]

/-! ## The sixth and the seventh version -/

/-- A pass over some entries of a stream of relative blocks. -/
def readDeltas (registry : Registry) (palette : List (List Char)) (materialize : Bool) (streamEnd index : ℕ)
    (entries : List Json) (c : DeltaCursor) : Except String DeltaCursor :=
  (entries.zipIdx index).foldlM
    (fun c entry => deltaEntry registry palette materialize streamEnd entry.2 entry.1 c) c

theorem readDeltas_append (index : ℕ) (first second : List Json) (c : DeltaCursor) :
    readDeltas registry palette materialize streamEnd index (first ++ second) c =
      readDeltas registry palette materialize streamEnd index first c >>=
        readDeltas registry palette materialize streamEnd (index + first.length) second := by
  rw [readDeltas, List.zipIdx_append, List.foldlM_append]
  rfl

theorem readDeltas_cons (index : ℕ) (entry : Json) (rest : List Json) (c : DeltaCursor) :
    readDeltas registry palette materialize streamEnd index (entry :: rest) c =
      deltaEntry registry palette materialize streamEnd index entry c >>=
        readDeltas registry palette materialize streamEnd (index + 1) rest := by
  rw [readDeltas, List.zipIdx_cons, List.foldlM_cons]
  rfl

/-- The numbers of an entry that is a block. -/
theorem deltaBlock_ok {position : BlockPos} {block : Block} (h : deltaBlock position entry = .ok block) :
    ∃ first second third fourth fifth more dx dy dz primary secondary,
      entry = .array (first :: second :: third :: fourth :: fifth :: more) ∧ jsonI32 first "dx" = .ok dx ∧
      jsonI32 second "dy" = .ok dy ∧ jsonI32 third "dz" = .ok dz ∧
      (position.add ⟨dx, dy, dz⟩).FitsInt32 ∧ jsonI32 fourth "primary" = .ok primary ∧
      jsonI32 fifth "secondary" = .ok secondary ∧
      block = ⟨position.add ⟨dx, dy, dz⟩, primary, secondary, more.head?⟩ := by
  rw [deltaBlock.eq_def] at h
  split at h
  case h_1 first second third fourth fifth more =>
    obtain ⟨dx, hx, h⟩ := exists_of_bind_ok h
    obtain ⟨dy, hy, h⟩ := exists_of_bind_ok h
    obtain ⟨dz, hz, h⟩ := exists_of_bind_ok h
    dsimp only at h
    obtain ⟨hfits, h⟩ := else_of_ok h
    obtain ⟨primary, hprimary, h⟩ := exists_of_bind_ok h
    obtain ⟨secondary, hsecondary, h⟩ := exists_of_bind_ok h
    cases h
    exact ⟨first, second, third, fourth, fifth, more, dx, dy, dz, primary, secondary, rfl, hx, hy, hz,
      not_not.mp hfits, hprimary, hsecondary, rfl⟩
  case h_2 => cases h
  case h_3 => cases h

theorem deltaEntry_ok {index : ℕ} {entry : Json} {c c' : DeltaCursor} (hindex : index < streamEnd)
    (htext : isText entry = false) :
    deltaEntry registry palette materialize streamEnd index entry c = .ok c' ↔
      ∃ block stream, deltaBlock c.position entry = .ok block ∧
        place registry palette materialize block c.blockIndex c.stream = .ok stream ∧
        c' = ⟨block.world, c.blockIndex + 1, stream⟩ := by
  rw [deltaEntry, if_neg (by omega), if_neg (by simp [htext]), mapError_ok]
  constructor
  · intro h
    obtain ⟨block, hblock, h⟩ := exists_of_bind_ok h
    obtain ⟨stream, hstream, h⟩ := exists_of_bind_ok h
    cases h
    exact ⟨block, stream, hblock, hstream, rfl⟩
  · rintro ⟨block, stream, hblock, hstream, rfl⟩
    rw [hblock, ok_bind, hstream]
    rfl

/-- A pass over a stream of relative blocks places the blocks of its form. -/
theorem readDeltas_ok {entries : List Json} {index : ℕ} {c : DeltaCursor}
    (hend : index + entries.length ≤ streamEnd) {count : ℕ} {t : Stream} :
    (∃ c', readDeltas registry palette materialize streamEnd index entries c = .ok c' ∧
        c'.blockIndex = count ∧ c'.stream = t) ↔
      ∃ blocks, DeltaStream c.position entries blocks ∧ count = c.blockIndex + blocks.length ∧
        visit registry palette materialize c.blockIndex blocks c.stream = .ok t := by
  induction entries generalizing index c with
  | nil =>
    constructor
    · rintro ⟨c', ⟨⟩, rfl, rfl⟩
      exact ⟨[], .nil _, rfl, rfl⟩
    · rintro ⟨blocks, ⟨⟩, rfl, ⟨⟩⟩
      exact ⟨c, rfl, rfl, rfl⟩
  | cons entry rest ih =>
    rw [List.length_cons] at hend
    by_cases htext : isText entry = true
    · have hskip : deltaEntry registry palette materialize streamEnd index entry c = .ok c := by
        rw [deltaEntry, if_neg (by omega), if_pos htext]
      rw [readDeltas_cons, hskip, ok_bind, ih (by omega)]
      constructor
      · rintro ⟨blocks, hblocks, hvisit⟩
        exact ⟨blocks, .text htext hblocks, hvisit⟩
      · rintro ⟨blocks, hblocks, hvisit⟩
        cases hblocks with
        | text _ hrest => exact ⟨blocks, hrest, hvisit⟩
        | block hnone => exact absurd ((Bool.and_eq_true _ _).mp htext) hnone
    · have hentry := @deltaEntry_ok registry palette materialize streamEnd index entry c
      rw [readDeltas_cons]
      constructor
      · rintro ⟨c', h, hcount, ht⟩
        obtain ⟨next, hnext, h⟩ := exists_of_bind_ok h
        obtain ⟨block, stream, hblock, hstream, rfl⟩ :=
          (hentry (by omega) (Bool.eq_false_iff.mpr htext)).mp hnext
        obtain ⟨blocks, hblocks, hlength, hvisit⟩ := (ih (by omega)).mp ⟨c', h, hcount, ht⟩
        obtain ⟨first, second, third, fourth, fifth, more, dx, dy, dz, primary, secondary, rfl, hx, hy, hz,
          hfits, hprimary, hsecondary, rfl⟩ := deltaBlock_ok hblock
        have hnone : ¬ (fourth.isString = true ∧ fifth.isString = true) :=
          fun hstrings => htext ((Bool.and_eq_true _ _).mpr hstrings)
        refine ⟨_, .block hnone hx hy hz hfits hprimary hsecondary hblocks, ?_, ?_⟩
        · rw [hlength, List.length_cons]
          dsimp only
          omega
        · rw [visit_cons, hstream]
          exact hvisit
      · rintro ⟨blocks, hblocks, rfl, hvisit⟩
        cases hblocks with
        | text hyes => exact absurd hyes htext
        | @block _ first second third fourth fifth more _ dx dy dz primary secondary others hnone hx hy hz hfits
            hprimary hsecondary hrest =>
          rw [visit_cons] at hvisit
          obtain ⟨stream, hstream, hvisit⟩ := exists_of_bind_ok hvisit
          have hblock : deltaBlock c.position (.array (first :: second :: third :: fourth :: fifth :: more)) =
              .ok ⟨c.position.add ⟨dx, dy, dz⟩, primary, secondary, more.head?⟩ := by
            have hfits' : ¬ ¬ (IsInt32 (c.position.add ⟨dx, dy, dz⟩).x ∧
                IsInt32 (c.position.add ⟨dx, dy, dz⟩).y ∧ IsInt32 (c.position.add ⟨dx, dy, dz⟩).z) :=
              not_not_intro hfits
            rw [deltaBlock, hx, ok_bind, hy, ok_bind, hz, ok_bind]
            dsimp only
            rw [if_neg hfits', hprimary, ok_bind, hsecondary]
            rfl
          rw [(hentry (by omega) (Bool.eq_false_iff.mpr htext)).mpr ⟨_, stream, hblock, hstream, rfl⟩, ok_bind]
          refine (ih (by omega)).mpr ⟨others, hrest, ?_, hvisit⟩
          rw [List.length_cons]
          dsimp only
          omega

theorem DeltaStream.unique {position : BlockPos} {others : List Block} (h : DeltaStream position entries blocks)
    (hothers : DeltaStream position entries others) : others = blocks := by
  induction h generalizing others with
  | nil =>
    cases hothers
    rfl
  | text htext hrest ih =>
    cases hothers with
    | text _ hstream => exact ih hstream
    | block hnone => exact absurd ((Bool.and_eq_true _ _).mp htext) hnone
  | block hnone hx hy hz hfits hprimary hsecondary hrest ih =>
    cases hothers with
    | text htext => exact absurd ((Bool.and_eq_true _ _).mp htext) hnone
    | block _ hx' hy' hz' _ hprimary' hsecondary' hstream =>
      rw [hx] at hx'
      rw [hy] at hy'
      rw [hz] at hz'
      rw [hprimary] at hprimary'
      rw [hsecondary] at hsecondary'
      cases hx'
      cases hy'
      cases hz'
      cases hprimary'
      cases hsecondary'
      rw [ih hstream]

end Passes

/-! ## The end of a document -/

theorem readTail_array (items : List Json) : readTail (.array items) =
    .ok ⟨items.length, (items.map Json.normal).dropLast.getLast?, (items.map Json.normal).getLast?⟩ := by
  rw [readTail, forEachRootEntry_array, ← List.length_map Json.normal]
  induction items.map Json.normal using List.reverseRecOn with
  | nil => rfl
  | append_singleton entries entry ih =>
    rw [List.zipIdx_append, List.foldlM_append, ih, ok_bind, List.dropLast_concat, List.getLast?_concat,
      List.length_append]
    simp only [List.zipIdx_singleton, List.foldlM_cons, List.foldlM_nil, zero_add]
    rfl

theorem checkArea_ok {tail : Tail} : checkArea tail = .ok () ↔
    2 ≤ tail.documentSize ∧ ∃ area, tail.penultimate = some area ∧ AreaValid area := by
  rw [checkArea]
  by_cases hshort : tail.documentSize < 2
  · rw [if_pos hshort]
    exact iff_of_false (fun h => by cases h) fun h => by omega
  · rw [if_neg hshort]
    cases tail.penultimate with
    | none =>
      refine iff_of_false (fun h => by cases h) ?_
      rintro ⟨-, area, hno, -⟩
      cases hno
    | some area =>
      rw [Option.bind_some]
      constructor
      · intro h
        split at h
        case h_1 x y z hep =>
          obtain ⟨first, hfirst, h⟩ := exists_of_bind_ok h
          obtain ⟨second, hsecond, h⟩ := exists_of_bind_ok h
          obtain ⟨third, hthird, h⟩ := exists_of_bind_ok h
          exact ⟨not_lt.mp hshort, area, rfl, x, y, z, hep, ⟨first, hfirst⟩, ⟨second, hsecond⟩, third, hthird⟩
        case h_2 => cases h
      · rintro ⟨-, _, ⟨⟩, x, y, z, hep, ⟨first, hfirst⟩, ⟨second, hsecond⟩, third, hthird⟩
        rw [hep]
        dsimp only
        rw [hfirst, ok_bind, hsecond, ok_bind, hthird]
        rfl

theorem two_last {α : Type} {items : List α} {first second : α} (hfirst : items.dropLast.getLast? = some first)
    (hsecond : items.getLast? = some second) : items = items.dropLast.dropLast ++ [first, second] := by
  have hlast := List.dropLast_append_getLast? second hsecond
  have hbefore := List.dropLast_append_getLast? first hfirst
  rw [← hbefore] at hlast
  rw [← hlast]
  simp

theorem readEnd_fields {document : Json} {palette : List (List Char)} {streamEnd : ℕ} :
    readEnd .V5 document = .ok (palette, streamEnd) ↔ ∃ items entries area last, document = .array items ∧
      items.map Json.normal = entries ++ [area, last] ∧ AreaValid area ∧
      stringPalette last "palette" = .ok palette ∧ streamEnd = entries.length := by
  constructor
  · intro h
    rw [readEnd] at h
    obtain ⟨tail, htail, h⟩ := exists_of_bind_ok h
    cases document with
    | array items =>
      rw [readTail_array] at htail
      cases htail
      split at h
      case h_1 => cases h
      case h_2 last hlast =>
        obtain ⟨names, hnames, h⟩ := exists_of_bind_ok h
        dsimp only at h
        rw [if_pos rfl] at h
        obtain ⟨checked, hchecked, h⟩ := exists_of_bind_ok h
        cases h
        obtain ⟨-, area, harea, hvalid⟩ := checkArea_ok.mp hchecked
        have hitems := two_last harea hlast
        refine ⟨items, _, area, last, rfl, hitems, hvalid, hnames, ?_⟩
        simp only [List.length_dropLast, List.length_map]
        omega
    | null | boolean | unsigned | integer | float | string | object => cases htail
  · rintro ⟨items, entries, area, last, rfl, hitems, harea, hpalette, rfl⟩
    have hlength : items.length = entries.length + 2 := by
      rw [← List.length_map Json.normal, hitems, List.length_append]
      rfl
    have hsplit : entries ++ [area, last] = entries ++ [area] ++ [last] := by
      rw [List.append_assoc]
      rfl
    have hpenultimate : (items.map Json.normal).dropLast.getLast? = some area := by
      rw [hitems, hsplit, List.dropLast_concat, List.getLast?_concat]
    have hlast : (items.map Json.normal).getLast? = some last := by
      rw [hitems, hsplit, List.getLast?_concat]
    have hchecked : checkArea ⟨items.length, some area, some last⟩ = .ok () :=
      checkArea_ok.mpr ⟨hlength ▸ Nat.le_add_left 2 _, area, rfl, harea⟩
    rw [readEnd, readTail_array, ok_bind, hpenultimate, hlast]
    dsimp only
    rw [hpalette, ok_bind, if_pos rfl, hchecked, ok_bind, hlength]
    rfl

theorem readEnd_deltas {version : StreamVersion} (hversion : version ≠ .V5) {document : Json}
    {palette : List (List Char)} {streamEnd : ℕ} :
    readEnd version document = .ok (palette, streamEnd) ↔ ∃ items entries last, document = .array items ∧
      items.map Json.normal = entries ++ [last] ∧ stringPalette last "palette" = .ok palette ∧
      streamEnd = entries.length := by
  constructor
  · intro h
    rw [readEnd] at h
    obtain ⟨tail, htail, h⟩ := exists_of_bind_ok h
    cases document with
    | array items =>
      rw [readTail_array] at htail
      cases htail
      split at h
      case h_1 => cases h
      case h_2 last hlast =>
        obtain ⟨names, hnames, h⟩ := exists_of_bind_ok h
        dsimp only at h
        rw [if_neg hversion] at h
        cases h
        refine ⟨items, _, last, rfl, (List.dropLast_append_getLast? last hlast).symm, hnames, ?_⟩
        rw [List.length_dropLast, List.length_map]
    | null | boolean | unsigned | integer | float | string | object => cases htail
  · rintro ⟨items, entries, last, rfl, hitems, hpalette, rfl⟩
    have hlength : items.length = entries.length + 1 := by
      rw [← List.length_map Json.normal, hitems, List.length_append]
      rfl
    have hlast : (items.map Json.normal).getLast? = some last := by
      rw [hitems, List.getLast?_concat]
    rw [readEnd, readTail_array, ok_bind, hlast]
    dsimp only
    rw [hpalette, ok_bind, if_neg hversion, hlength]
    rfl

/-! ## The blocks of a document -/

section Documents

variable {registry : Registry} {version : StreamVersion} {document : Json} {palette : List (List Char)}

theorem Describes.unique {palette' : List (List Char)} {blocks blocks' : List Block}
    (h : Describes version document palette blocks) (h' : Describes version document palette' blocks') :
    palette' = palette ∧ blocks' = blocks := by
  cases h with
  | fields hitems harea hpalette hblocks =>
    cases h' with
    | fields hitems' harea' hpalette' hblocks' =>
      rw [hitems] at hitems'
      obtain ⟨rfl, htail⟩ := List.append_inj' hitems' rfl
      cases htail
      rw [hpalette] at hpalette'
      cases hpalette'
      exact ⟨rfl, hblocks.unique hblocks'⟩
    | deltas hversion => exact absurd rfl hversion
  | deltas hversion hitems hpalette hblocks =>
    cases h' with
    | fields => exact absurd rfl hversion
    | deltas _ hitems' hpalette' hblocks' =>
      rw [hitems] at hitems'
      obtain ⟨rfl, htail⟩ := List.append_inj' hitems' rfl
      cases htail
      rw [hpalette] at hpalette'
      cases hpalette'
      exact ⟨rfl, hblocks.unique hblocks'⟩

/-- The end of a document with blocks. -/
theorem Describes.readEnd {blocks : List Block} (h : Describes version document palette blocks) :
    ∃ streamEnd, readEnd version document = .ok (palette, streamEnd) := by
  cases h with
  | fields hitems harea hpalette hblocks =>
    exact ⟨_, readEnd_fields.mpr ⟨_, _, _, _, rfl, hitems, harea, hpalette, rfl⟩⟩
  | deltas hversion hitems hpalette hblocks =>
    exact ⟨_, (readEnd_deltas hversion).mpr ⟨_, _, _, rfl, hitems, hpalette, rfl⟩⟩

variable {materialize : Bool} {streamEnd : ℕ} {tail : List Json} {s t : Stream} {count : ℕ}

/-- The entries behind a stream are left alone. -/
theorem readFields_tail {index : ℕ} {c : FieldCursor} (hindex : streamEnd ≤ index) :
    readFields registry palette materialize streamEnd index tail c = .ok c := by
  induction tail generalizing index with
  | nil => rfl
  | cons entry rest ih =>
    rw [readFields_cons, fieldEntry, if_pos hindex]
    exact ih (Nat.le_succ_of_le hindex)

theorem readDeltas_tail {index : ℕ} {c : DeltaCursor} (hindex : streamEnd ≤ index) :
    readDeltas registry palette materialize streamEnd index tail c = .ok c := by
  induction tail generalizing index with
  | nil => rfl
  | cons entry rest ih =>
    rw [readDeltas_cons, deltaEntry, if_pos hindex]
    exact ih (Nat.le_succ_of_le hindex)

theorem processFields_ok {items entries : List Json} (hitems : items.map Json.normal = entries ++ tail) :
    processFields registry palette materialize entries.length (.array items) s = .ok (count, t) ↔
      ∃ blocks, FieldStream entries blocks ∧ count = blocks.length ∧
        visit registry palette materialize 0 blocks s = .ok t := by
  have hrun : forEachRootEntry (fieldEntry registry palette materialize entries.length) (.array items)
      { stream := s } =
        readFields registry palette materialize entries.length 0 entries { stream := s } := by
    rw [forEachRootEntry_array, hitems]
    change readFields registry palette materialize entries.length 0 (entries ++ tail) { stream := s } = _
    rw [readFields_append]
    cases readFields registry palette materialize entries.length 0 entries { stream := s } with
    | error error => rfl
    | ok c => exact readFields_tail (by omega)
  rw [processFields, hrun, readFields_ok rfl (Nat.zero_add _)]
  simp only [Nat.zero_add]

theorem processDeltas_ok {items entries : List Json} (hitems : items.map Json.normal = entries ++ tail) :
    processDeltas registry palette materialize entries.length (.array items) s = .ok (count, t) ↔
      ∃ blocks, DeltaStream ⟨0, 0, 0⟩ entries blocks ∧ count = blocks.length ∧
        visit registry palette materialize 0 blocks s = .ok t := by
  have hrun : forEachRootEntry (deltaEntry registry palette materialize entries.length) (.array items)
      { stream := s } =
        readDeltas registry palette materialize entries.length 0 entries { stream := s } := by
    rw [forEachRootEntry_array, hitems]
    change readDeltas registry palette materialize entries.length 0 (entries ++ tail) { stream := s } = _
    rw [readDeltas_append]
    cases readDeltas registry palette materialize entries.length 0 entries { stream := s } with
    | error error => rfl
    | ok c => exact readDeltas_tail (by omega)
  have hblocks := @readDeltas_ok registry palette materialize entries.length entries 0 { stream := s }
    (by omega) count t
  simp only [Nat.zero_add] at hblocks
  rw [processDeltas, hrun, ← hblocks]
  constructor
  · intro h
    obtain ⟨c, hc, hsame⟩ := exists_of_map_ok h
    cases hsame
    exact ⟨c, hc, rfl, rfl⟩
  · rintro ⟨c, hc, rfl, rfl⟩
    rw [hc]
    rfl

/-- A pass over a document with a palette places the blocks of the document. -/
theorem processStream_ok (h : readEnd version document = .ok (palette, streamEnd)) :
    processStream registry version palette streamEnd materialize document s = .ok (count, t) ↔
      ∃ blocks, Describes version document palette blocks ∧ count = blocks.length ∧
        visit registry palette materialize 0 blocks s = .ok t := by
  rw [processStream]
  by_cases hversion : version = .V5
  · subst hversion
    obtain ⟨items, entries, area, last, rfl, hitems, harea, hpalette, rfl⟩ := readEnd_fields.mp h
    rw [if_pos rfl, processFields_ok hitems]
    constructor
    · rintro ⟨blocks, hblocks, hvisit⟩
      exact ⟨blocks, .fields hitems harea hpalette hblocks, hvisit⟩
    · rintro ⟨blocks, hblocks, hvisit⟩
      refine ⟨blocks, ?_, hvisit⟩
      cases hblocks with
      | fields hitems' _ _ hblocks =>
        rw [hitems] at hitems'
        rw [(List.append_inj' hitems' rfl).1]
        exact hblocks
      | deltas hversion => exact absurd rfl hversion
  · obtain ⟨items, entries, last, rfl, hitems, hpalette, rfl⟩ := (readEnd_deltas hversion).mp h
    rw [if_neg hversion, processDeltas_ok hitems]
    constructor
    · rintro ⟨blocks, hblocks, hvisit⟩
      exact ⟨blocks, .deltas hversion hitems hpalette hblocks, hvisit⟩
    · rintro ⟨blocks, hblocks, hvisit⟩
      refine ⟨blocks, ?_, hvisit⟩
      cases hblocks with
      | fields => exact absurd rfl hversion
      | deltas _ hitems' _ hblocks =>
        rw [hitems] at hitems'
        rw [(List.append_inj' hitems' rfl).1]
        exact hblocks

end Documents

end GangBan

end WaterStructure
