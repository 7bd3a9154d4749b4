import Mathlib.Data.List.Forall2
import Mathlib.Data.Nat.Bitwise
import WaterStructure.Library.NestedLoop

/-!
# Self-delimiting encodings

An encoder writes values one behind the other. It delimits a value when its code, in front of any rest,
fixes the value and the rest: up to a relation that says when two values are the same, and among the
values that are admitted. Encoders that delimit their values can be put together: numbers of a fixed
width, lists behind their length, and lists that fill the whole code.
-/

namespace SelfDelimiting

open NestedLoop

section Lists

variable {α β : Type} {ε : Type*}

/-- The code of a value in front of a rest is the code of no other admitted value. -/
def DelimitsAt (admits : α → Prop) (same : α → α → Prop) (encode : α → Except ε (List β)) (a : α) :
    Prop :=
  ∀ b, admits b → ∀ x y s t, encode a = .ok x → encode b = .ok y → x ++ s = y ++ t → same a b ∧ s = t

/-- The codes of all values, one behind the other. -/
def encodeAll (encode : α → Except ε (List β)) : List α → Except ε (List β)
  | [] => .ok []
  | a :: rest => do
    let code ← encode a
    let codes ← encodeAll encode rest
    return code ++ codes

variable {admits : α → Prop} {same : α → α → Prop} {encode : α → Except ε (List β)} {a : α}
  {code : List β} {items others : List α}

/-- Fewer values may be admitted. -/
theorem DelimitsAt.mono {admits' : α → Prop} (h : DelimitsAt admits same encode a)
    (hadmits : ∀ b, admits' b → admits b) : DelimitsAt admits' same encode a :=
  fun b hb => h b (hadmits b hb)

theorem encodeAll_cons {rest : List α} (h : encodeAll encode (a :: rest) = .ok code) :
    ∃ first more, encode a = .ok first ∧ encodeAll encode rest = .ok more ∧ code = first ++ more := by
  obtain ⟨first, hfirst, h⟩ := exists_of_bind_ok h
  obtain ⟨more, hmore, h⟩ := exists_of_bind_ok h
  cases h
  exact ⟨first, more, hfirst, hmore, rfl⟩

theorem encodeAll_cons_of_ok {rest : List α} {first more : List β} (h : encode a = .ok first)
    (hrest : encodeAll encode rest = .ok more) : encodeAll encode (a :: rest) = .ok (first ++ more) := by
  rw [encodeAll, h, ok_bind, hrest, ok_bind]
  rfl

theorem encodeAll_append_of_ok {more : List β} (h : encodeAll encode items = .ok code)
    (hothers : encodeAll encode others = .ok more) :
    encodeAll encode (items ++ others) = .ok (code ++ more) := by
  induction items generalizing code with
  | nil =>
    cases h
    exact hothers
  | cons a rest ih =>
    obtain ⟨first, later, hfirst, hlater, rfl⟩ := encodeAll_cons h
    rw [List.cons_append, encodeAll_cons_of_ok hfirst (ih hlater), List.append_assoc]

/-- A list is encoded when all of its values are. -/
theorem encodeAll_ok (h : ∀ a ∈ items, ∃ code, encode a = .ok code) :
    ∃ code, encodeAll encode items = .ok code := by
  induction items with
  | nil => exact ⟨[], rfl⟩
  | cons a rest ih =>
    obtain ⟨first, hfirst⟩ := h a List.mem_cons_self
    obtain ⟨more, hmore⟩ := ih fun b hb => h b (List.mem_cons_of_mem a hb)
    exact ⟨first ++ more, encodeAll_cons_of_ok hfirst hmore⟩

theorem ok_of_encodeAll (h : encodeAll encode items = .ok code) :
    ∀ a ∈ items, ∃ code, encode a = .ok code := by
  induction items generalizing code with
  | nil => nofun
  | cons a rest ih =>
    obtain ⟨first, more, hfirst, hmore, -⟩ := encodeAll_cons h
    exact List.forall_mem_cons.mpr ⟨⟨first, hfirst⟩, ih hmore⟩

/-- Lists of the same keys are encoded alike when the keys fix the codes. -/
theorem encodeAll_congr {κ : Type*} {key : α → κ} (hkeys : items.map key = others.map key)
    (h : ∀ a ∈ items, ∀ b ∈ others, key a = key b → encode a = encode b) :
    encodeAll encode items = encodeAll encode others := by
  induction items generalizing others with
  | nil => rw [List.map_eq_nil_iff.mp hkeys.symm]
  | cons a rest ih =>
    cases others with
    | nil => cases hkeys
    | cons b more =>
      obtain ⟨hkey, hkeys⟩ := List.cons.inj hkeys
      rw [encodeAll, encodeAll, h a List.mem_cons_self b List.mem_cons_self hkey,
        ih hkeys fun a ha b hb => h a (List.mem_cons_of_mem _ ha) b (List.mem_cons_of_mem _ hb)]

/-- Values may be replaced by others with the same codes. -/
theorem encodeAll_map {f : α → α} (h : ∀ a ∈ items, encode (f a) = encode a) :
    encodeAll encode (items.map f) = encodeAll encode items := by
  induction items with
  | nil => rfl
  | cons a rest ih =>
    obtain ⟨ha, hrest⟩ := List.forall_mem_cons.mp h
    rw [List.map_cons, encodeAll, encodeAll, ha, ih hrest]

/-- An encoder that never fails. -/
theorem encodeAll_pure (code : α → List β) (items : List α) :
    encodeAll (fun a => (.ok (code a) : Except ε (List β))) items = .ok (items.flatMap code) := by
  induction items with
  | nil => rfl
  | cons a rest ih => rw [encodeAll, ih, List.flatMap_cons]; rfl

/-- Lists of one length are delimited when their values are. -/
theorem encodeAll_delimits (hitems : ∀ a ∈ items, DelimitsAt admits same encode a)
    (hothers : ∀ b ∈ others, admits b) (hlength : items.length = others.length) {x y s t : List β}
    (hx : encodeAll encode items = .ok x) (hy : encodeAll encode others = .ok y) (h : x ++ s = y ++ t) :
    List.Forall₂ same items others ∧ s = t := by
  induction items generalizing others x y with
  | nil =>
    obtain rfl := List.length_eq_zero_iff.mp hlength.symm
    cases hx
    cases hy
    exact ⟨.nil, h⟩
  | cons a rest ih =>
    cases others with
    | nil => cases hlength
    | cons b more =>
      obtain ⟨hb, hmore⟩ := List.forall_mem_cons.mp hothers
      obtain ⟨ha, hrest⟩ := List.forall_mem_cons.mp hitems
      obtain ⟨x₁, x₂, hx₁, hx₂, rfl⟩ := encodeAll_cons hx
      obtain ⟨y₁, y₂, hy₁, hy₂, rfl⟩ := encodeAll_cons hy
      rw [List.append_assoc, List.append_assoc] at h
      obtain ⟨hsame, htail⟩ := ha b hb x₁ y₁ _ _ hx₁ hy₁ h
      obtain ⟨hall, hst⟩ := ih hrest hmore (Nat.succ.inj hlength) hx₂ hy₂ htail
      exact ⟨.cons hsame hall, hst⟩

/-- Lists that make up the whole code need no length. -/
theorem encodeAll_whole (hitems : ∀ a ∈ items, DelimitsAt admits same encode a)
    (hothers : ∀ b ∈ others, admits b) (hne : ∀ a, encode a ≠ .ok []) {x : List β}
    (hx : encodeAll encode items = .ok x) (hy : encodeAll encode others = .ok x) :
    List.Forall₂ same items others := by
  have hempty {b : α} {more : List α} (h : encodeAll encode (b :: more) = .ok []) : False := by
    obtain ⟨first, rest, hfirst, -, hcode⟩ := encodeAll_cons h
    obtain ⟨rfl, -⟩ := List.append_eq_nil_iff.mp hcode.symm
    exact hne b hfirst
  induction items generalizing others x with
  | nil =>
    cases hx
    cases others with
    | nil => exact .nil
    | cons b more => exact (hempty hy).elim
  | cons a rest ih =>
    cases others with
    | nil =>
      cases hy
      exact (hempty hx).elim
    | cons b more =>
      obtain ⟨hb, hmore⟩ := List.forall_mem_cons.mp hothers
      obtain ⟨ha, hrest⟩ := List.forall_mem_cons.mp hitems
      obtain ⟨x₁, x₂, hx₁, hx₂, rfl⟩ := encodeAll_cons hx
      obtain ⟨y₁, y₂, hy₁, hy₂, h⟩ := encodeAll_cons hy
      obtain ⟨hsame, rfl⟩ := ha b hb x₁ y₁ _ _ hx₁ hy₁ h
      exact .cons hsame (ih hrest hmore hx₂ hy₂)

end Lists

/-- The bytes of a number, the lowest first. -/
def littleEndian (width value : ℕ) : List UInt8 :=
  (List.range width).map fun i => UInt8.ofNat (value >>> (8 * i))

@[simp] theorem length_littleEndian (width value : ℕ) : (littleEndian width value).length = width := by
  rw [littleEndian, List.length_map, List.length_range]

theorem littleEndian_succ (width value : ℕ) :
    littleEndian (width + 1) value = UInt8.ofNat value :: littleEndian width (value / 256) := by
  rw [littleEndian, List.range_succ_eq_map, List.map_cons, List.map_map, littleEndian]
  congr 1
  refine List.map_congr_left fun i _ => ?_
  rw [Function.comp_apply, Nat.mul_succ, Nat.add_comm, Nat.shiftRight_add,
    Nat.shiftRight_eq_div_pow value 8]

/-- The bytes fix the number up to the width. -/
theorem littleEndian_inj {width value other : ℕ} :
    littleEndian width value = littleEndian width other ↔
      value % 256 ^ width = other % 256 ^ width := by
  induction width generalizing value other with
  | zero => simp [littleEndian, Nat.mod_one]
  | succ width ih =>
    rw [littleEndian_succ, littleEndian_succ, List.cons.injEq, ih, Nat.pow_succ',
      Nat.mod_mul, Nat.mod_mul, ← UInt8.toNat_inj, UInt8.toNat_ofNat', UInt8.toNat_ofNat']
    have hlow := Nat.mod_lt value (show 0 < 256 by decide)
    have hlow' := Nat.mod_lt other (show 0 < 256 by decide)
    constructor
    · rintro ⟨hbyte, hrest⟩
      rw [hbyte, hrest]
    · intro h
      omega

/-- Numbers of one width in front of a rest. -/
theorem littleEndian_append {width value other : ℕ} {s t : List UInt8}
    (h : littleEndian width value ++ s = littleEndian width other ++ t) :
    value % 256 ^ width = other % 256 ^ width ∧ s = t := by
  obtain ⟨hbytes, hrest⟩ := List.append_inj h (by rw [length_littleEndian, length_littleEndian])
  exact ⟨littleEndian_inj.mp hbytes, hrest⟩

end SelfDelimiting
