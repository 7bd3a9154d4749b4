import Mathlib.Data.List.Basic
import Mathlib.Data.Nat.Bitwise

/-!
# Runes as bytes

A rune is written as a lead byte, which says how many bytes there are, and continuation bytes of six
bits each. A text that spells every rune with as few bytes as possible is read back in one way only.
-/

namespace Utf8

/-- The bytes of a rune. -/
def encode (value : ℕ) : List UInt8 :=
  if value ≤ 0x7f then [.ofNat value]
  else if value ≤ 0x7ff then [.ofNat (0xc0 ||| value >>> 6), .ofNat (0x80 ||| value &&& 0x3f)]
  else if value ≤ 0xffff then
    [.ofNat (0xe0 ||| value >>> 12), .ofNat (0x80 ||| (value >>> 6) &&& 0x3f),
      .ofNat (0x80 ||| value &&& 0x3f)]
  else
    [.ofNat (0xf0 ||| value >>> 18), .ofNat (0x80 ||| (value >>> 12) &&& 0x3f),
      .ofNat (0x80 ||| (value >>> 6) &&& 0x3f), .ofNat (0x80 ||| value &&& 0x3f)]

/-- The number of bytes of a rune and its first bits, from the lead byte. -/
def lead (first : UInt8) : Option (ℕ × ℕ) :=
  if first < 0x80 then some (1, first.toNat)
  else if first &&& 0xe0 = 0xc0 then some (2, (first &&& 0x1f).toNat)
  else if first &&& 0xf0 = 0xe0 then some (3, (first &&& 0x0f).toNat)
  else if first &&& 0xf8 = 0xf0 then some (4, (first &&& 0x07).toNat)
  else none

/-- The byte is a continuation byte. -/
def Continues (byte : UInt8) : Prop := byte &&& 0xc0 = 0x80

instance (byte : UInt8) : Decidable (Continues byte) := inferInstanceAs (Decidable (_ = _))

/-- Take up the bits of a continuation byte. -/
def extend (value : ℕ) (byte : UInt8) : ℕ := value <<< 6 ||| (byte &&& 0x3f).toNat

/-- The least rune that needs so many bytes. -/
def minimum : ℕ → ℕ
  | 2 => 0x80
  | 3 => 0x800
  | 4 => 0x10000
  | _ => 0

variable {first byte : UInt8} {value : ℕ}

theorem lead_cases {length bits : ℕ} (h : lead first = some (length, bits)) :
    (length = 1 ∧ bits = first.toNat ∧ first.toNat < 128) ∨
      (length = 2 ∧ first.toNat = 192 + bits ∧ bits < 32) ∨
      (length = 3 ∧ first.toNat = 224 + bits ∧ bits < 16) ∨
      (length = 4 ∧ first.toNat = 240 + bits ∧ bits < 8) := by
  have htwo : ∀ n < 256, UInt8.ofNat n &&& 0xe0 = 0xc0 →
      n = 192 + (UInt8.ofNat n &&& 0x1f).toNat ∧ (UInt8.ofNat n &&& 0x1f).toNat < 32 := by
    decide +kernel
  have hthree : ∀ n < 256, UInt8.ofNat n &&& 0xf0 = 0xe0 →
      n = 224 + (UInt8.ofNat n &&& 0x0f).toNat ∧ (UInt8.ofNat n &&& 0x0f).toNat < 16 := by
    decide +kernel
  have hfour : ∀ n < 256, UInt8.ofNat n &&& 0xf8 = 0xf0 →
      n = 240 + (UInt8.ofNat n &&& 0x07).toNat ∧ (UInt8.ofNat n &&& 0x07).toNat < 8 := by
    decide +kernel
  have hbyte := first.toNat_lt
  have hsame : UInt8.ofNat first.toNat = first := UInt8.ofNat_toNat
  rw [lead] at h
  split at h
  case isTrue hsmall =>
    cases h
    exact .inl ⟨rfl, rfl, UInt8.lt_iff_toNat_lt.mp hsmall⟩
  case isFalse =>
    split at h
    case isTrue hmask =>
      cases h
      have hbits := htwo first.toNat hbyte
      rw [hsame] at hbits
      exact .inr (.inl ⟨rfl, hbits hmask⟩)
    case isFalse =>
      split at h
      case isTrue hmask =>
        cases h
        have hbits := hthree first.toNat hbyte
        rw [hsame] at hbits
        exact .inr (.inr (.inl ⟨rfl, hbits hmask⟩))
      case isFalse =>
        split at h
        case isTrue hmask =>
          cases h
          have hbits := hfour first.toNat hbyte
          rw [hsame] at hbits
          exact .inr (.inr (.inr ⟨rfl, hbits hmask⟩))
        case isFalse => cases h

/-- A lead byte is found again from what it says. -/
theorem lead_ofNat : (∀ bits < 128, lead (.ofNat bits) = some (1, bits)) ∧
    (∀ bits < 32, lead (.ofNat (192 + bits)) = some (2, bits)) ∧
    (∀ bits < 16, lead (.ofNat (224 + bits)) = some (3, bits)) ∧
    ∀ bits < 8, lead (.ofNat (240 + bits)) = some (4, bits) := by
  refine ⟨?_, ?_, ?_, ?_⟩ <;> decide +kernel

theorem continues_ofNat : ∀ bits < 64, Continues (.ofNat (128 + bits)) ∧
    (UInt8.ofNat (128 + bits) &&& 0x3f).toNat = bits := by
  decide +kernel

theorem toNat_of_continues (h : Continues byte) :
    byte.toNat = 128 + (byte &&& 0x3f).toNat ∧ (byte &&& 0x3f).toNat < 64 := by
  have hall : ∀ n < 256, Continues (UInt8.ofNat n) →
      n = 128 + (UInt8.ofNat n &&& 0x3f).toNat ∧ (UInt8.ofNat n &&& 0x3f).toNat < 64 := by
    decide +kernel
  have hbyte := hall byte.toNat byte.toNat_lt
  rw [UInt8.ofNat_toNat] at hbyte
  exact hbyte h

/-- The bits of a byte are put below those so far. -/
theorem extend_eq (value : ℕ) (h : (byte &&& 0x3f).toNat < 64) :
    extend value byte = value * 64 + (byte &&& 0x3f).toNat := by
  rw [extend, Nat.shiftLeft_eq, Nat.mul_comm value (2 ^ 6)]
  exact (Nat.two_pow_add_eq_or_of_lt (i := 6) h value).symm

/-- The bytes of a rune by division with remainder. -/
theorem encode_eq (h : value < 0x200000) : encode value =
    if value ≤ 0x7f then [.ofNat value]
    else if value ≤ 0x7ff then [.ofNat (192 + value / 64), .ofNat (128 + value % 64)]
    else if value ≤ 0xffff then
      [.ofNat (224 + value / 4096), .ofNat (128 + value / 64 % 64), .ofNat (128 + value % 64)]
    else
      [.ofNat (240 + value / 262144), .ofNat (128 + value / 4096 % 64),
        .ofNat (128 + value / 64 % 64), .ofNat (128 + value % 64)] := by
  have hrest (n : ℕ) : 0x80 ||| n &&& 0x3f = 128 + n % 64 := by
    rw [Nat.and_two_pow_sub_one_eq_mod n 6]
    exact (Nat.two_pow_add_eq_or_of_lt (i := 7) (by omega : n % 2 ^ 6 < 2 ^ 7) 1).symm
  have htwo {n : ℕ} (hn : n < 32) : 0xc0 ||| n = 192 + n :=
    (Nat.two_pow_add_eq_or_of_lt (i := 5) hn 6).symm
  have hthree {n : ℕ} (hn : n < 16) : 0xe0 ||| n = 224 + n :=
    (Nat.two_pow_add_eq_or_of_lt (i := 4) hn 14).symm
  have hfour {n : ℕ} (hn : n < 8) : 0xf0 ||| n = 240 + n :=
    (Nat.two_pow_add_eq_or_of_lt (i := 3) hn 30).symm
  rw [encode]
  split_ifs
  · rfl
  · rw [hrest, Nat.shiftRight_eq_div_pow, htwo (by omega)]
  · rw [hrest, hrest, Nat.shiftRight_eq_div_pow, Nat.shiftRight_eq_div_pow, hthree (by omega)]
  · rw [hrest, hrest, hrest, Nat.shiftRight_eq_div_pow, Nat.shiftRight_eq_div_pow,
      Nat.shiftRight_eq_div_pow, hfour (by omega)]

/-- The bytes spell the rune: the lead byte counts them, and their bits are its bits. -/
structure Spells (value : ℕ) (first : UInt8) (tail : List UInt8) : Prop where
  bits : ∃ bits, lead first = some (tail.length + 1, bits) ∧ tail.foldl extend bits = value
  continued : ∀ byte ∈ tail, Continues byte
  minimal : minimum (tail.length + 1) ≤ value

/-- A rune is spelled by its bytes. -/
theorem spells_encode (h : value < 0x200000) :
    ∃ first tail, encode value = first :: tail ∧ Spells value first tail := by
  obtain ⟨hone, htwo, hthree, hfour⟩ := lead_ofNat
  have hextend (start : ℕ) {bits : ℕ} (hbits : bits < 64) :
      extend start (.ofNat (128 + bits)) = start * 64 + bits := by
    obtain ⟨-, hsame⟩ := continues_ofNat bits hbits
    rw [extend_eq _ (by rwa [hsame]), hsame]
  have hcontinues {bits : ℕ} (hbits : bits < 64) : Continues (.ofNat (128 + bits)) :=
    (continues_ofNat bits hbits).1
  have hmod (n : ℕ) : n % 64 < 64 := Nat.mod_lt n (by decide)
  rw [encode_eq h]
  split_ifs with hle hle hle
  · exact ⟨_, [], rfl, ⟨value, hone value (by omega), rfl⟩, fun _ hbyte => absurd hbyte List.not_mem_nil,
      Nat.zero_le _⟩
  · refine ⟨_, _, rfl, ⟨value / 64, htwo _ (by omega), ?_⟩, ?_, ?_⟩
    · rw [List.foldl_cons, List.foldl_nil, hextend _ (hmod _)]
      omega
    · intro byte hbyte
      rw [List.mem_singleton.mp hbyte]
      exact hcontinues (hmod _)
    · exact show 0x80 ≤ value by omega
  · refine ⟨_, _, rfl, ⟨value / 4096, hthree _ (by omega), ?_⟩, ?_, ?_⟩
    · rw [List.foldl_cons, List.foldl_cons, List.foldl_nil, hextend _ (hmod _),
        hextend _ (hmod _)]
      omega
    · intro byte hbyte
      rcases List.mem_cons.mp hbyte with rfl | hbyte
      · exact hcontinues (hmod _)
      · rw [List.mem_singleton.mp hbyte]
        exact hcontinues (hmod _)
    · exact show 0x800 ≤ value by omega
  · refine ⟨_, _, rfl, ⟨value / 262144, hfour _ (by omega), ?_⟩, ?_, ?_⟩
    · rw [List.foldl_cons, List.foldl_cons, List.foldl_cons, List.foldl_nil, hextend _ (hmod _),
        hextend _ (hmod _), hextend _ (hmod _)]
      omega
    · intro byte hbyte
      rcases List.mem_cons.mp hbyte with rfl | hbyte
      · exact hcontinues (hmod _)
      · rcases List.mem_cons.mp hbyte with rfl | hbyte
        · exact hcontinues (hmod _)
        · rw [List.mem_singleton.mp hbyte]
          exact hcontinues (hmod _)
    · exact show 0x10000 ≤ value by omega

/-- Only the bytes of a rune spell it. -/
theorem Spells.encode_eq {tail : List UInt8} (h : Spells value first tail) :
    encode value = first :: tail := by
  obtain ⟨⟨bits, hlead, hvalue⟩, hcontinued, hminimal⟩ := h
  have hbyte {n : ℕ} {byte : UInt8} (hn : n = byte.toNat) : UInt8.ofNat n = byte := by
    rw [hn, UInt8.ofNat_toNat]
  have hfirst := lead_cases hlead
  rcases tail with _ | ⟨second, _ | ⟨third, _ | ⟨fourth, _ | ⟨fifth, rest⟩⟩⟩⟩
  · obtain ⟨-, hbits, hsmall⟩ := hfirst.resolve_right (by simp)
    rw [List.foldl_nil] at hvalue
    rw [encode, if_pos (by omega), ← hvalue, hbits, UInt8.ofNat_toNat]
  · obtain ⟨-, hbits, hsmall⟩ := (hfirst.resolve_left (by simp)).resolve_right (by simp)
    obtain ⟨hsecond, hlt⟩ := toNat_of_continues (hcontinued second List.mem_cons_self)
    rw [List.foldl_cons, List.foldl_nil, extend_eq _ hlt] at hvalue
    have hleast : 0x80 ≤ value := hminimal
    rw [Utf8.encode_eq (by omega), if_neg (by omega), if_pos (by omega),
      @hbyte _ first (by omega), @hbyte _ second (by omega)]
  · obtain ⟨-, hbits, hsmall⟩ :=
      ((hfirst.resolve_left (by simp)).resolve_left (by simp)).resolve_right (by simp)
    obtain ⟨hsecond, hlt⟩ := toNat_of_continues (hcontinued second List.mem_cons_self)
    obtain ⟨hthird, hlt'⟩ := toNat_of_continues (hcontinued third (by simp))
    rw [List.foldl_cons, List.foldl_cons, List.foldl_nil, extend_eq _ hlt, extend_eq _ hlt'] at hvalue
    have hleast : 0x800 ≤ value := hminimal
    rw [Utf8.encode_eq (by omega), if_neg (by omega), if_neg (by omega), if_pos (by omega),
      @hbyte _ first (by omega), @hbyte _ second (by omega),
      @hbyte _ third (by omega)]
  · obtain ⟨-, hbits, hsmall⟩ :=
      ((hfirst.resolve_left (by simp)).resolve_left (by simp)).resolve_left (by simp)
    obtain ⟨hsecond, hlt⟩ := toNat_of_continues (hcontinued second List.mem_cons_self)
    obtain ⟨hthird, hlt'⟩ := toNat_of_continues (hcontinued third (by simp))
    obtain ⟨hfourth, hlt''⟩ := toNat_of_continues (hcontinued fourth (by simp))
    rw [List.foldl_cons, List.foldl_cons, List.foldl_cons, List.foldl_nil, extend_eq _ hlt,
      extend_eq _ hlt', extend_eq _ hlt''] at hvalue
    have hleast : 0x10000 ≤ value := hminimal
    rw [Utf8.encode_eq (by omega), if_neg (by omega), if_neg (by omega), if_neg (by omega),
      @hbyte _ first (by omega), @hbyte _ second (by omega),
      @hbyte _ third (by omega), @hbyte _ fourth (by omega)]
  · rcases hfirst with ⟨h, -⟩ | ⟨h, -⟩ | ⟨h, -⟩ | ⟨h, -⟩ <;> simp at h

/-- The rune is no surrogate and not above the last character. -/
def IsScalar (value : ℕ) : Prop := ¬ (value > 0x10ffff ∨ (0xd800 ≤ value ∧ value ≤ 0xdfff))

/-- The bytes of a text of characters. -/
def ofChars (text : List Char) : List UInt8 := text.flatMap String.utf8EncodeChar

theorem isScalar_iff : IsScalar value ↔ value.isValidChar := by
  rw [IsScalar, Nat.isValidChar]
  omega

theorem isScalar_toNat (c : Char) : IsScalar c.toNat := isScalar_iff.mpr c.valid

/-- The bytes of a character are those of its rune. -/
theorem encode_toNat (c : Char) : encode c.toNat = String.utf8EncodeChar c := by
  have hle : c.toNat < 0x110000 := by
    have := isScalar_toNat c
    rw [IsScalar] at this
    omega
  have hval : c.val.toNat = c.toNat := rfl
  have hmod {n m : ℕ} (hn : n < m) : n % m = n := Nat.mod_eq_of_lt hn
  rw [encode_eq (by omega), String.utf8EncodeChar, hval]
  split_ifs
  · rfl
  · rw [hmod (by omega : c.toNat / 64 < 0x20), Nat.add_comm 192, Nat.add_comm 128]
  · rw [hmod (by omega : c.toNat / 4096 < 0x10), Nat.add_comm 224, Nat.add_comm 128,
      Nat.add_comm 128]
  · rw [hmod (by omega : c.toNat / 262144 < 0x08), Nat.add_comm 240, Nat.add_comm 128,
      Nat.add_comm 128, Nat.add_comm 128]

/-- Every rune that is no surrogate is a character. -/
theorem exists_char (h : IsScalar value) : ∃ c : Char, c.toNat = value :=
  ⟨Char.ofNatAux value (isScalar_iff.mp h), rfl⟩

end Utf8
