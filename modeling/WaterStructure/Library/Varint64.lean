import WaterStructure.Library.NestedLoop
import WaterStructure.Library.Varint

/-!
# Variable-length numbers of 64 bits

A number is spelled by groups of seven bits, the lowest group first, and the last byte is the one without
the high bit. A reader for 64 bits takes at most ten bytes, and only the lowest bit of the tenth. So it
accepts exactly the spellings of at most ten bytes whose number is below `2 ^ 64`, the shortest or not.
-/

namespace Varint64

/-- Why no number is read. -/
inductive Fault where
  | truncated
  | overflow
  deriving DecidableEq, Repr

/-- Read one number, given the bits read so far; the number and how many bytes it takes. -/
def decodeFrom (value shift : ℕ) : List UInt8 → Except Fault (ℕ × ℕ)
  | [] => .error .truncated
  | byte :: rest =>
    if shift = 63 ∧ byte &&& 0xfe ≠ 0 then .error .overflow
    else if byte &&& 0x80 = 0 then .ok (Varint.addByte value shift byte, 1)
    else if shift + 7 > 63 then .error .overflow
    else (decodeFrom (Varint.addByte value shift byte) (shift + 7) rest).map fun code =>
      (code.1, code.2 + 1)

/-- Read the number at the start of the bytes. -/
def decode (bytes : List UInt8) : Except Fault (ℕ × ℕ) := decodeFrom 0 0 bytes

/-- The bytes are a spelling of the number. -/
inductive Spells : List UInt8 → ℕ → Prop where
  | last {byte : UInt8} (h : byte &&& 0x80 = 0) : Spells [byte] byte.toNat
  | more {byte : UInt8} {rest : List UInt8} {value : ℕ} (h : byte &&& 0x80 ≠ 0)
      (hrest : Spells rest value) : Spells (byte :: rest) ((byte &&& 0x7f).toNat + 128 * value)

variable {bytes : List UInt8} {value shift number size : ℕ}

theorem Spells.length_pos (h : Spells bytes value) : 0 < bytes.length := by
  cases h with
  | last h => exact Nat.zero_lt_one
  | more h hrest => exact Nat.succ_pos _

/-- The value of a byte, and what the two tests see of it. -/
theorem byte_cases (byte : UInt8) : (byte &&& 0x7f).toNat < 128 ∧
    (byte &&& 0x80 = 0 → (byte &&& 0x7f).toNat = byte.toNat ∧ (byte &&& 0xfe = 0 ↔ byte.toNat < 2)) ∧
      (byte &&& 0x80 ≠ 0 → byte &&& 0xfe ≠ 0) := by
  have hbyte : ∀ number < 256, (UInt8.ofNat number &&& 0x7f).toNat < 128 ∧
      (UInt8.ofNat number &&& 0x80 = 0 → (UInt8.ofNat number &&& 0x7f).toNat = (UInt8.ofNat number).toNat ∧
        (UInt8.ofNat number &&& 0xfe = 0 ↔ (UInt8.ofNat number).toNat < 2)) ∧
      (UInt8.ofNat number &&& 0x80 ≠ 0 → UInt8.ofNat number &&& 0xfe ≠ 0) := by decide +kernel
  have hthis := hbyte byte.toNat byte.toNat_lt
  rwa [UInt8.ofNat_toNat] at hthis

/-- The bits of a byte stand above the bits read so far. -/
theorem addByte_eq (h : value < 2 ^ shift) (byte : UInt8) :
    Varint.addByte value shift byte = value + (byte &&& 0x7f).toNat * 2 ^ shift := by
  rw [Varint.addByte, Nat.or_comm, ← Nat.shiftLeft_add_eq_or_of_lt h, Nat.shiftLeft_eq, Nat.add_comm]

theorem addByte_lt (h : value < 2 ^ shift) (byte : UInt8) :
    Varint.addByte value shift byte < 2 ^ (shift + 7) := by
  have hlow := (byte_cases byte).1
  rw [addByte_eq h, Nat.pow_add]
  calc value + (byte &&& 0x7f).toNat * 2 ^ shift
      < 2 ^ shift + (byte &&& 0x7f).toNat * 2 ^ shift := Nat.add_lt_add_right h _
    _ = ((byte &&& 0x7f).toNat + 1) * 2 ^ shift := by rw [Nat.succ_mul, Nat.add_comm]
    _ ≤ 2 ^ 7 * 2 ^ shift := Nat.mul_le_mul_right _ hlow
    _ = 2 ^ shift * 2 ^ 7 := Nat.mul_comm _ _

/-- A spelling is read as its number if both fit, and overflows if not. -/
theorem decodeFrom_spells {bytes : List UInt8} {number : ℕ} (h : Spells bytes number) {groups value : ℕ}
    (hgroups : groups ≤ 9) (hvalue : value < 2 ^ (7 * groups)) (rest : List UInt8) :
    decodeFrom value (7 * groups) (bytes ++ rest) =
      if number < 2 ^ (64 - 7 * groups) ∧ bytes.length + groups ≤ 10 then
        .ok (value + number * 2 ^ (7 * groups), bytes.length)
      else .error .overflow := by
  induction h generalizing groups value with
  | @last byte hbit =>
    obtain ⟨hlow, hlast, -⟩ := byte_cases byte
    obtain ⟨hsame, htop⟩ := hlast hbit
    rw [List.singleton_append, decodeFrom, if_pos hbit, addByte_eq hvalue, hsame]
    by_cases hnine : groups = 9
    · subst hnine
      rw [if_congr (and_iff_right rfl) rfl rfl]
      by_cases hfits : byte.toNat < 2
      · rw [if_neg (not_not.mpr (htop.mpr hfits))]
        exact (if_pos ⟨hfits, le_rfl⟩).symm
      · rw [if_pos fun hzero => hfits (htop.mp hzero)]
        exact (if_neg fun hboth => hfits hboth.1).symm
    · have hbig : byte.toNat < 2 ^ (64 - 7 * groups) := by
        calc byte.toNat < 2 ^ 7 := by rwa [← hsame]
          _ ≤ 2 ^ (64 - 7 * groups) := Nat.pow_le_pow_right (by decide) (by omega)
      have hshort : [byte].length + groups ≤ 10 := by
        rw [List.length_singleton]
        omega
      rw [if_neg fun hboth => hnine (by omega)]
      exact (if_pos ⟨hbig, hshort⟩).symm
  | @more byte bytes number hbit hrest ih =>
    obtain ⟨hlow, -, hmore⟩ := byte_cases byte
    have hpos := hrest.length_pos
    rw [List.cons_append, decodeFrom, if_neg hbit]
    by_cases hnine : groups = 9
    · subst hnine
      rw [if_pos ⟨rfl, hmore hbit⟩]
      refine (if_neg fun hboth => ?_).symm
      have hlength := hboth.2
      rw [List.length_cons] at hlength
      omega
    · have hnext : 7 * groups + 7 = 7 * (groups + 1) := by omega
      have hadded : Varint.addByte value (7 * groups) byte < 2 ^ (7 * (groups + 1)) := by
        rw [← hnext]
        exact addByte_lt hvalue byte
      have hinner := ih (show groups + 1 ≤ 9 by omega) hadded
      rw [if_neg fun hboth => hnine (by omega), if_neg (by omega), hnext, hinner]
      have hsplit : 64 - 7 * groups = 7 + (64 - 7 * (groups + 1)) := by omega
      have hfits : number < 2 ^ (64 - 7 * (groups + 1)) ∧ bytes.length + (groups + 1) ≤ 10 ↔
          (byte &&& 0x7f).toNat + 128 * number < 2 ^ (64 - 7 * groups) ∧
            (byte :: bytes).length + groups ≤ 10 := by
        rw [hsplit, Nat.pow_add, List.length_cons]
        constructor
        · rintro ⟨hnumber, hlength⟩
          exact ⟨by omega, by omega⟩
        · rintro ⟨hnumber, hlength⟩
          exact ⟨by omega, by omega⟩
      by_cases hboth : number < 2 ^ (64 - 7 * (groups + 1)) ∧ bytes.length + (groups + 1) ≤ 10
      · rw [if_pos hboth, if_pos (hfits.mp hboth), addByte_eq hvalue]
        have hsum : value + (byte &&& 0x7f).toNat * 2 ^ (7 * groups) + number * 2 ^ (7 * (groups + 1)) =
            value + ((byte &&& 0x7f).toNat + 128 * number) * 2 ^ (7 * groups) := by
          rw [← hnext, Nat.pow_add, Nat.add_mul, Nat.add_assoc, Nat.mul_comm 128, Nat.mul_assoc,
            Nat.mul_comm 128]
        rw [hsum]
        rfl
      · rw [if_neg hboth, if_neg fun hno => hboth (hfits.mpr hno)]
        rfl

/-- What is read is spelled by the bytes it takes. -/
theorem spells_of_decodeFrom (h : decodeFrom value shift bytes = .ok (number, size)) :
    size ≤ bytes.length ∧ ∃ spelled, Spells (bytes.take size) spelled := by
  induction bytes generalizing value shift number size with
  | nil => cases h
  | cons byte rest ih =>
    rw [decodeFrom] at h
    obtain ⟨_, h⟩ := NestedLoop.else_of_ok h
    split at h
    case isTrue hlast =>
      cases h
      exact ⟨Nat.succ_le_succ (Nat.zero_le _), _, .last hlast⟩
    case isFalse hmore =>
      obtain ⟨-, h⟩ := NestedLoop.else_of_ok h
      obtain ⟨⟨inner, count⟩, hinner, hpair⟩ := NestedLoop.exists_of_map_ok h
      cases hpair
      obtain ⟨hsize, spelled, hspelled⟩ := ih hinner
      exact ⟨Nat.succ_le_succ hsize, _, .more hmore hspelled⟩

/-- A spelling is accepted exactly if it has at most ten bytes and its number is below `2 ^ 64`. -/
theorem decode_spells (h : Spells bytes number) (rest : List UInt8) :
    decode (bytes ++ rest) =
      if number < 2 ^ 64 ∧ bytes.length ≤ 10 then .ok (number, bytes.length) else .error .overflow := by
  have hread := @decodeFrom_spells bytes number h 0 0 (Nat.zero_le _) Nat.zero_lt_one rest
  rw [Nat.pow_zero, Nat.mul_one, Nat.zero_add] at hread
  exact hread

theorem decode_ok (h : decode bytes = .ok (number, size)) :
    size ≤ bytes.length ∧ size ≤ 10 ∧ number < 2 ^ 64 ∧ Spells (bytes.take size) number := by
  obtain ⟨hsize, spelled, hspelled⟩ := spells_of_decodeFrom h
  have hread := decode_spells hspelled (bytes.drop size)
  rw [List.take_append_drop, h] at hread
  split at hread
  case isTrue hfits =>
    obtain ⟨rfl, hlength⟩ := Prod.mk.inj (Except.ok.inj hread)
    rw [hlength]
    refine ⟨?_, hfits.2, hfits.1, ?_⟩
    · rw [← hlength]
      exact hsize
    · rw [← hlength]
      exact hspelled
  case isFalse => cases hread

end Varint64
