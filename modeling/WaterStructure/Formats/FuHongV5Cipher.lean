import Mathlib.Data.Int.Bitwise
import WaterStructure.Library.BufferedStream
import WaterStructure.Library.NestedLoop
import WaterStructure.Library.Utf8

/-!
# The cipher of FuHong V5

The writer combines every rune of its text with a byte of the key and shifts it by its index modulo
three. The reader undoes this block by block: it takes the encrypted bytes from a stream as they are
delivered, keeps a block of plain bytes, and fills the next one when that is used up. A block ends
where a rune of four bytes might no longer fit. Both refuse runes that leave the range of characters.
-/

namespace WaterStructure

namespace FuHong

open BufferedStream NestedLoop Utf8

/-- `FuHongBuild`, the key of the writer and of the reader. -/
def kFuHongV5Key : List UInt8 :=
  [0x46, 0x75, 0x48, 0x6f, 0x6e, 0x67, 0x42, 0x75, 0x69, 0x6c, 0x64]

def kStreamChunk : ℕ := 64 * 1024

/-- The byte of the key for a rune. -/
def keyAt (runeIndex : ℕ) : ℕ := (kFuHongV5Key[runeIndex % kFuHongV5Key.length]?.getD 0).toNat

/-! ## The writer -/

/-- Take up a continuation byte of the text. -/
def continueRune (value : ℕ) (next : UInt8) : Except String ℕ :=
  if ¬ Continues next then .error "FuHongV5 输入包含无效 UTF-8" else .ok (extend value next)

/-- `decode_utf8`: the rune at an offset, with its number of bytes. -/
def decodeUtf8 (data : List UInt8) (offset : ℕ) : Except String (ℕ × ℕ) :=
  match data[offset]? with
  | none => .error "out of range"
  | some first =>
    match lead first with
    | none => .error "FuHongV5 输入包含无效 UTF-8"
    | some (length, bits) =>
      if length > data.length - offset then .error "FuHongV5 输入 UTF-8 截断"
      else
        (((data.drop (offset + 1)).take (length - 1)).foldlM continueRune bits).map
          fun value => (value, length)

def encryptRune (runeIndex value : ℕ) : Except String ℕ :=
  let encrypted := (value ^^^ keyAt runeIndex) + runeIndex % 3
  if encrypted > 0x10ffff ∨ (0xd800 ≤ encrypted ∧ encrypted ≤ 0xdfff) then
    .error "FuHongV5 加密 rune 越界"
  else .ok encrypted

/-- The loop of `encode_v5`; it turns at most once for each byte. -/
def encodeFrom (plain : List UInt8) : ℕ → ℕ → ℕ → List UInt8 → Except String (List UInt8)
  | 0, _, _, output => .ok output
  | fuel + 1, offset, runeIndex, output =>
    if offset < plain.length then do
      let (value, length) ← decodeUtf8 plain offset
      let encrypted ← encryptRune runeIndex value
      encodeFrom plain fuel (offset + length) (runeIndex + 1) (output ++ encode encrypted)
    else .ok output

/-- `encode_v5`. -/
def encodeV5 (plain : List UInt8) : Except String (List UInt8) :=
  encodeFrom plain plain.length 0 0 []

/-! ## The reader -/

/-- The variables of `FuHongV5DecryptBuffer`, without its block of plain bytes. -/
structure Decrypting (State : Type) where
  encrypted : Reader State
  encryptedOffset : ℕ := 0
  runeIndex : ℕ := 0
  finished : Bool := false

def decryptRune (runeIndex value : ℕ) : Except String ℕ :=
  let shifted : ℤ := (value : ℤ) - (runeIndex % 3 : ℕ)
  let plain := Int.xor shifted (keyAt runeIndex)
  if plain < 0 ∨ plain > 0x10ffff ∨ (0xd800 ≤ plain ∧ plain ≤ 0xdfff) then
    .error ("FuHongV5 invalid decrypted rune at rune index " ++ toString runeIndex)
  else .ok plain.toNat

section Reader

variable {State : Type} (source : Source State)

/-- `read_byte`. -/
def readByte (s : Decrypting State) : Option (UInt8 × Decrypting State) :=
  (source.get s.encrypted).map fun next =>
    (next.1, { s with encrypted := next.2, encryptedOffset := s.encryptedOffset + 1 })

/-- The continuation bytes of a rune. -/
def readContinuation (runeOffset : ℕ) :
    ℕ → ℕ → Decrypting State → Except String (ℕ × Decrypting State)
  | 0, value, s => .ok (value, s)
  | count + 1, value, s =>
    match readByte source s with
    | none => .error ("FuHongV5 UTF-8 truncated at decoded offset " ++ toString runeOffset)
    | some (next, s) =>
      if ¬ Continues next then
        .error ("FuHongV5 invalid UTF-8 at decoded offset " ++ toString runeOffset)
      else readContinuation runeOffset count (extend value next) s

/-- The plain rune that starts with the byte just read. -/
def readRune (first : UInt8) (s : Decrypting State) : Except String (ℕ × Decrypting State) :=
  let runeOffset := s.encryptedOffset - 1
  match lead first with
  | none => .error ("FuHongV5 invalid UTF-8 at decoded offset " ++ toString runeOffset)
  | some (length, bits) => do
    let (value, s) ← readContinuation source runeOffset (length - 1) bits s
    if value < minimum length ∨ (value > 0x10ffff ∨ (0xd800 ≤ value ∧ value ≤ 0xdfff)) then
      .error ("FuHongV5 invalid UTF-8 rune at decoded offset " ++ toString runeOffset)
    else do
      let plain ← decryptRune s.runeIndex value
      return (plain, { s with runeIndex := s.runeIndex + 1 })

/-- The loop of `underflow` for a block of the given size. -/
def fillPlain (size : ℕ) :
    ℕ → List UInt8 → Decrypting State → Except String (List UInt8 × Decrypting State)
  | 0, produced, s => .ok (produced, s)
  | fuel + 1, produced, s =>
    if produced.length + 4 ≤ size then
      match readByte source s with
      | none =>
        if s.runeIndex = 0 then .error "FuHongV5 payload is empty"
        else .ok (produced, { s with finished := true })
      | some (first, s) => do
        let (plain, s) ← readRune source first s
        fillPlain size fuel (produced ++ encode plain) s
    else .ok (produced, s)

/-- `underflow`: the next block, empty at the end. Every turn of its loop makes the block longer. -/
def underflow (s : Decrypting State) : Except String (List UInt8 × Decrypting State) :=
  if s.finished then .ok ([], s) else fillPlain source kStreamChunk kStreamChunk [] s

/-- The buffer with the unread part of its block. -/
structure PlainReader (State : Type) where
  unread : List UInt8
  decrypting : Decrypting State

/-- Take one plain byte; nothing at the end. -/
def sbumpc (r : PlainReader State) : Except String (Option UInt8 × PlainReader State) :=
  match r.unread with
  | byte :: rest => .ok (some byte, { r with unread := rest })
  | [] =>
    match underflow source r.decrypting with
    | .error error => .error error
    | .ok ([], s) => .ok (none, ⟨[], s⟩)
    | .ok (byte :: rest, s) => .ok (some byte, ⟨rest, s⟩)

/-- Take so many bytes, or those up to the end. -/
def sgetn : ℕ → PlainReader State → Except String (List UInt8 × PlainReader State)
  | 0, r => .ok ([], r)
  | count + 1, r =>
    match sbumpc source r with
    | .error error => .error error
    | .ok (none, r) => .ok ([], r)
    | .ok (some byte, r) => (sgetn count r).map fun next => (byte :: next.1, next.2)

/-- What a consumer gets that asks for so many bytes one time after the other. -/
def consume : List ℕ → PlainReader State → Except String (List (List UInt8) × PlainReader State)
  | [], r => .ok ([], r)
  | count :: rest, r =>
    match sgetn source count r with
    | .error error => .error error
    | .ok (bytes, r) => (consume rest r).map fun next => (bytes :: next.1, next.2)

/-- The buffer before the first byte. -/
def openBuffer (start : State) : PlainReader State := ⟨[], { encrypted := ⟨[], start⟩ }⟩

end Reader

/-! ## One rune -/

theorem xor_cancel (value key : ℕ) : (value ^^^ key) ^^^ key = value := by
  rw [Nat.xor_assoc, Nat.xor_self, Nat.xor_zero]

variable {runeIndex value encrypted : ℕ}

theorem encryptRune_ok (h : encryptRune runeIndex value = .ok encrypted) :
    encrypted = (value ^^^ keyAt runeIndex) + runeIndex % 3 ∧ IsScalar encrypted := by
  rw [encryptRune] at h
  obtain ⟨hscalar, h⟩ := else_of_ok h
  cases h
  exact ⟨rfl, hscalar⟩

/-- Decrypting undoes the encryption of a rune. -/
theorem decryptRune_of_encrypt (hvalue : IsScalar value)
    (h : encryptRune runeIndex value = .ok encrypted) :
    decryptRune runeIndex encrypted = .ok value := by
  obtain ⟨rfl, -⟩ := encryptRune_ok h
  have hshifted : (((value ^^^ keyAt runeIndex) + runeIndex % 3 : ℕ) : ℤ) - (runeIndex % 3 : ℕ) =
      (value ^^^ keyAt runeIndex : ℕ) := by
    rw [Nat.cast_add, add_sub_cancel_right]
  have hxor : Int.xor (value ^^^ keyAt runeIndex : ℕ) (keyAt runeIndex) = value :=
    congrArg Int.ofNat (xor_cancel value (keyAt runeIndex))
  rw [IsScalar] at hvalue
  rw [decryptRune, hshifted, hxor, if_neg (by omega), Int.toNat_natCast]

/-- Encrypting undoes the decryption of a rune. -/
theorem encryptRune_of_decrypt (hencrypted : IsScalar encrypted)
    (h : decryptRune runeIndex encrypted = .ok value) :
    IsScalar value ∧ encryptRune runeIndex value = .ok encrypted := by
  rw [decryptRune] at h
  obtain ⟨hplain, h⟩ := else_of_ok h
  cases h
  obtain ⟨hnonneg, hscalar⟩ := not_or.mp hplain
  have hshift : runeIndex % 3 ≤ encrypted := by
    by_contra hlow
    obtain ⟨below, hbelow⟩ := Int.eq_negSucc_of_lt_zero
      (show (encrypted : ℤ) - (runeIndex % 3 : ℕ) < 0 by omega)
    rw [hbelow] at hnonneg
    exact hnonneg (Int.negSucc_lt_zero _)
  have hshifted : (encrypted : ℤ) - (runeIndex % 3 : ℕ) = (encrypted - runeIndex % 3 : ℕ) := by
    omega
  have hxor : Int.xor (encrypted - runeIndex % 3 : ℕ) (keyAt runeIndex) =
      ((encrypted - runeIndex % 3) ^^^ keyAt runeIndex : ℕ) := rfl
  rw [hshifted, hxor] at hscalar
  rw [hshifted, hxor, Int.toNat_natCast]
  refine ⟨?_, ?_⟩
  · rw [IsScalar]
    omega
  · rw [IsScalar] at hencrypted
    rw [encryptRune, xor_cancel, Nat.sub_add_cancel hshift, if_neg hencrypted]

/-- The bytes of a plain text, from a rune index on, belong to those of an encrypted one. -/
inductive Enciphers : ℕ → List UInt8 → List UInt8 → Prop where
  | nil (runeIndex : ℕ) : Enciphers runeIndex [] []
  | cons {runeIndex value encrypted : ℕ} {plain cipher : List UInt8} (hvalue : IsScalar value)
      (hencrypt : encryptRune runeIndex value = .ok encrypted)
      (hrest : Enciphers (runeIndex + 1) plain cipher) :
      Enciphers runeIndex (encode value ++ plain) (encode encrypted ++ cipher)

theorem lt_of_isScalar (h : IsScalar value) : value < 0x200000 := by
  rw [IsScalar] at h
  omega

theorem encode_ne_nil (h : IsScalar value) : encode value ≠ [] := by
  obtain ⟨first, tail, hencode, -⟩ := spells_encode (lt_of_isScalar h)
  rw [hencode]
  exact List.cons_ne_nil _ _

/-- The plain text is a text of characters. -/
theorem Enciphers.exists_text {plain cipher : List UInt8} (h : Enciphers runeIndex plain cipher) :
    ∃ text, plain = ofChars text := by
  induction h with
  | nil => exact ⟨[], rfl⟩
  | cons hvalue _ _ ih =>
    obtain ⟨c, rfl⟩ := exists_char hvalue
    obtain ⟨text, rfl⟩ := ih
    exact ⟨c :: text, by rw [encode_toNat]; rfl⟩

theorem Enciphers.inversion {text stream : List UInt8} (h : Enciphers runeIndex text stream) :
    text = [] ∧ stream = [] ∨
      ∃ value encrypted plain cipher, IsScalar value ∧ encryptRune runeIndex value = .ok encrypted ∧
        text = encode value ++ plain ∧ stream = encode encrypted ++ cipher ∧
        Enciphers (runeIndex + 1) plain cipher := by
  cases h with
  | nil => exact .inl ⟨rfl, rfl⟩
  | cons hvalue hencrypt hrest => exact .inr ⟨_, _, _, _, hvalue, hencrypt, rfl, rfl, hrest⟩

theorem Enciphers.eq_nil {plain : List UInt8} (h : Enciphers runeIndex plain []) : plain = [] := by
  rcases h.inversion with ⟨hplain, -⟩ | ⟨_, encrypted, _, _, _, hencrypt, _, hcipher, _⟩
  · exact hplain
  · have hempty := (List.append_eq_nil_iff.mp hcipher.symm).1
    exact absurd hempty (encode_ne_nil (encryptRune_ok hencrypt).2)

end FuHong

end WaterStructure
