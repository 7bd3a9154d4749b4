import Mathlib.Data.Int.Notation
import Mathlib.Data.List.Basic
import Mathlib.Data.Nat.Notation

/-!
# Reading bytes one after the other

A reader takes a value from the front of its input or fails. `Reads` says that it takes a value from
some bytes whatever follows them, which composes along the binds of a reader. Numbers have their high
bytes first; a signed number is read back from its two's complement.
-/

namespace ByteReader

variable {α β : Type}

abbrev Input : Type := List UInt8

def Reader (α : Type) : Type := Input → Except String (α × Input)

instance : Monad Reader where
  pure a := fun input => .ok (a, input)
  bind r next := fun input =>
    match r input with
    | .error error => .error error
    | .ok (a, rest) => next a rest

def fail (message : String) : Reader α := fun _ => .error message

def failIf (condition : Bool) (message : String) : Reader Unit := fun input =>
  if condition then .error message else .ok ((), input)

/-- A part that takes nothing. -/
def lift (result : Except String α) : Reader α := fun input => result.map fun a => (a, input)

def u8 (field : String) : Reader ℕ
  | [] => .error (field ++ " truncated")
  | byte :: rest => .ok (byte.toNat, rest)

def u16 (field : String) : Reader ℕ
  | first :: second :: rest => .ok (first.toNat * 256 + second.toNat, rest)
  | _ => .error (field ++ " truncated")

def u32 (field : String) : Reader ℕ
  | first :: second :: third :: fourth :: rest =>
    .ok (first.toNat * 16777216 + second.toNat * 65536 + third.toNat * 256 + fourth.toNat, rest)
  | _ => .error (field ++ " truncated")

def i8 (field : String) : Reader ℤ := do
  let value ← u8 field
  pure (Int.bmod value 256)

def i16 (field : String) : Reader ℤ := do
  let value ← u16 field
  pure (Int.bmod value 65536)

def i32 (field : String) : Reader ℤ := do
  let value ← u32 field
  pure (Int.bmod value 4294967296)

def skip (count : ℕ) (field : String) : Reader Unit := fun input =>
  if input.length < count then .error (field ++ " truncated") else .ok ((), input.drop count)

/-- The characters up to a null byte, `room` of them at most. -/
def charsUpTo (field message : String) : ℕ → Input → Except String (List Char × Input)
  | _, [] => .error (field ++ " truncated")
  | room, byte :: rest =>
    if byte = 0 then .ok ([], rest)
    else
      match room with
      | 0 => .error (field ++ message)
      | room + 1 =>
        (charsUpTo field message room rest).map fun result =>
          (Char.ofNat byte.toNat :: result.1, result.2)

def cstring (field : String) (maximum : ℕ) : Reader (List Char) :=
  charsUpTo field (" exceeds " ++ toString maximum ++ " bytes") maximum

def be16 (value : ℤ) : List UInt8 :=
  let value := (value % 65536).toNat
  [UInt8.ofNat (value / 256), UInt8.ofNat value]

def be32 (value : ℤ) : List UInt8 :=
  let value := (value % 4294967296).toNat
  [UInt8.ofNat (value / 16777216), UInt8.ofNat (value / 65536), UInt8.ofNat (value / 256),
    UInt8.ofNat value]

/-- The bytes of a text whose characters stand for bytes. -/
def textBytes (text : List Char) : List UInt8 := text.map fun c => UInt8.ofNat c.toNat

/-- The characters stand for bytes other than zero. -/
def NonzeroBytes (text : List Char) : Prop := ∀ c ∈ text, 0 < c.toNat ∧ c.toNat < 256

instance (text : List Char) : Decidable (NonzeroBytes text) :=
  List.decidableBAll (fun c : Char => 0 < c.toNat ∧ c.toNat < 256) text

/-- The reader takes the value from the bytes, whatever follows. -/
def Reads (r : Reader α) (bytes : Input) (a : α) : Prop := ∀ rest, r (bytes ++ rest) = .ok (a, rest)

theorem Reads.pure (a : α) : Reads (Pure.pure a : Reader α) [] a := fun _ => rfl

theorem bind_eq (r : Reader α) (next : α → Reader β) (input : Input) : (r >>= next) input =
    match r input with
    | .error error => .error error
    | .ok (a, rest) => next a rest := rfl

variable {r : Reader α} {a : α} {bytes : Input} {b : β} {value : ℤ} {text : List Char}

theorem bind_of_ok {input rest : Input} (h : r input = .ok (a, rest)) (next : α → Reader β) :
    (r >>= next) input = next a rest := by
  rw [bind_eq, h]

theorem Reads.bind {next : α → Reader β} {more : Input} (h : Reads r bytes a)
    (hnext : Reads (next a) more b) : Reads (r >>= next) (bytes ++ more) b := by
  intro rest
  rw [List.append_assoc, bind_of_ok (h _), hnext]

/-- After a check that does not fail. -/
theorem Reads.failIf {condition : Bool} {message : String} {next : Unit → Reader β} (h : condition = false)
    (hnext : Reads (next ()) bytes b) : Reads (ByteReader.failIf condition message >>= next) bytes b := by
  subst h
  exact hnext

/-- A value that is changed after it has been read. -/
theorem Reads.map {r : Reader α} {f : α → β} {bytes : Input} {a : α} (h : Reads r bytes a) :
    Reads (r >>= fun a => Pure.pure (f a)) bytes (f a) :=
  List.append_nil bytes ▸ h.bind (.pure (f a))

theorem reads_u8 (field : String) {value : ℕ} (h : value < 256) :
    Reads (u8 field) [UInt8.ofNat value] value := by
  intro rest
  change Except.ok ((UInt8.ofNat value).toNat, rest) = _
  rw [UInt8.toNat_ofNat', Nat.mod_eq_of_lt h]

theorem reads_u16 (field : String) {value : ℤ} : Reads (u16 field) (be16 value) (value % 65536).toNat := by
  intro rest
  change Except.ok ((UInt8.ofNat ((value % 65536).toNat / 256)).toNat * 256 +
    (UInt8.ofNat (value % 65536).toNat).toNat, rest) = _
  rw [UInt8.toNat_ofNat', UInt8.toNat_ofNat']
  congr 2
  omega

theorem reads_u32 (field : String) : Reads (u32 field) (be32 value) (value % 4294967296).toNat := by
  intro rest
  change Except.ok ((UInt8.ofNat ((value % 4294967296).toNat / 16777216)).toNat * 16777216 +
    (UInt8.ofNat ((value % 4294967296).toNat / 65536)).toNat * 65536 +
    (UInt8.ofNat ((value % 4294967296).toNat / 256)).toNat * 256 +
    (UInt8.ofNat (value % 4294967296).toNat).toNat, rest) = _
  rw [UInt8.toNat_ofNat', UInt8.toNat_ofNat', UInt8.toNat_ofNat', UInt8.toNat_ofNat']
  congr 2
  omega

/-- A signed number is read back from its two's complement. -/
theorem bmod_toNat_emod {size : ℕ} (hsize : 0 < size) (hlow : -(size : ℤ) ≤ value * 2)
    (hhigh : value * 2 < size) : Int.bmod ((value % size).toNat : ℕ) size = value := by
  have hpos : (0 : ℤ) < size := by omega
  rw [Int.toNat_of_nonneg (Int.emod_nonneg value (Int.ne_of_gt hpos)), Int.emod_bmod]
  exact Int.bmod_eq_of_le_mul_two hlow hhigh

theorem reads_signed {r : Reader ℕ} {bytes : Input} {value : ℤ} {size : ℕ}
    (h : Reads r bytes (value % size).toNat) (hsize : 0 < size) (hlow : -(size : ℤ) ≤ value * 2)
    (hhigh : value * 2 < size) : Reads (r >>= fun n => pure (Int.bmod n size)) bytes value := by
  have hread := h.map (f := fun n : ℕ => Int.bmod n size)
  rwa [bmod_toNat_emod hsize hlow hhigh] at hread

theorem reads_i8 (field : String) (hlow : -128 ≤ value) (hhigh : value ≤ 127) :
    Reads (i8 field) [UInt8.ofNat (value % 256).toNat] value :=
  @reads_signed _ _ value 256 (reads_u8 field (by omega)) (by decide) (by omega) (by omega)

theorem reads_i16 (field : String) (hlow : -32768 ≤ value) (hhigh : value ≤ 32767) :
    Reads (i16 field) (be16 value) value :=
  @reads_signed _ _ value 65536 (reads_u16 field) (by decide) (by omega) (by omega)

theorem reads_i32 (field : String) (hlow : -2147483648 ≤ value) (hhigh : value ≤ 2147483647) :
    Reads (i32 field) (be32 value) value :=
  @reads_signed _ _ value 4294967296 (reads_u32 field) (by decide) (by omega) (by omega)

theorem reads_charsUpTo (field message : String) (h : NonzeroBytes text) {room : ℕ}
    (hroom : text.length ≤ room) (rest : Input) :
    charsUpTo field message room (textBytes text ++ 0 :: rest) = .ok (text, rest) := by
  induction text generalizing room with
  | nil =>
    rw [textBytes, List.map_nil, List.nil_append]
    unfold charsUpTo
    exact if_pos rfl
  | cons c text ih =>
    obtain ⟨hpos, hlt⟩ := h c List.mem_cons_self
    have hbyte : (UInt8.ofNat c.toNat).toNat = c.toNat := by
      rw [UInt8.toNat_ofNat', Nat.mod_eq_of_lt hlt]
    have hne : UInt8.ofNat c.toNat ≠ 0 := by
      intro hzero
      rw [hzero] at hbyte
      exact Nat.ne_of_lt hpos hbyte
    cases room with
    | zero => exact absurd hroom (Nat.not_succ_le_zero _)
    | succ room =>
      have hrest := ih (fun c hc => h c (List.mem_cons_of_mem _ hc)) (Nat.le_of_succ_le_succ hroom)
      rw [textBytes, List.map_cons, List.cons_append, charsUpTo, if_neg hne]
      rw [textBytes] at hrest
      rw [hrest, hbyte, Char.ofNat_toNat]
      rfl

/-- A text without null bytes is read back. -/
theorem reads_cstring (field : String) (h : NonzeroBytes text) {maximum : ℕ}
    (hlength : text.length ≤ maximum) : Reads (cstring field maximum) (textBytes text ++ [0]) text := by
  intro rest
  rw [List.append_assoc, List.singleton_append]
  exact reads_charsUpTo field _ h hlength rest

end ByteReader
