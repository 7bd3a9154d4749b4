import Mathlib.Data.List.GetD
import WaterStructure.Library.NestedLoop
import WaterStructure.Library.StatefulRun
import WaterStructure.Library.Varint64

/-!
# The payload of a TIBI file

The decoded file lies in a temporary file, and its payload is read through a window: bytes come from a
buffer that is filled from the file, and the strings of the tables are passed over, in the buffer or by a
seek. The places of the strings are kept, not their bytes. Whatever the window does, the operations give
what they give on the payload as one array.
-/

namespace WaterStructure

namespace Tibi

def kAbsoluteMaxDecodedBytes : ℕ := 2 * 1024 * 1024 * 1024

def kInflateWindowBytes : ℕ := 64 * 1024

structure PayloadSlice where
  absoluteOffset : UInt32
  length : UInt32
  deriving DecidableEq, Repr

/-- The temporary file, and where the payload is in it. -/
structure PayloadFile where
  bytes : List UInt8
  baseOffset : ℕ
  payloadSize : ℕ

/-- `position` is where the file is read next, and `buffer` the filled part of the buffer. -/
structure PayloadReader where
  position : ℕ
  offset : ℕ := 0
  buffer : List UInt8 := []
  bufferPosition : ℕ := 0

/-- An operation on the payload, with the context for its errors. -/
inductive Operation where
  | varint (context : String)
  | string (context : String)

inductive Value where
  | number (value : ℕ)
  | slice (value : PayloadSlice)
  deriving DecidableEq

def truncatedVarint (context : String) (start : ℕ) : String :=
  context ++ " has truncated varint at payload offset " ++ toString start

def varintOverflows (context : String) (start : ℕ) : String :=
  context ++ " varint overflows at payload offset " ++ toString start

def truncatedString (context : String) (offset : ℕ) : String :=
  context ++ " is truncated at payload offset " ++ toString offset

def sliceAt (baseOffset offset length : ℕ) : PayloadSlice where
  absoluteOffset := UInt32.ofNat (baseOffset + offset)
  length := UInt32.ofNat length

namespace PayloadReader

variable (file : PayloadFile)

/-- The constructor, for a file that can be opened. -/
def new : PayloadReader := { position := file.baseOffset }

def refill (reader : PayloadReader) : Except String PayloadReader :=
  let remaining := file.payloadSize - reader.offset
  let requested := min remaining kInflateWindowBytes
  let bytes := (file.bytes.drop reader.position).take requested
  if bytes.length ≠ requested then
    .error ("TIBI temporary spool is truncated at payload offset " ++ toString reader.offset)
  else .ok { reader with position := reader.position + requested, buffer := bytes, bufferPosition := 0 }

/-- Refill an empty buffer. -/
def fill (reader : PayloadReader) : Except String PayloadReader :=
  if reader.bufferPosition = reader.buffer.length then refill file reader else .ok reader

def readByte (reader : PayloadReader) : Except String (UInt8 × PayloadReader) := do
  let reader ← fill file reader
  return (reader.buffer.getD reader.bufferPosition 0,
    { reader with bufferPosition := reader.bufferPosition + 1, offset := reader.offset + 1 })

/-- The loop of `varint`, which takes ten rounds at most. -/
def varintLoop (context : String) (start : ℕ) :
    ℕ → ℕ → ℕ → PayloadReader → Except String (ℕ × PayloadReader)
  | 0, _, _, _ => .error (varintOverflows context start)
  | rounds + 1, result, shift, reader =>
    if reader.offset ≥ file.payloadSize then .error (truncatedVarint context start)
    else do
      let (byte, reader) ← readByte file reader
      if shift = 63 ∧ byte &&& 0xfe ≠ 0 then .error (varintOverflows context start)
      else if byte &&& 0x80 = 0 then .ok (Varint.addByte result shift byte, reader)
      else if shift + 7 > 63 then .error (varintOverflows context start)
      else varintLoop context start rounds (Varint.addByte result shift byte) (shift + 7) reader

def varint (context : String) (reader : PayloadReader) : Except String (ℕ × PayloadReader) :=
  varintLoop file context reader.offset 10 0 0 reader

/-- Pass over bytes in the buffer, or seek behind them. -/
def skip (length : ℕ) (reader : PayloadReader) : PayloadReader :=
  if length ≤ reader.buffer.length - reader.bufferPosition then
    { reader with bufferPosition := reader.bufferPosition + length, offset := reader.offset + length }
  else
    { position := file.baseOffset + (reader.offset + length)
      offset := reader.offset + length
      buffer := []
      bufferPosition := 0 }

def string (context : String) (reader : PayloadReader) : Except String (PayloadSlice × PayloadReader) := do
  let (length, reader) ← varint file (context ++ " length") reader
  if length > file.payloadSize - reader.offset then .error (truncatedString context reader.offset)
  else .ok (sliceAt file.baseOffset reader.offset length, skip file length reader)

def perform (reader : PayloadReader) : Operation → Except String (Value × PayloadReader)
  | .varint context => (varint file context reader).map fun found => (.number found.1, found.2)
  | .string context => (string file context reader).map fun found => (.slice found.1, found.2)

/-- What the operations give, and the error of the first one that fails. -/
def run : List Operation → PayloadReader → List Value × Option String
  | [], _ => ([], none)
  | operation :: rest, reader =>
    match perform file reader operation with
    | .error error => ([], some error)
    | .ok (value, reader) =>
      let (values, error) := run rest reader
      (value :: values, error)

end PayloadReader

/-! ## The payload as one array -/

namespace PayloadArray

variable (baseOffset : ℕ) (payload : List UInt8)

/-- The number that was read, with the offset behind it. -/
def found (context : String) (start offset : ℕ) : Except Varint64.Fault (ℕ × ℕ) → Except String (ℕ × ℕ)
  | .ok code => .ok (code.1, offset + code.2)
  | .error .truncated => .error (truncatedVarint context start)
  | .error .overflow => .error (varintOverflows context start)

theorem found_map (context : String) (start offset : ℕ) (result : Except Varint64.Fault (ℕ × ℕ)) :
    found context start offset (result.map fun code => (code.1, code.2 + 1)) =
      found context start (offset + 1) result := by
  cases result with
  | error fault => cases fault <;> rfl
  | ok code => exact congrArg (fun behind => Except.ok (code.1, behind)) (by rw [Nat.add_assoc, Nat.add_comm 1])

def varint (context : String) (offset : ℕ) : Except String (ℕ × ℕ) :=
  found context offset offset (Varint64.decode (payload.drop offset))

def string (context : String) (offset : ℕ) : Except String (PayloadSlice × ℕ) := do
  let (length, offset) ← varint payload (context ++ " length") offset
  if length > payload.length - offset then .error (truncatedString context offset)
  else .ok (sliceAt baseOffset offset length, offset + length)

def perform (offset : ℕ) : Operation → Except String (Value × ℕ)
  | .varint context => (varint payload context offset).map fun found => (.number found.1, found.2)
  | .string context => (string baseOffset payload context offset).map fun found => (.slice found.1, found.2)

def run : List Operation → ℕ → List Value × Option String
  | [], _ => ([], none)
  | operation :: rest, offset =>
    match perform baseOffset payload offset operation with
    | .error error => ([], some error)
    | .ok (value, offset) =>
      let (values, error) := run rest offset
      (value :: values, error)

end PayloadArray

/-! ## The window -/

namespace PayloadReader

/-- A file with the payload somewhere in it. -/
def fileOf (header payload trailer : List UInt8) : PayloadFile where
  bytes := header ++ payload ++ trailer
  baseOffset := header.length
  payloadSize := payload.length

/-- The buffer is the part of the payload from the offset on, and the file is read next behind it. -/
structure Tracks (header payload : List UInt8) (reader : PayloadReader) (offset : ℕ) : Prop where
  offset_eq : reader.offset = offset
  buffered : reader.bufferPosition ≤ reader.buffer.length
  inside : offset + (reader.buffer.length - reader.bufferPosition) ≤ payload.length
  window : reader.buffer.drop reader.bufferPosition =
    (payload.drop offset).take (reader.buffer.length - reader.bufferPosition)
  position_eq : reader.position = header.length + offset + (reader.buffer.length - reader.bufferPosition)

variable {header payload trailer : List UInt8} {reader : PayloadReader} {offset : ℕ}

theorem new_tracks : Tracks header payload (new (fileOf header payload trailer)) 0 where
  offset_eq := rfl
  buffered := le_rfl
  inside := Nat.zero_le _
  window := rfl
  position_eq := rfl

theorem drop_bytes (h : offset ≤ payload.length) :
    (fileOf header payload trailer).bytes.drop (header.length + offset) = payload.drop offset ++ trailer := by
  rw [fileOf, List.append_assoc, ← List.drop_drop, List.drop_append_length, List.drop_append_of_le_length h]

/-- A refill fetches the next part of the payload, and it is there. -/
theorem refill_tracks (h : Tracks header payload reader offset)
    (hempty : reader.bufferPosition = reader.buffer.length) :
    ∃ next, refill (fileOf header payload trailer) reader = .ok next ∧ Tracks header payload next offset ∧
      (offset < payload.length → next.bufferPosition < next.buffer.length) := by
  have hinside : offset ≤ payload.length := by
    have hinside := h.inside
    omega
  have hposition : reader.position = header.length + offset := by
    rw [h.position_eq, hempty, Nat.sub_self, Nat.add_zero]
  set requested := min (payload.length - offset) kInflateWindowBytes with hrequested
  have hread : ((fileOf header payload trailer).bytes.drop reader.position).take requested =
      (payload.drop offset).take requested := by
    rw [hposition, drop_bytes hinside, List.take_append_of_le_length]
    rw [List.length_drop]
    exact Nat.min_le_left _ _
  have hlength : ((payload.drop offset).take requested).length = requested := by
    rw [List.length_take, List.length_drop]
    omega
  refine ⟨{ reader with
    position := reader.position + requested
    buffer := (payload.drop offset).take requested
    bufferPosition := 0 }, ?_, ?_, ?_⟩
  · have hwanted : min ((fileOf header payload trailer).payloadSize - reader.offset) kInflateWindowBytes =
        requested := by
      rw [h.offset_eq]
      rfl
    rw [refill, hwanted, hread, hlength]
    exact if_neg (not_not.mpr rfl)
  · refine ⟨h.offset_eq, Nat.zero_le _, ?_, ?_, ?_⟩
    · dsimp only
      rw [hlength]
      omega
    · dsimp only
      rw [hlength, List.drop_zero, Nat.sub_zero]
    · dsimp only
      rw [hlength, hposition, Nat.sub_zero]
  · intro hmore
    dsimp only
    rw [hlength]
    have hwindow : kInflateWindowBytes = 65536 := rfl
    omega

theorem readByte_tracks (h : Tracks header payload reader offset) {byte : UInt8} {rest : List UInt8}
    (hbyte : payload.drop offset = byte :: rest) :
    ∃ next, readByte (fileOf header payload trailer) reader = .ok (byte, next) ∧
      Tracks header payload next (offset + 1) := by
  have hmore : offset < payload.length := by
    have hlength := congrArg List.length hbyte
    rw [List.length_drop, List.length_cons] at hlength
    omega
  obtain ⟨filled, hfilled, htracks, hroom⟩ : ∃ filled,
      fill (fileOf header payload trailer) reader = .ok filled ∧ Tracks header payload filled offset ∧
        filled.bufferPosition < filled.buffer.length := by
    rw [fill]
    by_cases hempty : reader.bufferPosition = reader.buffer.length
    · obtain ⟨next, hnext, htracks, hroom⟩ := @refill_tracks _ _ trailer _ _ h hempty
      exact ⟨next, (if_pos hempty).trans hnext, htracks, hroom hmore⟩
    · exact ⟨reader, if_neg hempty, h, lt_of_le_of_ne h.buffered hempty⟩
  have hwindow := htracks.window
  have hinside := htracks.inside
  obtain ⟨left, hleft⟩ : ∃ left, filled.buffer.length - filled.bufferPosition = left + 1 :=
    ⟨filled.buffer.length - filled.bufferPosition - 1, by omega⟩
  rw [hbyte, hleft, List.take_succ_cons, List.drop_eq_getElem_cons hroom] at hwindow
  obtain ⟨hhead, htail⟩ := List.cons.inj hwindow
  refine ⟨{ filled with bufferPosition := filled.bufferPosition + 1, offset := filled.offset + 1 }, ?_, ?_⟩
  · rw [readByte, hfilled, NestedLoop.ok_bind, List.getD_eq_getElem _ _ hroom, hhead]
    rfl
  · have hafter : filled.buffer.length - (filled.bufferPosition + 1) = left := by omega
    refine ⟨?_, hroom, ?_, ?_, ?_⟩
    · exact congrArg (· + 1) htracks.offset_eq
    · dsimp only
      omega
    · dsimp only
      rw [htail, hafter, ← List.drop_drop, hbyte, List.drop_one, List.tail_cons]
    · dsimp only
      rw [htracks.position_eq]
      omega

theorem skip_tracks (h : Tracks header payload reader offset) {length : ℕ}
    (hinside : offset + length ≤ payload.length) :
    Tracks header payload (skip (fileOf header payload trailer) length reader) (offset + length) := by
  have hwindow := h.window
  have hoffset := h.offset_eq
  rw [skip]
  split_ifs with hbuffered
  · have hroom := h.buffered
    have hahead := h.inside
    refine ⟨?_, ?_, ?_, ?_, ?_⟩ <;> dsimp only
    · rw [hoffset]
    · omega
    · omega
    · rw [← List.drop_drop, hwindow, List.drop_take, List.drop_drop, Nat.sub_sub]
    · rw [h.position_eq]
      omega
  · refine ⟨?_, le_rfl, hinside, rfl, ?_⟩
    · exact congrArg (· + length) hoffset
    · rw [hoffset]
      rfl

open StatefulRun (Alike)

variable (header payload) in
/-- A result of the window beside one of the array: the same value, and the offset behind it. -/
def Matches {α : Type} (found : α × PayloadReader) (expected : α × ℕ) : Prop :=
  found.1 = expected.1 ∧ Tracks header payload found.2 expected.2

/-- The loop reads the number that stands at the offset. -/
theorem varintLoop_matches {context : String} {start rounds result shift : ℕ}
    (hrounds : shift + 7 * rounds = 70) (hshift : shift ≤ 63) (h : Tracks header payload reader offset) :
    Alike (Matches header payload)
      (varintLoop (fileOf header payload trailer) context start rounds result shift reader)
      (PayloadArray.found context start offset (Varint64.decodeFrom result shift (payload.drop offset))) := by
  induction rounds generalizing result shift reader offset with
  | zero => omega
  | succ rounds ih =>
    rw [varintLoop]
    cases hdrop : payload.drop offset with
    | nil =>
      have hend : payload.length ≤ offset := List.drop_eq_nil_iff.mp hdrop
      rw [if_pos (by rw [h.offset_eq]; exact hend)]
      exact .error _
    | cons byte rest =>
      have hmore : offset < payload.length := by
        have hlength := congrArg List.length hdrop
        rw [List.length_drop, List.length_cons] at hlength
        omega
      obtain ⟨next, hread, hnext⟩ := @readByte_tracks _ _ trailer _ _ h _ _ hdrop
      rw [if_neg (by rw [h.offset_eq]; exact Nat.not_le.mpr hmore), hread, NestedLoop.ok_bind]
      dsimp only
      rw [Varint64.decodeFrom]
      by_cases htenth : shift = 63 ∧ byte &&& 0xfe ≠ 0
      · rw [if_pos htenth, if_pos htenth]
        exact .error _
      · rw [if_neg htenth, if_neg htenth]
        by_cases hlast : byte &&& 0x80 = 0
        · rw [if_pos hlast, if_pos hlast]
          exact .ok ⟨rfl, hnext⟩
        · rw [if_neg hlast, if_neg hlast]
          by_cases hlong : shift + 7 > 63
          · rw [if_pos hlong, if_pos hlong]
            exact .error _
          · rw [if_neg hlong, if_neg hlong]
            have hrest : payload.drop (offset + 1) = rest := by
              rw [← List.drop_drop, hdrop, List.drop_one, List.tail_cons]
            rw [PayloadArray.found_map, ← hrest]
            exact ih (by omega) (by omega) hnext

theorem varint_matches (context : String) (h : Tracks header payload reader offset) :
    Alike (Matches header payload) (varint (fileOf header payload trailer) context reader)
      (PayloadArray.varint payload context offset) := by
  rw [varint, PayloadArray.varint, h.offset_eq]
  exact varintLoop_matches rfl (Nat.zero_le _) h

theorem string_matches (context : String) (h : Tracks header payload reader offset) :
    Alike (Matches header payload) (string (fileOf header payload trailer) context reader)
      (PayloadArray.string header.length payload context offset) := by
  refine Alike.bind (varint_matches _ h) fun found expected hmatch => ?_
  obtain ⟨hlength, htracks⟩ := hmatch
  obtain ⟨length, next⟩ := found
  obtain ⟨length', behind⟩ := expected
  cases hlength
  dsimp only at htracks ⊢
  have hbehind := htracks.offset_eq
  have hinside := htracks.inside
  rw [hbehind]
  by_cases hlong : length > payload.length - behind
  · rw [if_pos hlong]
    exact (if_pos hlong).symm ▸ .error _
  · rw [if_neg hlong]
    refine (if_neg hlong).symm ▸ .ok ⟨rfl, ?_⟩
    exact skip_tracks htracks (by omega)

theorem perform_matches (operation : Operation) (h : Tracks header payload reader offset) :
    Alike (Matches header payload) (perform (fileOf header payload trailer) reader operation)
      (PayloadArray.perform header.length payload offset operation) := by
  cases operation with
  | varint context =>
    exact (varint_matches context h).map fun found expected hmatch =>
      ⟨congrArg Value.number hmatch.1, hmatch.2⟩
  | string context =>
    exact (string_matches context h).map fun found expected hmatch =>
      ⟨congrArg Value.slice hmatch.1, hmatch.2⟩

/-- The window gives what the array gives, up to the first operation that fails. -/
theorem run_eq (operations : List Operation) (h : Tracks header payload reader offset) :
    run (fileOf header payload trailer) operations reader =
      PayloadArray.run header.length payload operations offset := by
  induction operations generalizing reader offset with
  | nil => rfl
  | cons operation rest ih =>
    have hmatch := @perform_matches _ _ trailer _ _ operation h
    rw [run, PayloadArray.run]
    cases hfound : perform (fileOf header payload trailer) reader operation with
    | error error =>
      rw [hfound] at hmatch
      cases hexpected : PayloadArray.perform header.length payload offset operation with
      | error error' =>
        rw [hexpected] at hmatch
        cases hmatch
        rfl
      | ok expected =>
        rw [hexpected] at hmatch
        cases hmatch
    | ok found =>
      rw [hfound] at hmatch
      cases hexpected : PayloadArray.perform header.length payload offset operation with
      | error error' =>
        rw [hexpected] at hmatch
        cases hmatch
      | ok expected =>
        rw [hexpected] at hmatch
        cases hmatch with
        | ok hboth =>
          obtain ⟨hvalue, htracks⟩ := hboth
          dsimp only
          rw [hvalue, ih htracks]

end PayloadReader

/-! ## Numbers and slices -/

namespace PayloadArray

variable {baseOffset : ℕ} {payload : List UInt8} {context : String} {offset number next : ℕ}
  {slice : PayloadSlice}

/-- A number that is read stands at the offset, in ten bytes at most. -/
theorem varint_ok (h : varint payload context offset = .ok (number, next)) :
    next - offset ≤ 10 ∧ next ≤ max offset payload.length ∧ number < 2 ^ 64 ∧
      Varint64.Spells ((payload.drop offset).take (next - offset)) number := by
  rw [varint] at h
  cases hcode : Varint64.decode (payload.drop offset) with
  | error fault =>
    rw [hcode] at h
    cases fault with
    | truncated => cases h
    | overflow => cases h
  | ok code =>
    rw [hcode] at h
    obtain ⟨value, size⟩ := code
    cases h
    obtain ⟨hsize, hten, hnumber, hspells⟩ := Varint64.decode_ok hcode
    rw [List.length_drop] at hsize
    rw [Nat.add_sub_cancel_left]
    exact ⟨hten, by omega, hnumber, hspells⟩

/-- A spelling in the payload is accepted exactly if it has at most ten bytes and a number of 64 bits. -/
theorem varint_spells {before bytes rest : List UInt8} (h : Varint64.Spells bytes number) (context : String) :
    varint (before ++ bytes ++ rest) context before.length =
      if number < 2 ^ 64 ∧ bytes.length ≤ 10 then .ok (number, before.length + bytes.length)
      else .error (varintOverflows context before.length) := by
  rw [varint, List.append_assoc, List.drop_append_length, Varint64.decode_spells h rest]
  split
  · rfl
  · rfl

/-- A string that is read lies in the payload behind its length. -/
theorem string_ok (h : string baseOffset payload context offset = .ok (slice, next))
    (hinside : offset ≤ payload.length) :
    ∃ start length, slice = sliceAt baseOffset start length ∧ next = start + length ∧
      next ≤ payload.length := by
  obtain ⟨⟨length, start⟩, hlength, hslice⟩ := NestedLoop.exists_of_bind_ok h
  dsimp only at hslice
  have hstart := (varint_ok hlength).2.1
  rw [Nat.max_eq_right hinside] at hstart
  obtain ⟨hfits, hslice⟩ := NestedLoop.else_of_ok hslice
  cases hslice
  exact ⟨start, length, rfl, rfl, by omega⟩

theorem slice_of_run {operations : List Operation} (hinside : offset ≤ payload.length)
    (h : Value.slice slice ∈ (run baseOffset payload operations offset).1) :
    ∃ start length, slice = sliceAt baseOffset start length ∧ start + length ≤ payload.length := by
  induction operations generalizing offset with
  | nil => cases h
  | cons operation rest ih =>
    rw [run] at h
    cases hresult : perform baseOffset payload offset operation with
    | error error =>
      rw [hresult] at h
      cases h
    | ok found =>
      rw [hresult] at h
      obtain ⟨value, next⟩ := found
      dsimp only at h
      cases operation with
      | varint context =>
        obtain ⟨⟨number, behind⟩, hnumber, hpair⟩ := NestedLoop.exists_of_map_ok hresult
        cases hpair
        rcases List.mem_cons.mp h with hhead | htail
        · cases hhead
        · refine ih ?_ htail
          have hbehind := (varint_ok hnumber).2.1
          rwa [Nat.max_eq_right hinside] at hbehind
      | string context =>
        obtain ⟨⟨first, behind⟩, hfirst, hpair⟩ := NestedLoop.exists_of_map_ok hresult
        cases hpair
        obtain ⟨start, length, hslice, hnext, hend⟩ := string_ok hfirst hinside
        rcases List.mem_cons.mp h with hhead | htail
        · cases hhead
          exact ⟨start, length, hslice, hnext ▸ hend⟩
        · exact ih hend htail

end PayloadArray

/-- Reading through the window is reading the array, a number is accepted exactly if it has 64 bits in at
most ten bytes, and the slices lie in the payload. -/
theorem payloadReader_eq_array (header payload trailer : List UInt8) (operations : List Operation) :
    PayloadReader.run (PayloadReader.fileOf header payload trailer) operations
      (PayloadReader.new (PayloadReader.fileOf header payload trailer)) =
        PayloadArray.run header.length payload operations 0 ∧
    (∀ before bytes rest number, payload = before ++ bytes ++ rest → Varint64.Spells bytes number →
      ∀ context, PayloadArray.varint payload context before.length =
        if number < 2 ^ 64 ∧ bytes.length ≤ 10 then .ok (number, before.length + bytes.length)
        else .error (varintOverflows context before.length)) ∧
    (∀ context offset number next, PayloadArray.varint payload context offset = .ok (number, next) →
      number < 2 ^ 64 ∧ next - offset ≤ 10 ∧
        Varint64.Spells ((payload.drop offset).take (next - offset)) number) ∧
    ∀ slice, Value.slice slice ∈ (PayloadArray.run header.length payload operations 0).1 →
      ∃ start length, slice = sliceAt header.length start length ∧ start + length ≤ payload.length ∧
        (header.length + payload.length ≤ kAbsoluteMaxDecodedBytes →
          slice.absoluteOffset.toNat = header.length + start ∧ slice.length.toNat = length) := by
  refine ⟨PayloadReader.run_eq operations PayloadReader.new_tracks, ?_, ?_, ?_⟩
  · intro before bytes rest number hpayload hspells context
    rw [hpayload]
    exact PayloadArray.varint_spells hspells context
  · intro context offset number next h
    obtain ⟨hten, -, hnumber, hspells⟩ := PayloadArray.varint_ok h
    exact ⟨hnumber, hten, hspells⟩
  · intro slice h
    obtain ⟨start, length, rfl, hinside⟩ := PayloadArray.slice_of_run (Nat.zero_le _) h
    refine ⟨start, length, rfl, hinside, fun hlimit => ?_⟩
    have hbound : kAbsoluteMaxDecodedBytes = 2147483648 := rfl
    have hsize : UInt32.size = 4294967296 := rfl
    rw [hbound] at hlimit
    exact ⟨UInt32.toNat_ofNat_of_lt (by omega), UInt32.toNat_ofNat_of_lt (by omega)⟩

/-- Behind `2 ^ 32` bytes the offset of a slice wraps. -/
theorem payloadReader_wraps : ∃ header : List UInt8, header.length = 4294967296 ∧
    PayloadReader.run (PayloadReader.fileOf header [1, 65] []) [.string "entry"]
      (PayloadReader.new (PayloadReader.fileOf header [1, 65] [])) =
        ([.slice { absoluteOffset := 1, length := 1 }], none) := by
  refine ⟨List.replicate 4294967296 0, List.length_replicate, ?_⟩
  rw [PayloadReader.run_eq _ PayloadReader.new_tracks, List.length_replicate]
  rfl

end Tibi

end WaterStructure
