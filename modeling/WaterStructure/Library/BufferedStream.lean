import Mathlib.Data.List.Basic

/-!
# Reading a stream through a buffer

A source hands out the bytes of a stream piece by piece. A reader keeps the unread part of the last piece
and asks for another one only when it needs a byte and has none. Whatever a reader does through `get`
depends on the stream alone, not on where its pieces end.
-/

namespace BufferedStream

variable {State : Type*}

/-- Where the pieces come from, with the bytes that are still to come. A piece is never empty. -/
structure Source (State : Type*) where
  refill : State → Option (List UInt8 × State)
  pending : State → List UInt8
  refill_some : ∀ {state rest : State} {piece : List UInt8},
    refill state = some (piece, rest) → piece ≠ [] ∧ pending state = piece ++ pending rest
  refill_none : ∀ {state : State}, refill state = none → pending state = []

/-- The unread part of the last piece, and the source of the next ones. -/
structure Reader (State : Type*) where
  buffer : List UInt8
  source : State

namespace Source

variable (source : Source State)

/-- The bytes that the reader has not handed out. -/
def stream (reader : Reader State) : List UInt8 := reader.buffer ++ source.pending reader.source

/-- Have a byte in the buffer. -/
def fill (reader : Reader State) : Option (Reader State) :=
  if reader.buffer = [] then
    (source.refill reader.source).map fun next => { buffer := next.1, source := next.2 }
  else some reader

/-- Hand out one byte. -/
def get (reader : Reader State) : Option (UInt8 × Reader State) :=
  match source.fill reader with
  | none => none
  | some reader =>
    match reader.buffer with
    | [] => none
    | byte :: rest => some (byte, { reader with buffer := rest })

variable {source} {reader filled : Reader State}

/-- Filling adds nothing to the stream. -/
theorem fill_spec (h : source.fill reader = some filled) :
    filled.buffer ≠ [] ∧ source.stream filled = source.stream reader := by
  rw [fill] at h
  split at h
  case isTrue hempty =>
    obtain ⟨⟨piece, rest⟩, hrefill, rfl⟩ := Option.map_eq_some_iff.mp h
    obtain ⟨hne, hpending⟩ := source.refill_some hrefill
    refine ⟨hne, ?_⟩
    rw [stream, stream, hempty, hpending, List.nil_append]
  case isFalse hne =>
    cases h
    exact ⟨hne, rfl⟩

theorem fill_none (h : source.fill reader = none) : source.stream reader = [] := by
  rw [fill] at h
  split at h
  case isTrue hempty =>
    rw [stream, hempty, source.refill_none (Option.map_eq_none_iff.mp h), List.nil_append]
  case isFalse => cases h

theorem fill_of_ne (h : reader.buffer ≠ []) : source.fill reader = some reader := if_neg h

theorem get_of_buffer {byte : UInt8} {rest : List UInt8} (h : reader.buffer = byte :: rest) :
    source.get reader = some (byte, { reader with buffer := rest }) := by
  rw [get, fill_of_ne (by rw [h]; exact List.cons_ne_nil _ _)]
  dsimp only
  rw [h]

/-- A reader may be filled ahead of reading. -/
theorem get_of_fill (h : source.fill reader = some filled) : source.get filled = source.get reader := by
  rw [get, get, h, fill_of_ne (fill_spec h).1]

/-- Reading a byte takes it off the stream. -/
theorem get_some {byte : UInt8} {next : Reader State} (h : source.get reader = some (byte, next)) :
    source.stream reader = byte :: source.stream next := by
  rw [get] at h
  split at h
  case h_1 => cases h
  case h_2 filled hfill =>
    split at h
    case h_1 => cases h
    case h_2 byte rest hbuffer =>
      cases h
      rw [← (fill_spec hfill).2, stream, hbuffer, stream, List.cons_append]

/-- Nothing is read at the end of the stream only. -/
theorem get_none (h : source.get reader = none) : source.stream reader = [] := by
  rw [get] at h
  split at h
  case h_1 hfill => exact fill_none hfill
  case h_2 filled hfill =>
    split at h
    case h_1 hempty => exact absurd hempty (fill_spec hfill).1
    case h_2 => cases h

/-- The next byte of the stream is read. -/
theorem get_of_stream {byte : UInt8} {rest : List UInt8} (h : source.stream reader = byte :: rest) :
    ∃ next, source.get reader = some (byte, next) ∧ source.stream next = rest := by
  cases hget : source.get reader with
  | none =>
    rw [get_none hget] at h
    cases h
  | some found =>
    rw [get_some hget] at h
    obtain ⟨rfl, rfl⟩ := List.cons.inj h
    exact ⟨found.2, rfl, rfl⟩

theorem get_of_end (h : source.stream reader = []) : source.get reader = none := by
  cases hget : source.get reader with
  | none => rfl
  | some found =>
    rw [get_some hget] at h
    cases h

end Source

/-- A source that holds its pieces. -/
def pieces : Source (List { piece : List UInt8 // piece ≠ [] }) where
  refill
    | [] => none
    | piece :: rest => some (piece.1, rest)
  pending state := state.flatMap Subtype.val
  refill_some {state _ _} h := by
    cases state with
    | nil => cases h
    | cons piece rest =>
      cases h
      exact ⟨piece.2, List.flatMap_cons⟩
  refill_none {state} h := by
    cases state with
    | nil => rfl
    | cons piece rest => cases h

end BufferedStream
