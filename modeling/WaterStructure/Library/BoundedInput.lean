import Mathlib.Data.List.Infix
import Mathlib.Order.Lattice

/-!
# Decoding a stream up to a declared size

A decoder counts its own position beside that of the stream it reads, and refuses what would go past the
declared size before it touches the stream. `reach` is how far the stream has been read or sought, whether
or not the bytes were there. `Takes` says that a decoder takes a value from given bytes wherever they stand,
and `Confined` that it never reaches past the size; both are passed on by sequencing and by loops.
-/

namespace BoundedInput

variable {α β : Type}

/-- A stream over some bytes. -/
structure InStream where
  position : ℕ := 0
  good : Bool := true
  reach : ℕ := 0

/-- Read so many bytes, or as many as there are; the stream is bad after a short read. -/
def InStream.read (bytes : List UInt8) (count : ℕ) (stream : InStream) : List UInt8 × InStream :=
  if stream.good then
    let data := (bytes.drop stream.position).take count
    (data,
      { position := stream.position + data.length
        good := data.length = count
        reach := max stream.reach (stream.position + count) })
  else ([], stream)

/-- Seek forward; a stream may be sought past its end. -/
def InStream.seek (count : ℕ) (stream : InStream) : InStream :=
  if stream.good then
    { stream with position := stream.position + count, reach := max stream.reach (stream.position + count) }
  else stream

/-- The stream and the decoder's own position. -/
structure Cursor where
  input : InStream := {}
  position : ℕ := 0

def Decoder (α : Type) : Type := Cursor → Except String α × Cursor

instance : Monad Decoder where
  pure a := fun cursor => (.ok a, cursor)
  bind decoder next := fun cursor =>
    match decoder cursor with
    | (.error error, cursor) => (.error error, cursor)
    | (.ok a, cursor) => next a cursor

def fail (message : ℕ → String) : Decoder α := fun cursor => (.error (message cursor.position), cursor)

/-- A part that reads nothing. -/
def lift (result : Except String α) : Decoder α := fun cursor => (result, cursor)

section Decoders

variable (bytes : List UInt8) (size : ℕ)

/-- The next bytes; `overrun` is the error for those past the size, and `short` for those the stream has
not got. -/
def take (overrun short : ℕ → String) (count : ℕ) : Decoder (List UInt8) := fun cursor =>
  if cursor.position > size ∨ count > size - cursor.position then (.error (overrun cursor.position), cursor)
  else
    let (data, input) := cursor.input.read bytes count
    if data.length ≠ count then (.error (short cursor.position), { cursor with input := input })
    else (.ok data, { input := input, position := cursor.position + count })

/-- The largest distance of a seek. -/
def maxSeek : ℕ := 9223372036854775807

/-- Pass over bytes. -/
def skip (failure : ℕ → String) (count : ℕ) : Decoder Unit := fun cursor =>
  if cursor.position > size ∨ count > size - cursor.position ∨ count > maxSeek then
    (.error (failure cursor.position), cursor)
  else
    let input := cursor.input.seek count
    if !input.good then (.error (failure cursor.position), { cursor with input := input })
    else (.ok (), { input := input, position := cursor.position + count })

/-- Decode so often. -/
def repeated (decoder : Decoder Unit) : ℕ → Decoder Unit
  | 0 => pure ()
  | count + 1 => do
    decoder
    repeated decoder count

/-- The decoder stands where the stream does, at a place inside the size, and so far all went well. -/
structure At (position : ℕ) (cursor : Cursor) : Prop where
  position_eq : cursor.position = position
  input_eq : cursor.input.position = position
  good : cursor.input.good = true
  inside : position ≤ size
  reach : cursor.input.reach ≤ size

/-- The decoder takes the value from these bytes wherever they stand. -/
def Takes (decoder : Decoder α) (part : List UInt8) (value : α) : Prop :=
  ∀ (before after : List UInt8) (cursor : Cursor), bytes = before ++ part ++ after →
    before.length + part.length ≤ size → At size before.length cursor →
      ∃ next, decoder cursor = (.ok value, next) ∧ At size (before.length + part.length) next

/-- The decoder fails on these bytes wherever they stand. -/
def Fails (decoder : Decoder α) (part : List UInt8) : Prop :=
  ∀ (before after : List UInt8) (cursor : Cursor), bytes = before ++ part ++ after →
    before.length + part.length ≤ size → At size before.length cursor →
      ∃ message next, decoder cursor = (.error message, next)

/-- The decoder never reaches past the size. -/
def Confined (decoder : Decoder α) : Prop :=
  ∀ (position : ℕ) (cursor : Cursor), At size position cursor →
    (decoder cursor).2.input.reach ≤ size ∧
      ∀ a, (decoder cursor).1 = .ok a → ∃ position', position ≤ position' ∧ At size position' (decoder cursor).2

end Decoders

variable {bytes part rest : List UInt8} {size count : ℕ} {a : α} {b : β} {overrun short failure : ℕ → String}

theorem bind_eq (decoder : Decoder α) (next : α → Decoder β) (cursor : Cursor) :
    (decoder >>= next) cursor = match decoder cursor with
      | (.error error, cursor) => (.error error, cursor)
      | (.ok a, cursor) => next a cursor := rfl

variable {decoder : Decoder α} {next : α → Decoder β}

theorem bind_of_ok {cursor cursor' : Cursor} (h : decoder cursor = (.ok a, cursor')) :
    (decoder >>= next) cursor = next a cursor' := by
  rw [bind_eq, h]

/-! ## Taking -/

theorem takes_pure : Takes bytes size (pure a : Decoder α) [] a := by
  intro before after cursor _ _ h
  exact ⟨cursor, rfl, h⟩

theorem takes_lift {result : Except String α} (h : result = .ok a) : Takes bytes size (lift result) [] a := by
  subst h
  exact takes_pure

/-- Decoders take their parts one behind the other. -/
theorem Takes.bind (hfirst : Takes bytes size decoder part a) (hnext : Takes bytes size (next a) rest b) :
    Takes bytes size (decoder >>= next) (part ++ rest) b := by
  intro before after cursor hbytes hsize h
  rw [List.length_append, ← Nat.add_assoc] at hsize ⊢
  obtain ⟨middle, hmiddle, hat⟩ := hfirst before (rest ++ after) cursor
    (by rw [hbytes]; simp only [List.append_assoc]) (by omega) h
  have hat' : At size (before ++ part).length middle := by rwa [List.length_append]
  obtain ⟨final, hfinal, hend⟩ := hnext (before ++ part) after middle
    (by rw [hbytes]; simp only [List.append_assoc]) (by rwa [List.length_append]) hat'
  rw [List.length_append] at hend
  exact ⟨final, (bind_of_ok hmiddle).trans hfinal, hend⟩

/-- A step that takes nothing more. -/
theorem Takes.bind_pure (hfirst : Takes bytes size decoder part a) (hnext : Takes bytes size (next a) [] b) :
    Takes bytes size (decoder >>= next) part b := by
  have hboth := hfirst.bind hnext
  rwa [List.append_nil] at hboth

theorem fails_fail {message : ℕ → String} : Fails bytes size (fail message : Decoder α) part :=
  fun _ _ _ _ _ _ => ⟨_, _, rfl⟩

theorem fails_lift {error : String} : Fails bytes size (lift (.error error) : Decoder α) part :=
  fun _ _ _ _ _ _ => ⟨_, _, rfl⟩

/-- A failure behind what is taken. -/
theorem Takes.bind_fails (hfirst : Takes bytes size decoder part a) (hnext : Fails bytes size (next a) rest) :
    Fails bytes size (decoder >>= next) (part ++ rest) := by
  intro before after cursor hbytes hsize h
  rw [List.length_append, ← Nat.add_assoc] at hsize
  obtain ⟨middle, hmiddle, hat⟩ := hfirst before (rest ++ after) cursor
    (by rw [hbytes]; simp only [List.append_assoc]) (by omega) h
  have hat' : At size (before ++ part).length middle := by rwa [List.length_append]
  obtain ⟨message, final, hfinal⟩ := hnext (before ++ part) after middle
    (by rw [hbytes]; simp only [List.append_assoc]) (by rwa [List.length_append]) hat'
  exact ⟨message, final, (bind_of_ok hmiddle).trans hfinal⟩

theorem Fails.bind (h : Fails bytes size decoder part) : Fails bytes size (decoder >>= next) part := by
  intro before after cursor hbytes hsize hat
  obtain ⟨message, final, hfinal⟩ := h before after cursor hbytes hsize hat
  refine ⟨message, final, ?_⟩
  rw [bind_eq, hfinal]

theorem takes_take (hcount : part.length = count) : Takes bytes size (take bytes size overrun short count) part part := by
  subst hcount
  intro before after cursor hbytes hsize h
  have hdata : (bytes.drop cursor.input.position).take part.length = part := by
    rw [h.input_eq, hbytes, List.append_assoc, List.drop_append_length, List.take_left]
  refine ⟨{ input :=
      { position := cursor.input.position + part.length
        good := true
        reach := max cursor.input.reach (cursor.input.position + part.length) }
            position := cursor.position + part.length }, ?_, ?_⟩
  · have hinside : ¬ (cursor.position > size ∨ part.length > size - cursor.position) := by
      rw [h.position_eq]
      omega
    rw [take, if_neg hinside, InStream.read, if_pos h.good]
    dsimp only
    rw [hdata, if_neg (not_not.mpr rfl), decide_eq_true rfl]
  · refine ⟨?_, ?_, rfl, hsize, ?_⟩
    · exact congrArg (· + part.length) h.position_eq
    · exact congrArg (· + part.length) h.input_eq
    · dsimp only
      rw [h.input_eq]
      exact max_le h.reach hsize

theorem takes_skip (hcount : part.length = count) (hseek : count ≤ maxSeek) :
    Takes bytes size (skip size failure count) part () := by
  subst hcount
  intro before after cursor hbytes hsize h
  refine ⟨{ input :=
      { cursor.input with
        position := cursor.input.position + part.length
        reach := max cursor.input.reach (cursor.input.position + part.length) }
            position := cursor.position + part.length }, ?_, ?_⟩
  · have hinside : ¬ (cursor.position > size ∨ part.length > size - cursor.position ∨ part.length > maxSeek) := by
      rw [h.position_eq]
      omega
    have hgood : ¬ (!cursor.input.good) = true := by
      rw [h.good]
      decide
    rw [skip, if_neg hinside, InStream.seek, if_pos h.good]
    exact if_neg hgood
  · refine ⟨?_, ?_, h.good, hsize, ?_⟩
    · exact congrArg (· + part.length) h.position_eq
    · exact congrArg (· + part.length) h.input_eq
    · dsimp only
      rw [h.input_eq]
      exact max_le h.reach hsize

/-- A loop takes its parts one behind the other. -/
theorem takes_repeated {decoder : Decoder Unit} {parts : List (List UInt8)}
    (h : ∀ part ∈ parts, Takes bytes size decoder part ()) :
    Takes bytes size (repeated decoder parts.length) parts.flatten () := by
  induction parts with
  | nil => exact takes_pure
  | cons part rest ih =>
    rw [List.flatten_cons]
    exact (h part List.mem_cons_self).bind (ih fun other hother => h other (List.mem_cons_of_mem _ hother))

/-! ## Staying inside -/

theorem confined_pure : Confined size (pure a : Decoder α) :=
  fun position _ h => ⟨h.reach, fun _ _ => ⟨position, le_rfl, h⟩⟩

theorem confined_fail {message : ℕ → String} : Confined size (fail message : Decoder α) :=
  fun _ _ h => ⟨h.reach, fun _ hno => by cases hno⟩

theorem confined_lift {result : Except String α} : Confined size (lift result) :=
  fun position _ h => ⟨h.reach, fun _ _ => ⟨position, le_rfl, h⟩⟩

theorem Confined.bind (hfirst : Confined size decoder) (hnext : ∀ a, Confined size (next a)) :
    Confined size (decoder >>= next) := by
  intro position cursor h
  obtain ⟨hreach, hok⟩ := hfirst position cursor h
  rw [bind_eq]
  cases hresult : decoder cursor with
  | mk result middle =>
    rw [hresult] at hreach hok
    cases result with
    | error error => exact ⟨hreach, fun _ hno => by cases hno⟩
    | ok a =>
      obtain ⟨position', hle, hmiddle⟩ := hok a rfl
      obtain ⟨hreach', hok'⟩ := hnext a position' middle hmiddle
      refine ⟨hreach', fun b hb => ?_⟩
      obtain ⟨final, hle', hfinal⟩ := hok' b hb
      exact ⟨final, hle.trans hle', hfinal⟩

theorem confined_ite {condition : Prop} [Decidable condition] {first second : Decoder α}
    (hfirst : Confined size first) (hsecond : Confined size second) :
    Confined size (if condition then first else second) := by
  split
  · exact hfirst
  · exact hsecond

/-- What is taken lies inside the size, whether the stream has it or not. -/
theorem confined_take : Confined size (take bytes size overrun short count) := by
  intro position cursor h
  rw [take]
  split_ifs with hinside
  · exact ⟨h.reach, fun _ hno => by cases hno⟩
  · obtain ⟨-, hroom⟩ := not_or.mp hinside
    rw [h.position_eq] at hroom
    have hend : position + count ≤ size := by
      have hle := h.inside
      omega
    have hreach : max cursor.input.reach (cursor.input.position + count) ≤ size := by
      rw [h.input_eq]
      exact max_le h.reach hend
    rw [InStream.read, if_pos h.good]
    dsimp only
    split_ifs with hlength
    · exact ⟨hreach, fun _ hno => by cases hno⟩
    · rw [not_ne_iff] at hlength
      refine ⟨hreach, fun _ _ => ⟨position + count, Nat.le_add_right _ _, ?_, ?_, ?_, hend, hreach⟩⟩
      · exact congrArg (· + count) h.position_eq
      · dsimp only
        rw [h.input_eq] at hlength ⊢
        rw [hlength]
      · exact decide_eq_true hlength

theorem confined_skip : Confined size (skip size failure count) := by
  intro position cursor h
  rw [skip]
  split_ifs with hinside
  · exact ⟨h.reach, fun _ hno => by cases hno⟩
  · obtain ⟨-, hrest⟩ := not_or.mp hinside
    obtain ⟨hroom, -⟩ := not_or.mp hrest
    rw [h.position_eq] at hroom
    have hend : position + count ≤ size := by
      have hle := h.inside
      omega
    have hreach : max cursor.input.reach (cursor.input.position + count) ≤ size := by
      rw [h.input_eq]
      exact max_le h.reach hend
    rw [InStream.seek, if_pos h.good]
    dsimp only
    split
    · exact ⟨hreach, fun _ hno => by cases hno⟩
    · refine ⟨hreach, fun _ _ => ⟨position + count, Nat.le_add_right _ _, ?_, ?_, h.good, hend, hreach⟩⟩
      · exact congrArg (· + count) h.position_eq
      · exact congrArg (· + count) h.input_eq

theorem confined_repeated {decoder : Decoder Unit} (h : Confined size decoder) (count : ℕ) :
    Confined size (repeated decoder count) := by
  induction count with
  | zero => exact confined_pure
  | succ count ih => exact h.bind fun _ => ih

end BoundedInput
