import WaterStructure.Library.BufferedStream
import WaterStructure.Library.Varint

/-!
# Reading palette indices through a buffer

`EncodedReader` and `LimitedEncodedReader` decode the same variable-length indices, the first from a file
of its own and the second from the block data inside of the NBT stream. Both take whole runs of one-byte
indices and indices that lie in the buffer by shortcuts. The shortcuts read what `read_encoded_index` reads
byte by byte, and leave the reader in the same state.
-/

namespace WaterStructure.Schem

open BufferedStream

/-- The largest value of `std::uint32_t`. -/
def uint32Max : ℕ := 4294967295

variable {State : Type*} (source : Source State)

/-- The loop of `read_encoded_index`, with the bits read so far; the value and the number of bytes. -/
def readIndexFrom (value shift : ℕ) (reader : Reader State) : Option ((ℕ × ℕ) × Reader State) :=
  match source.get reader with
  | none => none
  | some (byte, reader) =>
    let value := Varint.addByte value shift byte
    if byte &&& 0x80 = 0 then
      if value > uint32Max then none else some ((value, 1), reader)
    else if shift + 7 ≥ 35 then none
    else
      (readIndexFrom value (shift + 7) reader).map fun (code, reader) => ((code.1, code.2 + 1), reader)
termination_by 35 - shift
decreasing_by omega

/-- `read_encoded_index` -/
def readEncodedIndex (reader : Reader State) : Option ((ℕ × ℕ) × Reader State) :=
  readIndexFrom source 0 0 reader

/-- The loop over bytes of the buffer; the value and the number of bytes. -/
def scanBytes (value shift : ℕ) : List UInt8 → Option (ℕ × ℕ)
  | [] => none
  | byte :: rest =>
    let value := Varint.addByte value shift byte
    if byte &&& 0x80 = 0 then if value > uint32Max then none else some (value, 1)
    else (scanBytes value (shift + 7) rest).map fun code => (code.1, code.2 + 1)

/-- `read_varint_u32`: a number of one byte and a number whose longest form lies in the buffer need no
further bytes. -/
def readVarintU32 (reader : Reader State) : Option (ℕ × Reader State) :=
  let bytewise := (readIndexFrom source 0 0 reader).map fun (code, reader) => (code.1, reader)
  match reader.buffer with
  | [] => bytewise
  | first :: rest =>
    if first &&& 0x80 = 0 then some (first.toNat, { reader with buffer := rest })
    else if reader.buffer.length ≥ 5 then
      (scanBytes (first &&& 0x7f).toNat 7 (rest.take 4)).map fun code =>
        (code.1, { reader with buffer := rest.drop code.2 })
    else bytewise

/-- Eight bytes as one number. -/
def packed (bytes : List UInt8) : ℕ := bytes.foldr (fun byte high => byte.toNat + 256 * high) 0

def kContinuationBits : ℕ := 0x8080808080808080

/-- Numbers of one byte, eight at a time while none of the eight has a continuation bit; the values and the
rest of the buffer. -/
def bulk (maxValue : ℕ) (available : ℕ) (bytes : List UInt8) : Option (List ℕ × List UInt8) :=
  if 8 ≤ available then
    if packed (bytes.take 8) &&& kContinuationBits ≠ 0 then some ([], bytes)
    else if (bytes.take 8).any fun byte => byte.toNat > maxValue then none
    else
      (bulk maxValue (available - 8) (bytes.drop 8)).map fun (values, rest) =>
        ((bytes.take 8).map UInt8.toNat ++ values, rest)
  else some ([], bytes)
termination_by available
decreasing_by omega

/-- `read_varints_u16` -/
def readVarintsU16 (maxValue : ℕ) : (count : ℕ) → Reader State → Option (List ℕ × Reader State)
  | 0, reader => some ([], reader)
  | count + 1, reader =>
    match source.fill reader with
    | none => none
    | some reader =>
      match bulk maxValue (min reader.buffer.length (count + 1)) reader.buffer with
      | none => none
      | some (value :: values, rest) =>
        (readVarintsU16 maxValue (count - values.length) { reader with buffer := rest }).map
          fun (more, reader) => (value :: values ++ more, reader)
      | some ([], _) =>
        match readVarintU32 source reader with
        | none => none
        | some (value, reader) =>
          if value > maxValue then none
          else
            (readVarintsU16 maxValue count reader).map fun (more, reader) => (value :: more, reader)
termination_by count => count
decreasing_by all_goals omega

/-- The same numbers, each one byte by byte. -/
def readIndices (maxValue : ℕ) : (count : ℕ) → Reader State → Option (List ℕ × Reader State)
  | 0, reader => some ([], reader)
  | count + 1, reader =>
    match readEncodedIndex source reader with
    | none => none
    | some ((value, _), reader) =>
      if value > maxValue then none
      else (readIndices maxValue count reader).map fun (more, reader) => (value :: more, reader)

section Shortcuts

variable {source}

/-- Bytes in the buffer are read as they stand there, when the last of them is the last one allowed. -/
theorem readIndexFrom_buffer {value shift : ℕ} {bytes : List UInt8} (hne : bytes ≠ [])
    (hshift : shift + 7 * bytes.length = 35) (more : List UInt8) (state : State) :
    readIndexFrom source value shift ⟨bytes ++ more, state⟩ =
      (scanBytes value shift bytes).map fun code => (code, ⟨(bytes ++ more).drop code.2, state⟩) := by
  induction bytes generalizing value shift with
  | nil => exact absurd rfl hne
  | cons byte rest ih =>
    rw [List.cons_append, readIndexFrom, Source.get_of_buffer rfl, scanBytes]
    dsimp only
    by_cases hlast : byte &&& 0x80 = 0
    · rw [if_pos hlast, if_pos hlast]
      split
      · rfl
      · rfl
    · rw [if_neg hlast, if_neg hlast]
      rw [List.length_cons] at hshift
      by_cases hrest : rest = []
      · subst hrest
        rw [if_pos (by simpa using hshift.ge)]
        rfl
      · have hpos := List.length_pos_of_ne_nil hrest
        rw [if_neg (by omega), ih hrest (by omega), Option.map_map, Option.map_map]
        rfl

/-- The shortcuts for one number change nothing. -/
theorem readVarintU32_eq (reader : Reader State) :
    readVarintU32 source reader =
      (readEncodedIndex source reader).map fun (code, reader) => (code.1, reader) := by
  obtain ⟨buffer, state⟩ := reader
  rw [readVarintU32, readEncodedIndex]
  cases buffer with
  | nil => rfl
  | cons first rest =>
    dsimp only
    by_cases hlast : first &&& 0x80 = 0
    · rw [if_pos hlast, readIndexFrom, Source.get_of_buffer rfl]
      dsimp only
      have hsmall : ¬ Varint.addByte 0 0 first > uint32Max := by
        rw [Varint.addByte_single hlast]
        exact Nat.not_lt.mpr (first.toNat_lt.le.trans (by decide))
      rw [if_pos hlast, if_neg hsmall, Option.map_some, Varint.addByte_single hlast]
    · rw [if_neg hlast]
      by_cases hlength : (first :: rest).length ≥ 5
      · rw [if_pos hlength]
        rw [List.length_cons] at hlength
        have hfour : (rest.take 4).length = 4 := List.length_take_of_le (by omega)
        have hscan := @readIndexFrom_buffer _ source 0 0 (first :: rest.take 4) (List.cons_ne_nil _ _)
          (by rw [List.length_cons, hfour]) (rest.drop 4) state
        rw [List.cons_append, List.take_append_drop] at hscan
        have hfirst : Varint.addByte 0 0 first = (first &&& 0x7f).toNat := by
          simp [Varint.addByte]
        rw [hscan, scanBytes, if_neg hlast, hfirst, Option.map_map, Option.map_map]
        rfl
      · rw [if_neg hlength]

/-- The continuation bits of several bytes are looked at one by one. -/
theorem packed_and (bytes : List UInt8) :
    packed bytes &&& packed (List.replicate bytes.length 0x80) = packed (bytes.map (· &&& 0x80)) := by
  have hand {low low' high high' : ℕ} (h : low < 2 ^ 8) (h' : low' < 2 ^ 8) :
      (low + 256 * high) &&& (low' + 256 * high') = (low &&& low') + 256 * (high &&& high') := by
    rw [Nat.add_comm low, Nat.add_comm low', Nat.add_comm (low &&& low')]
    refine Nat.eq_of_testBit_eq fun i => ?_
    rw [show 256 = 2 ^ 8 from rfl, Nat.testBit_and, Nat.testBit_two_pow_mul_add _ h,
      Nat.testBit_two_pow_mul_add _ h', Nat.testBit_two_pow_mul_add _ (Nat.and_lt_two_pow _ h')]
    split
    · rw [Nat.testBit_and]
    · rw [Nat.testBit_and]
  induction bytes with
  | nil => rfl
  | cons byte rest ih =>
    rw [List.length_cons, List.replicate_succ, List.map_cons]
    change (byte.toNat + 256 * packed rest) &&& ((0x80 : UInt8).toNat + 256 * packed _) =
      (byte &&& 0x80).toNat + 256 * packed _
    rw [hand byte.toNat_lt (UInt8.toNat_lt _), ih, UInt8.toNat_and]

theorem packed_eq_zero_iff (bytes : List UInt8) : packed bytes = 0 ↔ ∀ byte ∈ bytes, byte = 0 := by
  induction bytes with
  | nil => simp [packed]
  | cons byte rest ih =>
    have hpacked : packed (byte :: rest) = byte.toNat + 256 * packed rest := rfl
    rw [hpacked, List.forall_mem_cons, ← ih, ← UInt8.toNat_inj, UInt8.toNat_zero]
    omega

variable {bytes : List UInt8} {maxValue available count : ℕ} {front : List UInt8}

/-- The probe finds out whether all eight bytes are numbers of their own. -/
theorem packed_and_eq_zero_iff (h : bytes.length = 8) :
    packed bytes &&& kContinuationBits = 0 ↔ ∀ byte ∈ bytes, byte &&& 0x80 = 0 := by
  have hmask : kContinuationBits = packed (List.replicate bytes.length 0x80) := by
    rw [h]
    rfl
  rw [hmask, packed_and, packed_eq_zero_iff, List.forall_mem_map]

/-- The values of a run are its bytes: numbers of their own, within the limit. -/
theorem bulk_some {rest : List UInt8} {values : List ℕ} (hroom : available ≤ bytes.length)
    (h : bulk maxValue available bytes = some (values, rest)) :
    ∃ front, bytes = front ++ rest ∧ values = front.map UInt8.toNat ∧ front.length ≤ available ∧
      ∀ byte ∈ front, byte &&& 0x80 = 0 ∧ byte.toNat ≤ maxValue := by
  induction available using Nat.strong_induction_on generalizing bytes values with
  | _ available ih =>
    have hnone : some (([] : List ℕ), bytes) = some (values, rest) → ∃ front, bytes = front ++ rest ∧
        values = front.map UInt8.toNat ∧ front.length ≤ available ∧
        ∀ byte ∈ front, byte &&& 0x80 = 0 ∧ byte.toNat ≤ maxValue := fun hsame => by
      cases hsame
      exact ⟨[], rfl, rfl, Nat.zero_le _, nofun⟩
    rw [bulk] at h
    split at h
    case isFalse => exact hnone h
    case isTrue height =>
      split at h
      case isTrue => exact hnone h
      case isFalse hprobe =>
        split at h
        case isTrue => cases h
        case isFalse hlimit =>
          obtain ⟨⟨more, rest'⟩, hmore, heq⟩ := Option.map_eq_some_iff.mp h
          cases heq
          have hlength : (bytes.take 8).length = 8 := List.length_take_of_le (by omega)
          obtain ⟨front, hfront, rfl, hshort, hall⟩ :=
            ih (available - 8) (by omega) (by rw [List.length_drop]; omega) hmore
          refine ⟨bytes.take 8 ++ front, ?_, List.map_append.symm, ?_, ?_⟩
          · rw [List.append_assoc, ← hfront, List.take_append_drop]
          · rw [List.length_append, hlength]
            omega
          · intro byte hbyte
            rcases List.mem_append.mp hbyte with hbyte | hbyte
            · have hlast := (packed_and_eq_zero_iff hlength).mp (not_not.mp hprobe) byte hbyte
              simp only [List.any_eq_true, decide_eq_true_eq, not_exists, not_and, not_lt] at hlimit
              exact ⟨hlast, hlimit byte hbyte⟩
            · exact hall byte hbyte

/-- A run fails at a number of one byte that is above the limit. -/
theorem bulk_none (hroom : available ≤ bytes.length) (h : bulk maxValue available bytes = none) :
    ∃ front rest, bytes = front ++ rest ∧ front.length ≤ available ∧
      (∀ byte ∈ front, byte &&& 0x80 = 0) ∧ ∃ byte ∈ front, maxValue < byte.toNat := by
  induction available using Nat.strong_induction_on generalizing bytes with
  | _ available ih =>
    rw [bulk] at h
    split at h
    case isFalse => cases h
    case isTrue height =>
      split at h
      case isTrue => cases h
      case isFalse hprobe =>
        have hlength : (bytes.take 8).length = 8 := List.length_take_of_le (by omega)
        have hlast := (packed_and_eq_zero_iff hlength).mp (not_not.mp hprobe)
        split_ifs at h with hlimit
        · obtain ⟨byte, hbyte, habove⟩ := List.any_eq_true.mp hlimit
          exact ⟨bytes.take 8, bytes.drop 8, (List.take_append_drop 8 bytes).symm, by omega, hlast, byte,
            hbyte, of_decide_eq_true habove⟩
        · obtain ⟨front, rest, hfront, hshort, hall, byte, hbyte, habove⟩ :=
            ih (available - 8) (by omega) (by rw [List.length_drop]; omega) (Option.map_eq_none_iff.mp h)
          refine ⟨bytes.take 8 ++ front, rest, ?_, ?_, ?_, byte, List.mem_append_right _ hbyte, habove⟩
          · rw [List.append_assoc, ← hfront, List.take_append_drop]
          · rw [List.length_append, hlength]
            omega
          · exact List.forall_mem_append.mpr ⟨hlast, hall⟩

/-- A byte of the buffer that is a number of its own. -/
theorem readIndices_single {byte : UInt8} (h : byte &&& 0x80 = 0) (rest : List UInt8) (state : State) :
    readIndices source maxValue (count + 1) ⟨byte :: rest, state⟩ =
      if byte.toNat > maxValue then none
      else (readIndices source maxValue count ⟨rest, state⟩).map fun (more, reader) =>
        (byte.toNat :: more, reader) := by
  have hread : readEncodedIndex source ⟨byte :: rest, state⟩ = some ((byte.toNat, 1), ⟨rest, state⟩) := by
    rw [readEncodedIndex, readIndexFrom, Source.get_of_buffer rfl]
    dsimp only
    rw [if_pos h, Varint.addByte_single h, if_neg]
    exact Nat.not_lt.mpr (byte.toNat_lt.le.trans (by decide))
  rw [readIndices, hread]

theorem readIndices_run (h : ∀ byte ∈ front, byte &&& 0x80 = 0 ∧ byte.toNat ≤ maxValue) (count : ℕ)
    (rest : List UInt8) (state : State) :
    readIndices source maxValue (front.length + count) ⟨front ++ rest, state⟩ =
      (readIndices source maxValue count ⟨rest, state⟩).map fun (more, reader) =>
        (front.map UInt8.toNat ++ more, reader) := by
  induction front with
  | nil => simp
  | cons byte front ih =>
    obtain ⟨hbyte, hfront⟩ := List.forall_mem_cons.mp h
    rw [List.length_cons, Nat.add_right_comm, List.cons_append, readIndices_single hbyte.1,
      if_neg (Nat.not_lt.mpr hbyte.2), ih hfront, Option.map_map]
    rfl

theorem readIndices_above (hshort : front.length ≤ count) (h : ∀ byte ∈ front, byte &&& 0x80 = 0)
    (habove : ∃ byte ∈ front, maxValue < byte.toNat) (rest : List UInt8) (state : State) :
    readIndices source maxValue count ⟨front ++ rest, state⟩ = none := by
  induction front generalizing count with
  | nil =>
    obtain ⟨byte, hbyte, -⟩ := habove
    cases hbyte
  | cons byte front ih =>
    obtain ⟨count, rfl⟩ : ∃ n, count = n + 1 := ⟨count - 1, by rw [List.length_cons] at hshort; omega⟩
    obtain ⟨hbyte, hfront⟩ := List.forall_mem_cons.mp h
    rw [List.cons_append, readIndices_single hbyte]
    split_ifs with hwithin
    · rfl
    · have hrest : ∃ byte ∈ front, maxValue < byte.toNat := by
        simpa [hwithin] using habove
      rw [ih (by simpa using hshort) hfront hrest, Option.map_none]

/-- A reader may be filled ahead of reading. -/
theorem readIndices_of_fill {reader filled : Reader State} (h : source.fill reader = some filled) :
    readIndices source maxValue (count + 1) reader = readIndices source maxValue (count + 1) filled := by
  rw [readIndices, readIndices, readEncodedIndex, readEncodedIndex, readIndexFrom, readIndexFrom,
    Source.get_of_fill h]

/-- The shortcuts for many numbers change nothing. -/
theorem readVarintsU16_eq (maxValue count : ℕ) (reader : Reader State) :
    readVarintsU16 source maxValue count reader = readIndices source maxValue count reader := by
  induction count using Nat.strong_induction_on generalizing reader with
  | _ count ih =>
    cases count with
    | zero => rw [readVarintsU16, readIndices]
    | succ count =>
      rw [readVarintsU16]
      cases hfill : source.fill reader with
      | none =>
        dsimp only
        rw [readIndices, readEncodedIndex, readIndexFrom, Source.get, hfill]
      | some filled =>
        rw [readIndices_of_fill hfill]
        obtain ⟨buffer, state⟩ := filled
        dsimp only
        have hroom : min buffer.length (count + 1) ≤ buffer.length := Nat.min_le_left _ _
        cases hbulk : bulk maxValue (min buffer.length (count + 1)) buffer with
        | none =>
          obtain ⟨front, rest, rfl, hshort, hall, habove⟩ := bulk_none hroom hbulk
          rw [readIndices_above (hshort.trans (Nat.min_le_right _ _)) hall habove]
        | some run =>
          obtain ⟨values, rest⟩ := run
          obtain ⟨front, rfl, rfl, hshort, hall⟩ := bulk_some hroom hbulk
          cases front with
          | nil =>
            simp only [List.map_nil, List.nil_append]
            rw [readVarintU32_eq, readIndices]
            cases readEncodedIndex source ⟨rest, state⟩ with
            | none => rfl
            | some read =>
              obtain ⟨⟨value, size⟩, reader⟩ := read
              dsimp only [Option.map_some]
              rw [ih count (Nat.lt_succ_self _)]
          | cons byte front =>
            have hcount : count + 1 = (byte :: front).length + (count - front.length) := by
              have hle := hshort.trans (Nat.min_le_right _ _)
              rw [List.length_cons] at hle ⊢
              omega
            simp only [List.map_cons]
            rw [hcount, readIndices_run hall, List.length_map, ih _ (by omega)]
            rfl

end Shortcuts

section Stream

variable {source}

/-- Reading byte by byte decodes the number at the start of the stream. -/
theorem readIndexFrom_stream (value shift : ℕ) (reader : Reader State) :
    (readIndexFrom source value shift reader).map (fun (code, next) => (code, source.stream next)) =
      (Varint.decodeFrom value shift (source.stream reader)).bind fun code =>
        if code.1 > uint32Max then none else some (code, (source.stream reader).drop code.2) := by
  fun_induction readIndexFrom source value shift reader with
  | case1 value shift reader hget => rw [Source.get_none hget]; rfl
  | case2 value shift reader byte next hget total hlast habove =>
    rw [Source.get_some hget, Varint.decodeFrom, if_pos hlast, Option.bind_some, if_pos habove]
    rfl
  | case3 value shift reader byte next hget total hlast hwithin =>
    rw [Source.get_some hget, Varint.decodeFrom, if_pos hlast, Option.bind_some, if_neg hwithin]
    rfl
  | case4 value shift reader byte next hget hmore hshift =>
    rw [Source.get_some hget, Varint.decodeFrom, if_neg hmore, if_pos hshift]
    rfl
  | case5 value shift reader byte next hget total hmore hshift ih =>
    rw [Source.get_some hget, Varint.decodeFrom, if_neg hmore, if_neg hshift]
    change _ = ((Varint.decodeFrom total (shift + 7) (source.stream next)).map _).bind _
    cases hdecode : Varint.decodeFrom total (shift + 7) (source.stream next) with
    | none =>
      rw [hdecode, Option.bind_none, Option.map_eq_none_iff] at ih
      rw [ih]
      rfl
    | some code =>
      rw [hdecode, Option.bind_some] at ih
      rw [Option.map_some, Option.bind_some]
      by_cases habove : code.1 > uint32Max
      · rw [if_pos habove, Option.map_eq_none_iff] at ih
        rw [ih, if_pos habove]
        rfl
      · rw [if_neg habove] at ih
        obtain ⟨⟨code', reader'⟩, hread, heq⟩ := Option.map_eq_some_iff.mp ih
        obtain ⟨rfl, hnext⟩ := Prod.mk.inj heq
        rw [hread, if_neg habove, List.drop_succ_cons, ← hnext]
        rfl

/-- Reading numbers byte by byte takes them off the stream. -/
theorem readIndices_stream {maxValue : ℕ} (hmax : maxValue ≤ uint32Max) (count : ℕ)
    (reader : Reader State) :
    (readIndices source maxValue count reader).map (fun (values, next) => (values, source.stream next)) =
      Varint.readValues maxValue count (source.stream reader) := by
  induction count generalizing reader with
  | zero => rfl
  | succ count ih =>
    have hstream := @readIndexFrom_stream _ source 0 0 reader
    rw [readIndices, Varint.readValues, readEncodedIndex, Varint.decode]
    cases hdecode : Varint.decodeFrom 0 0 (source.stream reader) with
    | none =>
      rw [hdecode, Option.bind_none, Option.map_eq_none_iff] at hstream
      rw [hstream]
      rfl
    | some code =>
      obtain ⟨value, size⟩ := code
      rw [hdecode, Option.bind_some] at hstream
      dsimp only at hstream ⊢
      by_cases habove : value > uint32Max
      · rw [if_pos habove, Option.map_eq_none_iff] at hstream
        rw [hstream, if_pos (lt_of_le_of_lt hmax habove)]
        rfl
      · rw [if_neg habove] at hstream
        obtain ⟨⟨code, next⟩, hread, heq⟩ := Option.map_eq_some_iff.mp hstream
        obtain ⟨rfl, hnext⟩ := Prod.mk.inj heq
        rw [hread]
        dsimp only
        split
        · rfl
        · rw [← hnext, ← ih next, Option.map_map, Option.map_map]
          rfl

end Stream

/-- How a bounded reader gets its bytes: what is left of the live stream, and how many of its bytes
belong to the payload. -/
structure LimitedInput where
  input : List UInt8
  remaining : ℕ

/-- `LimitedEncodedReader::refill`, for a buffer of the given capacity: a piece that the stream cannot fill
is an end of the payload. -/
def LimitedInput.refill (capacity : ℕ) (state : LimitedInput) : Option (List UInt8 × LimitedInput) :=
  let amount := min state.remaining capacity
  if state.remaining = 0 ∨ state.input.length < amount then none
  else some (state.input.take amount,
    { input := state.input.drop amount, remaining := state.remaining - amount })

/-- The bytes of the payload that whole pieces deliver. -/
def LimitedInput.pending (capacity : ℕ) (state : LimitedInput) : List UInt8 :=
  if state.remaining ≤ state.input.length then state.input.take state.remaining
  else state.input.take (state.input.length / capacity * capacity)

variable {capacity : ℕ} {state : LimitedInput}

/-- A piece is what the stream holds of the payload, in the size of the buffer. -/
theorem LimitedInput.refill_some (hcapacity : 0 < capacity) {rest : LimitedInput} {piece : List UInt8}
    (h : state.refill capacity = some (piece, rest)) :
    piece ≠ [] ∧ state.pending capacity = piece ++ rest.pending capacity := by
  obtain ⟨input, remaining⟩ := state
  simp only [refill] at h
  split at h
  case isTrue => cases h
  case isFalse hsome =>
    cases h
    rw [not_or, not_lt] at hsome
    obtain ⟨hpos, hamount⟩ := hsome
    have hne : input.take (min remaining capacity) ≠ [] := by
      rw [← List.length_pos_iff, List.length_take]
      omega
    refine ⟨hne, ?_⟩
    have hsplit (amount : ℕ) (hle : min remaining capacity ≤ amount) : input.take amount =
        input.take (min remaining capacity) ++
          (input.drop (min remaining capacity)).take (amount - min remaining capacity) := by
      rw [← List.take_add, Nat.add_sub_cancel' hle]
    rw [pending, pending, List.length_drop]
    dsimp only
    by_cases hwhole : remaining ≤ input.length
    · rw [if_pos hwhole, if_pos (by omega), hsplit remaining (Nat.min_le_left _ _)]
    · have hfull : min remaining capacity = capacity := by omega
      have hlength : capacity ≤ input.length := by omega
      have hpieces : capacity ≤ input.length / capacity * capacity :=
        Nat.le_mul_of_pos_left _ (Nat.div_pos hlength hcapacity)
      have hless : (input.length - capacity) / capacity * capacity =
          input.length / capacity * capacity - capacity := by
        obtain ⟨extra, hextra⟩ := Nat.exists_eq_add_of_le hlength
        rw [hextra, Nat.add_sub_cancel_left, Nat.add_div_left _ hcapacity, Nat.succ_mul,
          Nat.add_sub_cancel]
      rw [if_neg hwhole, if_neg (by omega), hsplit _ (hfull.le.trans hpieces), hfull, hless]

theorem LimitedInput.refill_none (h : state.refill capacity = none) : state.pending capacity = [] := by
  obtain ⟨input, remaining⟩ := state
  simp only [refill] at h
  split at h
  case isFalse => cases h
  case isTrue hend =>
    rw [pending]
    dsimp only
    rcases hend with rfl | hshort
    · rw [if_pos (Nat.zero_le _), List.take_zero]
    · rw [if_neg (by omega), Nat.div_eq_of_lt (by omega), Nat.zero_mul, List.take_zero]

/-- The bytes of a payload of the live stream. -/
def limited (capacity : ℕ) (hcapacity : 0 < capacity) : Source LimitedInput where
  refill := LimitedInput.refill capacity
  pending := LimitedInput.pending capacity
  refill_some := LimitedInput.refill_some hcapacity
  refill_none := LimitedInput.refill_none

/-- The decoders of a reader with shortcuts agree with the byte-wise ones, state for state, and these with
the numbers of the stream. -/
structure DecodersAgree (source : Source State) (maxValue count : ℕ) (reader : Reader State) : Prop where
  single : readVarintU32 source reader =
    (readEncodedIndex source reader).map fun (code, next) => (code.1, next)
  many : readVarintsU16 source maxValue count reader = readIndices source maxValue count reader
  single_stream : (readEncodedIndex source reader).map (fun (code, next) => (code, source.stream next)) =
    (Varint.decode (source.stream reader)).bind fun code =>
      if code.1 > uint32Max then none else some (code, (source.stream reader).drop code.2)
  many_stream : (readIndices source maxValue count reader).map
      (fun (values, next) => (values, source.stream next)) =
    Varint.readValues maxValue count (source.stream reader)

theorem decodersAgree (source : Source State) (maxValue : UInt16) (count : ℕ) (reader : Reader State) :
    DecodersAgree source maxValue.toNat count reader where
  single := readVarintU32_eq reader
  many := readVarintsU16_eq maxValue.toNat count reader
  single_stream := readIndexFrom_stream 0 0 reader
  many_stream := readIndices_stream (maxValue.toNat_lt.le.trans (by decide)) count reader

/-- Wherever the pieces of a file end, and whatever the capacity of the buffer over the block data, the
shortcuts of both readers read what the byte-wise decoder reads, and stop at the same byte. -/
theorem decoders_agree (maxValue : UInt16) (count : ℕ) :
    (∀ reader, DecodersAgree pieces maxValue.toNat count reader) ∧
      ∀ capacity (hcapacity : 0 < capacity) reader,
        DecodersAgree (limited capacity hcapacity) maxValue.toNat count reader :=
  ⟨fun reader => decodersAgree pieces maxValue count reader,
    fun capacity hcapacity reader => decodersAgree (limited capacity hcapacity) maxValue count reader⟩

/-- Two indices of a payload of three bytes, the first of them cut by a buffer of one byte. -/
theorem decoders_agree_cut :
    (readVarintsU16 (limited 1 one_pos) (300 : UInt16).toNat 2 ⟨[], ⟨[0xac, 0x02, 0x07, 0x01], 3⟩⟩).map
        Prod.fst = some [300, 7] := by
  obtain ⟨-, hlimited⟩ := decoders_agree 300 2
  have hagree := hlimited 1 one_pos ⟨[], ⟨[0xac, 0x02, 0x07, 0x01], 3⟩⟩
  have hvalues := congrArg (Option.map Prod.fst) hagree.many_stream
  rw [Option.map_map] at hvalues
  rw [hagree.many]
  exact hvalues.trans (by decide)

end WaterStructure.Schem
