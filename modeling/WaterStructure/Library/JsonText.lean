import Mathlib.Data.List.Basic

/-!
# Writing a text as a JSON string

A text is a list of bytes, given as characters. A text that is no UTF-8 cannot be written. Of the bytes
of another one the control characters, the quotation mark and the backslash are escaped, so that a reader
that only knows quotation marks and backslashes finds the end of what has been written.
-/

namespace Json

/-- Whether a text is UTF-8, given how many bytes the current character still needs and the range of
the next one. -/
def isUtf8From : ℕ → ℕ → ℕ → List Char → Bool
  | owed, _, _, [] => decide (owed = 0)
  | 0, _, _, c :: rest =>
    let byte := c.toNat
    if byte < 0x80 then isUtf8From 0 0 0 rest
    else if 0xC2 ≤ byte ∧ byte ≤ 0xDF then isUtf8From 1 0x80 0xBF rest
    else if byte = 0xE0 then isUtf8From 2 0xA0 0xBF rest
    else if byte = 0xED then isUtf8From 2 0x80 0x9F rest
    else if 0xE1 ≤ byte ∧ byte ≤ 0xEF then isUtf8From 2 0x80 0xBF rest
    else if byte = 0xF0 then isUtf8From 3 0x90 0xBF rest
    else if 0xF1 ≤ byte ∧ byte ≤ 0xF3 then isUtf8From 3 0x80 0xBF rest
    else if byte = 0xF4 then isUtf8From 3 0x80 0x8F rest
    else false
  | owed + 1, low, high, c :: rest =>
    decide (low ≤ c.toNat ∧ c.toNat ≤ high) && isUtf8From owed 0x80 0xBF rest

def isUtf8 (text : List Char) : Bool := isUtf8From 0 0 0 text

/-- The letter of an escape of two characters. -/
def shortEscape (c : Char) : Option Char :=
  if c = '"' then some '"'
  else if c = '\\' then some '\\'
  else if c = '\x08' then some 'b'
  else if c = '\x0c' then some 'f'
  else if c = '\n' then some 'n'
  else if c = '\r' then some 'r'
  else if c = '\t' then some 't'
  else none

/-- One byte inside of quotation marks. -/
def escapedByte (c : Char) : List Char :=
  match shortEscape c with
  | some letter => ['\\', letter]
  | none =>
    if c.toNat < 0x20 then
      ['\\', 'u', '0', '0', Nat.digitChar (c.toNat / 16), Nat.digitChar (c.toNat % 16)]
    else [c]

def quotedText (text : List Char) : List Char := '"' :: (text.flatMap escapedByte ++ ['"'])

/-- `dump` of a string; nothing when the text is no UTF-8. -/
def dumpString (text : List Char) : Option (List Char) :=
  if isUtf8 text then some (quotedText text) else none

/-- What may stand between quotation marks: a backslash hides the character behind it. -/
inductive Escaped : List Char → Prop
  | nil : Escaped []
  | plain {c : Char} {rest : List Char} : c ≠ '"' → c ≠ '\\' → Escaped rest → Escaped (c :: rest)
  | hidden {c : Char} {rest : List Char} : Escaped rest → Escaped ('\\' :: c :: rest)

/-- No control character and nothing with a meaning of its own. -/
def IsOrdinary (c : Char) : Prop := c ≠ '"' ∧ c ≠ '\\' ∧ c ≠ '=' ∧ 0x20 ≤ c.toNat

instance (c : Char) : Decidable (IsOrdinary c) := inferInstanceAs (Decidable (_ ∧ _ ∧ _ ∧ _))

variable {n : ℕ} {c letter : Char} {rest : List Char} {d : Char} {text : List Char}

theorem isOrdinary_digitChar (h : n < 16) : IsOrdinary (Nat.digitChar n) := by
  have hall : ∀ n : Fin 16, IsOrdinary (Nat.digitChar n) := by decide
  exact hall ⟨n, h⟩

theorem isOrdinary_highDigit (h : n < 0x20) : IsOrdinary (Nat.digitChar (n / 16)) :=
  isOrdinary_digitChar (Nat.div_lt_of_lt_mul (Nat.lt_trans h (by decide : 0x20 < 16 * 16)))

theorem ne_of_shortEscape (h : shortEscape c = none) : c ≠ '"' ∧ c ≠ '\\' := by
  constructor
  · rintro rfl
    exact absurd h (by decide)
  · rintro rfl
    exact absurd h (by decide)

theorem letter_of_shortEscape (h : shortEscape c = some letter) : letter ≠ '=' ∧ 0x20 ≤ letter.toNat := by
  simp only [shortEscape] at h
  repeat' split at h
  all_goals
    cases h
    try exact ⟨by decide, by decide⟩

theorem Escaped.escapedByte (c : Char) (h : Escaped rest) : Escaped (escapedByte c ++ rest) := by
  rw [Json.escapedByte]
  cases hletter : shortEscape c with
  | some letter => exact .hidden h
  | none =>
    dsimp only
    split_ifs with hcontrol
    · have hhigh := isOrdinary_highDigit hcontrol
      have hlow := isOrdinary_digitChar (Nat.mod_lt c.toNat (show 16 > 0 by decide))
      have hdigits : Escaped (Nat.digitChar (c.toNat / 16) :: Nat.digitChar (c.toNat % 16) :: rest) :=
        .plain hhigh.1 hhigh.2.1 (.plain hlow.1 hlow.2.1 h)
      have hzeros := @plain '0' _ (by decide) (by decide) (@plain '0' _ (by decide) (by decide) hdigits)
      exact .hidden hzeros
    · exact .plain (ne_of_shortEscape hletter).1 (ne_of_shortEscape hletter).2 h

/-- The inside of a written text. -/
theorem escaped_flatMap (text : List Char) : Escaped (text.flatMap escapedByte) := by
  induction text with
  | nil => exact .nil
  | cons c rest ih =>
    rw [List.flatMap_cons]
    exact ih.escapedByte c

/-- No byte that is written is a control character, and an equality sign is only written for itself. -/
theorem of_mem_escapedByte (h : d ∈ escapedByte c) : 0x20 ≤ d.toNat ∧ (d = '=' → c = '=') := by
  rw [escapedByte] at h
  cases hletter : shortEscape c with
  | some letter =>
    rw [hletter] at h
    have hordinary := letter_of_shortEscape hletter
    rcases List.mem_pair.mp h with rfl | rfl
    · exact ⟨by decide, nofun⟩
    · exact ⟨hordinary.2, fun heq => absurd heq hordinary.1⟩
  | none =>
    rw [hletter] at h
    dsimp only at h
    split_ifs at h with hcontrol
    · have hhigh := isOrdinary_highDigit hcontrol
      have hlow := isOrdinary_digitChar (Nat.mod_lt c.toNat (show 16 > 0 by decide))
      have hordinary : d = '\\' ∨ IsOrdinary d := by
        simp only [List.mem_cons, List.not_mem_nil, or_false] at h
        rcases h with rfl | rfl | rfl | rfl | rfl | rfl
        · exact .inl rfl
        · exact .inr (by decide)
        · exact .inr (by decide)
        · exact .inr (by decide)
        · exact .inr hhigh
        · exact .inr hlow
      rcases hordinary with rfl | hordinary
      · exact ⟨by decide, nofun⟩
      · exact ⟨hordinary.2.2.2, fun heq => absurd heq hordinary.2.2.1⟩
    · rw [List.mem_singleton] at h
      exact ⟨h ▸ Nat.not_lt.mp hcontrol, fun heq => h ▸ heq⟩

theorem not_control_of_mem_quotedText (h : d ∈ quotedText text) : 0x20 ≤ d.toNat := by
  rw [quotedText, List.mem_cons, List.mem_append, List.mem_flatMap, List.mem_singleton] at h
  rcases h with rfl | ⟨c, -, hd⟩ | rfl
  · decide
  · exact (of_mem_escapedByte hd).1
  · decide

theorem equal_notMem_quotedText (h : '=' ∉ text) : '=' ∉ quotedText text := by
  intro hmem
  rw [quotedText, List.mem_cons, List.mem_append, List.mem_flatMap, List.mem_singleton] at hmem
  rcases hmem with hquote | ⟨c, hc, hd⟩ | hquote
  · exact absurd hquote (by decide)
  · exact h ((of_mem_escapedByte hd).2 rfl ▸ hc)
  · exact absurd hquote (by decide)

theorem getLast?_quotedText (text : List Char) : (quotedText text).getLast? = some '"' := by
  rw [quotedText, ← List.cons_append, List.getLast?_concat]

/-- The value of a lower case hexadecimal digit. -/
def hexValue (c : Char) : ℕ := if c.isDigit then c.toNat - '0'.toNat else c.toNat - 'a'.toNat + 10

def letterValue (letter : Char) : Char :=
  if letter = 'b' then '\x08'
  else if letter = 'f' then '\x0c'
  else if letter = 'n' then '\n'
  else if letter = 'r' then '\r'
  else if letter = 't' then '\t'
  else letter

/-- Read the inside of a JSON string, up to the quotation mark at the end of the text, with the escapes that
are written. -/
def readEscapes : List Char → Option (List Char)
  | [] => none
  | ['"'] => some []
  | '\\' :: 'u' :: '0' :: '0' :: high :: low :: rest =>
    (readEscapes rest).map (Char.ofNat (16 * hexValue high + hexValue low) :: ·)
  | '\\' :: letter :: rest => (readEscapes rest).map (letterValue letter :: ·)
  | c :: rest => if c = '"' then none else (readEscapes rest).map (c :: ·)

/-- `parse` of a text that is one JSON string. -/
def parseString : List Char → Option (List Char)
  | '"' :: rest => readEscapes rest
  | _ => none

theorem hexValue_digitChar (h : n < 16) : hexValue (Nat.digitChar n) = n := by
  have hall : ∀ n : Fin 16, hexValue (Nat.digitChar n) = n := by decide
  exact hall ⟨n, h⟩

theorem readEscapes_letter (h : shortEscape c = some letter) (rest : List Char) :
    readEscapes ('\\' :: letter :: rest) = (readEscapes rest).map (c :: ·) := by
  simp only [shortEscape] at h
  repeat' split at h
  all_goals
    cases h
    try subst c
    try rfl

theorem readEscapes_escapedByte (c : Char) (hrest : rest ≠ []) :
    readEscapes (escapedByte c ++ rest) = (readEscapes rest).map (c :: ·) := by
  rw [escapedByte]
  cases hletter : shortEscape c with
  | some letter => exact readEscapes_letter hletter rest
  | none =>
    dsimp only
    split_ifs with hcontrol
    · have hhigh : c.toNat / 16 < 16 := Nat.div_lt_of_lt_mul (Nat.lt_trans hcontrol (by decide))
      have hlow : c.toNat % 16 < 16 := Nat.mod_lt c.toNat (by decide)
      have hvalue : Char.ofNat (16 * hexValue (Nat.digitChar (c.toNat / 16)) +
          hexValue (Nat.digitChar (c.toNat % 16))) = c := by
        rw [hexValue_digitChar hhigh, hexValue_digitChar hlow, Nat.div_add_mod]
        exact Char.ofNat_toNat c
      calc readEscapes ('\\' :: 'u' :: '0' :: '0' :: Nat.digitChar (c.toNat / 16) ::
            Nat.digitChar (c.toNat % 16) :: rest)
        _ = (readEscapes rest).map (Char.ofNat (16 * hexValue (Nat.digitChar (c.toNat / 16)) +
              hexValue (Nat.digitChar (c.toNat % 16))) :: ·) := rfl
        _ = (readEscapes rest).map (c :: ·) := by rw [hvalue]
    · have hne := ne_of_shortEscape hletter
      rw [List.singleton_append, readEscapes]
      · exact if_neg hne.1
      all_goals simp_all

/-- A written text is read back. -/
theorem parseString_quotedText (text : List Char) : parseString (quotedText text) = some text := by
  have hinside : readEscapes (text.flatMap escapedByte ++ ['"']) = some text := by
    induction text with
    | nil => rfl
    | cons c rest ih =>
      rw [List.flatMap_cons, List.append_assoc, readEscapes_escapedByte c (by simp), ih]
      rfl
  exact hinside

end Json
