import WaterStructure.Core.JavaStates

/-!
# The two loose comparisons of Java values

One comparison reads both values as numbers and compares their texts where neither is one; the other one
compares normal forms. A value that begins with white space is a number for the second one only, and one
that begins with two signs for the first one only, so the two comparisons can differ on these values.
-/

namespace WaterStructure

/-- The value begins with white space. -/
def StartsWithSpace (value : List Char) : Prop := ∃ c rest, value = c :: rest ∧ isSpace c = true

/-- The value begins with a plus and a minus. -/
def StartsWithSigns (value : List Char) : Prop := ∃ rest, value = '+' :: '-' :: rest

instance (value : List Char) : Decidable (StartsWithSpace value) :=
  match value with
  | [] => .isFalse fun ⟨_, _, h, _⟩ => List.cons_ne_nil _ _ h.symm
  | c :: rest =>
    if h : isSpace c = true then .isTrue ⟨c, rest, rfl, h⟩
    else .isFalse fun ⟨_, _, hsame, hspace⟩ => h ((List.cons.inj hsame).1 ▸ hspace)

/-- The number that a value spells; what stands behind white space is read by `std::stoll`. -/
def spelledNumber (value : List Char) : Option ℤ :=
  if StartsWithSpace value then stollWhole value else fuzzyJavaInteger value

/-- The values differ as texts and spell one number, and either white space or two signs keep one of the
comparisons from seeing it. -/
def ReadDifferently (left right : List Char) : Prop :=
  left ≠ right ∧ (∃ number, spelledNumber left = some number ∧ spelledNumber right = some number) ∧
    ¬ (StartsWithSpace left ∨ StartsWithSpace right ↔ StartsWithSigns left ∨ StartsWithSigns right)

/-! ## Digits -/

variable {text value : List Char} {number : ℤ} {left right : List Char}

theorem digitsValue_eq_some {value : ℤ} (h : digitsValue text = some value) :
    text ≠ [] ∧ (∀ c ∈ text, c.isDigit = true) ∧ 0 ≤ value := by
  rw [digitsValue] at h
  split at h
  case isTrue => cases h
  case isFalse hdigits =>
    rw [Bool.not_eq_true, Bool.or_eq_false_iff, List.isEmpty_eq_false_iff, List.any_eq_false] at hdigits
    refine ⟨hdigits.1, fun c hc => ?_, ?_⟩
    · have hc := hdigits.2 c hc
      rwa [Bool.not_eq_true, Bool.not_eq_false'] at hc
    · cases h
      have hfold (text : List Char) (init : ℤ) (hinit : 0 ≤ init) :
          0 ≤ text.foldl (fun (value : ℤ) c => value * 10 + (c.toNat - '0'.toNat : ℕ)) init := by
        induction text generalizing init with
        | nil => exact hinit
        | cons c rest ih => exact ih _ (Int.add_nonneg (Int.mul_nonneg hinit (by decide)) (Int.natCast_nonneg _))
      exact hfold text 0 le_rfl

/-- Characters that do not change when letters are made small, and come from nothing else. -/
def Caseless (c : Char) : Prop := c.isDigit = true ∨ c = '-' ∨ c = '+' ∨ isSpace c = true

theorem toLower_eq_caseless {c d : Char} (hd : Caseless d) : toLower c = d ↔ c = d := by
  have hlow : ¬ ('a' ≤ d ∧ d ≤ 'z') ∧ ¬ ('A' ≤ d ∧ d ≤ 'Z') := by
    rcases hd with hdigit | rfl | rfl | hspace
    · have hnine : d.toNat ≤ 57 := (Char.isDigit_iff_toNat.mp hdigit).2
      constructor
      · rintro ⟨hle, -⟩
        have hle : 97 ≤ d.toNat := hle
        omega
      · rintro ⟨hle, -⟩
        have hle : 65 ≤ d.toNat := hle
        omega
    · decide
    · decide
    · simp only [isSpace, Bool.or_eq_true, decide_eq_true_eq] at hspace
      rcases hspace with ((((rfl | rfl) | rfl) | rfl) | rfl) | rfl <;> decide
  rw [toLower]
  split_ifs with hupper
  · refine iff_of_false (fun hsame => hlow.1 ?_) (fun hsame => hlow.2 (hsame ▸ hupper))
    obtain ⟨hle, hge⟩ := hupper
    have hle : 65 ≤ c.toNat := hle
    have hge : c.toNat ≤ 90 := hge
    have hsmall : ∀ n < 91, 65 ≤ n → 'a' ≤ Char.ofNat (n + 32) ∧ Char.ofNat (n + 32) ≤ 'z' := by decide
    rw [← hsame]
    exact hsmall c.toNat (by omega) hle
  · exact Iff.rfl

/-- A text of such characters is the small form of itself only. -/
theorem map_toLower_eq {other : List Char} (h : ∀ c ∈ text, Caseless c) :
    other.map toLower = text ↔ other = text := by
  induction other generalizing text with
  | nil => exact Iff.rfl
  | cons d rest ih =>
    cases text with
    | nil => exact iff_of_false (List.cons_ne_nil _ _) (List.cons_ne_nil _ _)
    | cons c text =>
      rw [List.map_cons, List.cons.injEq, List.cons.injEq, toLower_eq_caseless (h c List.mem_cons_self),
        ih fun c hc => h c (List.mem_cons_of_mem _ hc)]

theorem isDigit_toLower (c : Char) : (toLower c).isDigit = c.isDigit := by
  rw [Bool.eq_iff_iff]
  constructor
  · intro h
    rwa [(toLower_eq_caseless (.inl h)).mp rfl]
  · intro h
    rwa [(toLower_eq_caseless (.inl h)).mpr rfl]

theorem isSpace_toLower (c : Char) : isSpace (toLower c) = isSpace c := by
  rw [Bool.eq_iff_iff]
  constructor
  · intro h
    rwa [(toLower_eq_caseless (.inr (.inr (.inr h)))).mp rfl]
  · intro h
    rwa [(toLower_eq_caseless (.inr (.inr (.inr h)))).mpr rfl]

theorem digitsValue_map_toLower (text : List Char) : digitsValue (text.map toLower) = digitsValue text := by
  by_cases hdigits : ∀ c ∈ text, c.isDigit = true
  · rw [(map_toLower_eq fun c hc => .inl (hdigits c hc)).mpr rfl]
  · have hnone {other : List Char} (h : ¬ ∀ c ∈ other, c.isDigit = true) : digitsValue other = none := by
      cases hvalue : digitsValue other with
      | none => rfl
      | some value => exact absurd (digitsValue_eq_some hvalue).2.1 h
    rw [hnone hdigits]
    refine hnone fun hall => hdigits fun c hc => ?_
    rw [← isDigit_toLower]
    exact hall _ (List.mem_map_of_mem hc)

/-! ## Signed numbers -/

/-- The numbers of 64 bits. -/
def IsInt64 (value : ℤ) : Prop := -9223372036854775808 ≤ value ∧ value ≤ 9223372036854775807

theorem fromChars64_minus (digits : List Char) : fromChars64 ('-' :: digits) =
    ((digitsValue digits).map (- ·)).bind fun value =>
      if -9223372036854775808 ≤ value ∧ value ≤ 9223372036854775807 then some value else none := rfl

theorem fromChars64_of_ne (h : ∀ digits, text ≠ '-' :: digits) : fromChars64 text =
    (digitsValue text).bind fun value =>
      if -9223372036854775808 ≤ value ∧ value ≤ 9223372036854775807 then some value else none := by
  unfold fromChars64
  split
  case h_1 digits => exact absurd rfl (h digits)
  case h_2 => rfl

/-- A number has digits, and perhaps a minus before them. -/
theorem fromChars64_eq_some {value : ℤ} (h : fromChars64 text = some value) :
    IsInt64 value ∧ text ≠ [] ∧ ∀ c ∈ text, c.isDigit = true ∨ c = '-' := by
  have hrange {found : Option ℤ} (hfound : (found.bind fun value =>
      if -9223372036854775808 ≤ value ∧ value ≤ 9223372036854775807 then some value else none) =
        some value) : found = some value ∧ IsInt64 value := by
    obtain ⟨number, hnumber, hin⟩ := Option.bind_eq_some_iff.mp hfound
    split at hin
    case isTrue hint =>
      cases hin
      exact ⟨hnumber, hint⟩
    case isFalse => cases hin
  by_cases hminus : ∃ digits, text = '-' :: digits
  · obtain ⟨digits, rfl⟩ := hminus
    obtain ⟨hfound, hint⟩ := hrange ((fromChars64_minus digits).symm.trans h)
    obtain ⟨number, hnumber, -⟩ := Option.map_eq_some_iff.mp hfound
    refine ⟨hint, List.cons_ne_nil _ _, fun c hc => ?_⟩
    rcases List.mem_cons.mp hc with rfl | hc
    · exact .inr rfl
    · exact .inl ((digitsValue_eq_some hnumber).2.1 c hc)
  · rw [fromChars64_of_ne fun digits hsame => hminus ⟨digits, hsame⟩] at h
    obtain ⟨hfound, hint⟩ := hrange h
    obtain ⟨hne, hdigits, -⟩ := digitsValue_eq_some hfound
    exact ⟨hint, hne, fun c hc => .inl (hdigits c hc)⟩

theorem fromChars64_decimal {value : ℤ} (h : IsInt64 value) : fromChars64 (decimal value) = some value := by
  rw [decimal]
  split_ifs with hneg
  · have habs : -((value.natAbs : ℕ) : ℤ) = value := by omega
    rw [fromChars64_minus, digitsValue_toDigits, Option.map_some, habs]
    exact if_pos h
  · have habs : ((value.natAbs : ℕ) : ℤ) = value := by omega
    rw [fromChars64_of_ne fun digits => toDigits_ne_minus _ digits, digitsValue_toDigits, habs]
    exact if_pos h

theorem fromChars64_map_toLower (text : List Char) :
    fromChars64 (text.map toLower) = fromChars64 text := by
  by_cases hminus : ∃ digits, text = '-' :: digits
  · obtain ⟨digits, rfl⟩ := hminus
    rw [List.map_cons, show toLower '-' = '-' from rfl, fromChars64_minus, fromChars64_minus,
      digitsValue_map_toLower]
  · have hmap (digits : List Char) : text.map toLower ≠ '-' :: digits := by
      intro hsame
      cases text with
      | nil => cases hsame
      | cons c rest =>
        have hhead := (List.cons.inj hsame).1
        exact hminus ⟨rest, by rw [(toLower_eq_caseless (.inr (.inl rfl))).mp hhead]⟩
    rw [fromChars64_of_ne hmap, fromChars64_of_ne fun digits hsame => hminus ⟨digits, hsame⟩,
      digitsValue_map_toLower]

/-- A plus is passed over, but no second sign. -/
theorem stollWhole_plus {number : List Char} (h : text.dropWhile isSpace = '+' :: number) :
    stollWhole text = if number.head? = some '-' then none else fromChars64 number := by
  rw [stollWhole, h]
  rfl

theorem stollWhole_of_ne (h : ∀ number, text.dropWhile isSpace ≠ '+' :: number) :
    stollWhole text = fromChars64 (text.dropWhile isSpace) := by
  rw [stollWhole]
  split
  case h_1 number hnumber => exact absurd hnumber (h number)
  case h_2 => rfl

theorem stollWhole_map_toLower (text : List Char) : stollWhole (text.map toLower) = stollWhole text := by
  have hspace : (text.map toLower).dropWhile isSpace = (text.dropWhile isSpace).map toLower := by
    rw [List.dropWhile_map]
    congr 1
    have hsame : isSpace ∘ toLower = isSpace := funext isSpace_toLower
    rw [hsame]
  by_cases hplus : ∃ number, text.dropWhile isSpace = '+' :: number
  · obtain ⟨number, hnumber⟩ := hplus
    have hsmall : (text.map toLower).dropWhile isSpace = '+' :: number.map toLower := by
      rw [hspace, hnumber]
      rfl
    have hhead : (number.map toLower).head? = some '-' ↔ number.head? = some '-' := by
      cases number with
      | nil => exact Iff.rfl
      | cons d others =>
        rw [List.map_cons, List.head?_cons, List.head?_cons, Option.some_inj, Option.some_inj,
          toLower_eq_caseless (.inr (.inl rfl))]
    rw [stollWhole_plus hnumber, stollWhole_plus hsmall, fromChars64_map_toLower]
    exact if_congr hhead rfl rfl
  · have hsmall (number : List Char) : (text.map toLower).dropWhile isSpace ≠ '+' :: number := by
      rw [hspace]
      intro hsame
      cases hnumber : text.dropWhile isSpace with
      | nil =>
        rw [hnumber] at hsame
        cases hsame
      | cons c rest =>
        rw [hnumber] at hsame
        have hhead := (List.cons.inj hsame).1
        exact hplus ⟨rest, by rw [hnumber, (toLower_eq_caseless (.inr (.inr (.inl rfl)))).mp hhead]⟩
    rw [stollWhole_of_ne hsmall, stollWhole_of_ne fun number hnumber => hplus ⟨number, hnumber⟩, hspace,
      fromChars64_map_toLower]

/-! ## The normal form -/

/-- The number of a value for the normal form. -/
def valueNumber (value : List Char) : Option ℤ :=
  if asciiIequals value "true".toList ∨ asciiIequals value "1b".toList ∨ value = ['1'] then some 1
  else if asciiIequals value "false".toList ∨ asciiIequals value "0b".toList ∨ value = ['0'] then some 0
  else stollWhole value

/-- The normal form is that of the number, or the text in small letters. -/
theorem fuzzyJavaValue_eq (value : List Char) :
    fuzzyJavaValue value = ((valueNumber value).map decimal).getD (value.map toLower) := by
  have hequal (text : String) (hsmall : text.toList.map toLower = text.toList) :
      asciiIequals value text.toList = true ↔ value.map toLower = text.toList := by
    rw [asciiIequals, decide_eq_true_iff, hsmall]
  have hdigit (c : Char) (hc : c.isDigit = true) : value = [c] ↔ value.map toLower = [c] := by
    refine (map_toLower_eq fun d hd => ?_).symm
    rw [List.mem_singleton.mp hd]
    exact .inl hc
  rw [fuzzyJavaValue, valueNumber, stollWhole_map_toLower]
  by_cases hone : value.map toLower = "true".toList ∨ value.map toLower = "1b".toList ∨
      value.map toLower = ['1']
  · have hone' := hone
    rw [← hequal "true" rfl, ← hequal "1b" rfl, ← hdigit '1' rfl] at hone'
    rw [if_pos hone, if_pos hone']
    rfl
  · have hone' := hone
    rw [← hequal "true" rfl, ← hequal "1b" rfl, ← hdigit '1' rfl] at hone'
    rw [if_neg hone, if_neg hone']
    by_cases hzero : value.map toLower = "false".toList ∨ value.map toLower = "0b".toList ∨
        value.map toLower = ['0']
    · have hzero' := hzero
      rw [← hequal "false" rfl, ← hequal "0b" rfl, ← hdigit '0' rfl] at hzero'
      rw [if_pos hzero, if_pos hzero']
      rfl
    · have hzero' := hzero
      rw [← hequal "false" rfl, ← hequal "0b" rfl, ← hdigit '0' rfl] at hzero'
      rw [if_neg hzero, if_neg hzero']
      cases stollWhole value with
      | none => rfl
      | some number => rfl

/-- A sign or a space begins none of the names of truth values. -/
theorem not_named {c : Char} {rest : List Char} (hc : c = '+' ∨ isSpace c = true) :
    ¬ (asciiIequals (c :: rest) "true".toList ∨ asciiIequals (c :: rest) "1b".toList ∨ c :: rest = ['1']) ∧
      ¬ (asciiIequals (c :: rest) "false".toList ∨ asciiIequals (c :: rest) "0b".toList ∨
        c :: rest = ['0']) := by
  have hsmall : toLower c = c := (toLower_eq_caseless (hc.elim (fun h => .inr (.inr (.inl h)))
    fun h => .inr (.inr (.inr h)))).mpr rfl
  have hne {d : Char} (hplus : d ≠ '+') (hspace : isSpace d = false) : c ≠ d := by
    rintro rfl
    rcases hc with rfl | hc
    · exact hplus rfl
    · rw [hspace] at hc
      cases hc
  have hhead {d : Char} {text : List Char} (hplus : toLower d ≠ '+') (hspace : isSpace (toLower d) = false) :
      ¬ asciiIequals (c :: rest) (d :: text) = true := by
    rw [asciiIequals, decide_eq_true_iff, List.map_cons, List.map_cons, hsmall]
    exact fun hsame => hne hplus hspace (List.cons.inj hsame).1
  constructor
  · rintro (h | h | h)
    · exact hhead (by decide) rfl h
    · exact hhead (by decide) rfl h
    · exact hne (by decide) rfl (List.cons.inj h).1
  · rintro (h | h | h)
    · exact hhead (by decide) rfl h
    · exact hhead (by decide) rfl h
    · exact hne (by decide) rfl (List.cons.inj h).1

theorem dropWhile_isSpace (h : ¬ StartsWithSpace value) : value.dropWhile isSpace = value := by
  cases value with
  | nil => rfl
  | cons c rest => exact List.dropWhile_cons_of_neg fun hc => h ⟨c, rest, rfl, hc⟩

theorem not_startsWithSpace_of_signs (h : StartsWithSigns value) : ¬ StartsWithSpace value := by
  obtain ⟨rest, rfl⟩ := h
  rintro ⟨c, others, hsame, hspace⟩
  rw [← (List.cons.inj hsame).1] at hspace
  cases hspace

/-- Behind white space only the normal form has a number. -/
theorem numbers_of_space (h : StartsWithSpace value) :
    fuzzyJavaInteger value = none ∧ valueNumber value = spelledNumber value := by
  rw [spelledNumber, if_pos h]
  obtain ⟨c, rest, rfl, hspace⟩ := h
  obtain ⟨hone, hzero⟩ := @not_named c rest (.inr hspace)
  refine ⟨?_, ?_⟩
  · unfold fuzzyJavaInteger
    rw [if_neg hone, if_neg hzero]
    have hread : fromChars64 (c :: rest) = none := by
      cases hvalue : fromChars64 (c :: rest) with
      | none => rfl
      | some value =>
        rcases (fromChars64_eq_some hvalue).2.2 c List.mem_cons_self with hdigit | rfl
        · have hnot : ¬ isSpace c = true := by
            simp only [isSpace, Bool.or_eq_true, decide_eq_true_eq]
            rintro (((((rfl | rfl) | rfl) | rfl) | rfl) | rfl) <;> revert hdigit <;> decide
          exact absurd hspace hnot
        · cases hspace
    split
    case h_1 number heq =>
      rw [(List.cons.inj heq).1] at hspace
      cases hspace
    case h_2 => exact hread
  · rw [valueNumber, if_neg hone, if_neg hzero]

/-- Two signs are a number for the comparison of numbers only. -/
theorem numbers_of_signs (h : StartsWithSigns value) :
    fuzzyJavaInteger value = spelledNumber value ∧ valueNumber value = none := by
  rw [spelledNumber, if_neg (not_startsWithSpace_of_signs h)]
  have hdrop := dropWhile_isSpace (not_startsWithSpace_of_signs h)
  obtain ⟨rest, rfl⟩ := h
  obtain ⟨hone, hzero⟩ := @not_named '+' ('-' :: rest) (.inl rfl)
  refine ⟨rfl, ?_⟩
  rw [valueNumber, if_neg hone, if_neg hzero, stollWhole_plus hdrop]
  exact if_pos rfl

/-- Any other value has one number. -/
theorem numbers_of_plain (hspace : ¬ StartsWithSpace value) (hsigns : ¬ StartsWithSigns value) :
    fuzzyJavaInteger value = spelledNumber value ∧ valueNumber value = spelledNumber value := by
  rw [spelledNumber, if_neg hspace]
  refine ⟨rfl, ?_⟩
  unfold fuzzyJavaInteger
  rw [valueNumber]
  refine if_congr Iff.rfl rfl (if_congr Iff.rfl rfl ?_)
  have hdrop := dropWhile_isSpace hspace
  split
  case h_1 number =>
    rw [stollWhole_plus hdrop]
    refine if_neg fun hhead => hsigns ?_
    obtain ⟨others, rfl⟩ : ∃ others, number = '-' :: others := by
      cases number with
      | nil => cases hhead
      | cons d others => exact ⟨others, by rw [Option.some.inj hhead]⟩
    exact ⟨others, rfl⟩
  case h_2 hne =>
    rw [stollWhole_of_ne fun number hnumber => hne number (hdrop.symm.trans hnumber), hdrop]

/-! ## The comparisons -/

/-- Two values are alike if they have one number, or none and the same text. -/
def SameRead (first second : Option ℤ) (same : Prop) : Prop :=
  (∃ number, first = some number ∧ second = some number) ∨ (first = none ∧ second = none ∧ same)

theorem fuzzyJavaEqual_iff (left right : List Char) : fuzzyJavaEqual left right = true ↔
    SameRead (fuzzyJavaInteger left) (fuzzyJavaInteger right) (left.map toLower = right.map toLower) := by
  rw [fuzzyJavaEqual, SameRead]
  cases fuzzyJavaInteger left with
  | none =>
    cases fuzzyJavaInteger right with
    | none => simp [asciiIequals]
    | some number => simp
  | some first =>
    cases fuzzyJavaInteger right with
    | none => simp
    | some second => simp [eq_comm]

theorem stollWhole_eq_some (h : stollWhole value = some number) : IsInt64 number ∧ ∀ c ∈ value, Caseless c := by
  have hchars : ∃ number', fromChars64 number' = some number ∧
      ∀ c ∈ value.dropWhile isSpace, c ∈ number' ∨ c = '+' := by
    by_cases hplus : ∃ number, value.dropWhile isSpace = '+' :: number
    · obtain ⟨digits, hdigits⟩ := hplus
      rw [stollWhole_plus hdigits] at h
      split at h
      · cases h
      · refine ⟨digits, h, fun c hc => ?_⟩
        rw [hdigits] at hc
        exact (List.mem_cons.mp hc).symm
    · rw [stollWhole_of_ne fun digits hdigits => hplus ⟨digits, hdigits⟩] at h
      exact ⟨_, h, fun c hc => .inl hc⟩
  obtain ⟨digits, hdigits, hmem⟩ := hchars
  obtain ⟨hint, -, hall⟩ := fromChars64_eq_some hdigits
  refine ⟨hint, fun c hc => ?_⟩
  rw [← List.takeWhile_append_dropWhile (p := isSpace) (l := value), List.mem_append] at hc
  rcases hc with hspace | hrest
  · exact .inr (.inr (.inr (List.mem_takeWhile_imp hspace)))
  · rcases hmem c hrest with hdigit | hplus
    · exact (hall c hdigit).imp_right .inl
    · exact .inr (.inr (.inl hplus))

theorem isInt64_of_valueNumber (h : valueNumber value = some number) : IsInt64 number := by
  rw [valueNumber] at h
  split_ifs at h
  · cases h
    exact ⟨by decide, by decide⟩
  · cases h
    exact ⟨by decide, by decide⟩
  · exact (stollWhole_eq_some h).1

/-- A text that is no number is not the decimal of one. -/
theorem map_toLower_ne_decimal (h : valueNumber value = none) (hnumber : IsInt64 number) :
    value.map toLower ≠ decimal number := by
  intro hsame
  have hcaseless : ∀ c ∈ decimal number, Caseless c := fun c hc =>
    (isDigit_of_mem_decimal hc).imp_right .inl
  rw [map_toLower_eq hcaseless] at hsame
  have hchars {c : Char} (hc : c ∈ value) (hdigit : c.isDigit = false) (hminus : c ≠ '-') : False := by
    rw [hsame] at hc
    rcases isDigit_of_mem_decimal hc with hd | hm
    · rw [hdigit] at hd
      cases hd
    · exact hminus hm
  have hspace : value.dropWhile isSpace = value := by
    refine dropWhile_isSpace ?_
    rintro ⟨c, rest, rfl, hc⟩
    simp only [isSpace, Bool.or_eq_true, decide_eq_true_eq] at hc
    rcases hc with ((((rfl | rfl) | rfl) | rfl) | rfl) | rfl <;>
      exact hchars List.mem_cons_self rfl (by decide)
  have hread : stollWhole value = some number := by
    rw [stollWhole_of_ne, hspace, hsame, fromChars64_decimal hnumber]
    intro rest hrest
    rw [hspace] at hrest
    refine @hchars '+' ?_ rfl (by decide)
    rw [hrest]
    exact List.mem_cons_self
  rw [valueNumber] at h
  split at h
  case isTrue => cases h
  case isFalse =>
    split at h
    · cases h
    · rw [hread] at h
      cases h

theorem fuzzyJavaValue_eq_iff (left right : List Char) : fuzzyJavaValue left = fuzzyJavaValue right ↔
    SameRead (valueNumber left) (valueNumber right) (left.map toLower = right.map toLower) := by
  rw [fuzzyJavaValue_eq, fuzzyJavaValue_eq, SameRead]
  cases hleft : valueNumber left with
  | none =>
    cases hright : valueNumber right with
    | none => simp
    | some number =>
      have hne := map_toLower_ne_decimal hleft (isInt64_of_valueNumber hright)
      simpa using hne
  | some first =>
    cases hright : valueNumber right with
    | none =>
      have hne := map_toLower_ne_decimal hright (isInt64_of_valueNumber hleft)
      simpa using hne.symm
    | some second =>
      simp [decimal_injective.eq_iff, eq_comm]

section Hidden

variable {first second : Option ℤ} {same equal : Prop}

/-- A number that only one of the comparisons sees makes the difference if it is the other value's. -/
theorem sameRead_hidden (h : second ≠ none → ¬ same) :
    (SameRead first second same ↔ SameRead first none same) ↔
      ¬ ∃ number, first = some number ∧ second = some number := by
  cases second with
  | none => simp
  | some number =>
    have hsame := h (Option.some_ne_none number)
    simp [SameRead, hsame]

theorem SameRead.comm : SameRead first second same ↔ SameRead second first same := by
  simp only [SameRead, and_comm, and_left_comm, and_assoc]

/-- Where one comparison sees none of the numbers, equal texts make no difference. -/
theorem sameRead_hidden_both (hfirst : first ≠ none → (same ↔ equal)) (hsecond : second ≠ none → (same ↔ equal))
    (hequal : equal → first = second) :
    (SameRead first second same ↔ SameRead none none same) ↔
      equal ∨ ¬ ∃ number, first = some number ∧ second = some number := by
  cases first with
  | none =>
    cases second with
    | none => simp
    | some number =>
      have hnot : ¬ equal := fun h => by cases hequal h
      simp [SameRead, hsecond (Option.some_ne_none number), hnot]
  | some number =>
    have hsame := hfirst (Option.some_ne_none number)
    cases second with
    | none =>
      have hnot : ¬ equal := fun h => by cases hequal h
      simp [SameRead, hsame, hnot]
    | some other =>
      by_cases heq : equal
      · have hvalue := Option.some.inj (hequal heq)
        simp [SameRead, hsame, heq, hvalue]
      · simp [SameRead, hsame, heq]

end Hidden

theorem spelledNumber_of_signs {rest : List Char} :
    spelledNumber ('+' :: '-' :: rest) = fromChars64 ('-' :: rest) := by
  obtain ⟨hone, hzero⟩ := @not_named '+' ('-' :: rest) (.inl rfl)
  rw [spelledNumber, if_neg (not_startsWithSpace_of_signs ⟨rest, rfl⟩)]
  unfold fuzzyJavaInteger
  rw [if_neg hone, if_neg hzero]
  rfl

/-- A number behind white space or two signs has no letters. -/
theorem caseless_of_spelledNumber (h : StartsWithSpace value ∨ StartsWithSigns value)
    (hnumber : spelledNumber value ≠ none) : ∀ c ∈ value, Caseless c := by
  obtain ⟨number, hnumber⟩ := Option.ne_none_iff_exists'.mp hnumber
  rcases h with hspace | ⟨rest, rfl⟩
  · rw [spelledNumber, if_pos hspace] at hnumber
    exact (stollWhole_eq_some hnumber).2
  · rw [spelledNumber_of_signs] at hnumber
    intro c hc
    rcases List.mem_cons.mp hc with rfl | hc
    · exact .inr (.inr (.inl rfl))
    · exact ((fromChars64_eq_some hnumber).2.2 c hc).imp_right .inl

theorem map_toLower_eq_iff (h : StartsWithSpace left ∨ StartsWithSigns left)
    (hnumber : spelledNumber left ≠ none) : left.map toLower = right.map toLower ↔ left = right := by
  have hcaseless := caseless_of_spelledNumber h hnumber
  rw [(map_toLower_eq hcaseless).mpr rfl, eq_comm, map_toLower_eq hcaseless, eq_comm]

/-- What the two comparisons say about the values. -/
def ComparedAlike (left right : List Char) : Prop :=
  SameRead (fuzzyJavaInteger left) (fuzzyJavaInteger right) (left.map toLower = right.map toLower) ↔
    SameRead (valueNumber left) (valueNumber right) (left.map toLower = right.map toLower)

theorem ComparedAlike.comm (left right : List Char) : ComparedAlike left right ↔ ComparedAlike right left := by
  rw [ComparedAlike, ComparedAlike, SameRead.comm, @SameRead.comm (valueNumber left), @eq_comm _ (left.map _)]

theorem ReadDifferently.comm (left right : List Char) :
    ReadDifferently left right ↔ ReadDifferently right left := by
  rw [ReadDifferently, ReadDifferently, ne_comm, or_comm, @or_comm (StartsWithSigns left)]
  simp only [and_comm]

/-- A value of a kind of its own differs from one of another kind. -/
theorem comparedAlike_of_plain (hspace : ¬ StartsWithSpace right) (hsigns : ¬ StartsWithSigns right) :
    ComparedAlike left right ↔ ¬ ReadDifferently left right := by
  obtain ⟨hinteger, hvalue⟩ := numbers_of_plain hspace hsigns
  rw [ComparedAlike, ReadDifferently, hinteger, hvalue, or_iff_left hspace, or_iff_left hsigns]
  by_cases hkind : StartsWithSpace left ∨ StartsWithSigns left
  case neg =>
    obtain ⟨hspace', hsigns'⟩ := not_or.mp hkind
    obtain ⟨hinteger', hvalue'⟩ := numbers_of_plain hspace' hsigns'
    rw [hinteger', hvalue']
    exact iff_of_true Iff.rfl fun h => h.2.2 (iff_of_false hspace' hsigns')
  case pos =>
    have hne : left ≠ right := by
      rintro rfl
      exact hkind.elim hspace hsigns
    have hsame : spelledNumber left ≠ none → ¬ left.map toLower = right.map toLower := fun hnumber hsame =>
      hne ((map_toLower_eq_iff hkind hnumber).mp hsame)
    have hdiffer : ¬ (StartsWithSpace left ↔ StartsWithSigns left) := by
      intro hiff
      have hboth := hkind.elim (fun h => And.intro h (hiff.mp h)) fun h => ⟨hiff.mpr h, h⟩
      exact not_startsWithSpace_of_signs hboth.2 hboth.1
    have hnumbers : (left ≠ right ∧ (∃ number, spelledNumber left = some number ∧
        spelledNumber right = some number) ∧ ¬ (StartsWithSpace left ↔ StartsWithSigns left)) ↔
          ∃ number, spelledNumber right = some number ∧ spelledNumber left = some number := by
      simp only [hne, hdiffer, ne_eq, not_false_eq_true, true_and, and_comm]
    have hhidden := @sameRead_hidden (spelledNumber right) _ _ hsame
    rw [hnumbers, ← hhidden]
    rcases hkind with hleft | hleft
    · rw [(numbers_of_space hleft).1, (numbers_of_space hleft).2, SameRead.comm,
        @SameRead.comm (spelledNumber left)]
      exact iff_comm
    · rw [(numbers_of_signs hleft).1, (numbers_of_signs hleft).2, SameRead.comm, @SameRead.comm none]

theorem comparedAlike_of_kinds (hleft : StartsWithSpace left ∨ StartsWithSigns left)
    (hright : StartsWithSpace right ∨ StartsWithSigns right) :
    ComparedAlike left right ↔ ¬ ReadDifferently left right := by
  have hfirst (hnumber : spelledNumber left ≠ none) :
      left.map toLower = right.map toLower ↔ left = right := map_toLower_eq_iff hleft hnumber
  have hsecond (hnumber : spelledNumber right ≠ none) :
      left.map toLower = right.map toLower ↔ left = right := by
    rw [eq_comm, map_toLower_eq_iff hright hnumber, eq_comm]
  by_cases hmixed : StartsWithSpace left ↔ StartsWithSpace right
  case pos =>
    -- both values are hidden from one comparison, and the other one reads them
    have hboth := @sameRead_hidden_both (spelledNumber left) (spelledNumber right) _ _ hfirst hsecond
      fun h => congrArg spelledNumber h
    have hdiffer : ¬ (StartsWithSpace left ∨ StartsWithSpace right ↔
        StartsWithSigns left ∨ StartsWithSigns right) := by
      rw [← hmixed, or_self]
      intro hiff
      by_cases hspace : StartsWithSpace left
      · exact (hiff.mp hspace).elim (fun h => not_startsWithSpace_of_signs h hspace)
          fun h => not_startsWithSpace_of_signs h (hmixed.mp hspace)
      · exact hspace (hiff.mpr (.inl (hleft.resolve_left hspace)))
    have hnumbers : ¬ ReadDifferently left right ↔ left = right ∨ ¬ ∃ number,
        spelledNumber left = some number ∧ spelledNumber right = some number := by
      rw [ReadDifferently, and_iff_left hdiffer, not_and_or, not_ne_iff]
    rw [hnumbers, ← hboth, ComparedAlike]
    by_cases hspace : StartsWithSpace left
    · rw [(numbers_of_space hspace).1, (numbers_of_space hspace).2,
        (numbers_of_space (hmixed.mp hspace)).1, (numbers_of_space (hmixed.mp hspace)).2]
      exact iff_comm
    · have hsigns := hleft.resolve_left hspace
      have hsigns' := hright.resolve_left fun h => hspace (hmixed.mpr h)
      rw [(numbers_of_signs hsigns).1, (numbers_of_signs hsigns).2, (numbers_of_signs hsigns').1,
        (numbers_of_signs hsigns').2]
  case neg =>
    -- each comparison reads one of the values, and nothing is alike
    have hne : left ≠ right := by
      rintro rfl
      exact hmixed Iff.rfl
    have hkinds : (StartsWithSpace left ∧ StartsWithSigns right) ∨
        (StartsWithSigns left ∧ StartsWithSpace right) := by
      by_cases hspace : StartsWithSpace left
      · exact .inl ⟨hspace, hright.resolve_left fun h => hmixed (iff_of_true hspace h)⟩
      · exact .inr ⟨hleft.resolve_left hspace, not_not.mp fun h => hmixed (iff_of_false hspace h)⟩
    have hnot : ¬ ReadDifferently left right := fun h =>
      h.2.2 (hkinds.elim (fun hk => iff_of_true (.inl hk.1) (.inr hk.2))
        fun hk => iff_of_true (.inr hk.2) (.inl hk.1))
    have hnone {number : Option ℤ} (h : number ≠ none → (left.map toLower = right.map toLower ↔ left = right)) :
        (number = none ∧ left.map toLower = right.map toLower) ↔ left.map toLower = right.map toLower := by
      refine and_iff_right_of_imp fun hsame => not_not.mp fun hnumber => hne ((h hnumber).mp hsame)
    refine iff_of_true ?_ hnot
    rw [ComparedAlike]
    rcases hkinds with ⟨hspace, hsigns⟩ | ⟨hsigns, hspace⟩
    · rw [(numbers_of_space hspace).1, (numbers_of_space hspace).2, (numbers_of_signs hsigns).1,
        (numbers_of_signs hsigns).2]
      simp [SameRead, hnone hfirst, hnone hsecond]
    · rw [(numbers_of_space hspace).1, (numbers_of_space hspace).2, (numbers_of_signs hsigns).1,
        (numbers_of_signs hsigns).2]
      simp [SameRead, hnone hfirst, hnone hsecond]

/-- The comparisons agree except on two spellings of one number that one of them cannot read. -/
theorem fuzzyJavaEqual_iff_value (left right : List Char) :
    (fuzzyJavaEqual left right = true ↔ fuzzyJavaValue left = fuzzyJavaValue right) ↔
      ¬ ReadDifferently left right := by
  rw [fuzzyJavaEqual_iff, fuzzyJavaValue_eq_iff]
  by_cases hright : StartsWithSpace right ∨ StartsWithSigns right
  case neg => exact comparedAlike_of_plain (not_or.mp hright).1 (not_or.mp hright).2
  case pos =>
    by_cases hleft : StartsWithSpace left ∨ StartsWithSigns left
    case neg =>
      rw [ReadDifferently.comm]
      exact (ComparedAlike.comm left right).trans
        (comparedAlike_of_plain (not_or.mp hleft).1 (not_or.mp hleft).2)
    case pos => exact comparedAlike_of_kinds hleft hright

/-- A value with a space before it has the normal form of the value, and does not compare equal to it;
two signs compare equal to one, and have another normal form. -/
theorem fuzzyJavaEqual_spaced :
    (fuzzyJavaValue " 5".toList = fuzzyJavaValue "5".toList ∧ fuzzyJavaEqual " 5".toList "5".toList = false) ∧
      fuzzyJavaValue "+-5".toList ≠ fuzzyJavaValue "-5".toList ∧
        fuzzyJavaEqual "+-5".toList "-5".toList = true := by
  decide +kernel

end WaterStructure
