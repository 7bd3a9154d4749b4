import WaterStructure.Formats.FuHongV5Cipher

/-!
# The texts of FuHong V5

Writing and reading are followed rune by rune. The reader's unread bytes, together with the plain text
that belongs to the rest of its stream, are the text that it still has to hand out, wherever the pieces
of the stream, the blocks of the buffer and the requests of the consumer end.
-/

namespace WaterStructure

namespace FuHong

open BufferedStream NestedLoop Utf8

/-! ## Writing -/

variable {tail plain rest : List UInt8} {offset value fuel : ℕ} {block text : List UInt8}

theorem foldlM_continueRune (h : ∀ byte ∈ tail, Continues byte) (bits : ℕ) :
    tail.foldlM continueRune bits = .ok (tail.foldl extend bits) :=
  foldlM_ok (fun _ byte hbyte => if_neg (not_not_intro (h byte hbyte))) bits

/-- The rune at an offset is the one whose bytes stand there. -/
theorem decodeUtf8_encode (hvalue : IsScalar value) (h : plain.drop offset = encode value ++ rest) :
    decodeUtf8 plain offset = .ok (value, (encode value).length) ∧
      plain.drop (offset + (encode value).length) = rest := by
  obtain ⟨first, tail, hencode, ⟨bits, hlead, hbits⟩, hcontinued, -⟩ :=
    spells_encode (lt_of_isScalar hvalue)
  have hfirst : plain[offset]? = some first := by
    rw [← List.head?_drop, h, hencode]
    rfl
  have hlength := congrArg List.length h
  rw [hencode, List.length_drop, List.length_append, List.length_cons] at hlength
  have htail : (plain.drop (offset + 1)).take tail.length = tail := by
    rw [← List.tail_drop, h, hencode]
    exact List.take_left
  refine ⟨?_, ?_⟩
  · rw [decodeUtf8, hfirst]
    dsimp only
    rw [hlead]
    dsimp only
    rw [if_neg (by omega), Nat.add_sub_cancel, htail, foldlM_continueRune hcontinued, hbits, hencode]
    rfl
  · rw [← List.drop_drop, h]
    exact List.drop_left

theorem lt_length_of_drop (hvalue : IsScalar value) (h : plain.drop offset = encode value ++ rest) :
    offset < plain.length := by
  by_contra hend
  rw [List.drop_eq_nil_of_le (not_lt.mp hend)] at h
  exact encode_ne_nil hvalue (List.append_eq_nil_iff.mp h.symm).1

variable {runeIndex : ℕ} {output cipher : List UInt8} {byte : UInt8} {count : ℕ} {first : UInt8}
  {counts : List ℕ} {parts : List (List UInt8)}

/-- A turn of the loop of the writer. -/
theorem encodeFrom_cons (hvalue : IsScalar value) (h : plain.drop offset = encode value ++ rest) :
    encodeFrom plain (fuel + 1) offset runeIndex output =
      encryptRune runeIndex value >>= fun encrypted =>
        encodeFrom plain fuel (offset + (encode value).length) (runeIndex + 1)
          (output ++ encode encrypted) := by
  rw [encodeFrom, if_pos (lt_length_of_drop hvalue h), (decodeUtf8_encode hvalue h).1]
  rfl

/-- Enough turns are left for the rest of the text. -/
theorem enough_of_cons (hvalue : IsScalar value) (hfuel : plain.length ≤ offset + (fuel + 1)) :
    plain.length ≤ offset + (encode value).length + fuel := by
  have := List.length_pos_iff.mpr (encode_ne_nil hvalue)
  omega

theorem encodeFrom_nil (h : plain.drop offset = []) (fuel runeIndex : ℕ) (output : List UInt8) :
    encodeFrom plain fuel offset runeIndex output = .ok output := by
  have hend : ¬ offset < plain.length := not_lt.mpr (List.drop_eq_nil_iff.mp h)
  cases fuel with
  | zero => rfl
  | succ fuel => rw [encodeFrom, if_neg hend]

/-- What the writer writes belongs to its text. -/
theorem encodeFrom_enciphers {plain : List UInt8} {fuel offset runeIndex : ℕ} {text : List Char}
    {output cipher : List UInt8} (htext : plain.drop offset = ofChars text)
    (hfuel : plain.length ≤ offset + fuel)
    (h : encodeFrom plain fuel offset runeIndex output = .ok cipher) :
    ∃ added, cipher = output ++ added ∧ Enciphers runeIndex (ofChars text) added := by
  induction text generalizing fuel offset runeIndex output with
  | nil =>
    rw [encodeFrom_nil htext] at h
    cases h
    exact ⟨[], (List.append_nil _).symm, .nil runeIndex⟩
  | cons c text ih =>
    have hvalue := isScalar_toNat c
    have hcons : ofChars (c :: text) = encode c.toNat ++ ofChars text := by
      rw [encode_toNat]
      rfl
    rw [hcons] at htext
    have hlt := lt_length_of_drop hvalue htext
    obtain ⟨turns, rfl⟩ : ∃ turns, fuel = turns + 1 := ⟨fuel - 1, by omega⟩
    rw [encodeFrom_cons hvalue htext] at h
    obtain ⟨encrypted, hencrypt, h⟩ := exists_of_bind_ok h
    obtain ⟨added, rfl, hrest⟩ := ih (decodeUtf8_encode hvalue htext).2
      (enough_of_cons hvalue hfuel) h
    refine ⟨encode encrypted ++ added, List.append_assoc _ _ _, ?_⟩
    rw [hcons]
    exact .cons hvalue hencrypt hrest

/-- The writer writes what belongs to its text. -/
theorem Enciphers.encodeFrom_ok (h : Enciphers runeIndex rest cipher) (hrest : plain.drop offset = rest)
    (hfuel : plain.length ≤ offset + fuel) :
    encodeFrom plain fuel offset runeIndex output = .ok (output ++ cipher) := by
  induction h generalizing fuel offset output with
  | nil => rw [encodeFrom_nil hrest, List.append_nil]
  | cons hvalue hencrypt _ ih =>
    have hlt := lt_length_of_drop hvalue hrest
    obtain ⟨turns, rfl⟩ : ∃ turns, fuel = turns + 1 := ⟨fuel - 1, by omega⟩
    rw [encodeFrom_cons hvalue hrest, hencrypt, ok_bind,
      ih (decodeUtf8_encode hvalue hrest).2 (enough_of_cons hvalue hfuel), List.append_assoc]

/-- The writer relates exactly the texts that belong together. -/
theorem encodeV5_iff {text : List Char} :
    encodeV5 (ofChars text) = .ok cipher ↔ Enciphers 0 (ofChars text) cipher := by
  have hfuel : (ofChars text).length ≤ 0 + (ofChars text).length := (Nat.zero_add _).ge
  constructor
  · intro h
    obtain ⟨added, rfl, hadded⟩ := @encodeFrom_enciphers _ _ _ _ text _ _ rfl hfuel h
    exact hadded
  · intro h
    exact h.encodeFrom_ok rfl hfuel

example : (encodeV5 [0x41, 0x42]).toOption = some [0x07, 0x38] := by decide +kernel

/-! ## Reading a rune -/

variable {State : Type} {source : Source State}

/-- The encrypted bytes that are still to come. -/
def Decrypting.stream (source : Source State) (s : Decrypting State) : List UInt8 :=
  source.stream s.encrypted

variable {s t : Decrypting State} {r : PlainReader State}

theorem readByte_cons (h : s.stream source = byte :: rest) :
    ∃ t, readByte source s = some (byte, t) ∧
      t.stream source = rest ∧ t.runeIndex = s.runeIndex ∧ t.finished = s.finished := by
  obtain ⟨next, hget, hnext⟩ := Source.get_of_stream h
  refine ⟨{ s with encrypted := next, encryptedOffset := s.encryptedOffset + 1 }, ?_, hnext, rfl, rfl⟩
  rw [readByte, hget]
  rfl

theorem readByte_nil (h : s.stream source = []) : readByte source s = none := by
  rw [readByte, Source.get_of_end h]
  rfl

/-- What reading a byte tells about the stream. -/
theorem readByte_some (h : readByte source s = some (byte, t)) :
    s.stream source = byte :: t.stream source ∧ t.runeIndex = s.runeIndex ∧
      t.finished = s.finished := by
  cases hstream : s.stream source with
  | nil =>
    rw [readByte_nil hstream] at h
    cases h
  | cons first rest =>
    obtain ⟨u, hread, hrest, hindex, hfinished⟩ := readByte_cons hstream
    rw [hread] at h
    cases h
    exact ⟨by rw [hrest], hindex, hfinished⟩

theorem readByte_none (h : readByte source s = none) : s.stream source = [] := by
  cases hstream : s.stream source with
  | nil => rfl
  | cons first rest =>
    obtain ⟨t, hread, -⟩ := readByte_cons hstream
    rw [hread] at h
    cases h

theorem readContinuation_append (hcontinued : ∀ byte ∈ tail, Continues byte) (runeOffset value : ℕ)
    (h : s.stream source = tail ++ rest) :
    ∃ t, readContinuation source runeOffset tail.length value s = .ok (tail.foldl extend value, t) ∧
      t.stream source = rest ∧ t.runeIndex = s.runeIndex ∧ t.finished = s.finished := by
  induction tail generalizing value s with
  | nil => exact ⟨s, rfl, h, rfl, rfl⟩
  | cons byte tail ih =>
    obtain ⟨u, hread, hstream, hindex, hfinished⟩ := readByte_cons h
    obtain ⟨t, hrest, hstream', hindex', hfinished'⟩ := ih
      (fun other hother => hcontinued other (List.mem_cons_of_mem _ hother)) (extend value byte) hstream
    refine ⟨t, ?_, hstream', hindex'.trans hindex, hfinished'.trans hfinished⟩
    rw [List.length_cons, readContinuation, hread]
    dsimp only
    rw [if_neg (not_not_intro (hcontinued byte List.mem_cons_self)), hrest, List.foldl_cons]

theorem readContinuation_ok {runeOffset result : ℕ}
    (h : readContinuation source runeOffset count value s = .ok (result, t)) :
    ∃ tail : List UInt8, tail.length = count ∧ (∀ byte ∈ tail, Continues byte) ∧
      result = tail.foldl extend value ∧ s.stream source = tail ++ t.stream source ∧
      t.runeIndex = s.runeIndex ∧ t.finished = s.finished := by
  induction count generalizing value s with
  | zero =>
    cases h
    exact ⟨[], rfl, fun _ hbyte => absurd hbyte List.not_mem_nil, rfl, rfl, rfl, rfl⟩
  | succ count ih =>
    rw [readContinuation] at h
    split at h
    case h_1 => cases h
    case h_2 byte u hread =>
      obtain ⟨hstream, hindex, hfinished⟩ := readByte_some hread
      obtain ⟨hcontinues, h⟩ := else_of_ok h
      obtain ⟨tail, hlength, hcontinued, hresult, hrest, hindex', hfinished'⟩ := ih h
      refine ⟨byte :: tail, by rw [List.length_cons, hlength], ?_, hresult, ?_,
        hindex'.trans hindex, hfinished'.trans hfinished⟩
      · intro other hother
        rcases List.mem_cons.mp hother with rfl | hother
        · exact not_not.mp hcontinues
        · exact hcontinued other hother
      · rw [hstream, hrest, List.cons_append]

/-- The bytes of an encrypted rune give the plain one. -/
theorem readRune_spells {encrypted : ℕ} (hspells : Spells encrypted first tail)
    (hscalar : IsScalar encrypted) (hdecrypt : decryptRune s.runeIndex encrypted = .ok value)
    (h : s.stream source = tail ++ rest) :
    ∃ t, readRune source first s = .ok (value, t) ∧ t.stream source = rest ∧
      t.runeIndex = s.runeIndex + 1 ∧ t.finished = s.finished := by
  obtain ⟨⟨bits, hlead, hbits⟩, hcontinued, hminimal⟩ := hspells
  obtain ⟨u, hread, hstream, hindex, hfinished⟩ := readContinuation_append hcontinued
    (s.encryptedOffset - 1) bits h
  refine ⟨{ u with runeIndex := u.runeIndex + 1 }, ?_, hstream, by rw [hindex], hfinished⟩
  rw [readRune, hlead]
  dsimp only
  rw [Nat.add_sub_cancel, hread, hbits, ok_bind]
  dsimp only
  rw [if_neg (not_or.mpr ⟨not_lt.mpr hminimal, hscalar⟩), hindex, hdecrypt]
  rfl

/-- A plain rune comes from the bytes of an encrypted one. -/
theorem readRune_ok (h : readRune source first s = .ok (value, t)) :
    ∃ encrypted, IsScalar value ∧ encryptRune s.runeIndex value = .ok encrypted ∧
      first :: s.stream source = encode encrypted ++ t.stream source ∧
      t.runeIndex = s.runeIndex + 1 ∧ t.finished = s.finished := by
  rw [readRune] at h
  split at h
  case h_1 => cases h
  case h_2 length bits hlead =>
    obtain ⟨⟨encrypted, u⟩, hread, h⟩ := exists_of_bind_ok h
    obtain ⟨tail, hlength, hcontinued, hencrypted, hstream, hindex, hfinished⟩ :=
      readContinuation_ok hread
    dsimp only at h
    obtain ⟨hrange, h⟩ := else_of_ok h
    obtain ⟨hminimal, hscalar⟩ := not_or.mp hrange
    obtain ⟨plain, hdecrypt, h⟩ := exists_of_bind_ok h
    cases h
    rw [hindex] at hdecrypt
    obtain ⟨hvalue, hencrypt⟩ := encryptRune_of_decrypt hscalar hdecrypt
    have hcount : length = tail.length + 1 := by
      have := lead_cases hlead
      omega
    have hspells : Spells encrypted first tail :=
      ⟨⟨bits, by rw [← hcount, hlead], hencrypted.symm⟩, hcontinued, hcount ▸ not_lt.mp hminimal⟩
    refine ⟨encrypted, hvalue, hencrypt, ?_, congrArg (· + 1) hindex, hfinished⟩
    rw [hspells.encode_eq, hstream]
    rfl

/-! ## Reading a block -/

/-- What the loop of a block leaves, if it succeeds. -/
theorem fillPlain_ok {size : ℕ} {produced : List UInt8}
    (h : fillPlain source size fuel produced s = .ok (block, t)) (hs : s.finished = false)
    (hfuel : size ≤ produced.length + fuel) :
    ∃ added, block = produced ++ added ∧ (∃ text, added = ofChars text) ∧
      (∀ text, Enciphers t.runeIndex text (t.stream source) →
        Enciphers s.runeIndex (added ++ text) (s.stream source)) ∧
      s.runeIndex ≤ t.runeIndex ∧ (added ≠ [] → s.runeIndex < t.runeIndex) ∧
      (t.finished = true → t.stream source = [] ∧ t.runeIndex ≠ 0) ∧
      (t.finished = true ∨ size < block.length + 4) := by
  induction fuel generalizing produced s with
  | zero =>
    cases h
    refine ⟨[], (List.append_nil _).symm, ⟨[], rfl⟩, fun _ htext => htext, le_rfl,
      fun hne => absurd rfl hne, ?_, .inr (by omega)⟩
    intro hfinished
    rw [hs] at hfinished
    cases hfinished
  | succ fuel ih =>
    rw [fillPlain] at h
    split at h
    case isFalse hfull =>
      cases h
      refine ⟨[], (List.append_nil _).symm, ⟨[], rfl⟩, fun _ htext => htext, le_rfl,
        fun hne => absurd rfl hne, ?_, .inr (by omega)⟩
      intro hfinished
      rw [hs] at hfinished
      cases hfinished
    case isTrue =>
      split at h
      case h_1 hread =>
        obtain ⟨hindex, h⟩ := else_of_ok h
        cases h
        have hend : s.stream source = [] := readByte_none hread
        exact ⟨[], (List.append_nil _).symm, ⟨[], rfl⟩, fun _ htext => htext, le_rfl,
          fun hne => absurd rfl hne, fun _ => ⟨hend, hindex⟩, .inl rfl⟩
      case h_2 first u hread =>
        obtain ⟨hstream, hindex, hfinished⟩ := readByte_some hread
        obtain ⟨⟨value, v⟩, hrune, h⟩ := exists_of_bind_ok h
        obtain ⟨encrypted, hvalue, hencrypt, hbytes, hnext, hfinished'⟩ := readRune_ok hrune
        rw [hindex] at hencrypt hnext
        have hlonger := List.length_pos_iff.mpr (encode_ne_nil hvalue)
        obtain ⟨added, rfl, ⟨text, rfl⟩, hrest, hle, -, hend, hdone⟩ := ih h
          (hfinished'.trans (hfinished.trans hs)) (by rw [List.length_append]; omega)
        obtain ⟨c, rfl⟩ := exists_char hvalue
        refine ⟨encode c.toNat ++ ofChars text, List.append_assoc _ _ _, ⟨c :: text, ?_⟩, ?_,
          (Nat.le_succ _).trans (hnext.ge.trans hle), ?_, hend, hdone⟩
        · rw [encode_toNat]
          rfl
        · intro future hfuture
          have hcons := Enciphers.cons hvalue hencrypt (hnext ▸ hrest future hfuture)
          rwa [← hbytes, ← hstream, ← List.append_assoc] at hcons
        · rw [hnext] at hle
          exact fun _ => hle

/-- A block of a text that is encrypted is filled, unless the text is empty from the start. -/
theorem fillPlain_enciphers {size fuel : ℕ} (produced : List UInt8) {s : Decrypting State}
    {text : List UInt8} (h : Enciphers s.runeIndex text (s.stream source))
    (hsome : text = [] → s.runeIndex ≠ 0) :
    ∃ block t rest, fillPlain source size fuel produced s = .ok (produced ++ block, t) ∧
      text = block ++ rest ∧ Enciphers t.runeIndex rest (t.stream source) ∧
      (rest = [] → t.runeIndex ≠ 0) := by
  induction fuel generalizing produced s text with
  | zero => exact ⟨[], s, text, by rw [fillPlain, List.append_nil], rfl, h, hsome⟩
  | succ fuel ih =>
    rw [fillPlain]
    split
    · rcases h.inversion with ⟨rfl, hend⟩ |
        ⟨value, encrypted, plain, rest, hvalue, hencrypt, rfl, hstream, hrest⟩
      · rw [readByte_nil hend]
        dsimp only
        rw [if_neg (hsome rfl)]
        refine ⟨[], { s with finished := true }, [], by rw [List.append_nil], rfl, ?_, fun _ => hsome rfl⟩
        have hsame : Decrypting.stream source { s with finished := true } = [] := hend
        rw [hsame]
        exact .nil _
      · have hscalar := (encryptRune_ok hencrypt).2
        obtain ⟨first, tail, hencode, hspells⟩ := spells_encode (lt_of_isScalar hscalar)
        rw [hencode, List.cons_append] at hstream
        obtain ⟨u, hread, htail, huIndex, huFinished⟩ := readByte_cons hstream
        obtain ⟨v, hrune, hvStream, hvIndex, hvFinished⟩ := readRune_spells hspells hscalar
          (huIndex ▸ decryptRune_of_encrypt hvalue hencrypt) htail
        have hnext : Enciphers v.runeIndex plain (v.stream source) := by
          rw [hvIndex, huIndex, hvStream]
          exact hrest
        obtain ⟨block, t, future, hfill, rfl, hfuture, hstarted⟩ := ih (produced ++ encode value) hnext
          (fun _ => by rw [hvIndex]; exact Nat.succ_ne_zero _)
        rw [hread]
        dsimp only
        rw [hrune, ok_bind]
        refine ⟨encode value ++ block, t, future, ?_, (List.append_assoc _ _ _).symm, hfuture, hstarted⟩
        rw [← List.append_assoc]
        exact hfill
    · exact ⟨[], s, text, by rw [List.append_nil], rfl, h, hsome⟩

/-! ## The buffer -/

/-- The text that the buffer still has to hand out. -/
def Remaining (source : Source State) (r : PlainReader State) (text : List UInt8) : Prop :=
  ∃ future, text = r.unread ++ future ∧
    Enciphers r.decrypting.runeIndex future (r.decrypting.stream source)

/-- At the end of the stream, after at least one rune. -/
def AtEnd (source : Source State) (s : Decrypting State) : Prop :=
  s.stream source = [] ∧ s.runeIndex ≠ 0

/-- The buffer knows the end of its stream only when it is there. -/
def Sound (source : Source State) (r : PlainReader State) : Prop :=
  r.decrypting.finished = true → AtEnd source r.decrypting

/-- The rest of the text was not empty from the start. -/
def Started (source : Source State) (r : PlainReader State) : Prop :=
  r.decrypting.stream source = [] → r.decrypting.runeIndex ≠ 0

/-- What a successful `underflow` leaves. -/
theorem underflow_ok (h : underflow source s = .ok (block, t)) (hs : s.finished = true → AtEnd source s) :
    (∃ text, block = ofChars text) ∧
      (∀ text, Enciphers t.runeIndex text (t.stream source) →
        Enciphers s.runeIndex (block ++ text) (s.stream source)) ∧
      (block ≠ [] → t.runeIndex ≠ 0) ∧ (t.finished = true → AtEnd source t) ∧
      (block = [] → AtEnd source t) := by
  rw [underflow] at h
  split_ifs at h with hrunning
  · cases h
    exact ⟨⟨[], rfl⟩, fun _ htext => htext, fun hne => absurd rfl hne, hs, fun _ => hs hrunning⟩
  · obtain ⟨added, hblock, htext, hrest, -, hstarted, hend, hdone⟩ :=
      fillPlain_ok h (Bool.not_eq_true _ ▸ hrunning) (Nat.le_add_left _ _)
    rw [List.nil_append] at hblock
    subst hblock
    refine ⟨htext, hrest, fun hne => Nat.ne_zero_of_lt (hstarted hne), hend, fun hempty => ?_⟩
    subst hempty
    exact hend (hdone.resolve_right (by decide))

/-- A text that remains is handed out byte by byte. -/
theorem sbumpc_remaining (h : Remaining source r text) (hsound : Sound source r)
    (hstarted : Started source r) :
    ∃ t, sbumpc source r = .ok (text.head?, t) ∧ Remaining source t text.tail ∧ Sound source t ∧
      Started source t := by
  obtain ⟨unread, s⟩ := r
  obtain ⟨future, rfl, hfuture⟩ := h
  cases unread with
  | cons byte rest => exact ⟨⟨rest, s⟩, rfl, ⟨future, rfl, hfuture⟩, hsound, hstarted⟩
  | nil =>
    have hsome : future = [] → s.runeIndex ≠ 0 := by
      rintro rfl
      rcases hfuture.inversion with ⟨-, hend⟩ | ⟨value, _, _, _, hvalue, _, hplain, _⟩
      · exact hstarted hend
      · exact absurd (List.append_eq_nil_iff.mp hplain.symm).1 (encode_ne_nil hvalue)
    obtain ⟨block, t, hunder, hblock⟩ : ∃ block t, underflow source s = .ok (block, t) ∧
        ∃ rest, future = block ++ rest ∧ Enciphers t.runeIndex rest (t.stream source) ∧
          (block = [] → rest = []) := by
      rw [underflow]
      split_ifs with hrunning
      · refine ⟨[], s, rfl, future, rfl, hfuture, fun _ => ?_⟩
        have hend := (hsound hrunning).1
        dsimp only at hend
        rw [hend] at hfuture
        exact hfuture.eq_nil
      · obtain ⟨block, t, rest, hfill, rfl, hrest, -⟩ :=
          @fillPlain_enciphers _ source kStreamChunk kStreamChunk [] _ _ hfuture hsome
        rw [List.nil_append] at hfill
        refine ⟨block, t, hfill, rest, rfl, hrest, fun hempty => ?_⟩
        obtain ⟨added, hadded, -, -, -, -, hend, hdone⟩ :=
          fillPlain_ok hfill (Bool.not_eq_true _ ▸ hrunning) (Nat.le_add_left _ _)
        subst hempty
        rw [(hend (hdone.resolve_right (by decide))).1] at hrest
        exact hrest.eq_nil
    obtain ⟨rest, rfl, hrest, hempty⟩ := hblock
    obtain ⟨-, -, hindex, hsound', hend⟩ := underflow_ok hunder hsound
    rw [sbumpc]
    dsimp only
    rw [hunder]
    cases block with
    | nil =>
      obtain rfl := hempty rfl
      exact ⟨⟨[], t⟩, rfl, ⟨[], rfl, hrest⟩, hsound', fun _ => (hend rfl).2⟩
    | cons byte block =>
      exact ⟨⟨block, t⟩, rfl, ⟨rest, rfl, hrest⟩, hsound', fun _ => hindex (List.cons_ne_nil _ _)⟩

/-- A byte that is handed out was the next one of the text; at the end nothing remains. -/
theorem sbumpc_ok {t : PlainReader State} {byte : Option UInt8} (h : sbumpc source r = .ok (byte, t))
    (hsound : Sound source r) :
    Sound source t ∧ (∀ text, Remaining source t text → Remaining source r (byte.toList ++ text)) ∧
      (byte = none → Remaining source t [] ∧ Started source t) := by
  obtain ⟨unread, s⟩ := r
  cases unread with
  | cons first rest =>
    cases h
    refine ⟨hsound, ?_, fun hnone => by cases hnone⟩
    rintro text ⟨future, rfl, hfuture⟩
    exact ⟨future, rfl, hfuture⟩
  | nil =>
    rw [sbumpc] at h
    dsimp only at h
    cases hunder : underflow source s with
    | error error =>
      rw [hunder] at h
      cases h
    | ok next =>
      obtain ⟨block, u⟩ := next
      obtain ⟨-, hrest, -, hsound', hend⟩ := underflow_ok hunder hsound
      rw [hunder] at h
      cases block with
      | nil =>
        cases h
        obtain ⟨hstream, hindex⟩ := hend rfl
        refine ⟨hsound', ?_, fun _ => ⟨⟨[], rfl, ?_⟩, fun _ => hindex⟩⟩
        · rintro text ⟨future, htext, hfuture⟩
          exact ⟨future, htext, hrest future hfuture⟩
        · dsimp only
          rw [hstream]
          exact .nil _
      | cons first block =>
        cases h
        refine ⟨hsound', ?_, fun hnone => by cases hnone⟩
        rintro text ⟨future, rfl, hfuture⟩
        exact ⟨first :: (block ++ future), rfl, hrest future hfuture⟩

/-- What is asked for is the next part of the text. -/
theorem sgetn_remaining (h : Remaining source r text) (hsound : Sound source r)
    (hstarted : Started source r) (count : ℕ) :
    ∃ t, sgetn source count r = .ok (text.take count, t) ∧ Remaining source t (text.drop count) ∧
      Sound source t ∧ Started source t := by
  induction count generalizing r text with
  | zero => exact ⟨r, rfl, h, hsound, hstarted⟩
  | succ count ih =>
    obtain ⟨u, hbyte, hrest, hsound', hstarted'⟩ := sbumpc_remaining h hsound hstarted
    rw [sgetn, hbyte]
    cases text with
    | nil => exact ⟨u, rfl, hrest, hsound', hstarted'⟩
    | cons byte text =>
      obtain ⟨t, hbytes, hrest', hsound'', hstarted''⟩ := ih hrest hsound' hstarted'
      rw [List.tail_cons] at hbytes
      dsimp only [List.head?_cons]
      rw [hbytes]
      exact ⟨t, rfl, hrest', hsound'', hstarted''⟩

/-- The requests of a consumer part the text. -/
theorem consume_remaining (h : Remaining source r text) (hsound : Sound source r)
    (hstarted : Started source r) (counts : List ℕ) :
    ∃ parts t, consume source counts r = .ok (parts, t) ∧ parts.flatten = text.take counts.sum := by
  induction counts generalizing r text with
  | nil => exact ⟨[], r, rfl, List.take_zero.symm⟩
  | cons count rest ih =>
    obtain ⟨u, hbytes, hrest, hsound', hstarted'⟩ := sgetn_remaining h hsound hstarted count
    obtain ⟨parts, t, hparts, hflatten⟩ := ih hrest hsound' hstarted'
    rw [consume, hbytes]
    dsimp only
    rw [hparts]
    refine ⟨text.take count :: parts, t, rfl, ?_⟩
    rw [List.flatten_cons, hflatten, List.sum_cons, List.take_add]

/-- What was handed out was the next part of the text; if it is short, nothing remains. -/
theorem sgetn_ok {t : PlainReader State} {bytes : List UInt8} (h : sgetn source count r = .ok (bytes, t))
    (hsound : Sound source r) :
    Sound source t ∧ (∀ text, Remaining source t text → Remaining source r (bytes ++ text)) ∧
      bytes.length ≤ count ∧ (bytes.length < count → Remaining source t [] ∧ Started source t) := by
  induction count generalizing r bytes with
  | zero =>
    cases h
    exact ⟨hsound, fun _ htext => htext, le_rfl, fun hlt => absurd hlt (lt_irrefl 0)⟩
  | succ count ih =>
    rw [sgetn] at h
    split at h
    case h_1 => cases h
    case h_2 u hbyte =>
      cases h
      obtain ⟨hsound', hrest, hend⟩ := sbumpc_ok hbyte hsound
      exact ⟨hsound', hrest, Nat.zero_le _, fun _ => hend rfl⟩
    case h_3 byte u hbyte =>
      obtain ⟨hsound', hrest, -⟩ := sbumpc_ok hbyte hsound
      obtain ⟨⟨others, v⟩, hothers, hpair⟩ := exists_of_map_ok h
      cases hpair
      obtain ⟨hsound'', hrest', hle, hend⟩ := ih hothers hsound'
      refine ⟨hsound'', fun text htext => hrest _ (hrest' text htext), Nat.succ_le_succ hle, ?_⟩
      intro hlt
      exact hend (Nat.lt_of_succ_lt_succ hlt)

/-- Nothing is handed out after the end. -/
theorem consume_at_end {t : PlainReader State} (h : consume source counts r = .ok (parts, t))
    (hend : Remaining source r []) (hsound : Sound source r) (hstarted : Started source r) :
    parts.flatten = [] := by
  obtain ⟨found, u, hfound, hflatten⟩ := consume_remaining hend hsound hstarted counts
  rw [hfound] at h
  cases h
  rw [hflatten, List.take_nil]

/-- A consumer that has come to the end has the whole text. -/
theorem consume_ok {t : PlainReader State} (h : consume source counts r = .ok (parts, t))
    (hsound : Sound source r) (hshort : parts.flatten.length < counts.sum) :
    Remaining source r parts.flatten := by
  induction counts generalizing r parts with
  | nil =>
    cases h
    exact absurd hshort (lt_irrefl 0)
  | cons count rest ih =>
    rw [consume] at h
    split at h
    case h_1 => cases h
    case h_2 bytes u hbytes =>
      obtain ⟨⟨others, v⟩, hothers, hpair⟩ := exists_of_map_ok h
      cases hpair
      obtain ⟨hsound', hrest, hle, hend⟩ := sgetn_ok hbytes hsound
      rw [List.flatten_cons]
      apply hrest
      by_cases hfull : bytes.length < count
      · obtain ⟨hnothing, hstarted⟩ := hend hfull
        rwa [consume_at_end hothers hnothing hsound' hstarted]
      · rw [List.flatten_cons, List.length_append, List.sum_cons] at hshort
        exact ih hothers hsound' (by omega)

/-! ## Texts and their encrypted forms -/

theorem sound_openBuffer (start : State) : Sound source (openBuffer start) := by
  intro hfinished
  cases hfinished

theorem stream_openBuffer (start : State) :
    (openBuffer start).decrypting.stream source = source.pending start := List.nil_append _

/-- What the writer and the reader of FuHong V5 have to do with each other. -/
structure Bijection (source : Source State) : Prop where
  /-- What is written is read again, wherever pieces and requests end. -/
  reads : ∀ (text : List Char) (start : State), text ≠ [] →
    encodeV5 (ofChars text) = .ok (source.pending start) → ∀ counts, ∃ parts t,
      consume source counts (openBuffer start) = .ok (parts, t) ∧
        parts.flatten = (ofChars text).take counts.sum
  /-- What is read to the end is a text, and is written as what it was read from. -/
  writes : ∀ (start : State) (counts : List ℕ) (parts : List (List UInt8)) (t : PlainReader State),
    consume source counts (openBuffer start) = .ok (parts, t) →
      parts.flatten.length < counts.sum → (∃ text, parts.flatten = ofChars text) ∧
        encodeV5 parts.flatten = .ok (source.pending start)
  /-- Every block that the buffer makes ready is a text. -/
  blocks : ∀ (s t : Decrypting State) (block : List UInt8),
    underflow source s = .ok (block, t) → ∃ text, block = ofChars text

/-- The blocks of the buffer are whole runes. -/
theorem underflow_text (h : underflow source s = .ok (block, t)) : ∃ text, block = ofChars text := by
  rw [underflow] at h
  split_ifs at h with hrunning
  · cases h
    exact ⟨[], rfl⟩
  · obtain ⟨added, hblock, htext, -⟩ :=
      fillPlain_ok h (Bool.not_eq_true _ ▸ hrunning) (Nat.le_add_left _ _)
    rwa [hblock]

/-- The cipher is a bijection between the texts that can be written and those that can be read. -/
theorem cipher_bijection (source : Source State) : Bijection source where
  reads := by
    intro text start hne hencode counts
    have henciphers := encodeV5_iff.mp hencode
    rw [← stream_openBuffer] at henciphers
    refine consume_remaining ⟨ofChars text, rfl, henciphers⟩ (sound_openBuffer start) ?_ counts
    intro hempty
    rw [hempty] at henciphers
    cases text with
    | nil => exact absurd rfl hne
    | cons c text =>
      have hnil := (List.append_eq_nil_iff.mp henciphers.eq_nil).1
      exact absurd hnil String.utf8EncodeChar_ne_nil
  writes := by
    intro start counts parts t hconsume hshort
    obtain ⟨future, htext, henciphers⟩ := consume_ok hconsume (sound_openBuffer start) hshort
    have hsame : parts.flatten = future := htext
    rw [stream_openBuffer] at henciphers
    obtain ⟨text, rfl⟩ := henciphers.exists_text
    rw [hsame]
    exact ⟨⟨text, rfl⟩, encodeV5_iff.mpr henciphers⟩
  blocks := fun _ _ _ h => underflow_text h

end FuHong

end WaterStructure
