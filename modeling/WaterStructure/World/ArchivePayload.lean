import Mathlib.Data.List.GetD
import WaterStructure.World.ArchiveRecords

/-!
# Compressed payloads

A payload that a deflater has written is decoded into its content, however the inflater divides its
output among the calls: every window of the file is taken completely, and what has been put out is
written to the file as it comes.
-/

namespace WaterStructure

open EffectLog FsPath

/-- What is assumed of zlib: for every content there is an account of what a stream has still to take
and to put out, which is kept by the calls. A call with input makes progress, the stream ends exactly
behind the compressed bytes, and when all of them have been taken the rest fits the room that is given. -/
structure Zlib.Inflates (zlib : Zlib) (deflate : Bytes → Bytes)
    (Pending : zlib.Stream → Bytes → Bytes → Prop) : Prop where
  init : ∃ stream, zlib.inflateInit = some stream ∧
    ∀ content, Pending stream (deflate content) content
  call : ∀ stream window later output, Pending stream (window ++ later) output → window ≠ [] →
    let result := zlib.inflate stream window Archive.bufferSize false
    ∃ more, output = result.produced ++ more ∧
      ((result.status = .streamEnd ∧ window.drop result.consumed = [] ∧ later = [] ∧ more = []) ∨
        (result.status = .ok ∧
          ((window.drop result.consumed).length ≠ window.length ∨ result.produced ≠ []) ∧
          Pending result.stream (window.drop result.consumed ++ later) more))
  finish : ∀ stream output, Pending stream [] output →
    (zlib.inflate stream [] Archive.bufferSize true).status = .streamEnd ∧
      (zlib.inflate stream [] Archive.bufferSize true).produced = output

namespace Archive

/-- A deflater that puts a content of up to 65535 bytes into one stored block. The longer ones, which
would need several blocks, are only marked. -/
def storedDeflate (content : Bytes) : Bytes :=
  if content.length ≤ uint16Max then
    1 :: (writeLe16 content.length ++ writeLe16 (uint16Max - content.length) ++ content)
  else 2 :: content

/-- All bytes of a stored block are there. -/
def storedComplete (taken : Bytes) : Bool :=
  taken.head? = some 1 ∧ 5 ≤ taken.length ∧ taken.length = 5 + readLe16 taken 1

/-- An inflater for stored blocks, which keeps what it has taken until the block is complete. -/
def storedInflate (stream window : Bytes) (finish : Bool) : InflateResult Bytes :=
  let taken := stream ++ window
  if storedComplete taken then ⟨.streamEnd, window.length, taken.drop 5, []⟩
  else if finish then ⟨.streamEnd, window.length, taken.drop 1, []⟩
  else ⟨.ok, window.length, [], taken⟩

def storedZlib : Zlib where
  Stream := Bytes
  inflateInit := some []
  inflate stream window _ finish := storedInflate stream window finish
  crcByte crc byte := crc + byte.toUInt32

/-- What has been taken and what is still to come make up the compressed bytes. -/
def StoredPending (stream later output : Bytes) : Prop := stream ++ later = storedDeflate output

theorem storedDeflate_complete {content : Bytes} (h : content.length ≤ uint16Max) :
    storedComplete (storedDeflate content) = true ∧ (storedDeflate content).drop 5 = content := by
  have hlength : readLe16 (storedDeflate content) 1 = content.length := by
    rw [storedDeflate, if_pos h]
    exact readLe16_writeLe16 h (writeLe16 (uint16Max - content.length) ++ content)
  have hsize : (storedDeflate content).length = 5 + content.length := by
    rw [storedDeflate, if_pos h]
    simp [writeLe16]
    omega
  rw [storedComplete, hlength, hsize]
  rw [storedDeflate, if_pos h]
  exact ⟨by simp, rfl⟩

variable {later output stream window : Bytes}

/-- Only the whole stored block is complete. -/
theorem later_of_storedComplete {taken : Bytes} (h : StoredPending taken later output)
    (hcomplete : storedComplete taken = true) : output.length ≤ uint16Max ∧ later = [] := by
  have hcomplete := of_decide_eq_true hcomplete
  by_cases hsmall : output.length ≤ uint16Max
  · refine ⟨hsmall, ?_⟩
    have hwhole := of_decide_eq_true (storedDeflate_complete hsmall).1
    rw [← h, List.length_append] at hwhole
    have hsame : readLe16 (taken ++ later) 1 = readLe16 taken 1 := by
      rw [readLe16, readLe16, List.getD_append _ _ _ _ (by omega), List.getD_append _ _ _ _ (by omega)]
    rw [hsame] at hwhole
    exact List.length_eq_zero_iff.mp (by omega)
  · have hhead := hcomplete.1
    rw [StoredPending, storedDeflate, if_neg hsmall] at h
    cases taken with
    | nil => exact nomatch hhead
    | cons byte rest =>
      rw [List.cons_append, List.cons.injEq] at h
      rw [h.1] at hhead
      exact nomatch hhead

theorem storedInflate_complete (h : storedComplete (stream ++ window) = true) (finish : Bool) :
    storedInflate stream window finish =
      ⟨.streamEnd, window.length, (stream ++ window).drop 5, []⟩ := by
  rw [storedInflate]
  exact if_pos h

theorem storedInflate_incomplete (h : storedComplete (stream ++ window) = false) :
    storedInflate stream window false = ⟨.ok, window.length, [], stream ++ window⟩ ∧
      storedInflate stream window true = ⟨.streamEnd, window.length, (stream ++ window).drop 1, []⟩ := by
  rw [storedInflate, storedInflate, h]
  exact ⟨rfl, rfl⟩

theorem storedInflate_call (h : StoredPending stream (window ++ later) output) (hne : window ≠ []) :
    let result := storedInflate stream window false
    ∃ more, output = result.produced ++ more ∧
      ((result.status = .streamEnd ∧ window.drop result.consumed = [] ∧ later = [] ∧ more = []) ∨
        (result.status = .ok ∧
          ((window.drop result.consumed).length ≠ window.length ∨ result.produced ≠ []) ∧
          StoredPending result.stream (window.drop result.consumed ++ later) more)) := by
  have htaken : StoredPending (stream ++ window) later output :=
    (List.append_assoc stream window later).trans h
  cases hcomplete : storedComplete (stream ++ window) with
  | true =>
    obtain ⟨hsmall, rfl⟩ := later_of_storedComplete htaken hcomplete
    have hwhole : stream ++ window = storedDeflate output := (List.append_nil _).symm.trans htaken
    rw [storedInflate_complete hcomplete, hwhole, (storedDeflate_complete hsmall).2]
    exact ⟨[], (List.append_nil _).symm, .inl ⟨rfl, List.drop_length, rfl, rfl⟩⟩
  | false =>
    have hpos := List.length_pos_iff.mpr hne
    rw [(storedInflate_incomplete hcomplete).1]
    dsimp only
    rw [List.drop_length]
    exact ⟨output, rfl, .inr ⟨rfl, .inl (Nat.ne_of_lt hpos), htaken⟩⟩

theorem storedInflate_finish (h : StoredPending stream [] output) :
    (storedInflate stream [] true).status = .streamEnd ∧
      (storedInflate stream [] true).produced = output := by
  have hwhole : stream ++ [] = storedDeflate output := h
  by_cases hsmall : output.length ≤ uint16Max
  · have hcomplete := storedDeflate_complete hsmall
    rw [← hwhole] at hcomplete
    rw [storedInflate_complete hcomplete.1]
    exact ⟨rfl, hcomplete.2⟩
  · have hincomplete : storedComplete (stream ++ []) = false := by
      rw [hwhole, storedDeflate, if_neg hsmall]
      rfl
    rw [(storedInflate_incomplete hincomplete).2, hwhole, storedDeflate, if_neg hsmall]
    exact ⟨rfl, rfl⟩

theorem storedZlib_inflates : storedZlib.Inflates storedDeflate StoredPending where
  init := ⟨[], rfl, fun _ => rfl⟩
  call _ _ _ _ := storedInflate_call
  finish _ _ := storedInflate_finish

/-- No operation on the disk fails. -/
def Disk.sound (isDirectory : Location → Bool) : Disk := ⟨isDirectory, fun _ => none⟩

variable {zlib : Zlib} {isDirectory : Location → Bool} {log : List DiskEvent}

/-- The bytes that writing chunks one after the other puts into a file. -/
def wroteAll (place : Location) (chunks : List Bytes) : List DiskEvent := chunks.map (.wrote place)

theorem yields_write {place : Location} {outputName : String} {bytes : Bytes} :
    Yields (write (Disk.sound isDirectory) place outputName bytes) log () (wroteAll place [bytes]) :=
  rfl

section Payload

variable {deflate : Bytes → Bytes} {Pending : zlib.Stream → Bytes → Bytes → Prop} {place : Location}
  {entryName outputName : String}

theorem yields_acceptProduced {expectedSize outputSize : ℕ} {produced : Bytes}
    (h : outputSize + produced.length ≤ expectedSize) :
    ∃ chunks, chunks.flatten = produced ∧
      Yields (acceptProduced (Disk.sound isDirectory) place entryName outputName expectedSize outputSize
        produced) log () (wroteAll place chunks) := by
  rw [acceptProduced]
  split_ifs with hnone
  · exact ⟨[], hnone.symm, .pure ()⟩
  · refine ⟨[produced], List.flatten_singleton, .failIf ?_ yields_write⟩
    exact decide_eq_false (Nat.not_lt.mpr h)

theorem crc32_append (crc : UInt32) (first second : Bytes) :
    crc32 zlib crc (first ++ second) = crc32 zlib (crc32 zlib crc first) second :=
  List.foldl_append

theorem wroteAll_append (first second : List Bytes) :
    wroteAll place (first ++ second) = wroteAll place first ++ wroteAll place second :=
  List.map_append

/-- What a part of decoding leaves: it has written the front of the output, and the stream has ended or
still has the rest to put out. -/
structure Decoded (Pending : zlib.Stream → Bytes → Bytes → Prop) (state : InflateState zlib)
    (later output : Bytes) (next : InflateState zlib) (chunks : List Bytes) (more : Bytes) : Prop where
  output : output = chunks.flatten ++ more
  outputSize : next.outputSize = state.outputSize + chunks.flatten.length
  crc : next.crc = crc32 zlib state.crc chunks.flatten
  ended : (next.streamEnd = true ∧ later = [] ∧ more = []) ∨
    (next.streamEnd = false ∧ Pending next.stream later more)

theorem Decoded.trans {state middle next : InflateState zlib} {later later' output more rest : Bytes}
    {chunks chunks' : List Bytes} (h : Decoded Pending state later output middle chunks more)
    (hnext : Decoded Pending middle later' more next chunks' rest) :
    Decoded Pending state later' output next (chunks ++ chunks') rest where
  output := by rw [h.output, hnext.output, List.flatten_append, List.append_assoc]
  outputSize := by
    rw [hnext.outputSize, h.outputSize, List.flatten_append, List.length_append, Nat.add_assoc]
  crc := by rw [hnext.crc, h.crc, List.flatten_append, crc32_append]
  ended := hnext.ended

/-- One window is taken completely, unless the stream ends with it. -/
theorem yields_inflateWindow (hz : zlib.Inflates deflate Pending) {expectedSize : ℕ} (window : Bytes)
    (state : InflateState zlib) {later output : Bytes} (hopen : state.streamEnd = false)
    (hpending : Pending state.stream (window ++ later) output)
    (hsize : state.outputSize + output.length = expectedSize) :
    ∃ next chunks more, Decoded Pending state later output next chunks more ∧
      Yields (inflateWindow zlib (Disk.sound isDirectory) place entryName outputName later.length
        expectedSize window state) log next (wroteAll place chunks) := by
  induction hmeasure : window.length + output.length using Nat.strong_induction_on
    generalizing window state output log with
  | _ measured ih =>
  rw [inflateWindow]
  split_ifs with hne
  · subst hne
    exact ⟨state, [], output, ⟨rfl, rfl, rfl, .inr ⟨hopen, hpending⟩⟩, .pure state⟩
  · obtain ⟨more, houtput, hcall⟩ := hz.call state.stream window later output hpending hne
    dsimp only
    generalize zlib.inflate state.stream window bufferSize false = result at houtput hcall ⊢
    subst houtput
    rw [List.length_append] at hsize hmeasure
    obtain ⟨chunks, hchunks, haccept⟩ := @yields_acceptProduced isDirectory log place entryName
      outputName expectedSize state.outputSize result.produced (by omega)
    have hstep (streamEnd : Bool) (later' : Bytes)
        (hended : (streamEnd = true ∧ later' = [] ∧ more = []) ∨
          (streamEnd = false ∧ Pending result.stream later' more)) :
        Decoded Pending state later' (result.produced ++ more)
          ⟨result.stream, state.outputSize + result.produced.length,
            crc32 zlib state.crc result.produced, streamEnd⟩ chunks more :=
      ⟨by rw [hchunks], by rw [hchunks], by rw [hchunks], hended⟩
    rcases hcall with ⟨hstatus, hrest, hlater, hmore⟩ | ⟨hstatus, hprogress, hnext⟩
    · refine ⟨_, chunks, more, hstep true later (.inl ⟨rfl, hlater, hmore⟩), ?_⟩
      rw [← List.append_nil (wroteAll place chunks)]
      refine haccept.bind ?_
      rw [hstatus]
      refine .failIf ?_ (.pure _)
      rw [hrest, hlater]
      rfl
    · have hdrop : (window.drop result.consumed).length ≤ window.length := by
        rw [List.length_drop]
        omega
      have hless : (window.drop result.consumed).length + more.length < measured := by
        rcases hprogress with hconsumed | hproduced
        · omega
        · have := List.length_pos_iff.mpr hproduced
          omega
      obtain ⟨next, chunks', rest, hdecoded, hyields⟩ := @ih _ hless (log ++ wroteAll place chunks)
        (window.drop result.consumed)
        ⟨result.stream, state.outputSize + result.produced.length,
          crc32 zlib state.crc result.produced, false⟩ more rfl hnext (by dsimp only; omega) rfl
      refine ⟨next, chunks ++ chunks', rest, (hstep false _ (.inr ⟨rfl, hnext⟩)).trans hdecoded, ?_⟩
      rw [wroteAll_append]
      refine haccept.bind ?_
      rw [hstatus]
      dsimp only
      rw [dif_neg fun hstuck => hprogress.elim (· hstuck.1) (· hstuck.2),
        dif_neg fun hover => Nat.not_lt.mpr (by omega) hover.2]
      exact hyields

/-- All windows, up to the end of the compressed bytes. -/
theorem yields_inflateLoop (hz : zlib.Inflates deflate Pending) {expectedSize : ℕ} {before after : Bytes}
    (compressed : Bytes) (state : InflateState zlib) {output : Bytes} (hopen : state.streamEnd = false)
    (hpending : Pending state.stream compressed output)
    (hsize : state.outputSize + output.length = expectedSize) :
    ∃ next chunks more, Decoded Pending state [] output next chunks more ∧
      Yields (inflateLoop zlib (Disk.sound isDirectory) (before ++ compressed ++ after) place entryName
        outputName compressed.length before.length expectedSize state) log
        (next, before.length + compressed.length) (wroteAll place chunks) := by
  induction hmeasure : compressed.length using Nat.strong_induction_on
    generalizing before compressed state output log with
  | _ measured ih =>
  subst hmeasure
  rw [inflateLoop]
  split_ifs with hne
  · have hne := List.length_eq_zero_iff.mp hne
    subst hne
    exact ⟨state, [], output, ⟨rfl, rfl, rfl, .inr ⟨hopen, hpending⟩⟩, .pure _⟩
  · have hbuffer : 0 < bufferSize := by decide
    obtain ⟨window, later, rfl, hwindow⟩ : ∃ window later, compressed = window ++ later ∧
        window.length = min compressed.length bufferSize :=
      ⟨_, _, (List.take_append_drop bufferSize compressed).symm, by
        rw [List.length_take, Nat.min_comm]⟩
    obtain ⟨middle, chunks, more, hdecoded, hyields⟩ := @yields_inflateWindow zlib isDirectory log
      deflate Pending place entryName outputName hz expectedSize window state later output hopen hpending
      hsize
    have hread : before ++ (window ++ later) ++ after = before ++ window ++ (later ++ after) := by
      simp only [List.append_assoc]
    have hrest : (window ++ later).length - window.length = later.length := by
      rw [List.length_append, Nat.add_sub_cancel_left]
    dsimp only
    rw [← hwindow, hread, hrest]
    rcases hdecoded.ended with ⟨hend, hlater, hmore⟩ | ⟨hend, hnext⟩
    · subst hlater
      refine ⟨middle, chunks, more, ⟨hdecoded.output, hdecoded.outputSize, hdecoded.crc,
        .inl ⟨hend, rfl, hmore⟩⟩, .lift (readOr_append _ _ _ _) ?_⟩
      rw [← List.append_nil (wroteAll place chunks)]
      refine hyields.bind ?_
      rw [if_pos hend, List.append_nil]
      exact .pure _
    · have hsize' : middle.outputSize + more.length = expectedSize := by
        rw [hdecoded.output, List.length_append] at hsize
        rw [hdecoded.outputSize]
        omega
      have hless : later.length < (window ++ later).length := by
        rw [List.length_append]
        omega
      obtain ⟨next, chunks', rest, hdecoded', hyields'⟩ := @ih _ hless (log ++ wroteAll place chunks)
        (before ++ window) later middle more hend hnext hsize' rfl
      refine ⟨next, chunks ++ chunks', rest, hdecoded.trans hdecoded', .lift (readOr_append _ _ _ _) ?_⟩
      rw [wroteAll_append]
      refine hyields.bind ?_
      rw [if_neg (by rw [hend]; exact Bool.false_ne_true), ← List.append_assoc (before ++ window),
        ← List.length_append]
      have hposition : before.length + (window ++ later).length =
          (before ++ window).length + later.length := by
        simp only [List.length_append, Nat.add_assoc]
      rw [hposition]
      exact hyields'

/-- A payload is decoded into its content. -/
theorem yields_inflateEntry (hz : zlib.Inflates deflate Pending) (before after content : Bytes) :
    ∃ chunks, chunks.flatten = content ∧
      Yields (inflateEntry zlib (Disk.sound isDirectory) (before ++ deflate content ++ after) place
        entryName outputName before.length (deflate content).length content.length
        (crc32 zlib 0 content).toNat) log (before.length + (deflate content).length)
        (wroteAll place chunks) := by
  obtain ⟨stream, hinit, hpending⟩ := hz.init
  obtain ⟨next, chunks, more, hdecoded, hyields⟩ := @yields_inflateLoop zlib isDirectory log deflate
    Pending place entryName outputName hz content.length before after (deflate content)
    ⟨stream, 0, 0, false⟩ content rfl (hpending content) (Nat.zero_add _)
  -- What the stream still has to put out after the last byte comes with the call that finishes it.
  obtain ⟨final, last, hfinish, hsize, hcrc, hcontent⟩ : ∃ final last,
      Yields (inflateFinish zlib (Disk.sound isDirectory) place entryName outputName content.length next)
        (log ++ wroteAll place chunks) final (wroteAll place last) ∧
      final.outputSize = content.length ∧ final.crc = crc32 zlib 0 content ∧
      (chunks ++ last).flatten = content := by
    rw [inflateFinish]
    rcases hdecoded.ended with ⟨hend, -, hmore⟩ | ⟨hend, hnext⟩
    · have hcontent : content = chunks.flatten := by
        rw [hdecoded.output, hmore, List.append_nil]
      refine ⟨next, [], ?_, ?_, ?_, ?_⟩
      · rw [if_pos hend]
        exact .pure next
      · rw [hdecoded.outputSize, hcontent, Nat.zero_add]
      · rw [hdecoded.crc, hcontent]
      · rw [List.append_nil, hcontent]
    · obtain ⟨hstatus, hproduced⟩ := hz.finish next.stream more hnext
      have hsize : next.outputSize + more.length = content.length := by
        rw [hdecoded.outputSize, hdecoded.output, List.length_append, Nat.zero_add]
      obtain ⟨last, hlast, haccept⟩ := @yields_acceptProduced isDirectory (log ++ wroteAll place chunks)
        place entryName outputName content.length next.outputSize more (by omega)
      refine ⟨⟨(zlib.inflate next.stream [] bufferSize true).stream, next.outputSize + more.length,
        crc32 zlib next.crc more, true⟩, last, ?_, hsize, ?_, ?_⟩
      · rw [if_neg (by rw [hend]; exact Bool.false_ne_true), ← List.append_nil (wroteAll place last)]
        dsimp only
        rw [hproduced]
        refine haccept.bind (.failIf ?_ (.pure _))
        rw [hstatus]
        rfl
      · rw [hdecoded.crc, ← crc32_append, ← hdecoded.output]
      · rw [List.flatten_append, hlast, hdecoded.output]
  refine ⟨chunks ++ last, hcontent, ?_⟩
  rw [inflateEntry, hinit, wroteAll_append]
  refine hyields.bind ?_
  rw [← List.append_nil (wroteAll place last)]
  refine hfinish.bind (.failIf ?_ (.failIf ?_ (.pure _)))
  · simp [hsize]
  · simp [hcrc]

end Payload

end Archive

end WaterStructure
