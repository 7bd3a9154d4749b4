import Mathlib.Algebra.BigOperators.Group.List.Basic
import WaterStructure.Library.NestedLoop
import WaterStructure.World.Archive

/-!
# Extracting an archive is confined and bounded

The names of an archive are arbitrary bytes. A name that is accepted has no `..` between separators, so
the path it is turned into is relative and stays below the destination. A payload writes at most the
size that its entry declares, and the declared sizes are added up against the limit.
-/

namespace WaterStructure

open EffectLog FsPath

/-- The directory or file that comes into being. -/
def DiskEvent.creates : DiskEvent → Option Location
  | createdDirectory place => some place
  | createdFile place => some place
  | _ => none

/-- The number of bytes that go to a file. -/
def DiskEvent.written : DiskEvent → ℕ
  | wrote _ bytes => bytes.length
  | _ => 0

namespace Archive

/-- Nothing comes into being outside a place. -/
def Confined (base : Location) (event : DiskEvent) : Prop :=
  ∀ place, event.creates = some place → base.Inside place

/-- The directories on the way to the destination are there. -/
def Reached (disk : Disk) (destination : FsPath) (log : List DiskEvent) : Prop :=
  ∀ q ∈ destination.prefixes, namesDirectory q = true → isDirectory disk log q.location = true

variable {zlib : Zlib} {disk : Disk} {input : Bytes} {destination : FsPath} {limit : ℕ} {log : List DiskEvent}
  {budget : ℕ} {message : String} {record : EndRecord}

/-- A directory that is there remains. -/
theorem isDirectory_append {place : Location} (h : isDirectory disk log place = true) (added : List DiskEvent) :
    isDirectory disk (log ++ added) place = true := by
  simp only [isDirectory, Bool.or_eq_true, decide_eq_true_eq] at h ⊢
  exact h.imp_right (List.mem_append_left _)

theorem Reached.append (h : Reached disk destination log) (event : DiskEvent) :
    Reached disk destination (log ++ [event]) :=
  fun q hq hnames => isDirectory_append (h q hq hnames) [event]

/-- A part of extracting into the destination that has a budget of bytes to write. -/
abbrev Extracts {α : Type} (disk : Disk) (destination : FsPath) (budget : ℕ) (left : α → ℕ)
    (m : Program DiskEvent α) : Prop :=
  Spends (Reached disk destination) (Confined destination.location) DiskEvent.written budget left m

theorem extracts_attempt {message : String → String} {event : DiskEvent}
    (hconfined : Confined destination.location event) (hfree : event.written = 0) :
    Extracts disk destination budget (fun _ => budget) (attempt disk message event) := by
  refine .observe fun log _ => ?_
  split
  · exact .fail
  · exact .emit hconfined (fun _ hlog => hlog.append _) (by omega)

theorem extracts_write {place : Location} {outputName : String} {bytes : Bytes} (h : bytes.length ≤ budget) :
    Extracts disk destination budget (fun _ => budget - bytes.length)
      (write disk place outputName bytes) := by
  refine .bind (fun _ => budget - bytes.length)
    (.emit nofun (fun _ hlog => hlog.append _) ?_) fun _ => .observe fun log _ => ?_
  · change bytes.length + (budget - bytes.length) ≤ budget
    omega
  · refine .silent (fun _ => rfl) fun _ _ _ => Nat.le_refl _

theorem extracts_remove {place : Location} :
    Extracts disk destination 0 (fun _ => 0) (remove disk place) := by
  refine .observe fun log _ => ?_
  split
  · exact .pure (Nat.le_refl 0)
  · exact .emit nofun (fun _ hlog => hlog.append _) (Nat.le_refl 0)

/-- Directories on the way to a place inside are created inside. -/
theorem extracts_createDirectories {path : FsPath}
    (h : ∀ q ∈ path.prefixes, q ∈ destination.prefixes ∨ destination.location.Inside q.location) :
    Extracts disk destination budget (fun _ => budget) (createDirectories disk message path) := by
  refine .failIf fun _ => .forEach fun q hq => .observe fun log hlog => ?_
  split_ifs with hmissing
  · refine extracts_attempt (fun place hplace => ?_) rfl
    cases hplace
    refine (h q hq).resolve_left fun hmem => ?_
    rw [hlog q hmem hmissing.1] at hmissing
    exact nomatch hmissing.2
  · exact .pure (Nat.le_refl budget)

section Payload

variable {place : Location} {entryName outputName : String}

theorem length_of_readOr {message : String} {position size : ℕ} {bytes : Bytes}
    (h : readOr message input position size = .ok bytes) : bytes.length = size := by
  rw [readOr, readExact] at h
  split at h
  case h_1 => cases h
  case h_2 hread =>
    cases h
    split at hread
    case isTrue hzero => cases hread; exact hzero.symm
    case isFalse =>
      obtain ⟨hle, hread⟩ := NestedLoop.then_of_some hread
      cases hread
      rw [List.length_take, List.length_drop]
      omega

theorem extracts_copyLoop (remaining position : ℕ) (crc : UInt32) :
    Extracts disk destination remaining (fun _ => 0)
      (copyLoop zlib disk input place outputName remaining position crc) := by
  induction remaining using Nat.strong_induction_on generalizing position crc with
  | _ remaining ih =>
    rw [copyLoop]
    split_ifs with hne
    · exact .pure (Nat.zero_le _)
    · have hbuffer : 0 < bufferSize := by decide
      refine .lift fun chunk hchunk => ?_
      have hlength := length_of_readOr hchunk
      refine .bind _ (extracts_write (by omega)) fun _ => ?_
      rw [hlength]
      exact ih _ (by omega) _ _

theorem extracts_copyStoredEntry (position compressedSize expectedSize expectedCrc : ℕ) :
    Extracts disk destination expectedSize (fun _ => 0)
      (copyStoredEntry zlib disk input place entryName outputName position compressedSize expectedSize
        expectedCrc) := by
  refine .failIf fun hsize => ?_
  have hsize : compressedSize = expectedSize := by simpa using hsize
  rw [hsize]
  exact .bind _ (extracts_copyLoop _ _ _) fun _ => .failIf fun _ => .pure (Nat.le_refl 0)

theorem extracts_acceptProduced {expectedSize outputSize : ℕ} {produced : Bytes} :
    Extracts disk destination (expectedSize - outputSize)
      (fun _ => expectedSize - (outputSize + produced.length))
      (acceptProduced disk place entryName outputName expectedSize outputSize produced) := by
  rw [acceptProduced]
  split_ifs with hnone
  · subst hnone
    exact .pure (Nat.le_refl _)
  · refine .failIf fun hle => ?_
    have hle : outputSize + produced.length ≤ expectedSize := by simpa using hle
    exact (extracts_write (by omega)).mono (Nat.le_refl _) fun _ => by omega

theorem extracts_inflateWindow (compressedRemaining expectedSize : ℕ) (window : Bytes)
    (state : InflateState zlib) :
    Extracts disk destination (expectedSize - state.outputSize)
      (fun next => expectedSize - next.outputSize)
      (inflateWindow zlib disk place entryName outputName compressedRemaining expectedSize window state) := by
  fun_induction inflateWindow zlib disk place entryName outputName compressedRemaining expectedSize window
    state with
  | case1 => exact .pure (Nat.le_refl _)
  | case2 window state hne result rest next ih =>
    refine .bind _ extracts_acceptProduced fun _ => ?_
    split
    · exact .failIf fun _ => .pure (Nat.le_refl _)
    · exact .fail
    · split_ifs with hstuck hover
      · exact .fail
      · exact .fail
      · exact ih hstuck hover

theorem extracts_inflateLoop (compressedRemaining position expectedSize : ℕ) (state : InflateState zlib) :
    Extracts disk destination (expectedSize - state.outputSize)
      (fun next => expectedSize - next.1.outputSize)
      (inflateLoop zlib disk input place entryName outputName compressedRemaining position expectedSize
        state) := by
  induction compressedRemaining using Nat.strong_induction_on generalizing position state with
  | _ compressedRemaining ih =>
    rw [inflateLoop]
    split_ifs with hne
    · exact .pure (Nat.le_refl _)
    · have hbuffer : 0 < bufferSize := by decide
      refine .lift fun window _ => .bind _ (extracts_inflateWindow _ _ _ _) fun next => ?_
      split
      · exact .pure (Nat.le_refl _)
      · exact ih _ (by omega) _ _

theorem extracts_inflateFinish (expectedSize : ℕ) (state : InflateState zlib) :
    Extracts disk destination (expectedSize - state.outputSize)
      (fun next => expectedSize - next.outputSize)
      (inflateFinish zlib disk place entryName outputName expectedSize state) := by
  rw [inflateFinish]
  split
  · exact .pure (Nat.le_refl _)
  · exact .bind _ extracts_acceptProduced fun _ => .failIf fun _ => .pure (Nat.le_refl _)

theorem extracts_inflateEntry (position compressedSize expectedSize expectedCrc : ℕ) :
    Extracts disk destination expectedSize (fun _ => 0)
      (inflateEntry zlib disk input place entryName outputName position compressedSize expectedSize
        expectedCrc) := by
  rw [inflateEntry]
  split
  · exact .fail
  · refine .bind _ (extracts_inflateLoop _ _ _ _) fun result => ?_
    exact .bind _ (extracts_inflateFinish _ _) fun next =>
      .failIf fun _ => .failIf fun _ => .pure (Nat.zero_le _)

end Payload

theorem splitOnP_map (name : Bytes) :
    (name.map fun byte => if byte = 92 then 47 else byte).splitOnP (· == slash) =
      name.splitOnP isSeparator := by
  induction name with
  | nil => rfl
  | cons byte rest ih =>
    rw [List.map_cons, List.splitOnP_cons_eq_if_modifyHead, List.splitOnP_cons_eq_if_modifyHead, ih]
    by_cases hback : byte = 92
    · subst hback
      rfl
    · rw [if_neg hback]
      by_cases hslash : byte = 47
      · subst hslash
        rfl
      · rw [if_neg (by simpa [slash] using hslash), if_neg (by simp [isSeparator, hback, hslash])]

/-- A name that is accepted becomes a relative path without `..`. -/
theorem entryPath_of_safe {name : Bytes} (h : safeRelativePath name = true) :
    (entryPath name).rooted = false ∧ dotDot ∉ (entryPath name).parts := by
  rw [safeRelativePath] at h
  split at h
  · cases h
  split at h
  · cases h
  case isFalse hfront =>
  split at h
  · cases h
  constructor
  · rw [entryPath, lexicallyNormal_rooted, FsPath.parse]
    cases name with
    | nil => rfl
    | cons byte rest =>
      have hbyte : ¬ (byte = 47 ∨ byte = 92) := by simpa [isSeparator] using hfront
      rw [not_or] at hbyte
      simp [slash, hbyte]
  · refine dotDot_notMem_lexicallyNormal (dotDot_notMem_parse ?_)
    rw [splitOnP_map]
    intro hmem
    have := List.all_eq_true.mp h _ hmem
    simp at this

theorem extracts_extractFile {centralOffset : ℕ} {central : CentralHeader} {entryName : Bytes}
    {output : FsPath} {dataOffset : ℕ} (h : destination.location.Inside output.location) :
    Extracts disk destination central.uncompressedSize (fun _ => 0)
      (extractFile zlib disk input centralOffset central entryName output dataOffset) := by
  refine .bind _ (extracts_attempt (fun place hplace => ?_) rfl) fun _ => ?_
  · cases hplace
    exact h
  · refine .onError ?_ extracts_remove
    refine .bind (fun _ => 0) ?_ fun position => .lift fun _ _ => .observe fun log _ =>
      .silent (fun _ => rfl) fun _ _ _ => Nat.le_refl 0
    rw [extractPayload]
    split
    · exact extracts_copyStoredEntry _ _ _ _
    · exact extracts_inflateEntry _ _ _ _

/-- What may still be written when some sizes have been declared and some entries are still to come.
Without a limit an entry is bounded by what 32 bits can declare. -/
def remaining (limit declared count : ℕ) : ℕ :=
  if limit = 0 then count * (uint32Max + 1) else limit - declared

theorem readLe32_le (bytes : Bytes) (offset : ℕ) : readLe32 bytes offset ≤ uint32Max := by
  have h (byte : UInt8) : byte.toNat < 256 := byte.toNat_lt
  have h0 := h (bytes.getD offset 0)
  have h1 := h (bytes.getD (offset + 1) 0)
  have h2 := h (bytes.getD (offset + 2) 0)
  have h3 := h (bytes.getD (offset + 3) 0)
  rw [readLe32, uint32Max]
  omega

/-- The budget of an entry covers its declared size and leaves that of the entries after it. -/
theorem uncompressedSize_le {position declared count : ℕ} {central : CentralHeader}
    (hcentral : readCentralHeader input position = .ok central)
    (hlimit : limit ≠ 0 → declared + central.uncompressedSize ≤ limit) :
    central.uncompressedSize + remaining limit (declared + central.uncompressedSize) count ≤
      remaining limit declared (count + 1) := by
  have hsize : central.uncompressedSize ≤ uint32Max := by
    rw [readCentralHeader] at hcentral
    obtain ⟨header, -, hheader⟩ := NestedLoop.exists_of_bind_ok hcentral
    cases hheader
    exact readLe32_le _ _
  rw [remaining, remaining]
  split_ifs with hne
  · rw [Nat.add_mul, Nat.one_mul]
    omega
  · have := hlimit hne
    omega

theorem extracts_extractEntry (state : ℕ × ℕ) (count : ℕ) :
    Extracts disk destination (remaining limit state.2 (count + 1))
      (fun next => remaining limit next.2 count)
      (extractEntry zlib disk input destination limit record state) := by
  obtain ⟨position, declared⟩ := state
  refine .failIf fun _ => .lift fun central hcentral => .failIf fun hlimit => .failIf fun _ =>
    .failIf fun _ => .failIf fun _ => .lift fun entryName _ => .failIf fun hsafe => .failIf fun _ => ?_
  have hlimit : limit ≠ 0 → declared + central.uncompressedSize ≤ limit := by simpa using hlimit
  have hbudget := @uncompressedSize_le input limit position declared count central hcentral hlimit
  obtain ⟨hrooted, hparts⟩ := entryPath_of_safe (by simpa using hsafe)
  have hprefixes (q : FsPath) (hq : q ∈ (destination.append (entryPath entryName)).prefixes) :
      q ∈ destination.prefixes ∨ destination.location.Inside q.location :=
    prefixes_append hrooted hparts hq
  split
  · refine .failIf fun _ => .bind _ (extracts_createDirectories hprefixes) fun _ => .pure ?_
    exact Nat.le_trans (Nat.le_add_left _ _) hbudget
  · refine .bind _ (extracts_createDirectories fun q hq => hprefixes q (prefixes_parent hq)) fun _ =>
      .lift fun dataOffset _ => .bind (fun _ =>
        remaining limit (declared + central.uncompressedSize) count) ?_ fun _ => .pure (Nat.le_refl _)
    refine ((extracts_extractFile (inside_append hrooted hparts)).frame
      (remaining limit (declared + central.uncompressedSize) count)).mono hbudget fun _ => ?_
    exact Nat.le_add_left _ _

theorem extracts_extractEntries (count : ℕ) (state : ℕ × ℕ) :
    Extracts disk destination (remaining limit state.2 count) (fun _ => 0)
      (extractEntries zlib disk input destination limit record count state) := by
  induction count generalizing state with
  | zero => exact .pure (Nat.zero_le _)
  | succ count ih => exact .bind _ (extracts_extractEntry state count) ih

/-- A missing directory on the way to the destination. -/
def Leads (disk : Disk) (destination : FsPath) (event : DiskEvent) : Prop :=
  ∃ q ∈ destination.prefixes, disk.isDirectory q.location = false ∧
    event = .createdDirectory q.location

/-- What one missing directory does: it is there afterwards, unless the disk fails. -/
theorem createMissing_cases (message : String) {q : FsPath} (hq : q ∈ destination.prefixes)
    (log : List DiskEvent) :
    ∃ added, (createMissing disk message q log).2 = log ++ added ∧
      (∀ event ∈ added, Leads disk destination event) ∧
      ((createMissing disk message q log).1 = .ok () → namesDirectory q = true →
        isDirectory disk (log ++ added) q.location = true) := by
  rw [createMissing, observe]
  split_ifs with hthere
  · rw [attempt, observe]
    cases disk.fault log with
    | some reason => exact ⟨[], (List.append_nil log).symm, nofun, nofun⟩
    | none =>
      refine ⟨[.createdDirectory q.location], rfl, fun event hevent => ?_, fun _ _ => ?_⟩
      · rw [List.mem_singleton.mp hevent]
        have hnone := hthere.2
        rw [isDirectory, Bool.or_eq_false_iff] at hnone
        exact ⟨q, hq, hnone.1, rfl⟩
      · simp [isDirectory]
  · refine ⟨[], (List.append_nil log).symm, nofun, fun _ hnames => ?_⟩
    rw [List.append_nil]
    exact (Bool.not_eq_false _).mp fun hnone => hthere ⟨hnames, hnone⟩

theorem forEach_createMissing (message : String) {paths : List FsPath}
    (hpaths : ∀ q ∈ paths, q ∈ destination.prefixes) (log : List DiskEvent) :
    ∃ added, (forEach (createMissing disk message) paths log).2 = log ++ added ∧
      (∀ event ∈ added, Leads disk destination event) ∧
      ((forEach (createMissing disk message) paths log).1 = .ok () → ∀ q ∈ paths,
        namesDirectory q = true → isDirectory disk (log ++ added) q.location = true) := by
  induction paths generalizing log with
  | nil => exact ⟨[], (List.append_nil log).symm, nofun, fun _ => nofun⟩
  | cons q rest ih =>
    obtain ⟨added, hadded, hleads, hthere⟩ :=
      @createMissing_cases disk destination message q (hpaths q List.mem_cons_self) log
    rcases hq : createMissing disk message q log with ⟨e | _, after⟩
    · rw [hq] at hadded
      rw [forEach, bind_of_error hq]
      exact ⟨added, hadded, hleads, nofun⟩
    · rw [hq] at hadded hthere
      rw [forEach, bind_of_ok hq]
      subst hadded
      obtain ⟨more, hmore, hleads', hrest⟩ := ih (fun r hr => hpaths r (List.mem_cons_of_mem _ hr))
        (log ++ added)
      refine ⟨added ++ more, by rw [hmore, List.append_assoc], fun event hevent => ?_,
        fun hok r hr hnames => ?_⟩
      · exact (List.mem_append.mp hevent).elim (hleads event) (hleads' event)
      · rw [← List.append_assoc]
        rcases List.mem_cons.mp hr with rfl | hr
        · exact isDirectory_append (hthere rfl hnames) more
        · exact hrest hok r hr hnames

/-- Creating the destination only creates what is missing on the way to it, and then it is there. -/
theorem createDirectories_destination {result : Except String Unit}
    (h : createDirectories disk message destination [] = (result, log)) :
    (∀ event ∈ log, Leads disk destination event) ∧
      (result = .ok () → Reached disk destination log) := by
  rw [createDirectories] at h
  cases hempty : decide (destination.rooted = false ∧ destination.parts = []) with
  | true =>
    rw [hempty, bind_of_error (m := failIf true _) rfl] at h
    cases h
    exact ⟨nofun, nofun⟩
  | false =>
    rw [hempty, bind_of_ok (m := failIf false _) rfl] at h
    obtain ⟨added, hadded, hleads, hthere⟩ :=
      @forEach_createMissing disk destination message destination.prefixes (fun q hq => hq) []
    rw [h, List.nil_append] at hadded
    rw [h, List.nil_append] at hthere
    subst hadded
    exact ⟨hleads, hthere⟩

theorem extracts_rest {record : EndRecord} :
    Extracts disk destination (remaining limit 0 record.entryCount) (fun _ => 0) (do
      let (position, _) ← extractEntries zlib disk input destination limit record record.entryCount
        (record.centralOffset, 0)
      failIf (position ≠ record.centralOffset + record.centralSize)
        "ZIP central directory 长度不匹配") :=
  .bind _ (extracts_extractEntries _ _) fun _ => .silent (fun _ => rfl) fun _ _ _ => Nat.le_refl 0

/-- Whether it succeeds or fails, extracting creates directories and files inside the destination only,
apart from missing directories on the way to the destination, and writes no more than the limit. -/
theorem extractZip_confined (zlib : Zlib) (disk : Disk) (input : Bytes) (destination : FsPath)
    (limit : ℕ) :
    (∀ event ∈ (extractZip zlib disk input destination limit []).2,
      Leads disk destination event ∨ Confined destination.location event) ∧
    (limit ≠ 0 →
      ((extractZip zlib disk input destination limit []).2.map DiskEvent.written).sum ≤ limit) := by
  rw [extractZip]
  cases hrecord : readEndRecord input with
  | error e =>
    rw [bind_of_error (m := lift (.error e)) rfl]
    exact ⟨nofun, fun _ => Nat.zero_le _⟩
  | ok record =>
    rw [bind_of_ok (m := lift (.ok record)) rfl]
    rcases hcreate : createDirectories disk "创建 ZIP 解压目录失败: " destination [] with ⟨result, log⟩
    obtain ⟨hleads, hreached⟩ := createDirectories_destination hcreate
    have hfree : (log.map DiskEvent.written).sum = 0 := by
      refine List.sum_eq_zero fun written hwritten => ?_
      obtain ⟨event, hevent, rfl⟩ := List.mem_map.mp hwritten
      obtain ⟨q, -, -, rfl⟩ := hleads event hevent
      rfl
    cases result with
    | error e =>
      rw [bind_of_error hcreate]
      exact ⟨fun event hevent => .inl (hleads event hevent), fun _ => by rw [hfree]; exact Nat.zero_le _⟩
    | ok =>
      rw [bind_of_ok hcreate]
      obtain ⟨added, hadded, hconfined, -, hweight⟩ :=
        @extracts_rest zlib disk input destination limit record log (hreached rfl)
      rw [hadded]
      refine ⟨fun event hevent => ?_, fun hlimit => ?_⟩
      · exact (List.mem_append.mp hevent).imp (hleads event) (hconfined event)
      · rw [List.map_append, List.sum_append, hfree]
        rw [remaining, if_neg hlimit] at hweight
        omega

/-- An archive without entries, extracted to `a/b` where there is no directory `a`: the directory `a` is
created, which is not inside `a/b`. -/
theorem not_confined_parent :
    ∃ event ∈ (extractZip ⟨Unit, none, fun _ _ _ _ => ⟨.failure, 0, [], ()⟩, fun crc _ => crc⟩
        ⟨fun _ => false, fun _ => none⟩ (writeLe32 0x06054b50 ++ List.replicate 18 0)
        ⟨false, [[97], [98]]⟩ 0 []).2,
      ¬ Confined (FsPath.location ⟨false, [[97], [98]]⟩) event := by
  refine ⟨.createdDirectory ⟨false, [[97]]⟩, by decide +kernel, fun h => ?_⟩
  have hinside := (h _ rfl).2
  revert hinside
  decide

end Archive

end WaterStructure
