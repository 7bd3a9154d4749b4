import Mathlib.Data.List.Nodup
import WaterStructure.World.ArchiveLayout
import WaterStructure.World.ArchivePayload

/-!
# Archives that are written can be read

An archive that `create_zip` has written is read back file by file. The reader takes the largest values
of the count and the size fields for markers of ZIP64, while the writer uses them as values, so an
archive of 65535 files, or with a file of one byte less than four gibibytes, is written but not read.
-/

namespace WaterStructure

open EffectLog FsPath NestedLoop

namespace Archive

/-- What a file holds after an event, if it has been created. -/
def afterEvent (place : Location) (held : Option Bytes) : DiskEvent → Option Bytes
  | .createdDirectory _ => held
  | .createdFile other => if other = place then some [] else held
  | .wrote other bytes => if other = place then held.map (· ++ bytes) else held
  | .removedFile other => if other = place then none else held

/-- What the file at a place holds after the events, if they have created one. -/
def contents (log : List DiskEvent) (place : Location) : Option Bytes := log.foldl (afterEvent place) none

/-- The files of an archive are extracted: exactly they are created, with their contents. -/
def Restores (zlib : Zlib) (disk : Disk) (input : Bytes) (destination : FsPath)
    (files : List SourceFile) : Prop :=
  let result := extractZip zlib disk input destination 0 []
  result.1 = .ok () ∧ ∀ place bytes, contents result.2 place = some bytes ↔
    ∃ file ∈ files, file.place destination = place ∧ file.content = bytes

theorem contents_append (log added : List DiskEvent) (place : Location) :
    contents (log ++ added) place = added.foldl (afterEvent place) (contents log place) :=
  List.foldl_append

theorem foldl_createdDirectory (places : List Location) (place : Location) (held : Option Bytes) :
    (places.map DiskEvent.createdDirectory).foldl (afterEvent place) held = held := by
  induction places with
  | nil => rfl
  | cons other rest ih => exact ih

theorem foldl_wroteAll (chunks : List Bytes) (place : Location) (bytes : Bytes) :
    (wroteAll place chunks).foldl (afterEvent place) (some bytes) = some (bytes ++ chunks.flatten) := by
  induction chunks generalizing bytes with
  | nil => simp [wroteAll]
  | cons chunk rest ih =>
    rw [wroteAll, List.map_cons, List.foldl_cons, afterEvent, if_pos rfl, Option.map_some,
      List.flatten_cons, ← List.append_assoc]
    exact ih (bytes ++ chunk)

theorem foldl_wroteAll_of_ne {other place : Location} (h : other ≠ place) (chunks : List Bytes)
    (held : Option Bytes) : (wroteAll other chunks).foldl (afterEvent place) held = held := by
  induction chunks with
  | nil => rfl
  | cons chunk rest ih =>
    rw [wroteAll, List.map_cons, List.foldl_cons, afterEvent, if_neg h]
    exact ih

/-- What extracting a file appends. -/
def extracted (created : List Location) (place : Location) (chunks : List Bytes) : List DiskEvent :=
  created.map .createdDirectory ++ .createdFile place :: wroteAll place chunks

theorem contents_extracted (log : List DiskEvent) (created : List Location) (other place : Location)
    (chunks : List Bytes) : contents (log ++ extracted created other chunks) place =
      if other = place then some chunks.flatten else contents log place := by
  rw [contents_append, extracted, List.foldl_append, foldl_createdDirectory, List.foldl_cons, afterEvent]
  split_ifs with h
  · subst h
    rw [foldl_wroteAll, List.nil_append]
  · exact foldl_wroteAll_of_ne h chunks _

section Directories

variable {isDirectory : Location → Bool} {log : List DiskEvent}

theorem yields_createMissing (message : String) (path : FsPath) :
    ∃ created : List Location, Yields (createMissing (Disk.sound isDirectory) message path) log ()
      (created.map DiskEvent.createdDirectory) := by
  by_cases h : namesDirectory path ∧ Archive.isDirectory (Disk.sound isDirectory) log path.location = false
  · refine ⟨[path.location], ?_⟩
    rw [Yields, createMissing, observe, if_pos h]
    rfl
  · refine ⟨[], ?_⟩
    rw [Yields, createMissing, observe, if_neg h, List.map_nil, List.append_nil]
    rfl

theorem yields_forEach_createMissing (message : String) (paths : List FsPath) :
    ∃ created : List Location, Yields (forEach (createMissing (Disk.sound isDirectory) message) paths)
      log () (created.map DiskEvent.createdDirectory) := by
  induction paths generalizing log with
  | nil => exact ⟨[], .pure ()⟩
  | cons path rest ih =>
    obtain ⟨created, hpath⟩ := @yields_createMissing isDirectory log message path
    obtain ⟨more, hrest⟩ := @ih (log ++ created.map .createdDirectory)
    refine ⟨created ++ more, ?_⟩
    rw [List.map_append]
    exact hpath.bind hrest

/-- On a disk where nothing fails, creating directories only creates directories. -/
theorem yields_createDirectories (message : String) {path : FsPath}
    (h : path.rooted = true ∨ path.parts ≠ []) :
    ∃ created : List Location, Yields (createDirectories (Disk.sound isDirectory) message path) log ()
      (created.map DiskEvent.createdDirectory) := by
  obtain ⟨created, hcreate⟩ := @yields_forEach_createMissing isDirectory log message path.prefixes
  refine ⟨created, .failIf (decide_eq_false fun hempty => ?_) hcreate⟩
  rcases h with h | h
  · exact absurd (hempty.1.symm.trans h) Bool.false_ne_true
  · exact h hempty.2

end Directories

/-- A destination that can be created: it is absolute, or has an element before a separator at its end. -/
def IsDestination (destination : FsPath) : Prop := destination.rooted = true ∨ destination.base ≠ []

section Entry

variable {zlib : Zlib} {deflate : Bytes → Bytes} {Pending : zlib.Stream → Bytes → Bytes → Prop}
  {isDirectory : Location → Bool} {log : List DiskEvent} {destination : FsPath}

/-- A position in an archive at which the central record of a file stands, while the local record of the
file stands at another one. -/
structure EntryIn (zlib : Zlib) (deflate : Bytes → Bytes) (input : Bytes) (record : EndRecord)
    (file : SourceFile) (position centralPosition : ℕ) : Prop where
  fileIn : ∃ before after, input = before ++ localRecord zlib deflate file ++ after ∧
    before.length = position
  entryIn : ∃ before after,
    input = before ++ centralRecord (entryAt zlib deflate position file) ++ after ∧
      before.length = centralPosition
  centralOffset : position + (localRecord zlib deflate file).length ≤ record.centralOffset
  centralEnd : centralPosition + 46 + file.name.length ≤ record.centralOffset + record.centralSize
  offset_lt : record.centralOffset < uint32Max

theorem crc_le (crc : UInt32) : crc.toNat ≤ uint32Max := Nat.le_of_lt_succ crc.toNat_lt

variable {input : Bytes} {record : EndRecord} {file : SourceFile} {position centralPosition : ℕ}

theorem EntryIn.fits (h : EntryIn zlib deflate input record file position centralPosition)
    (hfile : Packable deflate file) : (entryAt zlib deflate position file).Fits where
  name := hfile.name
  crc := crc_le _
  compressedSize := hfile.compressed
  uncompressedSize := hfile.content
  localOffset := by
    have := h.centralOffset
    have := h.offset_lt
    dsimp only [entryAt]
    omega

/-- The central header is read, and after it the name. -/
theorem EntryIn.reads (h : EntryIn zlib deflate input record file position centralPosition)
    (hfile : Packable deflate file) :
    readCentralHeader input centralPosition = .ok (entryAt zlib deflate position file).header ∧
      readOr "读取 ZIP entry 名称失败" input (centralPosition + 46) file.name.length = .ok file.name := by
  obtain ⟨before, after, hinput, rfl⟩ := h.entryIn
  have hheader := readCentralHeader_append before (file.name ++ after) (h.fits hfile)
  have hname := readOr_append "读取 ZIP entry 名称失败"
    (before ++ centralHeader (entryAt zlib deflate position file)) file.name after
  have hsplit : before ++ centralHeader (entryAt zlib deflate position file) ++ (file.name ++ after) =
      input := by
    rw [hinput, centralRecord]
    simp only [List.append_assoc, entryAt]
  rw [hsplit] at hheader
  rw [List.append_assoc _ _ after, hsplit, List.length_append, centralHeader_length] at hname
  exact ⟨hheader, hname⟩

/-- The payload is decoded and its data descriptor is accepted. -/
theorem EntryIn.yields_extractFile (hz : zlib.Inflates deflate Pending)
    (h : EntryIn zlib deflate input record file position centralPosition) (hfile : Packable deflate file)
    {output : FsPath} (hplace : output.location = file.place destination) :
    ∃ chunks, chunks.flatten = file.content ∧
      Yields (extractFile zlib (Disk.sound isDirectory) input record.centralOffset
        (entryAt zlib deflate position file).header file.name output (position + 30 + file.name.length))
        log () (.createdFile (file.place destination) :: wroteAll (file.place destination) chunks) := by
  obtain ⟨before, after, hinput, rfl⟩ := h.fileIn
  have hcentral := h.centralOffset
  rw [localRecord_length] at hcentral
  have hstart : (before ++ localHeader file.name.length ++ file.name).length =
      before.length + 30 + file.name.length := by
    rw [List.length_append, List.length_append, localHeader_length]
  obtain ⟨chunks, hchunks, hinflate⟩ := @yields_inflateEntry zlib isDirectory
    (log ++ [.createdFile (file.place destination)]) deflate Pending (file.place destination)
    (text file.name) (text output.genericString) hz (before ++ localHeader file.name.length ++ file.name)
    (dataDescriptor (crc32 zlib 0 file.content).toNat (deflate file.content).length file.content.length ++
      after) file.content
  have hdescriptor := validateDataDescriptor_append
    (before ++ localHeader file.name.length ++ file.name ++ deflate file.content) after (text file.name)
    (crc_le (crc32 zlib 0 file.content)) hfile.compressed hfile.content
    (show _ ≤ record.centralOffset by rw [List.length_append, hstart]; omega)
  have hsplit : before ++ localHeader file.name.length ++ file.name ++ deflate file.content ++
      (dataDescriptor (crc32 zlib 0 file.content).toNat (deflate file.content).length
        file.content.length ++ after) = input := by
    rw [hinput, localRecord]
    simp only [List.append_assoc]
  rw [hsplit, hstart] at hinflate
  rw [List.append_assoc _ _ after, hsplit, List.length_append, hstart] at hdescriptor
  refine ⟨chunks, hchunks, ?_⟩
  rw [extractFile, hplace]
  -- The file is created, and what follows cannot fail on this disk.
  have hcreate : Yields (attempt (Disk.sound isDirectory)
      (fun _ => "无法创建 ZIP entry: " ++ text output.genericString)
      (.createdFile (file.place destination))) log () [.createdFile (file.place destination)] := rfl
  refine hcreate.bind (.onError ?_)
  change Yields _ _ () (wroteAll (file.place destination) chunks)
  rw [← List.append_nil (wroteAll (file.place destination) chunks)]
  refine Yields.bind (a := before.length + 30 + file.name.length + (deflate file.content).length) ?_ ?_
  · rw [extractPayload, if_neg (by simp [CentralEntry.header]), hplace]
    exact hinflate
  · refine .lift (a := ()) ?_ (Yields.pure ())
    rw [checkDescriptor, if_pos (by simp [CentralEntry.header])]
    exact hdescriptor

/-- The local header of the file is accepted. -/
theorem EntryIn.readLocalHeader (h : EntryIn zlib deflate input record file position centralPosition)
    (hfile : Packable deflate file) :
    readLocalHeader input record.centralOffset (entryAt zlib deflate position file).header file.name =
      .ok (position + 30 + file.name.length) := by
  have hfits := h.fits hfile
  obtain ⟨before, after, hinput, rfl⟩ := h.fileIn
  have hcentral := h.centralOffset
  rw [localRecord_length] at hcentral
  have hlocal := readLocalHeader_append before (deflate file.content ++
    (dataDescriptor (crc32 zlib 0 file.content).toNat (deflate file.content).length file.content.length ++
      after)) hfits rfl (show _ ≤ record.centralOffset by dsimp only [entryAt]; omega)
  have hsplit : before ++ localHeader file.name.length ++ (file.name ++ (deflate file.content ++
      (dataDescriptor (crc32 zlib 0 file.content).toNat (deflate file.content).length
        file.content.length ++ after))) = input := by
    rw [hinput, localRecord]
    simp only [List.append_assoc]
  dsimp only [entryAt] at hlocal ⊢
  rw [hsplit] at hlocal
  exact hlocal

/-- One turn of the loop over the central directory creates the file of the entry. -/
theorem EntryIn.yields (hz : zlib.Inflates deflate Pending) (hdestination : IsDestination destination)
    (h : EntryIn zlib deflate input record file position centralPosition) (hfile : Packable deflate file)
    (hvalid : file.Valid) (hsize : file.content.length ≠ uint32Max) (declared : ℕ) :
    ∃ created chunks, chunks.flatten = file.content ∧
      Yields (extractEntry zlib (Disk.sound isDirectory) input destination 0 record
        (centralPosition, declared)) log (centralPosition + 46 + file.name.length,
          declared + file.content.length) (extracted created (file.place destination) chunks) := by
  obtain ⟨hheader, hname⟩ := h.reads hfile
  have hcentral := h.centralOffset
  have hoffset := h.offset_lt
  have hend := h.centralEnd
  rw [localRecord_length] at hcentral
  have hparent : (destination.append ⟨false, file.parts⟩).parent.rooted = true ∨
      (destination.append ⟨false, file.parts⟩).parent.parts ≠ [] := by
    rw [hvalid.append, parent]
    refine hdestination.imp_right fun hbase => ?_
    dsimp only
    rw [List.dropLast_append_of_ne_nil hvalid.1]
    exact fun hempty => hbase (List.append_eq_nil_iff.mp hempty).1
  obtain ⟨created, hdirectories⟩ := @yields_createDirectories isDirectory log
    "创建 ZIP entry 父目录失败: " _ hparent
  obtain ⟨chunks, hchunks, hextract⟩ := @EntryIn.yields_extractFile zlib deflate Pending isDirectory
    (log ++ created.map .createdDirectory) destination input record file position centralPosition hz h
    hfile _ (hvalid.location destination)
  have hzip64 : ¬ ((deflate file.content).length = uint32Max ∨ file.content.length = uint32Max ∨
      position = uint32Max) := by
    omega
  refine ⟨created, chunks, hchunks, ?_⟩
  rw [extractEntry]
  dsimp only
  refine .failIf (decide_eq_false (by omega)) (.lift hheader (.failIf (by simp)
    (.failIf (by simp [CentralEntry.header]) (.failIf (decide_eq_false hzip64)
    (.failIf (decide_eq_false ?_) (.lift hname (.failIf (by simp [hvalid.safe]) ?_)))))))
  · dsimp only [CentralEntry.header, entryAt]
    omega
  rw [hvalid.entryPath]
  have hsafe : safeRelativePath (genericString ⟨false, file.parts⟩) = true := hvalid.safe
  refine .failIf (by simp [hsafe]) ?_
  rw [if_neg (by rw [hvalid.last_name]; exact Bool.false_ne_true)]
  refine hdirectories.bind (.lift (h.readLocalHeader hfile) ?_)
  rw [← List.append_nil (_ :: _)]
  exact hextract.bind (.pure _)

/-- A file whose size looks like the marker of ZIP64 is not extracted. -/
theorem EntryIn.fails (h : EntryIn zlib deflate input record file position centralPosition)
    (hfile : Packable deflate file) (hsize : file.content.length = uint32Max) (declared : ℕ) :
    Fails (extractEntry zlib (Disk.sound isDirectory) input destination 0 record
      (centralPosition, declared)) log := by
  rw [extractEntry]
  dsimp only
  exact .failIf (.inr (.lift (h.reads hfile).1 (.failIf (.inr (.failIf (.inr (.failIf (.inl
    (decide_eq_true (.inr (.inl hsize)))))))))))

end Entry

section Run

variable {zlib : Zlib} {deflate : Bytes → Bytes} {Pending : zlib.Stream → Bytes → Bytes → Prop}
  {isDirectory : Location → Bool} {destination : FsPath}

variable {files first rest : List SourceFile} {file : SourceFile} {log : List DiskEvent}

theorem layout_entryIn (hfiles : files = first ++ file :: rest) (h : Packed zlib deflate files) :
    EntryIn zlib deflate (layout zlib deflate files) (layoutRecord zlib deflate files) file
      (localPart zlib deflate first).length (centralPosition zlib deflate files first) where
  fileIn := by
    refine ⟨localPart zlib deflate first, localPart zlib deflate rest ++
      (centralPart zlib deflate files ++ endRecord files.length (centralPart zlib deflate files).length
        (localPart zlib deflate files).length), ?_, rfl⟩
    rw [layout]
    nth_rewrite 1 [hfiles]
    simp only [localPart_append, localPart_cons, List.append_assoc]
  entryIn := by
    refine ⟨localPart zlib deflate files ++ centralPart zlib deflate first,
      (entriesFrom zlib deflate ((localPart zlib deflate first).length +
        (localRecord zlib deflate file).length) rest).flatMap centralRecord ++
      endRecord files.length (centralPart zlib deflate files).length (localPart zlib deflate files).length,
      ?_, List.length_append⟩
    rw [layout]
    nth_rewrite 2 [hfiles]
    simp only [centralPart_append, entriesFrom, List.flatMap_cons, List.append_assoc]
  centralOffset := by
    rw [layoutRecord, hfiles, localPart_append, localPart_cons]
    simp only [List.length_append]
    omega
  centralEnd := by
    have hcentral : (centralPart zlib deflate (first ++ [file])).length ≤
        (centralPart zlib deflate files).length := by
      rw [hfiles, List.append_cons first file rest, centralPart_append (first ++ [file]),
        List.length_append]
      exact Nat.le_add_right _ _
    rw [← centralPosition_concat]
    exact Nat.add_le_add_left hcentral _
  offset_lt := h.parts_lt.1

/-- The files that have been created are these. -/
def Holds (destination : FsPath) (log : List DiskEvent) (files : List SourceFile) : Prop :=
  ∀ place bytes, contents log place = some bytes ↔
    ∃ file ∈ files, file.place destination = place ∧ file.content = bytes

theorem place_injective {other : SourceFile} (h : file.place destination = other.place destination) :
    file.parts = other.parts :=
  List.append_cancel_left (Location.mk.inj h).2

/-- One more file. -/
theorem Holds.concat (h : Holds destination log files) (hnew : ∀ other ∈ files, other.parts ≠ file.parts)
    (created : List Location) {chunks : List Bytes} (hchunks : chunks.flatten = file.content) :
    Holds destination (log ++ extracted created (file.place destination) chunks) (files ++ [file]) := by
  intro place bytes
  rw [contents_extracted, hchunks]
  simp only [List.mem_append, List.mem_singleton, or_and_right, exists_or, exists_eq_left]
  split_ifs with hplace
  · subst hplace
    have hother : ¬ ∃ other ∈ files, other.place destination = file.place destination ∧
        other.content = bytes := fun ⟨other, hmem, heq, _⟩ => hnew other hmem (place_injective heq)
    rw [Option.some.injEq]
    exact ⟨fun heq => .inr ⟨rfl, heq⟩, fun hor => (hor.resolve_left hother).2⟩
  · rw [h place bytes]
    exact ⟨.inl, fun hor => hor.resolve_right fun heq => hplace heq.1⟩

/-- The loop over the central directory creates the rest of the files, if no size looks like a marker. -/
theorem yields_extractEntries (hz : zlib.Inflates deflate Pending)
    (hdestination : IsDestination destination) {files first rest : List SourceFile}
    {log : List DiskEvent} {declared : ℕ} (hfiles : files = first ++ rest)
    (h : Packed zlib deflate files) (hvalid : ∀ file ∈ files, file.Valid)
    (hdistinct : (files.map SourceFile.parts).Nodup) (hholds : Holds destination log first)
    (hsize : ∀ file ∈ rest, file.content.length ≠ uint32Max) :
    ∃ total added, Yields (extractEntries zlib (Disk.sound isDirectory) (layout zlib deflate files)
      destination 0 (layoutRecord zlib deflate files) rest.length
      (centralPosition zlib deflate files first, declared)) log
      (centralPosition zlib deflate files files, total) added ∧
      Holds destination (log ++ added) files := by
  induction rest generalizing first log declared with
  | nil =>
    rw [List.append_nil] at hfiles
    subst hfiles
    exact ⟨declared, [], .pure _, by rwa [List.append_nil]⟩
  | cons file rest ih =>
    have hmem : file ∈ files := hfiles ▸ List.mem_append_right _ List.mem_cons_self
    have hnew : ∀ other ∈ first, other.parts ≠ file.parts := by
      rw [hfiles, List.map_append, List.nodup_append] at hdistinct
      exact fun other hother => hdistinct.2.2 _ (List.mem_map_of_mem hother) _
        (List.mem_map_of_mem List.mem_cons_self)
    obtain ⟨created, chunks, hchunks, hyields⟩ := @EntryIn.yields zlib deflate Pending isDirectory log
      destination _ _ file _ _ hz hdestination (layout_entryIn hfiles h) (h.each file hmem)
      (hvalid file hmem) (hsize file List.mem_cons_self) declared
    obtain ⟨total, added, hrest, hholds'⟩ := @ih (first ++ [file])
      (log ++ extracted created (file.place destination) chunks)
      (declared + file.content.length) (by rw [hfiles, List.append_assoc, List.singleton_append])
      (hholds.concat hnew created hchunks) fun other hother => hsize other (List.mem_cons_of_mem _ hother)
    refine ⟨total, extracted created (file.place destination) chunks ++ added, ?_, ?_⟩
    · refine hyields.bind ?_
      rw [centralPosition_concat] at hrest
      exact hrest
    · rwa [← List.append_assoc]

/-- The loop stops at the first file whose size looks like a marker. -/
theorem fails_extractEntries (hz : zlib.Inflates deflate Pending)
    (hdestination : IsDestination destination) {declared : ℕ} (hfiles : files = first ++ rest)
    (h : Packed zlib deflate files) (hvalid : ∀ file ∈ files, file.Valid)
    (hsize : ∃ file ∈ rest, file.content.length = uint32Max) :
    Fails (extractEntries zlib (Disk.sound isDirectory) (layout zlib deflate files) destination 0
      (layoutRecord zlib deflate files) rest.length
      (centralPosition zlib deflate files first, declared)) log := by
  induction rest generalizing first log declared with
  | nil =>
    obtain ⟨_, hmem, _⟩ := hsize
    exact absurd hmem List.not_mem_nil
  | cons file rest ih =>
    have hmem : file ∈ files := hfiles ▸ List.mem_append_right _ List.mem_cons_self
    by_cases hfile : file.content.length = uint32Max
    · exact Fails.bind ((layout_entryIn hfiles h).fails (h.each file hmem) hfile declared)
    · obtain ⟨created, chunks, -, hyields⟩ := @EntryIn.yields zlib deflate Pending isDirectory log
        destination _ _ file _ _ hz hdestination (layout_entryIn hfiles h) (h.each file hmem)
        (hvalid file hmem) hfile declared
      refine hyields.fails ?_
      rw [← centralPosition_concat]
      refine ih (by rw [hfiles, List.append_assoc, List.singleton_append]) ?_
      obtain ⟨other, hother, hlength⟩ := hsize
      rcases List.mem_cons.mp hother with rfl | hother
      · exact absurd hlength hfile
      · exact ⟨other, hother, hlength⟩

/-- Extracting an archive that has been written creates exactly its files, unless their number or the
size of one of them is the largest value of its field. -/
theorem restores_layout_iff (hz : zlib.Inflates deflate Pending) (hdestination : IsDestination destination)
    {files : List SourceFile} (h : Packed zlib deflate files) (hvalid : ∀ file ∈ files, file.Valid)
    (hdistinct : (files.map SourceFile.parts).Nodup) :
    Restores zlib (Disk.sound isDirectory) (layout zlib deflate files) destination files ↔
      files.length ≠ uint16Max ∧ ∀ file ∈ files, file.content.length ≠ uint32Max := by
  have hrecord := readEndRecord_layout h
  have hbase : destination.rooted = true ∨ destination.parts ≠ [] :=
    hdestination.imp_right fun hne hempty => hne (by rw [base, hempty]; rfl)
  obtain ⟨created, hdirectories⟩ := @yields_createDirectories isDirectory []
    "创建 ZIP 解压目录失败: " destination hbase
  have hholds : Holds destination ([] ++ created.map .createdDirectory) [] := by
    intro place bytes
    rw [contents_append, foldl_createdDirectory]
    simp [contents]
  constructor
  · rintro ⟨hok, -⟩
    by_cases hcount : files.length = uint16Max
    · rw [if_pos hcount] at hrecord
      rw [extractZip, hrecord] at hok
      cases hok
    · refine ⟨hcount, fun file hmem hsize => ?_⟩
      rw [if_neg hcount] at hrecord
      have hfails : Fails (extractZip zlib (Disk.sound isDirectory) (layout zlib deflate files)
          destination 0) [] :=
        .lift hrecord (hdirectories.fails (Fails.bind (fails_extractEntries hz hdestination
          (List.nil_append files).symm h hvalid ⟨file, hmem, hsize⟩)))
      exact hfails () hok
  · rintro ⟨hcount, hsize⟩
    rw [if_neg hcount] at hrecord
    obtain ⟨total, added, hloop, hfiles⟩ := @yields_extractEntries zlib deflate Pending isDirectory
      destination hz hdestination files [] files _ 0 (List.nil_append files).symm h hvalid hdistinct hholds
      hsize
    have hend : Yields (extractZip zlib (Disk.sound isDirectory) (layout zlib deflate files)
        destination 0) [] () (created.map .createdDirectory ++ (added ++ [])) :=
      .lift hrecord (hdirectories.bind (hloop.bind (.check (decide_eq_false (not_not.mpr rfl)))))
    rw [List.append_nil] at hend
    rw [Restores, hend]
    refine ⟨rfl, ?_⟩
    rwa [← List.append_assoc]

end Run

/-- Every tree that `create_zip` packs is restored by `extract_zip` without a limit, unless it has 65535
files or a file of 4294967295 bytes. -/
theorem restores_iff {zlib : Zlib} {deflate : Bytes → Bytes}
    {Pending : zlib.Stream → Bytes → Bytes → Prop} (hz : zlib.Inflates deflate Pending)
    (tree : SourceTree) (limit : ℕ) {destination : FsPath} (hdestination : IsDestination destination)
    (isDirectory : Location → Bool) {bytes : Bytes}
    (h : createZip zlib deflate limit tree.files = .ok bytes) :
    Restores zlib (Disk.sound isDirectory) bytes destination tree.files ↔
      tree.files.length ≠ 65535 ∧ ∀ file ∈ tree.files, file.content.length ≠ 4294967295 := by
  obtain ⟨hpacked, rfl⟩ := createZip_ok h
  have hperm : (tree.files.mergeSort SourceFile.le).Perm tree.files := List.mergeSort_perm _ _
  have hvalid : ∀ file ∈ tree.files.mergeSort SourceFile.le, file.Valid := fun file hmem =>
    tree.valid file (hperm.mem_iff.mp hmem)
  have hdistinct := (hperm.map SourceFile.parts).nodup_iff.mpr tree.distinct
  have hsorted := @restores_layout_iff _ _ _ isDirectory _ hz hdestination _ hpacked hvalid hdistinct
  rw [hperm.length_eq] at hsorted
  simp only [Restores, hperm.mem_iff] at hsorted ⊢
  exact hsorted

/-- A file at the top and one in a directory. -/
def twoFiles : SourceTree where
  files := [⟨[[98], [99]], [104, 105]⟩, ⟨[[97]], []⟩]
  valid := by decide
  distinct := by decide

theorem restores_twoFiles :
    ∃ bytes, createZip storedZlib storedDeflate 0 twoFiles.files = .ok bytes ∧
      Restores storedZlib (Disk.sound fun _ => false) bytes ⟨false, [[111, 117, 116]]⟩ twoFiles.files := by
  have hsmall : ∀ file ∈ twoFiles.files, Packable storedDeflate file ∧ file.content.length ≤ 200 ∧
      92 + 2 * file.name.length + (storedDeflate file.content).length ≤ 200 := by
    rw [twoFiles, List.forall_mem_cons, List.forall_mem_singleton]
    exact ⟨⟨⟨by decide, by decide, by decide⟩, by decide⟩, ⟨⟨by decide, by decide, by decide⟩, by decide⟩⟩
  obtain ⟨bytes, hbytes⟩ := @createZip_of_small storedZlib _ _ 200 (by decide) (by decide) hsmall
  exact ⟨bytes, hbytes, (restores_iff storedZlib_inflates twoFiles 0 (.inr (by decide)) _ hbytes).mpr
    ⟨by decide, by decide⟩⟩

section Many

/-- Different names of three bytes above the ASCII signs. -/
def letters (i : ℕ) : FileName :=
  [UInt8.ofNat (97 + i / 1024), UInt8.ofNat (97 + i / 32 % 32), UInt8.ofNat (97 + i % 32)]

def emptyFile (i : ℕ) : SourceFile := ⟨[letters i], []⟩

variable {i : ℕ}

theorem le_of_mem_letters (h : i < 65536) {byte : UInt8} (hbyte : byte ∈ letters i) : 97 ≤ byte.toNat := by
  rw [letters] at hbyte
  simp only [List.mem_cons, List.not_mem_nil, or_false] at hbyte
  rcases hbyte with rfl | rfl | rfl <;> rw [UInt8.toNat_ofNat'] <;> omega

theorem letters_injective {j : ℕ} (hi : i < 65536) (hj : j < 65536) (h : letters i = letters j) :
    i = j := by
  simp only [letters, List.cons.injEq, ← UInt8.toNat_inj, UInt8.toNat_ofNat', and_true] at h
  omega

theorem emptyFile_valid (h : i < 65536) : (emptyFile i).Valid := by
  have hnot {byte : UInt8} (hsmall : byte.toNat < 97) : byte ∉ letters i := fun hmem =>
    absurd (le_of_mem_letters h hmem) (Nat.not_le.mpr hsmall)
  have hpart : SourceFile.ValidPart (letters i) :=
    ⟨List.cons_ne_nil _ _, by simp [letters, dot], by simp [letters, dotDot], hnot (by decide),
      hnot (by decide), hnot (by decide)⟩
  refine ⟨List.cons_ne_nil _ _, fun part hmem => List.mem_singleton.mp hmem ▸ hpart, ?_⟩
  rw [SourceFile.name, emptyFile, List.intercalate_singleton]
  exact fun hdrive => hnot (by decide) (List.mem_of_getElem? hdrive)

theorem emptyFile_name (i : ℕ) : (emptyFile i).name.length = 3 := by
  rw [SourceFile.name, emptyFile, List.intercalate_singleton]
  rfl

/-- A tree of empty files. -/
def emptyFiles (count : ℕ) (h : count ≤ 65536) : SourceTree where
  files := (List.range count).map emptyFile
  valid := by
    intro file hfile
    obtain ⟨i, hi, rfl⟩ := List.mem_map.mp hfile
    exact emptyFile_valid (Nat.lt_of_lt_of_le (List.mem_range.mp hi) h)
  distinct := by
    rw [List.map_map]
    refine List.Nodup.map_on (fun i hi j hj heq => ?_) List.nodup_range
    exact letters_injective (Nat.lt_of_lt_of_le (List.mem_range.mp hi) h)
      (Nat.lt_of_lt_of_le (List.mem_range.mp hj) h) (List.cons.inj heq).1

theorem emptyFiles_length (count : ℕ) (h : count ≤ 65536) : (emptyFiles count h).files.length = count := by
  rw [emptyFiles, List.length_map, List.length_range]

theorem createZip_emptyFiles {count : ℕ} (h : count ≤ 65535) :
    ∃ bytes, createZip storedZlib storedDeflate 0 (emptyFiles count (Nat.le_succ_of_le h)).files =
      .ok bytes := by
  refine @createZip_of_small _ _ _ 103 ?_ ?_ fun file hmem => ?_
  · rwa [emptyFiles_length]
  · rw [emptyFiles_length, uint32Max]
    omega
  · obtain ⟨i, -, rfl⟩ := List.mem_map.mp hmem
    have hcontent : (emptyFile i).content = [] := rfl
    rw [emptyFile_name, hcontent]
    exact ⟨⟨by rw [emptyFile_name]; decide, by rw [hcontent]; decide, by rw [hcontent]; decide⟩,
      by decide, by decide⟩

end Many

/-- A tree of 65535 empty files is packed, but not restored. -/
theorem not_restores_emptyFiles :
    ∃ bytes, createZip storedZlib storedDeflate 0 (emptyFiles 65535 (by omega)).files = .ok bytes ∧
      ¬ Restores storedZlib (Disk.sound fun _ => false) bytes ⟨false, [[111, 117, 116]]⟩
        (emptyFiles 65535 (by omega)).files := by
  obtain ⟨bytes, hbytes⟩ := @createZip_emptyFiles 65535 (by omega)
  refine ⟨bytes, hbytes, ?_⟩
  rintro ⟨hok, -⟩
  obtain ⟨hpacked, rfl⟩ := createZip_ok hbytes
  have hrecord := readEndRecord_layout hpacked
  rw [List.length_mergeSort, emptyFiles_length, uint16Max, if_pos rfl] at hrecord
  rw [extractZip, hrecord] at hok
  cases hok

end Archive

end WaterStructure
