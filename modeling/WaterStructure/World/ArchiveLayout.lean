import WaterStructure.World.ArchiveConfined
import WaterStructure.World.ArchiveRecords

/-!
# The layout of a written archive

An archive that `create_zip` returns consists of the local records of the files in the order of their
paths, the central records with the positions of the local ones, and the end record. All values fit their
fields, and everything before the end record is shorter than four gibibytes, so of the sizes only the
size of a file can be the largest value of its field. The name of a file is accepted by the reader and
leads to the file's own path.
-/

namespace WaterStructure

open EffectLog FsPath NestedLoop

namespace SourceFile

variable {file : SourceFile}

theorem Valid.part (h : file.Valid) {part : FileName} (hpart : part ∈ file.parts) : ValidPart part :=
  h.2.1 part hpart

theorem Valid.name_ne_nil (h : file.Valid) : file.name ≠ [] :=
  intercalate_ne_nil slash h.1 fun _ hpart => (h.part hpart).1

/-- No byte of a name is a null byte or a backslash. -/
theorem Valid.not_mem_name (h : file.Valid) {byte : UInt8} (hslash : byte ≠ slash)
    (hparts : ∀ part, ValidPart part → byte ∉ part) : byte ∉ file.name := fun hmem =>
  (mem_intercalate hmem).elim hslash fun ⟨part, hpart, hbyte⟩ => hparts part (h.part hpart) hbyte

theorem ValidPart.not_isSeparator {part : FileName} (h : ValidPart part) {byte : UInt8}
    (hbyte : byte ∈ part) : Archive.isSeparator byte = false := by
  have hslash : byte ≠ slash := fun heq => h.2.2.2.1 (heq ▸ hbyte)
  have hbackslash : byte ≠ 92 := fun heq => h.2.2.2.2.1 (heq ▸ hbyte)
  rw [Archive.isSeparator]
  exact decide_eq_false (not_or.mpr ⟨hslash, hbackslash⟩)

theorem Valid.splitOnP_name (h : file.Valid) : file.name.splitOnP Archive.isSeparator = file.parts :=
  splitOnP_intercalate (by decide) h.1 fun _ hpart _ hbyte => (h.part hpart).not_isSeparator hbyte

theorem Valid.head_name (h : file.Valid) : file.name.head?.any Archive.isSeparator = false := by
  obtain ⟨part, rest, hparts⟩ := List.exists_cons_of_ne_nil h.1
  have hpart := h.part (hparts ▸ List.mem_cons_self)
  rw [name, hparts, head?_intercalate slash hpart.1, Option.any_eq_false]
  intro byte hbyte
  rw [hpart.not_isSeparator (List.mem_of_head? hbyte)]

/-- A file is not taken for a directory. -/
theorem Valid.last_name (h : file.Valid) : file.name.getLast?.any Archive.isSeparator = false := by
  rw [name, getLast?_intercalate slash fun _ hpart => (h.part hpart).1, Option.any_eq_false]
  intro byte hbyte
  obtain ⟨part, hpart, hlast⟩ := Option.bind_eq_some_iff.mp hbyte
  rw [(h.part (List.mem_of_getLast? hpart)).not_isSeparator (List.mem_of_getLast? hlast)]

theorem Valid.safe (h : file.Valid) : Archive.safeRelativePath file.name = true := by
  have hnull : (0 : UInt8) ∉ file.name := h.not_mem_name (by decide) fun _ hpart => hpart.2.2.2.2.2
  rw [Archive.safeRelativePath, if_neg (not_or.mpr ⟨h.name_ne_nil, hnull⟩),
    if_neg (by rw [h.head_name]; exact Bool.false_ne_true), if_neg fun hdrive => h.2.2 hdrive.2,
    h.splitOnP_name, List.all_eq_true]
  exact fun part hpart => decide_eq_true (h.part hpart).2.2.1

theorem Valid.entryPath (h : file.Valid) : Archive.entryPath file.name = ⟨false, file.parts⟩ := by
  have hbackslash : (92 : UInt8) ∉ file.name := h.not_mem_name (by decide) fun _ hpart => hpart.2.2.2.2.1
  have hmap : (file.name.map fun byte => if byte = 92 then 47 else byte) = file.name :=
    (List.map_congr_left fun byte hbyte => if_neg (ne_of_mem_of_not_mem hbyte hbackslash)).trans
      (List.map_id' _)
  rw [Archive.entryPath, hmap, name,
    parse_intercalate h.1 fun part hpart => ⟨(h.part hpart).1, (h.part hpart).2.2.2.1⟩]
  exact lexicallyNormal_names fun part hpart =>
    ⟨⟨(h.part hpart).1, (h.part hpart).2.1⟩, (h.part hpart).2.2.1⟩

/-- The place of a file below a destination. -/
def place (destination : FsPath) (file : SourceFile) : Location :=
  ⟨destination.rooted, destination.location.names ++ file.parts⟩

theorem Valid.append (h : file.Valid) (destination : FsPath) :
    destination.append ⟨false, file.parts⟩ = ⟨destination.rooted, destination.base ++ file.parts⟩ := by
  rw [append_eq rfl, if_neg h.1]

theorem Valid.location (h : file.Valid) (destination : FsPath) :
    (destination.append ⟨false, file.parts⟩).location = file.place destination := by
  have hdots : dotDot ∉ file.parts := fun hmem => (h.part hmem).2.2.1 rfl
  have hnamed : (file.parts.filter fun part => Named part) = file.parts :=
    List.filter_eq_self.mpr fun part hpart => decide_eq_true ⟨(h.part hpart).1, (h.part hpart).2.1⟩
  rw [h.append, place, FsPath.location]
  dsimp only
  rw [List.foldl_append, foldl_enter hdots, hnamed, List.reverse_append, List.reverse_reverse,
    foldl_enter_base]

end SourceFile

namespace Archive

variable {zlib : Zlib} {deflate : Bytes → Bytes} {limit : ℕ}

/-- What the central directory says of a file whose local record is at a position. -/
def entryAt (zlib : Zlib) (deflate : Bytes → Bytes) (position : ℕ) (file : SourceFile) : CentralEntry where
  name := file.name
  crc := (crc32 zlib 0 file.content).toNat
  compressedSize := (deflate file.content).length
  uncompressedSize := file.content.length
  localOffset := position

/-- The entries of files whose local records follow each other from a position on. -/
def entriesFrom (zlib : Zlib) (deflate : Bytes → Bytes) : ℕ → List SourceFile → List CentralEntry
  | _, [] => []
  | position, file :: rest =>
    entryAt zlib deflate position file ::
      entriesFrom zlib deflate (position + (localRecord zlib deflate file).length) rest

theorem entriesFrom_length (position : ℕ) (files : List SourceFile) :
    (entriesFrom zlib deflate position files).length = files.length := by
  induction files generalizing position with
  | nil => rfl
  | cons file rest ih => rw [entriesFrom, List.length_cons, List.length_cons, ih]

theorem entriesFrom_append (position : ℕ) (first second : List SourceFile) :
    entriesFrom zlib deflate position (first ++ second) =
      entriesFrom zlib deflate position first ++
        entriesFrom zlib deflate (position + (first.flatMap (localRecord zlib deflate)).length) second := by
  induction first generalizing position with
  | nil => rfl
  | cons file rest ih =>
    rw [List.cons_append, entriesFrom, entriesFrom, ih, List.flatMap_cons, List.length_append,
      Nat.add_assoc, List.cons_append]

theorem localRecord_length (file : SourceFile) :
    (localRecord zlib deflate file).length =
      30 + file.name.length + (deflate file.content).length + 16 := by
  simp only [localRecord, List.length_append, localHeader_length]
  rfl

/-- The values of a file that the writer has checked. -/
structure Packable (deflate : Bytes → Bytes) (file : SourceFile) : Prop where
  name : file.name.length ≤ uint16Max
  content : file.content.length ≤ uint32Max
  compressed : (deflate file.content).length ≤ uint32Max

theorem ok_of_rejectIf {condition : Bool} {message : String} {value : Unit}
    (h : rejectIf condition message = .ok value) : condition = false := by
  cases condition with
  | true => exact nomatch h
  | false => rfl

/-- One turn of the loop appends a local record and its entry. -/
theorem packFile_ok {state next : Bytes × List CentralEntry} {file : SourceFile}
    (h : packFile zlib deflate limit state file = .ok next) :
    Packable deflate file ∧ next = (state.1 ++ localRecord zlib deflate file,
      state.2 ++ [entryAt zlib deflate state.1.length file]) := by
  obtain ⟨output, entries⟩ := state
  rw [packFile] at h
  dsimp only at h
  obtain ⟨_, hcontent, h⟩ := exists_of_bind_ok h
  obtain ⟨_, hname, h⟩ := exists_of_bind_ok h
  obtain ⟨_, -, h⟩ := exists_of_bind_ok h
  obtain ⟨_, hcompressed, h⟩ := exists_of_bind_ok h
  obtain ⟨_, -, h⟩ := exists_of_bind_ok h
  refine ⟨⟨?_, ?_, ?_⟩, (Except.ok.inj h).symm⟩
  · exact Nat.not_lt.mp (of_decide_eq_false (ok_of_rejectIf hname))
  · exact Nat.not_lt.mp (of_decide_eq_false (ok_of_rejectIf hcontent))
  · exact Nat.not_lt.mp (of_decide_eq_false (ok_of_rejectIf hcompressed))

variable {files : List SourceFile}

theorem packFiles_ok {state next : Bytes × List CentralEntry}
    (h : files.foldlM (packFile zlib deflate limit) state = .ok next) :
    (∀ file ∈ files, Packable deflate file) ∧
      next = (state.1 ++ files.flatMap (localRecord zlib deflate),
        state.2 ++ entriesFrom zlib deflate state.1.length files) := by
  induction files generalizing state with
  | nil =>
    rw [List.foldlM_nil] at h
    cases h
    exact ⟨nofun, by simp [entriesFrom]⟩
  | cons file rest ih =>
    rw [List.foldlM_cons] at h
    obtain ⟨middle, hfile, hrest⟩ := exists_of_bind_ok h
    obtain ⟨hpackable, rfl⟩ := packFile_ok hfile
    obtain ⟨hall, rfl⟩ := ih hrest
    refine ⟨List.forall_mem_cons.mpr ⟨hpackable, hall⟩, ?_⟩
    simp only [entriesFrom, List.flatMap_cons, List.append_assoc, List.length_append, List.cons_append,
      List.nil_append]

/-- The local records of the files, and the central directory that belongs to them. -/
def localPart (zlib : Zlib) (deflate : Bytes → Bytes) (files : List SourceFile) : Bytes :=
  files.flatMap (localRecord zlib deflate)

def centralPart (zlib : Zlib) (deflate : Bytes → Bytes) (files : List SourceFile) : Bytes :=
  (entriesFrom zlib deflate 0 files).flatMap centralRecord

/-- The bytes of an archive with its records. -/
def layout (zlib : Zlib) (deflate : Bytes → Bytes) (files : List SourceFile) : Bytes :=
  localPart zlib deflate files ++ centralPart zlib deflate files ++
    endRecord files.length (centralPart zlib deflate files).length (localPart zlib deflate files).length

/-- What the writer has checked of an archive. -/
structure Packed (zlib : Zlib) (deflate : Bytes → Bytes) (files : List SourceFile) : Prop where
  count : files.length ≤ uint16Max
  each : ∀ file ∈ files, Packable deflate file
  size : (localPart zlib deflate files).length + (centralPart zlib deflate files).length ≤ uint32Max

theorem createZip_ok {bytes : Bytes} (h : createZip zlib deflate limit files = .ok bytes) :
    Packed zlib deflate (files.mergeSort SourceFile.le) ∧
      bytes = layout zlib deflate (files.mergeSort SourceFile.le) := by
  rw [createZip] at h
  obtain ⟨_, -, h⟩ := exists_of_bind_ok h
  obtain ⟨_, hcount, h⟩ := exists_of_bind_ok h
  obtain ⟨⟨output, entries⟩, hfiles, h⟩ := exists_of_bind_ok h
  obtain ⟨_, -, h⟩ := exists_of_bind_ok h
  obtain ⟨_, hsize, h⟩ := exists_of_bind_ok h
  obtain ⟨_, -, h⟩ := exists_of_bind_ok h
  obtain ⟨heach, hstate⟩ := packFiles_ok hfiles
  generalize files.mergeSort SourceFile.le = sorted at *
  cases hstate
  have hcount := Nat.not_lt.mp (of_decide_eq_false (ok_of_rejectIf hcount))
  have hsize := Nat.not_lt.mp (of_decide_eq_false (ok_of_rejectIf hsize))
  rw [List.length_append] at hsize
  refine ⟨⟨hcount, heach, hsize⟩, ?_⟩
  rw [← Except.ok.inj h, layout, localPart, centralPart]
  simp only [List.nil_append, List.length_append, List.length_nil, entriesFrom_length,
    Nat.add_sub_cancel_left]

theorem centralRecord_length (entry : CentralEntry) :
    (centralRecord entry).length = 46 + entry.name.length := by
  rw [centralRecord, List.length_append, centralHeader_length]

theorem localPart_append (first second : List SourceFile) :
    localPart zlib deflate (first ++ second) = localPart zlib deflate first ++ localPart zlib deflate second :=
  List.flatMap_append

theorem localPart_cons (file : SourceFile) (rest : List SourceFile) :
    localPart zlib deflate (file :: rest) = localRecord zlib deflate file ++ localPart zlib deflate rest :=
  List.flatMap_cons

/-- The central directory of files that follow others. -/
theorem centralPart_append (first second : List SourceFile) :
    centralPart zlib deflate (first ++ second) = centralPart zlib deflate first ++
      (entriesFrom zlib deflate (localPart zlib deflate first).length second).flatMap centralRecord := by
  rw [centralPart, entriesFrom_append, List.flatMap_append, Nat.zero_add]
  rfl

/-- With an entry, both parts are shorter than the largest value of the fields of the end record. -/
theorem Packed.parts_lt (h : Packed zlib deflate files) :
    (localPart zlib deflate files).length < uint32Max ∧
      (centralPart zlib deflate files).length < uint32Max := by
  have hsize := h.size
  cases files with
  | nil => exact ⟨Nat.zero_lt_succ _, Nat.zero_lt_succ _⟩
  | cons file rest =>
    have hlocal : 30 ≤ (localPart zlib deflate (file :: rest)).length := by
      rw [localPart_cons, List.length_append, localRecord_length]
      omega
    have hcentral : 46 ≤ (centralPart zlib deflate (file :: rest)).length := by
      rw [centralPart, entriesFrom, List.flatMap_cons, List.length_append, centralRecord_length]
      omega
    omega

/-- What the reader finds in the end record. -/
def layoutRecord (zlib : Zlib) (deflate : Bytes → Bytes) (files : List SourceFile) : EndRecord where
  entryCount := files.length
  centralSize := (centralPart zlib deflate files).length
  centralOffset := (localPart zlib deflate files).length

theorem readEndRecord_layout (h : Packed zlib deflate files) :
    readEndRecord (layout zlib deflate files) =
      if files.length = uint16Max then .error "不支持 ZIP64" else .ok (layoutRecord zlib deflate files) :=
  readEndRecord_append _ h.count h.parts_lt.2 h.parts_lt.1 (by rw [List.length_append])

/-- Where the central record of the file after some others stands. -/
def centralPosition (zlib : Zlib) (deflate : Bytes → Bytes) (files first : List SourceFile) : ℕ :=
  (localPart zlib deflate files).length + (centralPart zlib deflate first).length

theorem centralPosition_concat (files first : List SourceFile) (file : SourceFile) :
    centralPosition zlib deflate files (first ++ [file]) =
      centralPosition zlib deflate files first + 46 + file.name.length := by
  simp only [centralPosition, centralPart_append, entriesFrom, List.flatMap_cons, List.flatMap_nil,
    List.append_nil, List.length_append, centralRecord_length, entryAt]
  omega

/-- Without a limit, files whose values fit are packed. -/
theorem packFiles_succeeds {files : List SourceFile} {state : Bytes × List CentralEntry}
    (h : ∀ file ∈ files, Packable deflate file)
    (hsize : state.1.length + (localPart zlib deflate files).length ≤ uint32Max) :
    ∃ next, files.foldlM (packFile zlib deflate 0) state = .ok next := by
  induction files generalizing state with
  | nil => exact ⟨state, rfl⟩
  | cons file rest ih =>
    obtain ⟨hname, hcontent, hcompressed⟩ := h file List.mem_cons_self
    rw [localPart_cons, List.length_append] at hsize
    have hfile : packFile zlib deflate 0 state file = .ok (state.1 ++ localRecord zlib deflate file,
        state.2 ++ [entryAt zlib deflate state.1.length file]) := by
      obtain ⟨output, entries⟩ := state
      rw [packFile]
      dsimp only at hsize ⊢
      rw [rejectIf_of_not (decide_eq_false (Nat.not_lt.mpr hcontent)), ok_bind,
        rejectIf_of_not (decide_eq_false (Nat.not_lt.mpr hname)), ok_bind,
        rejectIf_of_not (decide_eq_false (by omega)), ok_bind,
        rejectIf_of_not (decide_eq_false (Nat.not_lt.mpr hcompressed)), ok_bind,
        rejectIf_of_not (by simp), ok_bind]
      rfl
    rw [List.foldlM_cons, hfile, ok_bind]
    refine ih (fun other hother => h other (List.mem_cons_of_mem _ hother)) ?_
    rw [List.length_append]
    omega

theorem measure_succeeds {total : ℕ} (h : total + (files.map fun file => file.content.length).sum ≤ uint64Max) :
    ∃ size, measure 0 total files = .ok size := by
  induction files generalizing total with
  | nil => exact ⟨total, rfl⟩
  | cons file rest ih =>
    rw [List.map_cons, List.sum_cons] at h
    rw [measure, rejectIf_of_not (decide_eq_false (by omega)), ok_bind, rejectIf_of_not (by simp), ok_bind]
    exact ih (by omega)

/-- The records of files with short names and payloads. -/
theorem parts_length_le {files : List SourceFile} {bound : ℕ}
    (h : ∀ file ∈ files, 92 + 2 * file.name.length + (deflate file.content).length ≤ bound)
    (position : ℕ) :
    (localPart zlib deflate files).length +
      ((entriesFrom zlib deflate position files).flatMap centralRecord).length ≤ files.length * bound := by
  induction files generalizing position with
  | nil => exact Nat.zero_le _
  | cons file rest ih =>
    have hfile := h file List.mem_cons_self
    have hrest := ih (fun other hother => h other (List.mem_cons_of_mem _ hother))
      (position + (localRecord zlib deflate file).length)
    rw [localRecord_length] at hrest
    rw [localPart_cons, entriesFrom, List.flatMap_cons, List.length_append, List.length_append,
      localRecord_length, centralRecord_length, List.length_cons, Nat.add_mul, Nat.one_mul]
    dsimp only [entryAt]
    omega

theorem createZip_succeeds (hsum : (files.map fun file => file.content.length).sum ≤ uint64Max)
    (h : Packed zlib deflate (files.mergeSort SourceFile.le)) :
    ∃ bytes, createZip zlib deflate 0 files = .ok bytes := by
  obtain ⟨size, hmeasure⟩ := measure_succeeds (show 0 + _ ≤ uint64Max by rwa [Nat.zero_add])
  obtain ⟨next, hfiles⟩ := @packFiles_succeeds zlib deflate _ ([], []) h.each
    (by have := h.size; rw [List.length_nil]; omega)
  obtain ⟨-, hnext⟩ := packFiles_ok hfiles
  have hsize := h.size
  rw [createZip, hmeasure, ok_bind]
  dsimp only
  rw [rejectIf_of_not (decide_eq_false (Nat.not_lt.mpr h.count)), ok_bind, hfiles, ok_bind, hnext]
  dsimp only
  rw [localPart, centralPart] at hsize
  rw [List.nil_append, rejectIf_of_not (decide_eq_false (by omega)), ok_bind,
    rejectIf_of_not (decide_eq_false ?_), ok_bind, rejectIf_of_not (by simp), ok_bind]
  · exact ⟨_, rfl⟩
  · rw [List.length_append, List.nil_append]
    exact Nat.not_lt.mpr hsize

theorem sum_content_le {bound : ℕ} (h : ∀ file ∈ files, file.content.length ≤ bound) :
    (files.map fun file => file.content.length).sum ≤ files.length * bound := by
  induction files with
  | nil => exact Nat.zero_le _
  | cons file rest ih =>
    have hfile := h file List.mem_cons_self
    have hrest := ih fun other hother => h other (List.mem_cons_of_mem _ hother)
    rw [List.map_cons, List.sum_cons, List.length_cons, Nat.add_mul, Nat.one_mul]
    omega

/-- A tree of small files is packed. -/
theorem createZip_of_small {files : List SourceFile} {bound : ℕ} (hcount : files.length ≤ uint16Max)
    (hbound : files.length * bound ≤ uint32Max)
    (h : ∀ file ∈ files, Packable deflate file ∧ file.content.length ≤ bound ∧
      92 + 2 * file.name.length + (deflate file.content).length ≤ bound) :
    ∃ bytes, createZip zlib deflate 0 files = .ok bytes := by
  have hperm : (files.mergeSort SourceFile.le).Perm files := List.mergeSort_perm _ _
  have hsum := sum_content_le fun file hmem => (h file hmem).2.1
  refine createZip_succeeds ?_ ⟨?_, fun file hmem => (h file (hperm.mem_iff.mp hmem)).1, ?_⟩
  · rw [uint32Max] at hbound
    rw [uint64Max]
    omega
  · rwa [hperm.length_eq]
  · have hparts := @parts_length_le zlib deflate _ bound
      (fun file hmem => (h file (hperm.mem_iff.mp hmem)).2.2) 0
    rw [hperm.length_eq] at hparts
    exact Nat.le_trans hparts hbound

end Archive

end WaterStructure
