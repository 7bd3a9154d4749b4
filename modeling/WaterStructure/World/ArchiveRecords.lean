import WaterStructure.Library.NestedLoop
import WaterStructure.World.ArchiveWriter

/-!
# Records of an archive

The reader finds in the headers, the data descriptors and the end record what the writer has put there.
A field of sixteen or thirty-two bits is read back if its value fits it. The end record is refused when
its count is the largest value of the field, which the reader takes for a marker of ZIP64.
-/

namespace WaterStructure

open NestedLoop

namespace Archive

section Fields

theorem readLe16_writeLe16 {value : ℕ} (h : value ≤ uint16Max) (rest : Bytes) :
    readLe16 (writeLe16 value ++ rest) 0 = value := by
  change (UInt8.ofNat value).toNat + (UInt8.ofNat (value / 256)).toNat * 256 = value
  rw [uint16Max] at h
  rw [UInt8.toNat_ofNat', UInt8.toNat_ofNat']
  omega

theorem readLe32_writeLe32 {value : ℕ} (h : value ≤ uint32Max) (rest : Bytes) :
    readLe32 (writeLe32 value ++ rest) 0 = value := by
  change (UInt8.ofNat value).toNat + (UInt8.ofNat (value / 256)).toNat * 256 +
    (UInt8.ofNat (value / 65536)).toNat * 65536 + (UInt8.ofNat (value / 16777216)).toNat * 16777216 =
      value
  rw [uint32Max] at h
  rw [UInt8.toNat_ofNat', UInt8.toNat_ofNat', UInt8.toNat_ofNat', UInt8.toNat_ofNat']
  omega

variable (value offset : ℕ) (rest : Bytes)

@[simp] theorem readLe16_skip16 : readLe16 (writeLe16 value ++ rest) (offset + 2) = readLe16 rest offset :=
  rfl

@[simp] theorem readLe16_skip32 : readLe16 (writeLe32 value ++ rest) (offset + 4) = readLe16 rest offset :=
  rfl

@[simp] theorem readLe32_skip16 : readLe32 (writeLe16 value ++ rest) (offset + 2) = readLe32 rest offset :=
  rfl

@[simp] theorem readLe32_skip32 : readLe32 (writeLe32 value ++ rest) (offset + 4) = readLe32 rest offset :=
  rfl

end Fields

section Positions

/-- Reading what stands in the middle. -/
theorem readExact_append (before bytes after : Bytes) :
    readExact (before ++ bytes ++ after) before.length bytes.length = some bytes := by
  rw [readExact]
  split
  case isTrue hempty => rw [List.length_eq_zero_iff.mp hempty]
  case isFalse =>
    rw [if_pos (by simp only [List.length_append]; omega), List.append_assoc, List.drop_left,
      List.take_left]

theorem readOr_append (message : String) (before bytes after : Bytes) :
    readOr message (before ++ bytes ++ after) before.length bytes.length = .ok bytes := by
  rw [readOr, readExact_append]

theorem readHeader_append {message : String} {signature : ℕ} (before header after : Bytes)
    (h : readLe32 header 0 = signature) :
    readHeader message signature (before ++ header ++ after) before.length header.length = .ok header := by
  rw [readHeader, readExact_append]
  exact if_neg (not_not.mpr h)

theorem rejectIf_of_not {condition : Bool} (h : condition = false) (message : String) :
    rejectIf condition message = .ok () := by
  rw [h]
  rfl

end Positions

section Central

/-- The values of an entry fit their fields. -/
structure CentralEntry.Fits (entry : CentralEntry) : Prop where
  name : entry.name.length ≤ uint16Max
  crc : entry.crc ≤ uint32Max
  compressedSize : entry.compressedSize ≤ uint32Max
  uncompressedSize : entry.uncompressedSize ≤ uint32Max
  localOffset : entry.localOffset ≤ uint32Max

/-- What is read of an entry that has been written. -/
def CentralEntry.header (entry : CentralEntry) : CentralHeader where
  flags := 0x0808
  method := 8
  crc := entry.crc
  compressedSize := entry.compressedSize
  uncompressedSize := entry.uncompressedSize
  nameLength := entry.name.length
  extraLength := 0
  commentLength := 0
  localOffset := entry.localOffset

/-- The fields of a central header from the first one on. -/
theorem centralHeader_eq (entry : CentralEntry) : centralHeader entry =
    writeLe32 0x02014b50 ++ (writeLe16 20 ++ (writeLe16 20 ++ (writeLe16 0x0808 ++ (writeLe16 8 ++
      (writeLe16 0 ++ (writeLe16 0 ++ (writeLe32 entry.crc ++ (writeLe32 entry.compressedSize ++
      (writeLe32 entry.uncompressedSize ++ (writeLe16 entry.name.length ++ (writeLe16 0 ++
      (writeLe16 0 ++ (writeLe16 0 ++ (writeLe16 0 ++ (writeLe32 0 ++ (writeLe32 entry.localOffset ++
      [])))))))))))))))) := by
  simp only [centralHeader, List.append_assoc, List.append_nil]

theorem centralHeader_length (entry : CentralEntry) : (centralHeader entry).length = 46 := by
  rw [centralHeader_eq]
  rfl

theorem readCentralHeader_append (before after : Bytes) {entry : CentralEntry} (h : entry.Fits) :
    readCentralHeader (before ++ centralHeader entry ++ after) before.length = .ok entry.header := by
  have hsignature : readLe32 (centralHeader entry) 0 = 0x02014b50 := by
    rw [centralHeader_eq, readLe32_writeLe32 (by decide)]
  have hread := @readHeader_append "ZIP central directory entry 无效" _ before _ after hsignature
  rw [centralHeader_length] at hread
  have hflags : readLe16 (centralHeader entry) 8 = 0x0808 := by
    simp [centralHeader_eq, @readLe16_writeLe16 0x0808 (by decide)]
  have hmethod : readLe16 (centralHeader entry) 10 = 8 := by
    simp [centralHeader_eq, @readLe16_writeLe16 8 (by decide)]
  have hcrc : readLe32 (centralHeader entry) 16 = entry.crc := by
    simp [centralHeader_eq, readLe32_writeLe32 h.crc]
  have hcompressed : readLe32 (centralHeader entry) 20 = entry.compressedSize := by
    simp [centralHeader_eq, readLe32_writeLe32 h.compressedSize]
  have huncompressed : readLe32 (centralHeader entry) 24 = entry.uncompressedSize := by
    simp [centralHeader_eq, readLe32_writeLe32 h.uncompressedSize]
  have hname : readLe16 (centralHeader entry) 28 = entry.name.length := by
    simp [centralHeader_eq, readLe16_writeLe16 h.name]
  have hextra : readLe16 (centralHeader entry) 30 = 0 := by
    simp [centralHeader_eq, @readLe16_writeLe16 0 (by decide)]
  have hcomment : readLe16 (centralHeader entry) 32 = 0 := by
    simp [centralHeader_eq, @readLe16_writeLe16 0 (by decide)]
  have hoffset : readLe32 (centralHeader entry) 42 = entry.localOffset := by
    simp [centralHeader_eq, readLe32_writeLe32 h.localOffset, -List.append_nil]
  rw [readCentralHeader, hread, ok_bind, hflags, hmethod, hcrc, hcompressed, huncompressed, hname, hextra,
    hcomment, hoffset]
  rfl

end Central

section Local

theorem localHeader_eq (nameLength : ℕ) : localHeader nameLength =
    writeLe32 0x04034b50 ++ (writeLe16 20 ++ (writeLe16 0x0808 ++ (writeLe16 8 ++ (writeLe16 0 ++
      (writeLe16 0 ++ (writeLe32 0 ++ (writeLe32 0 ++ (writeLe32 0 ++ (writeLe16 nameLength ++
      (writeLe16 0 ++ [])))))))))) := by
  simp only [localHeader, List.append_assoc, List.append_nil]

theorem localHeader_length (nameLength : ℕ) : (localHeader nameLength).length = 30 := by
  rw [localHeader_eq]
  rfl

/-- The local header of an entry is accepted, and the data starts behind the name. -/
theorem readLocalHeader_append (before after : Bytes) {entry : CentralEntry} (h : entry.Fits)
    (hoffset : entry.localOffset = before.length) {centralOffset : ℕ}
    (hcentral : before.length + 30 + entry.name.length + entry.compressedSize ≤ centralOffset) :
    readLocalHeader (before ++ localHeader entry.name.length ++ (entry.name ++ after)) centralOffset
      entry.header entry.name = .ok (before.length + 30 + entry.name.length) := by
  have hsignature : readLe32 (localHeader entry.name.length) 0 = 0x04034b50 := by
    rw [localHeader_eq, readLe32_writeLe32 (by decide)]
  have hread := @readHeader_append "ZIP local header 无效" _ before _ (entry.name ++ after) hsignature
  have hnameRead := readOr_append "ZIP local header 名称不匹配"
    (before ++ localHeader entry.name.length) entry.name after
  have hlength : before.length + 30 ≤
      (before ++ localHeader entry.name.length ++ (entry.name ++ after)).length := by
    simp [localHeader_length]
  rw [localHeader_length] at hread
  rw [List.length_append, localHeader_length, List.append_assoc _ _ after] at hnameRead
  have hflags : readLe16 (localHeader entry.name.length) 6 = 0x0808 := by
    simp [localHeader_eq, @readLe16_writeLe16 0x0808 (by decide)]
  have hmethod : readLe16 (localHeader entry.name.length) 8 = 8 := by
    simp [localHeader_eq, @readLe16_writeLe16 8 (by decide)]
  have hname : readLe16 (localHeader entry.name.length) 26 = entry.name.length := by
    simp [localHeader_eq, readLe16_writeLe16 h.name]
  have hextra : readLe16 (localHeader entry.name.length) 28 = 0 := by
    simp [localHeader_eq, @readLe16_writeLe16 0 (by decide), -List.append_nil]
  have hheader : entry.header.localOffset = before.length := hoffset
  rw [readLocalHeader, hheader, rejectIf_of_not (by simpa using hlength), ok_bind, hread, ok_bind, hflags,
    hmethod, hname, hextra, rejectIf_of_not (by rfl), ok_bind, rejectIf_of_not (by simp [CentralEntry.header]),
    ok_bind]
  dsimp only
  have hbounds : ¬ (before.length + 30 + entry.name.length + 0 < before.length ∨
      before.length + 30 + entry.name.length + 0 > centralOffset ∨
      entry.header.compressedSize > centralOffset - (before.length + 30 + entry.name.length + 0)) := by
    dsimp only [CentralEntry.header]
    omega
  rw [rejectIf_of_not (by simp), ok_bind, hnameRead, ok_bind, rejectIf_of_not (by simp), ok_bind,
    rejectIf_of_not (decide_eq_false hbounds), ok_bind, rejectIf_of_not (by simp [CentralEntry.header]),
    ok_bind]
  rfl

end Local

section Descriptor

theorem dataDescriptor_eq (crc compressedSize size : ℕ) : dataDescriptor crc compressedSize size =
    writeLe32 0x08074b50 ++ (writeLe32 crc ++ (writeLe32 compressedSize ++ (writeLe32 size ++ []))) := by
  simp only [dataDescriptor, List.append_assoc, List.append_nil]

theorem validateDataDescriptor_append (before after : Bytes) {crc compressedSize size dataRegionEnd : ℕ}
    (entryName : String) (hcrc : crc ≤ uint32Max) (hcompressed : compressedSize ≤ uint32Max)
    (hsize : size ≤ uint32Max) (hend : before.length + 16 ≤ dataRegionEnd) :
    validateDataDescriptor (before ++ dataDescriptor crc compressedSize size ++ after) before.length
      dataRegionEnd crc compressedSize size entryName = .ok () := by
  have hsignature : readLe32 (writeLe32 0x08074b50) 0 = 0x08074b50 := by decide
  have hfirst := readOr_append ("ZIP entry data descriptor 截断: " ++ entryName) before
    (writeLe32 0x08074b50) (writeLe32 crc ++ (writeLe32 compressedSize ++ (writeLe32 size ++ [])) ++ after)
  have hrest := readOr_append ("ZIP entry data descriptor 截断: " ++ entryName)
    (before ++ writeLe32 0x08074b50) (writeLe32 crc ++ (writeLe32 compressedSize ++ (writeLe32 size ++ [])))
    after
  have hinput (fields : Bytes) : before ++ writeLe32 0x08074b50 ++ (fields ++ after) =
      before ++ (writeLe32 0x08074b50 ++ fields) ++ after := by
    simp only [List.append_assoc]
  rw [hinput, ← dataDescriptor_eq] at hfirst
  rw [List.append_assoc _ _ after, hinput, ← dataDescriptor_eq, List.length_append] at hrest
  rw [validateDataDescriptor]
  change readOr _ _ before.length 4 = _ at hfirst
  change readOr _ _ (before.length + 4) 12 = _ at hrest
  rw [hfirst, ok_bind]
  dsimp only
  simp only [hsignature, if_true]
  rw [hrest, ok_bind, rejectIf_of_not (decide_eq_false (Nat.not_lt.mpr hend)), ok_bind]
  refine rejectIf_of_not ?_ _
  simp [readLe32_writeLe32 hcrc, readLe32_writeLe32 hcompressed, readLe32_writeLe32 hsize,
    -List.append_nil]

end Descriptor

section End

theorem endRecord_eq (entryCount centralSize centralOffset : ℕ) :
    endRecord entryCount centralSize centralOffset =
      writeLe32 0x06054b50 ++ (writeLe16 0 ++ (writeLe16 0 ++ (writeLe16 entryCount ++
        (writeLe16 entryCount ++ (writeLe32 centralSize ++ (writeLe32 centralOffset ++
        (writeLe16 0 ++ []))))))) := by
  simp only [endRecord, List.append_assoc, List.append_nil]

theorem endRecord_length (entryCount centralSize centralOffset : ℕ) :
    (endRecord entryCount centralSize centralOffset).length = 22 := by
  rw [endRecord_eq]
  rfl

/-- The search from the end finds a record without comment at once. -/
theorem findEndRecord_append (front : Bytes) (entryCount centralSize centralOffset : ℕ) :
    findEndRecord (front ++ endRecord entryCount centralSize centralOffset) = some front.length := by
  have hlength : (front ++ endRecord entryCount centralSize centralOffset).length = front.length + 22 := by
    rw [List.length_append, endRecord_length]
  have hsignature : readLe32 (endRecord entryCount centralSize centralOffset) 0 = 0x06054b50 := by
    rw [endRecord_eq, readLe32_writeLe32 (by decide)]
  have hcomment : readLe16 (endRecord entryCount centralSize centralOffset) 20 = 0 := by
    simp [endRecord_eq, @readLe16_writeLe16 0 (by decide), -List.append_nil]
  rw [findEndRecord, hlength, Nat.add_sub_cancel, List.range_succ, List.reverse_concat]
  refine List.find?_cons_of_pos ?_
  rw [List.drop_left, hsignature, hcomment]
  exact decide_eq_true ⟨rfl, rfl⟩

/-- The end record of an archive is read, unless its count is the largest one. -/
theorem readEndRecord_append (directory : Bytes) {entryCount centralSize centralOffset : ℕ}
    (hcount : entryCount ≤ uint16Max) (hsize : centralSize < uint32Max)
    (hoffset : centralOffset < uint32Max) (hend : centralOffset + centralSize ≤ directory.length) :
    readEndRecord (directory ++ endRecord entryCount centralSize centralOffset) =
      if entryCount = uint16Max then .error "不支持 ZIP64"
      else .ok ⟨entryCount, centralSize, centralOffset⟩ := by
  have hlength : (directory ++ endRecord entryCount centralSize centralOffset).length =
      directory.length + 22 := by
    rw [List.length_append, endRecord_length]
  rw [readEndRecord, hlength, if_neg (by omega)]
  dsimp only
  have hskip : directory.length + 22 - min (directory.length + 22) (0x10000 + 22) ≤ directory.length := by
    omega
  generalize directory.length + 22 - min (directory.length + 22) (0x10000 + 22) = skipped at hskip ⊢
  have hposition : skipped + (directory.drop skipped).length = directory.length := by
    rw [List.length_drop]
    omega
  rw [List.drop_append_of_le_length hskip, findEndRecord_append]
  dsimp only
  rw [List.drop_left, hposition]
  have hdisk : readLe16 (endRecord entryCount centralSize centralOffset) 4 = 0 := by
    simp [endRecord_eq, @readLe16_writeLe16 0 (by decide)]
  have hcentralDisk : readLe16 (endRecord entryCount centralSize centralOffset) 6 = 0 := by
    simp [endRecord_eq, @readLe16_writeLe16 0 (by decide)]
  have hdiskCount : readLe16 (endRecord entryCount centralSize centralOffset) 8 = entryCount := by
    simp [endRecord_eq, readLe16_writeLe16 hcount]
  have hallCount : readLe16 (endRecord entryCount centralSize centralOffset) 10 = entryCount := by
    simp [endRecord_eq, readLe16_writeLe16 hcount]
  have hcentralSize : readLe32 (endRecord entryCount centralSize centralOffset) 12 = centralSize := by
    simp [endRecord_eq, readLe32_writeLe32 (Nat.le_of_lt hsize)]
  have hcentralOffset : readLe32 (endRecord entryCount centralSize centralOffset) 16 = centralOffset := by
    simp [endRecord_eq, readLe32_writeLe32 (Nat.le_of_lt hoffset)]
  rw [hdisk, hcentralDisk, hdiskCount, hallCount, hcentralSize, hcentralOffset, if_neg (by simp)]
  by_cases hmax : entryCount = uint16Max
  · rw [if_pos (.inl hmax), if_pos hmax]
  · rw [if_neg (by omega), if_neg (by omega), if_neg hmax]

end End

end Archive

end WaterStructure
