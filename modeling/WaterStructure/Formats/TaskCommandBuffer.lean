import WaterStructure.Core.Decimal
import WaterStructure.Library.OutStream

/-!
# The command buffer of a writer task

A task of the function writer collects its commands in a staging buffer. Full staging goes into memory, and
once memory is full into a spill file, to which what memory holds is moved first; a buffer that belongs to
the only worker writes to the output file itself. The bytes that the buffer holds are at any time those of
the stores and the staged ones behind them.
-/

namespace WaterStructure

/-- What the constructors fix. -/
structure TaskSettings where
  directOutput : Bool
  spillPath : List Char
  stagingSize : ℕ
  memoryLimit : ℕ
  allowSpill : Bool
  spillLimit : ℕ
  staging_le : 4096 ≤ stagingSize

def TaskSettings.spooled (spillPath : List Char) (memoryLimit stagingSize : ℕ) (allowSpill : Bool)
    (spillLimit : ℕ) : TaskSettings where
  directOutput := false
  spillPath := spillPath
  stagingSize := max stagingSize 4096
  memoryLimit := max memoryLimit 4096
  allowSpill := allowSpill
  spillLimit := spillLimit
  staging_le := le_max_right _ _

/-- What the calls change; `staging` is the filled front of the staging buffer. -/
structure TaskCommandBuffer where
  output : OutStream := { isOpen := true }
  staging : List UInt8 := []
  memory : List UInt8 := []
  spill : OutStream := { isOpen := false }
  spillBytes : ℕ := 0
  failure : String := ""
  failed : Bool := false

structure TaskOutput where
  memory : List UInt8
  spillPath : List Char

namespace TaskCommandBuffer

variable (faults : OutStream.Medium) (settings : TaskSettings)

def spillOverrun : String := "MCFunction writer 临时 spool 超过 temporary_file_limit_bytes"

def openSpill (buffer : TaskCommandBuffer) : Bool × TaskCommandBuffer :=
  if buffer.spill.isOpen then (true, buffer)
  else if !settings.allowSpill then
    (false, { buffer with failure := "capability error: MCFunction writer 命令缓冲超过 soft_memory_budget，且 allow_temporary_spool=false" })
  else if settings.spillPath = [] then
    (false, { buffer with failure := "MCFunction writer 无法创建受控临时 spool 路径" })
  else
    let opened := buffer.spill.openFile faults
    if !opened.good then (false, { buffer with spill := opened })
    else if settings.spillLimit ≠ 0 ∧ settings.spillLimit < buffer.memory.length then
      (false, { buffer with failure := spillOverrun, spill := (opened.close faults).remove })
    else if buffer.memory ≠ [] then
      let moved := opened.write faults buffer.memory
      if !moved.good then (false, { buffer with spill := moved })
      else (true, { buffer with spill := moved, spillBytes := buffer.memory.length, memory := [] })
    else (true, { buffer with spill := opened })

def writeBytes (data : List UInt8) (buffer : TaskCommandBuffer) : Bool × TaskCommandBuffer :=
  if settings.directOutput then
    let output := buffer.output.write faults data
    (output.good, { buffer with output := output })
  else if !buffer.spill.isOpen ∧
      data.length ≤ settings.memoryLimit - min settings.memoryLimit buffer.memory.length then
    (true, { buffer with memory := buffer.memory ++ data })
  else
    match openSpill faults settings buffer with
    | (false, buffer) => (false, buffer)
    | (true, buffer) =>
      if settings.spillLimit ≠ 0 ∧
          settings.spillLimit - min settings.spillLimit buffer.spillBytes < data.length then
        (false, { buffer with failure := spillOverrun })
      else
        let spill := buffer.spill.write faults data
        if !spill.good then (false, { buffer with spill := spill })
        else (true, { buffer with spill := spill, spillBytes := buffer.spillBytes + data.length })

def flushStaging (buffer : TaskCommandBuffer) : Bool × TaskCommandBuffer :=
  if buffer.failed then (false, buffer)
  else if buffer.staging ≠ [] then
    match writeBytes faults settings buffer.staging buffer with
    | (false, buffer) => (false, { buffer with failed := true })
    | (true, buffer) => (true, { buffer with staging := [] })
  else (true, buffer)

/-- Flush the staging buffer if there is not enough room in it. -/
def withRoom (full : Prop) [Decidable full] (buffer : TaskCommandBuffer) : Bool × TaskCommandBuffer :=
  if full then flushStaging faults settings buffer else (true, buffer)

/-- The loop of `appendText`; each round takes at least one byte of the text. -/
def appendTextLoop (rounds : ℕ) (text : List UInt8) (buffer : TaskCommandBuffer) : TaskCommandBuffer :=
  match rounds with
  | 0 => buffer
  | rounds + 1 =>
    if buffer.failed ∨ text = [] then buffer
    else
      let flushed := withRoom faults settings (buffer.staging.length = settings.stagingSize) buffer
      if !flushed.1 then flushed.2
      else
        let count := min text.length (settings.stagingSize - flushed.2.staging.length)
        appendTextLoop rounds (text.drop count)
          { flushed.2 with staging := flushed.2.staging ++ text.take count }

def appendText (text : List UInt8) (buffer : TaskCommandBuffer) : TaskCommandBuffer :=
  appendTextLoop faults settings text.length text buffer

def appendCharacter (value : UInt8) (buffer : TaskCommandBuffer) : TaskCommandBuffer :=
  if buffer.failed then buffer
  else
    let flushed := withRoom faults settings (buffer.staging.length = settings.stagingSize) buffer
    if !flushed.1 then flushed.2
    else { flushed.2 with staging := flushed.2.staging ++ [value] }

/-- The bytes of `std::to_chars`. -/
def integerText (value : ℤ) : List UInt8 := (decimal value).map fun c => UInt8.ofNat c.toNat

def kMaximumIntegerLength : ℕ := 16

def appendInteger (value : ℤ) (buffer : TaskCommandBuffer) : TaskCommandBuffer :=
  if buffer.failed then buffer
  else
    let flushed := withRoom faults settings
      (settings.stagingSize - buffer.staging.length < kMaximumIntegerLength) buffer
    if !flushed.1 then flushed.2
    else if settings.stagingSize - flushed.2.staging.length < (integerText value).length then
      { flushed.2 with failed := true }
    else { flushed.2 with staging := flushed.2.staging ++ integerText value }

def good (buffer : TaskCommandBuffer) : Bool := !buffer.failed

def failureText (buffer : TaskCommandBuffer) : String :=
  if buffer.failure = "" then "MCFunction writer 写入任务缓冲失败" else buffer.failure

def finish (buffer : TaskCommandBuffer) : Except String TaskOutput × TaskCommandBuffer :=
  match flushStaging faults settings buffer with
  | (false, buffer) => (.error buffer.failureText, buffer)
  | (true, buffer) =>
    if buffer.failed then (.error buffer.failureText, buffer)
    else if settings.directOutput then
      if !buffer.output.good then (.error "MCFunction writer 写入输出文件失败", buffer)
      else (.ok { memory := [], spillPath := [] }, buffer)
    else if buffer.spill.isOpen then
      let closed := buffer.spill.close faults
      if !closed.good then
        (.error ("MCFunction writer 关闭临时文件失败: " ++ String.ofList settings.spillPath),
          { buffer with spill := closed })
      else (.ok { memory := [], spillPath := settings.spillPath }, { buffer with spill := closed })
    else (.ok { memory := buffer.memory, spillPath := [] }, { buffer with memory := [] })

/-- A call to the buffer. -/
inductive Call where
  | appendText (text : List UInt8)
  | appendCharacter (value : UInt8)
  | appendInteger (value : { value : ℤ // IsInt32 value })

/-- What a call appends. -/
def Call.bytes : Call → List UInt8
  | .appendText text => text
  | .appendCharacter value => [value]
  | .appendInteger value => integerText value

def call (buffer : TaskCommandBuffer) : Call → TaskCommandBuffer
  | .appendText text => appendText faults settings text buffer
  | .appendCharacter value => appendCharacter faults settings value buffer
  | .appendInteger value => appendInteger faults settings value buffer

def run (calls : List Call) (buffer : TaskCommandBuffer) : TaskCommandBuffer :=
  calls.foldl (call faults settings) buffer

/-- The bytes of a finished task, from memory or from the spill file. -/
def taskBytes (task : TaskOutput) (buffer : TaskCommandBuffer) : List UInt8 :=
  if task.memory ≠ [] then task.memory
  else if task.spillPath ≠ [] then buffer.spill.content
  else []

/-! ## Where the bytes are -/

/-- The bytes that have left the staging buffer. -/
def stored (buffer : TaskCommandBuffer) : List UInt8 :=
  if settings.directOutput then buffer.output.content else buffer.spill.content ++ buffer.memory

/-- While nothing has failed, memory is empty once the spill file is open, and the counter counts the file. -/
structure Kept (buffer : TaskCommandBuffer) : Prop where
  closed : buffer.spill.isOpen = false → buffer.spill.content = [] ∧ buffer.spillBytes = 0
  opened : buffer.spill.isOpen = true →
    buffer.memory = [] ∧ buffer.spillBytes = buffer.spill.content.length ∧ settings.spillPath ≠ []
  intact : buffer.spill.Intact faults

/-- The limits, which hold also after a failure. -/
structure Within (buffer : TaskCommandBuffer) : Prop where
  staging : buffer.staging.length ≤ settings.stagingSize
  memory : buffer.memory.length ≤ settings.memoryLimit
  spilled : settings.spillLimit ≠ 0 → buffer.spill.content.length ≤ settings.spillLimit

variable {faults} {settings} {buffer after : TaskCommandBuffer} {data : List UInt8} {opened : Bool}

/-- Opening the file touches only the stores. -/
theorem openSpill_frame : (openSpill faults settings buffer).2.staging = buffer.staging ∧
    (openSpill faults settings buffer).2.failed = buffer.failed ∧
      (openSpill faults settings buffer).2.output = buffer.output := by
  rw [openSpill]
  dsimp only
  repeat' split
  all_goals exact ⟨rfl, rfl, rfl⟩

theorem writeBytes_frame : (writeBytes faults settings data buffer).2.staging = buffer.staging ∧
    (writeBytes faults settings data buffer).2.failed = buffer.failed := by
  have hopen := @openSpill_frame faults settings buffer
  rw [writeBytes]
  split_ifs
  · exact ⟨rfl, rfl⟩
  · exact ⟨rfl, rfl⟩
  · cases hresult : openSpill faults settings buffer with
    | mk opened next =>
      rw [hresult] at hopen
      cases opened with
      | false => exact ⟨hopen.1, hopen.2.1⟩
      | true =>
        dsimp only
        split
        · exact ⟨hopen.1, hopen.2.1⟩
        · split <;> exact ⟨hopen.1, hopen.2.1⟩

/-- An opened spill file holds what memory held. -/
theorem openSpill_kept (hkept : Kept faults settings buffer)
    (h : openSpill faults settings buffer = (true, after)) :
    Kept faults settings after ∧ after.spill.isOpen = true ∧
      after.spill.content ++ after.memory = buffer.spill.content ++ buffer.memory := by
  rw [openSpill] at h
  split at h
  case isTrue hopen =>
    cases h
    exact ⟨hkept, hopen, rfl⟩
  case isFalse hclosed =>
    rw [Bool.not_eq_true] at hclosed
    obtain ⟨hempty, hbytes⟩ := hkept.closed hclosed
    split at h
    case isTrue => cases h
    case isFalse =>
      split at h
      case isTrue => cases h
      case isFalse hpath =>
        dsimp only at h
        split at h
        case isTrue => cases h
        case isFalse hgood =>
          rw [Bool.not_eq_true, Bool.not_eq_false'] at hgood
          obtain ⟨-, heq⟩ := OutStream.openFile_eq hgood
          have hintact := hkept.intact.openFile hgood
          have hisOpen : (buffer.spill.openFile faults).isOpen = true := by rw [heq]
          have hcontent : (buffer.spill.openFile faults).content = [] := by rw [heq]
          split_ifs at h with _ hmemory hmoved
          · cases h
          · cases h
          · rw [Bool.not_eq_true, Bool.not_eq_false'] at hmoved
            have hadded := OutStream.write_content hmoved
            rw [hcontent, List.nil_append] at hadded
            cases h
            refine ⟨⟨fun hnot => ?_, fun _ => ⟨rfl, ?_, hpath⟩, hintact.write hmoved⟩, ?_, ?_⟩
            · rw [OutStream.write_isOpen, hisOpen] at hnot
              cases hnot
            · exact congrArg List.length hadded.symm
            · exact OutStream.write_isOpen.trans hisOpen
            · rw [hempty, List.nil_append, List.append_nil]
              exact hadded
          · rw [not_ne_iff] at hmemory
            cases h
            refine ⟨⟨fun _ => ⟨hcontent, hbytes⟩, fun _ => ⟨hmemory, ?_, hpath⟩, hintact⟩, hisOpen, ?_⟩
            · rw [hcontent]
              exact hbytes
            · rw [hempty, hcontent]

/-- An attempt to open the spill file keeps the limits; memory is moved only where it fits. -/
theorem openSpill_within (hkept : Kept faults settings buffer) (h : Within settings buffer) :
    Within settings (openSpill faults settings buffer).2 := by
  have hopened : (buffer.spill.openFile faults).content.length ≤ buffer.spill.content.length :=
    OutStream.openFile_content_length
  have hfile (hlimit : settings.spillLimit ≠ 0) :
      (buffer.spill.openFile faults).content.length ≤ settings.spillLimit :=
    hopened.trans (h.spilled hlimit)
  rw [openSpill]
  split
  case isTrue => exact h
  case isFalse hclosed =>
    rw [Bool.not_eq_true] at hclosed
    have hempty : buffer.spill.content.length = 0 := by rw [(hkept.closed hclosed).1, List.length_nil]
    split
    case isTrue => exact ⟨h.staging, h.memory, h.spilled⟩
    case isFalse =>
      split
      · exact ⟨h.staging, h.memory, h.spilled⟩
      · dsimp only
        split
        case isTrue => exact ⟨h.staging, h.memory, hfile⟩
        case isFalse =>
          split
          case isTrue => exact ⟨h.staging, h.memory, fun _ => Nat.zero_le _⟩
          case isFalse hfits =>
            have hmoved (hlimit : settings.spillLimit ≠ 0) :
                ((buffer.spill.openFile faults).write faults buffer.memory).content.length ≤
                  settings.spillLimit := by
              have hmemory : buffer.memory.length ≤ settings.spillLimit :=
                Nat.not_lt.mp fun hlarge => hfits ⟨hlimit, hlarge⟩
              calc ((buffer.spill.openFile faults).write faults buffer.memory).content.length
                  ≤ (buffer.spill.openFile faults).content.length + buffer.memory.length :=
                    OutStream.write_content_length
                _ ≤ 0 + buffer.memory.length := Nat.add_le_add_right (hopened.trans hempty.le) _
                _ ≤ settings.spillLimit := by rwa [Nat.zero_add]
            split_ifs
            · exact ⟨h.staging, h.memory, hmoved⟩
            · exact ⟨h.staging, Nat.zero_le _, hmoved⟩
            · exact ⟨h.staging, h.memory, hfile⟩

/-- Written bytes come behind those that are stored. -/
theorem writeBytes_kept (hkept : Kept faults settings buffer)
    (h : writeBytes faults settings data buffer = (true, after)) :
    Kept faults settings after ∧ stored settings after = stored settings buffer ++ data := by
  rw [writeBytes] at h
  rw [stored, stored]
  by_cases hdirect : settings.directOutput = true
  · rw [if_pos hdirect] at h ⊢
    dsimp only at h
    obtain ⟨hgood, rfl⟩ := Prod.mk.inj h
    rw [if_pos hdirect]
    exact ⟨⟨hkept.closed, hkept.opened, hkept.intact⟩, OutStream.write_content hgood⟩
  · rw [if_neg hdirect] at h ⊢
    rw [if_neg hdirect]
    split_ifs at h with hfits
    · obtain ⟨hclosed, -⟩ := hfits
      rw [Bool.not_eq_true'] at hclosed
      cases h
      refine ⟨⟨hkept.closed, fun hopen => ?_, hkept.intact⟩, (List.append_assoc _ _ _).symm⟩
      rw [hclosed] at hopen
      cases hopen
    · cases hresult : openSpill faults settings buffer with
      | mk opened next =>
        rw [hresult] at h
        cases opened with
        | false => cases h
        | true =>
          obtain ⟨hnext, hopen, hsame⟩ := openSpill_kept hkept hresult
          obtain ⟨hmemory, hbytes, hpath⟩ := hnext.opened hopen
          dsimp only at h
          split_ifs at h with _ hgood
          · cases h
          · cases h
          · rw [Bool.not_eq_true, Bool.not_eq_false'] at hgood
            have hadded := OutStream.write_content hgood
            cases h
            refine ⟨⟨fun hclosed => ?_, fun _ => ⟨hmemory, ?_, hpath⟩, hnext.intact.write hgood⟩, ?_⟩
            · rw [OutStream.write_isOpen, hopen] at hclosed
              cases hclosed
            · rw [hadded, List.length_append, hbytes]
            · dsimp only
              rw [hadded, hmemory, List.append_nil, ← hsame, hmemory, List.append_nil]

/-- Memory takes only what fits, and so does the spill file. -/
theorem writeBytes_within (hkept : Kept faults settings buffer) (h : Within settings buffer) :
    Within settings (writeBytes faults settings data buffer).2 := by
  rw [writeBytes]
  split_ifs with _ hfits
  · exact ⟨h.staging, h.memory, h.spilled⟩
  · refine ⟨h.staging, ?_, h.spilled⟩
    have hroom := hfits.2
    have hmemory := h.memory
    rw [List.length_append]
    omega
  · have hwithin := openSpill_within hkept h
    cases hresult : openSpill faults settings buffer with
    | mk opened next =>
      rw [hresult] at hwithin
      cases opened with
      | false => exact hwithin
      | true =>
        obtain ⟨hnext, hopen, -⟩ := openSpill_kept hkept hresult
        obtain ⟨-, hbytes, -⟩ := hnext.opened hopen
        dsimp only
        split
        case isTrue => exact ⟨hwithin.staging, hwithin.memory, hwithin.spilled⟩
        case isFalse hfits =>
          have hadded (hlimit : settings.spillLimit ≠ 0) :
              (next.spill.write faults data).content.length ≤ settings.spillLimit := by
            have hspilled : next.spill.content.length ≤ settings.spillLimit := hwithin.spilled hlimit
            have hroom : data.length ≤ settings.spillLimit - min settings.spillLimit next.spillBytes :=
              Nat.not_lt.mp fun hlarge => hfits ⟨hlimit, hlarge⟩
            have hgrowth := @OutStream.write_content_length faults data next.spill
            rw [hbytes] at hroom
            omega
          split
          · exact ⟨hwithin.staging, hwithin.memory, hadded⟩
          · exact ⟨hwithin.staging, hwithin.memory, hadded⟩

/-! ## The calls -/

variable {text : List UInt8}

variable (faults settings) in
/-- The limits hold, and a buffer that has not failed holds the text. -/
structure Holds (text : List UInt8) (buffer : TaskCommandBuffer) : Prop where
  within : Within settings buffer
  kept : buffer.failed = false → Kept faults settings buffer
  text : buffer.failed = false → stored settings buffer ++ buffer.staging = text

theorem Holds.of_failed (h : Within settings buffer) (hfailed : buffer.failed = true) :
    Holds faults settings text buffer := by
  have hnot {p : Prop} (hgood : buffer.failed = false) : p := by
    rw [hfailed] at hgood
    cases hgood
  exact ⟨h, hnot, hnot⟩

/-- Bytes that fit are staged behind the others. -/
theorem Holds.stage (h : Holds faults settings text buffer)
    (hroom : buffer.staging.length + data.length ≤ settings.stagingSize) :
    Holds faults settings (text ++ data) { buffer with staging := buffer.staging ++ data } where
  within := ⟨(List.length_append).le.trans hroom, h.within.memory, h.within.spilled⟩
  kept hgood := ⟨(h.kept hgood).closed, (h.kept hgood).opened, (h.kept hgood).intact⟩
  text hgood := by
    rw [← h.text hgood, List.append_assoc]
    rfl

/-- A flush keeps the text, and fails exactly if the buffer fails. -/
theorem flushStaging_holds (h : Holds faults settings text buffer) :
    Holds faults settings text (flushStaging faults settings buffer).2 ∧
      (flushStaging faults settings buffer).1 = !(flushStaging faults settings buffer).2.failed ∧
      ((flushStaging faults settings buffer).1 = true →
        (flushStaging faults settings buffer).2.staging = []) := by
  rw [flushStaging]
  split
  case isTrue hfailed => exact ⟨h, by rw [hfailed]; rfl, fun hno => by cases hno⟩
  case isFalse hgood =>
    rw [Bool.not_eq_true] at hgood
    split_ifs with hempty
    · have hwithin := @writeBytes_within faults settings buffer buffer.staging (h.kept hgood) h.within
      obtain ⟨-, hfailed⟩ := @writeBytes_frame faults settings buffer buffer.staging
      cases hresult : writeBytes faults settings buffer.staging buffer with
      | mk written next =>
        rw [hresult] at hwithin hfailed
        cases written with
        | false =>
          exact ⟨.of_failed ⟨hwithin.staging, hwithin.memory, hwithin.spilled⟩ rfl, rfl, fun hno => by cases hno⟩
        | true =>
          obtain ⟨hkept, hstored⟩ := writeBytes_kept (h.kept hgood) hresult
          refine ⟨⟨⟨Nat.zero_le _, hwithin.memory, hwithin.spilled⟩, fun _ => ?_, fun _ => ?_⟩, ?_, fun _ => rfl⟩
          · exact ⟨hkept.closed, hkept.opened, hkept.intact⟩
          · rw [← h.text hgood, ← hstored]
            exact List.append_nil _
          · rw [show next.failed = false from hfailed.trans hgood]
            rfl
    · rw [not_ne_iff] at hempty
      exact ⟨h, by rw [hgood]; rfl, fun _ => hempty⟩

theorem withRoom_holds {full : Prop} [Decidable full] {count : ℕ} (h : Holds faults settings text buffer)
    (hgood : ¬ buffer.failed = true) (hcount : count ≤ settings.stagingSize)
    (hfull : ¬ full → buffer.staging.length + count ≤ settings.stagingSize) :
    Holds faults settings text (withRoom faults settings full buffer).2 ∧
      (withRoom faults settings full buffer).1 = !(withRoom faults settings full buffer).2.failed ∧
      ((withRoom faults settings full buffer).1 = true →
        (withRoom faults settings full buffer).2.staging.length + count ≤ settings.stagingSize) := by
  rw [withRoom]
  split_ifs with hnot
  · obtain ⟨hholds, hresult, hempty⟩ := flushStaging_holds h
    refine ⟨hholds, hresult, fun htrue => ?_⟩
    rwa [hempty htrue, List.length_nil, Nat.zero_add]
  · exact ⟨h, by rw [Bool.eq_false_iff.mpr hgood]; rfl, fun _ => hfull hnot⟩

/-- Staging that is not full has room for a byte. -/
theorem withRoom_byte (h : Holds faults settings text buffer) (hgood : ¬ buffer.failed = true) :
    let flushed := withRoom faults settings (buffer.staging.length = settings.stagingSize) buffer
    Holds faults settings text flushed.2 ∧ flushed.1 = !flushed.2.failed ∧
      (flushed.1 = true → flushed.2.staging.length + 1 ≤ settings.stagingSize) := by
  have hsize := settings.staging_le
  have hbound := h.within.staging
  exact withRoom_holds h hgood (by omega) (by omega)

theorem appendTextLoop_holds {rounds : ℕ} (hrounds : data.length ≤ rounds)
    (h : Holds faults settings text buffer) :
    Holds faults settings (text ++ data) (appendTextLoop faults settings rounds data buffer) := by
  induction rounds generalizing data text buffer with
  | zero =>
    rw [List.eq_nil_of_length_eq_zero (Nat.le_zero.mp hrounds), List.append_nil]
    exact h
  | succ rounds ih =>
    rw [appendTextLoop]
    by_cases hdone : buffer.failed = true ∨ data = []
    · rw [if_pos hdone]
      rcases hdone with hfailed | rfl
      · exact .of_failed h.within hfailed
      · rw [List.append_nil]
        exact h
    · rw [if_neg hdone]
      obtain ⟨hgood, hdata⟩ := not_or.mp hdone
      obtain ⟨hholds, hresult, hroom⟩ := withRoom_byte h hgood
      dsimp only
      split_ifs with hno
      · rw [hresult, Bool.not_not] at hno
        exact .of_failed hholds.within hno
      · rw [Bool.not_eq_true, Bool.not_eq_false'] at hno
        set flushed := withRoom faults settings (buffer.staging.length = settings.stagingSize) buffer
        have hstaged := hroom hno
        have hcount := List.length_pos_iff.mpr hdata
        set count := min data.length (settings.stagingSize - flushed.2.staging.length) with hcountdef
        have htake := List.length_take_le count data
        have hstage := @Holds.stage _ _ _ (data.take count) _ hholds (by omega)
        have hdrop : (data.drop count).length ≤ rounds := by
          rw [List.length_drop]
          omega
        have hrest := ih hdrop hstage
        rwa [List.append_assoc, List.take_append_drop] at hrest

theorem appendText_holds (h : Holds faults settings text buffer) :
    Holds faults settings (text ++ data) (appendText faults settings data buffer) :=
  appendTextLoop_holds le_rfl h

theorem appendCharacter_holds {value : UInt8} (h : Holds faults settings text buffer) :
    Holds faults settings (text ++ [value]) (appendCharacter faults settings value buffer) := by
  rw [appendCharacter]
  split_ifs with hgood
  · exact .of_failed h.within hgood
  · obtain ⟨hholds, hresult, hroom⟩ := withRoom_byte h hgood
    dsimp only
    split_ifs with hno
    · rw [hresult, Bool.not_not] at hno
      exact .of_failed hholds.within hno
    · rw [Bool.not_eq_true, Bool.not_eq_false'] at hno
      exact hholds.stage (hroom hno)

/-- A number of 32 bits has at most ten digits and a sign. -/
theorem integerText_length {value : ℤ} (h : IsInt32 value) :
    (integerText value).length ≤ kMaximumIntegerLength := by
  unfold IsInt32 int32Min int32Max at h
  have hdigits : (Nat.toDigits 10 value.natAbs).length ≤ 10 :=
    (Nat.length_toDigits_le_iff (by decide) (by decide)).mpr (by omega)
  rw [integerText, List.length_map, decimal, kMaximumIntegerLength]
  split
  · rw [List.length_cons]
    omega
  · omega

theorem appendInteger_holds {value : ℤ} (hvalue : IsInt32 value) (h : Holds faults settings text buffer) :
    Holds faults settings (text ++ integerText value) (appendInteger faults settings value buffer) := by
  rw [appendInteger]
  split_ifs with hgood
  · exact .of_failed h.within hgood
  · have hsize := settings.staging_le
    have hlength := integerText_length hvalue
    have hsixteen : kMaximumIntegerLength = 16 := rfl
    obtain ⟨hholds, hresult, hroom⟩ := @withRoom_holds _ _ _ _
      (settings.stagingSize - buffer.staging.length < kMaximumIntegerLength) _ _ h hgood
      (hlength.trans (by omega)) (by omega)
    dsimp only
    split
    case isTrue hno =>
      rw [hresult, Bool.not_not] at hno
      exact .of_failed hholds.within hno
    case isFalse hyes =>
      rw [Bool.not_eq_true, Bool.not_eq_false'] at hyes
      split_ifs with hfits
      · exact .of_failed ⟨hholds.within.staging, hholds.within.memory, hholds.within.spilled⟩ rfl
      · exact hholds.stage (hroom hyes)

theorem call_holds (next : Call) (h : Holds faults settings text buffer) :
    Holds faults settings (text ++ next.bytes) (call faults settings buffer next) := by
  cases next with
  | appendText data => exact appendText_holds h
  | appendCharacter value => exact appendCharacter_holds h
  | appendInteger value => exact appendInteger_holds value.property h

/-- A run appends what its calls append. -/
theorem run_holds (calls : List Call) (h : Holds faults settings text buffer) :
    Holds faults settings (text ++ calls.flatMap Call.bytes) (run faults settings calls buffer) := by
  induction calls generalizing text buffer with
  | nil =>
    rw [List.flatMap_nil, List.append_nil]
    exact h
  | cons next rest ih =>
    rw [List.flatMap_cons, ← List.append_assoc]
    exact ih (call_holds next h)

/-! ## Failures -/

theorem call_of_failed (next : Call) (h : buffer.failed = true) : call faults settings buffer next = buffer := by
  cases next with
  | appendText data =>
    cases data with
    | nil => rfl
    | cons byte rest => exact if_pos (.inl h)
  | appendCharacter value => exact if_pos h
  | appendInteger value => exact if_pos h

/-- Nothing is appended after a failure. -/
theorem run_of_failed (calls : List Call) (h : buffer.failed = true) :
    run faults settings calls buffer = buffer := by
  induction calls with
  | nil => rfl
  | cons next rest ih =>
    rw [run, List.foldl_cons, call_of_failed next h]
    exact ih

theorem finish_of_failed (h : buffer.failed = true) :
    finish faults settings buffer = (.error buffer.failureText, buffer) := by
  rw [finish, flushStaging, if_pos h]

/-! ## The finished task -/

/-- A task that is finished holds the text in memory or in the spill file, and no operation has failed. -/
theorem finish_ok (h : Holds faults settings text buffer) (hspooled : settings.directOutput = false)
    {task : TaskOutput} (hfinish : finish faults settings buffer = (.ok task, after)) :
    (task.memory = [] ∨ task.spillPath = []) ∧ taskBytes task after = text ∧
      task.memory.length ≤ settings.memoryLimit ∧ after.spill.Intact faults := by
  obtain ⟨hholds, hresult, hstaging⟩ := flushStaging_holds h
  rw [finish] at hfinish
  cases hflush : flushStaging faults settings buffer with
  | mk flushed next =>
    rw [hflush] at hfinish hholds hresult hstaging
    cases flushed with
    | false => cases hfinish
    | true =>
      have hgood : next.failed = false := by
        rwa [eq_comm, Bool.not_eq_true'] at hresult
      have hkept := hholds.kept hgood
      have htext := hholds.text hgood
      rw [hstaging rfl, List.append_nil, stored, if_neg (Bool.not_eq_true _ ▸ hspooled)] at htext
      have hnotFailed : ¬ next.failed = true := Bool.not_eq_true _ ▸ hgood
      have hnotDirect : ¬ settings.directOutput = true := Bool.not_eq_true _ ▸ hspooled
      dsimp only at hfinish
      rw [if_neg hnotFailed, if_neg hnotDirect] at hfinish
      split at hfinish
      case isTrue hopen =>
        obtain ⟨hmemory, -, hpath⟩ := hkept.opened hopen
        split_ifs at hfinish with hclosed
        · cases hfinish
        · rw [Bool.not_eq_true, Bool.not_eq_false'] at hclosed
          cases hfinish
          refine ⟨.inl rfl, ?_, Nat.zero_le _, hkept.intact.close hclosed⟩
          rw [taskBytes, if_neg (not_not.mpr rfl), if_pos hpath, OutStream.close_content hclosed, ← htext,
            hmemory, List.append_nil]
      case isFalse hclosed =>
        rw [Bool.not_eq_true] at hclosed
        cases hfinish
        refine ⟨.inr rfl, ?_, hholds.within.memory, hkept.intact⟩
        rw [(hkept.closed hclosed).1, List.nil_append] at htext
        rw [taskBytes, ← htext]
        by_cases hmemory : next.memory = []
        · rw [if_neg (not_not.mpr hmemory), if_neg (not_not.mpr rfl), hmemory]
        · exact if_pos hmemory

theorem finish_within (h : Holds faults settings text buffer) :
    Within settings (finish faults settings buffer).2 := by
  obtain ⟨hholds, -, -⟩ := flushStaging_holds h
  rw [finish]
  cases hflush : flushStaging faults settings buffer with
  | mk flushed next =>
    rw [hflush] at hholds
    have hwithin := hholds.within
    have hclosed (hlimit : settings.spillLimit ≠ 0) :
        (next.spill.close faults).content.length ≤ settings.spillLimit :=
      OutStream.close_content_length.trans (hwithin.spilled hlimit)
    cases flushed with
    | false => exact hwithin
    | true =>
      dsimp only
      repeat' split
      all_goals first
        | exact hwithin
        | exact ⟨hwithin.staging, hwithin.memory, hclosed⟩
        | exact ⟨hwithin.staging, Nat.zero_le _, hwithin.spilled⟩

theorem holds_new {output : OutStream} :
    Holds faults settings (stored settings { output := output }) { output := output } where
  within := ⟨Nat.zero_le _, Nat.zero_le _, fun _ => Nat.zero_le _⟩
  kept _ :=
    { closed := fun _ => ⟨rfl, rfl⟩
      opened := fun hopen => by cases hopen
      intact := fun n hn => absurd hn (Nat.not_lt_zero n) }
  text _ := List.append_nil _

/-- A finished task is the concatenation of what was appended, within the limits, and a failed write fails
the task; a memory limit below 4096 bytes counts as 4096. -/
theorem finish_run (faults : OutStream.Medium) (spillPath : List Char) (memoryLimit stagingSize : ℕ)
    (allowSpill : Bool) (spillLimit : ℕ) (calls : List Call) :
    let settings := TaskSettings.spooled spillPath memoryLimit stagingSize allowSpill spillLimit
    let finished := finish faults settings (run faults settings calls {})
    (∀ task, finished.1 = .ok task → (task.memory = [] ∨ task.spillPath = []) ∧
      taskBytes task finished.2 = calls.flatMap Call.bytes ∧ task.memory.length ≤ max memoryLimit 4096) ∧
    (∀ earlier later, calls = earlier ++ later →
      (run faults settings earlier {}).memory.length ≤ max memoryLimit 4096 ∧
      (spillLimit ≠ 0 → (run faults settings earlier {}).spill.content.length ≤ spillLimit)) ∧
    (spillLimit ≠ 0 → finished.2.spill.content.length ≤ spillLimit) ∧
    (∀ earlier later, calls = earlier ++ later → (run faults settings earlier {}).good = false →
      ∃ message, finished.1 = .error message) ∧
    ∀ n < finished.2.spill.operations, faults n ≠ none → ∃ message, finished.1 = .error message := by
  intro settings finished
  have hrun (calls : List Call) : Holds faults settings (calls.flatMap Call.bytes) (run faults settings calls {}) := by
    have hholds := run_holds calls (@holds_new faults settings { isOpen := true })
    rwa [show stored settings {} = [] from rfl, List.nil_append] at hholds
  have hfinish {task : TaskOutput} (h : finished.1 = .ok task) :
      (task.memory = [] ∨ task.spillPath = []) ∧ taskBytes task finished.2 = calls.flatMap Call.bytes ∧
        task.memory.length ≤ max memoryLimit 4096 ∧ finished.2.spill.Intact faults :=
    finish_ok (hrun calls) rfl (Prod.ext h rfl)
  refine ⟨fun task htask => ?_, fun earlier later _ => ?_, ?_, fun earlier later hcalls hfailed => ?_,
    fun n hn hfault => ?_⟩
  · obtain ⟨hone, hbytes, hmemory, -⟩ := hfinish htask
    exact ⟨hone, hbytes, hmemory⟩
  · exact ⟨(hrun earlier).within.memory, (hrun earlier).within.spilled⟩
  · exact (finish_within (hrun calls)).spilled
  · rw [good, Bool.not_eq_false'] at hfailed
    have hlater : run faults settings calls {} = run faults settings earlier {} := by
      rw [hcalls, run, List.foldl_append]
      exact run_of_failed later hfailed
    refine ⟨(run faults settings earlier {}).failureText, ?_⟩
    rw [show finished = finish faults settings (run faults settings calls {}) from rfl, hlater,
      finish_of_failed hfailed]
  · cases hresult : finished.1 with
    | error message => exact ⟨message, rfl⟩
    | ok task => exact absurd ((hfinish hresult).2.2.2 n hn) hfault

/-- A limit of no bytes still lets a byte be held. -/
theorem finish_below_limit : ∃ task, (finish (fun _ => none) (TaskSettings.spooled [] 0 0 false 0)
    (run (fun _ => none) (TaskSettings.spooled [] 0 0 false 0) [.appendCharacter 35] {})).1 = .ok task ∧
      0 < task.memory.length :=
  ⟨{ memory := [35], spillPath := [] }, rfl, by decide⟩

end TaskCommandBuffer

end WaterStructure
