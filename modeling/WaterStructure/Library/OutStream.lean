import Mathlib.Data.List.Infix

/-!
# Writing a file through a stream

A stream hands what is written to a medium that may fail at any operation. A failed operation leaves a part
of what was handed over so far, as a buffer between the stream and the medium may have held back the rest,
and the stream stays bad: it writes nothing more. So a stream that is good has had no failure, and its
file holds everything that was written.
-/

/-- A stream and the file behind it, with the number of operations the medium has seen. -/
structure OutStream where
  isOpen : Bool := false
  good : Bool := true
  content : List UInt8 := []
  operations : ℕ := 0
  deriving DecidableEq, Repr

namespace OutStream

/-- `faults n` is how many bytes the file keeps if operation `n` fails. -/
abbrev Medium := ℕ → Option ℕ

variable (faults : Medium)

/-- Hand data to the medium. -/
def perform (data : List UInt8) (stream : OutStream) : OutStream :=
  match faults stream.operations with
  | none => { stream with content := stream.content ++ data, operations := stream.operations + 1 }
  | some count =>
    { stream with
      good := false
      content := (stream.content ++ data).take count
      operations := stream.operations + 1 }

/-- Open a file and empty it. -/
def openFile (stream : OutStream) : OutStream :=
  match faults stream.operations with
  | none => { isOpen := true, good := true, content := [], operations := stream.operations + 1 }
  | some _ => { stream with good := false, operations := stream.operations + 1 }

def write (data : List UInt8) (stream : OutStream) : OutStream :=
  if stream.good then stream.perform faults data else stream

/-- Hand over what is held back, and close the file. -/
def close (stream : OutStream) : OutStream := { stream.perform faults [] with isOpen := false }

/-- Remove the file. -/
def remove (stream : OutStream) : OutStream := { stream with content := [] }

variable {faults} {data : List UInt8} {stream : OutStream}

variable (faults) in
/-- No operation of the stream has failed. -/
def Intact (stream : OutStream) : Prop := ∀ n < stream.operations, faults n = none

theorem perform_isOpen : (stream.perform faults data).isOpen = stream.isOpen := by
  rw [perform]
  split <;> rfl

@[simp] theorem write_isOpen : (stream.write faults data).isOpen = stream.isOpen := by
  rw [write]
  split
  · exact perform_isOpen
  · rfl

@[simp] theorem close_isOpen : (stream.close faults).isOpen = false := rfl

theorem perform_eq (h : (stream.perform faults data).good = true) :
    faults stream.operations = none ∧ stream.perform faults data =
      { stream with content := stream.content ++ data, operations := stream.operations + 1 } := by
  rw [perform] at h ⊢
  cases hfault : faults stream.operations with
  | none => exact ⟨rfl, rfl⟩
  | some count =>
    rw [hfault] at h
    cases h

/-- A write that leaves the stream good has added the data. -/
theorem write_content (h : (stream.write faults data).good = true) :
    (stream.write faults data).content = stream.content ++ data := by
  rw [write] at h ⊢
  by_cases hgood : stream.good = true
  · rw [if_pos hgood] at h ⊢
    rw [(perform_eq h).2]
  · rw [if_neg hgood] at h
    exact absurd h hgood

theorem close_content (h : (stream.close faults).good = true) :
    (stream.close faults).content = stream.content := by
  have hperform := (@perform_eq faults [] stream h).2
  rw [close, hperform]
  exact List.append_nil _

/-- An opened file is empty. -/
theorem openFile_eq (h : (stream.openFile faults).good = true) :
    faults stream.operations = none ∧ stream.openFile faults =
      { isOpen := true, good := true, content := [], operations := stream.operations + 1 } := by
  rw [openFile] at h ⊢
  cases hfault : faults stream.operations with
  | none => exact ⟨rfl, rfl⟩
  | some count =>
    rw [hfault] at h
    cases h

theorem Intact.succ (hintact : stream.Intact faults) (h : faults stream.operations = none) {next : OutStream}
    (hnext : next.operations = stream.operations + 1) : next.Intact faults := by
  intro n hn
  rw [hnext] at hn
  rcases Nat.lt_succ_iff_lt_or_eq.mp hn with hbefore | rfl
  · exact hintact n hbefore
  · exact h

theorem Intact.perform (hintact : stream.Intact faults) (h : (stream.perform faults data).good = true) :
    (stream.perform faults data).Intact faults := by
  obtain ⟨hnone, heq⟩ := perform_eq h
  refine hintact.succ hnone ?_
  rw [heq]

theorem Intact.write (hintact : stream.Intact faults) (h : (stream.write faults data).good = true) :
    (stream.write faults data).Intact faults := by
  rw [OutStream.write] at h ⊢
  split_ifs with hgood
  · rw [if_pos hgood] at h
    exact hintact.perform h
  · exact hintact

theorem Intact.close (hintact : stream.Intact faults) (h : (stream.close faults).good = true) :
    (stream.close faults).Intact faults := @Intact.perform faults [] stream hintact h

theorem Intact.openFile (hintact : stream.Intact faults) (h : (stream.openFile faults).good = true) :
    (stream.openFile faults).Intact faults := by
  obtain ⟨hnone, heq⟩ := openFile_eq h
  refine hintact.succ hnone ?_
  rw [heq]

theorem openFile_content_length : (stream.openFile faults).content.length ≤ stream.content.length := by
  rw [openFile]
  split
  case h_1 => exact Nat.zero_le _
  case h_2 => exact le_rfl

/-- A file grows by what is written at most. -/
theorem perform_content_length :
    (stream.perform faults data).content.length ≤ stream.content.length + data.length := by
  rw [perform]
  split
  case h_1 => exact Nat.le_of_eq List.length_append
  case h_2 => exact Nat.le_trans (List.length_take_le' _ _) (Nat.le_of_eq List.length_append)

theorem write_content_length :
    (stream.write faults data).content.length ≤ stream.content.length + data.length := by
  rw [write]
  split
  · exact perform_content_length
  · exact Nat.le_add_right _ _

theorem close_content_length : (stream.close faults).content.length ≤ stream.content.length :=
  @perform_content_length faults [] stream

end OutStream
