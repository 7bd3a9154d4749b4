import Mathlib.Data.List.Nodup
import Mathlib.Logic.Function.Basic

/-!
# Append-only files with few open streams

Items are appended to one of many files. Only the streams that were used last stay open; a stream
that is opened again appends to its file. What an open stream has buffered may reach the file at any
time. Whatever is closed and flushed when, each file ends up with its items in the order in which
they were appended.
-/

namespace ShardedLog

variable {β : Type*}

/-- A file, with what an open stream has not written yet. -/
structure LogFile (β : Type*) where
  created : Bool := false
  persisted : List β := []
  stream : Option (List β) := none

namespace LogFile

/-- What the file will hold. -/
def contents (file : LogFile β) : List β := file.persisted ++ file.stream.getD []

/-- Open the stream for appending, unless it is open. -/
def openStream (file : LogFile β) : LogFile β :=
  match file.stream with
  | some _ => file
  | none => { file with created := true, stream := some [] }

/-- Flush and close. -/
def close (file : LogFile β) : LogFile β :=
  { file with persisted := file.contents, stream := none }

/-- Some of the buffered items reach the file. -/
def drain (file : LogFile β) (count : ℕ) : LogFile β :=
  match file.stream with
  | none => file
  | some buffer =>
    { file with
      persisted := file.persisted ++ buffer.take count
      stream := some (buffer.drop count) }

/-- Write to the open stream. -/
def write (file : LogFile β) (items : List β) : LogFile β :=
  { file with stream := file.stream.map (· ++ items) }

@[simp] theorem contents_openStream (file : LogFile β) : file.openStream.contents = file.contents := by
  unfold openStream
  split
  case h_1 => rfl
  case h_2 hstream => rw [contents, contents, hstream]; rfl

@[simp] theorem contents_close (file : LogFile β) : file.close.contents = file.contents := by
  simp [close, contents]

@[simp] theorem contents_drain (file : LogFile β) (count : ℕ) :
    (file.drain count).contents = file.contents := by
  unfold drain
  split
  case h_1 => rfl
  case h_2 buffer hstream => simp [contents, hstream, List.append_assoc, List.take_append_drop]

variable {file : LogFile β}

theorem contents_write (h : file.stream.isSome = true) (items : List β) :
    (file.write items).contents = file.contents ++ items := by
  obtain ⟨buffer, hbuffer⟩ := Option.isSome_iff_exists.mp h
  simp [write, contents, hbuffer, List.append_assoc]

theorem isSome_openStream (file : LogFile β) : file.openStream.stream.isSome = true := by
  unfold openStream
  split
  case h_1 buffer hstream => rw [hstream]; rfl
  case h_2 => rfl

theorem created_openStream (h : file.stream.isSome = true → file.created = true) :
    file.openStream.created = true := by
  unfold openStream
  split
  case h_1 buffer hstream => exact h (by rw [hstream]; rfl)
  case h_2 => rfl

end LogFile

/-- All files, and those with an open stream, the one used last first. -/
structure Logs (β : Type*) where
  files : ℕ → LogFile β := fun _ => {}
  lru : List ℕ := []

namespace Logs

/-- Change one file. -/
def modify (logs : Logs β) (shard : ℕ) (f : LogFile β → LogFile β) : Logs β :=
  { logs with files := Function.update logs.files shard (f (logs.files shard)) }

/-- Close the streams beyond the limit, the oldest first. -/
def evict (limit : ℕ) (logs : Logs β) : Logs β :=
  (logs.lru.drop limit).reverse.foldl (fun logs victim => logs.modify victim LogFile.close)
    { logs with lru := logs.lru.take limit }

/-- Note that the stream is used. -/
def touch (limit : ℕ) (logs : Logs β) (shard : ℕ) : Logs β :=
  if shard ∈ logs.lru then { logs with lru := shard :: logs.lru.erase shard }
  else evict limit { logs with lru := shard :: logs.lru }

/-- Append items to a file; then `drained` items of its buffer reach the file. -/
def append (limit : ℕ) (logs : Logs β) (shard : ℕ) (items : List β) (drained : ℕ) : Logs β :=
  ((touch limit (logs.modify shard LogFile.openStream) shard).modify shard fun file =>
    (file.write items).drain drained)

/-- Flush and close everything. -/
def closeAll (logs : Logs β) : Logs β where
  files shard := (logs.files shard).close
  lru := []

theorem files_modify (logs : Logs β) (shard other : ℕ) (f : LogFile β → LogFile β) :
    (logs.modify shard f).files other =
      if other = shard then f (logs.files shard) else logs.files other :=
  Function.update_apply _ _ _ _

/-- Closing changes no contents, and no file that is not closed. -/
theorem files_foldl_close (victims : List ℕ) (logs : Logs β) (shard : ℕ) :
    ((victims.foldl (fun logs victim => logs.modify victim LogFile.close) logs).files shard =
      if shard ∈ victims then (logs.files shard).close else logs.files shard) := by
  induction victims generalizing logs with
  | nil => rfl
  | cons victim rest ih =>
    rw [List.foldl_cons, ih, files_modify]
    by_cases hvictim : shard = victim
    · subst hvictim
      rw [if_pos rfl, if_pos List.mem_cons_self]
      split
      · simp [LogFile.close, LogFile.contents]
      · rfl
    · simp [hvictim]

theorem files_evict (limit : ℕ) (logs : Logs β) (shard : ℕ) :
    (evict limit logs).files shard =
      if shard ∈ logs.lru.drop limit then (logs.files shard).close else logs.files shard := by
  rw [evict, files_foldl_close]
  simp only [List.mem_reverse]

variable {limit : ℕ} {logs : Logs β}

/-- Using a stream keeps all contents, and the stream stays as it is. -/
theorem files_touch (hlimit : 0 < limit) (logs : Logs β) (shard other : ℕ) :
    ((touch limit logs shard).files other = logs.files other ∨
        (touch limit logs shard).files other = (logs.files other).close) ∧
      (touch limit logs shard).files shard = logs.files shard := by
  rw [touch]
  split_ifs with hmem
  · exact ⟨.inl rfl, rfl⟩
  · simp only [files_evict]
    constructor
    · split
      · exact .inr rfl
      · exact .inl rfl
    · rw [if_neg]
      intro hdrop
      cases limit with
      | zero => exact absurd hlimit (Nat.lt_irrefl 0)
      | succ limit => exact hmem (List.mem_of_mem_drop hdrop)

/-- A file that was not created holds nothing. -/
def Valid (logs : Logs β) : Prop :=
  ∀ shard, (logs.files shard).created = false →
    (logs.files shard).persisted = [] ∧ (logs.files shard).stream = none

theorem valid_empty : ({} : Logs β).Valid := fun _ _ => ⟨rfl, rfl⟩

theorem Valid.contents_eq_nil (h : logs.Valid) {shard : ℕ}
    (hshard : (logs.files shard).created = false) : (logs.files shard).contents = [] := by
  obtain ⟨hpersisted, hstream⟩ := h shard hshard
  rw [LogFile.contents, hpersisted, hstream]
  rfl

/-- Appending adds the items to one file. -/
theorem contents_append (hlimit : 0 < limit) (logs : Logs β) (shard other : ℕ) (items : List β)
    (drained : ℕ) :
    ((append limit logs shard items drained).files other).contents =
      (logs.files other).contents ++ if other = shard then items else [] := by
  rw [append, files_modify]
  split_ifs with hsame
  · subst hsame
    rw [(files_touch hlimit _ other other).2, files_modify, if_pos rfl, LogFile.contents_drain,
      LogFile.contents_write (LogFile.isSome_openStream _), LogFile.contents_openStream]
  · rw [List.append_nil]
    have hkeep : ((logs.modify shard LogFile.openStream).files other) = logs.files other := by
      rw [files_modify, if_neg hsame]
    rcases (files_touch hlimit (logs.modify shard LogFile.openStream) shard other).1 with hsame | hsame
    · rw [hsame, hkeep]
    · rw [hsame, LogFile.contents_close, hkeep]

theorem Valid.append (hlimit : 0 < limit) (h : logs.Valid) (shard : ℕ) (items : List β) (drained : ℕ) :
    (append limit logs shard items drained).Valid := by
  intro other hcreated
  rw [Logs.append, files_modify] at hcreated ⊢
  split_ifs at hcreated with hsame
  · -- The file was opened, hence created.
    subst hsame
    rw [(files_touch hlimit _ other other).2, files_modify, if_pos rfl] at hcreated
    have hopen : (logs.files other).openStream.created = true := by
      apply LogFile.created_openStream
      intro hstream
      by_contra hmissing
      rw [(h other (Bool.eq_false_iff.mpr hmissing)).2] at hstream
      cases hstream
    have hdrain (file : LogFile β) : ((file.write items).drain drained).created = file.created := by
      rw [LogFile.drain]
      split
      case h_1 => rfl
      case h_2 => rfl
    rw [hdrain, hopen] at hcreated
    cases hcreated
  · rw [if_neg hsame]
    have hkeep : ((logs.modify shard LogFile.openStream).files other) = logs.files other := by
      rw [files_modify, if_neg hsame]
    rcases (files_touch hlimit (logs.modify shard LogFile.openStream) shard other).1 with hsame | hsame
    · rw [hsame, hkeep] at hcreated ⊢
      exact h other hcreated
    · rw [hsame, hkeep] at hcreated ⊢
      obtain ⟨hpersisted, hstream⟩ := h other hcreated
      simp [LogFile.close, LogFile.contents, hpersisted, hstream]

theorem persisted_closeAll (logs : Logs β) (shard : ℕ) :
    (logs.closeAll.files shard).persisted = (logs.files shard).contents := rfl

theorem Valid.closeAll (h : logs.Valid) : logs.closeAll.Valid := by
  intro shard hcreated
  exact ⟨(persisted_closeAll logs shard).trans (h.contents_eq_nil hcreated), rfl⟩

end Logs

end ShardedLog
