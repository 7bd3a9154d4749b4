import WaterStructure.Formats.KbdxRead
import WaterStructure.Library.TransitionSystem

/-!
# Reading a KBDX structure again

The index of the chunks is only dropped with the offset, at the end of a read that succeeds. A read that
fails before its records changes nothing, and one that reads all of them into a box that fits succeeds. Runs
of such reads, of changed offsets and of requests keep the index that of the blocks. A read whose box does
not fit fails when the blocks are already those of the new file.
-/

namespace WaterStructure

open Kbdx

namespace Kbdx

/-- The records span no more than an `int32` on each axis. -/
def Spans (records : List Record) : Prop :=
  ∀ first ∈ records, ∀ second ∈ records, second.pos.x - first.pos.x + 1 ≤ int32Max ∧
    second.pos.y - first.pos.y + 1 ≤ int32Max ∧ second.pos.z - first.pos.z + 1 ≤ int32Max

instance (records : List Record) : Decidable (Spans records) :=
  inferInstanceAs (Decidable (∀ first ∈ records, ∀ second ∈ records, _ ∧ _ ∧ _))

/-- If the read comes to the records, all of them are there and span no more than an `int32`. -/
def File.Safe {Nbt : Type} (services : Services Nbt) (file : File) : Prop :=
  ∀ metadata, readMetadata services file = .ok metadata →
    ∃ records, recordsOf metadata.blockCount ((file.bytes.getD []).drop 4) = some records ∧ Spans records

/-- Evaluating a file shows that it is safe. -/
theorem safe_of_check {Nbt : Type} {services : Services Nbt} {file : File}
    (h : ((readMetadata services file).toOption.all fun metadata =>
      (recordsOf metadata.blockCount ((file.bytes.getD []).drop 4)).any fun records =>
        decide (Spans records)) = true) : file.Safe services := by
  intro metadata hmetadata
  rw [hmetadata, Except.toOption, Option.all_some, Option.any_eq_true] at h
  exact h.imp fun records hrecords => ⟨hrecords.1, of_decide_eq_true hrecords.2⟩

theorem Spans.dimensions {records : List Record} (h : Spans records) {min max : BlockPos}
    (hbox : BoundingBox records min max) :
    dimensions min max = .ok ⟨max.x - min.x + 1, max.y - min.y + 1, max.z - min.z + 1⟩ := by
  have hextreme {axis : Record → ℤ} {low high : ℤ} (hlow : IsLeast {value | value ∈ records.map axis} low)
      (hhigh : IsGreatest {value | value ∈ records.map axis} high)
      (hspan : ∀ first ∈ records, ∀ second ∈ records, axis second - axis first + 1 ≤ int32Max) (name : String) :
      dimension low high name = .ok (high - low + 1) := by
    have hle := hlow.2 hhigh.1
    obtain ⟨first, hfirst, rfl⟩ := List.mem_map.mp hlow.1
    obtain ⟨second, hsecond, rfl⟩ := List.mem_map.mp hhigh.1
    have hfits := hspan first hfirst second hsecond
    exact if_neg (by omega)
  rw [Kbdx.dimensions,
    hextreme hbox.minX hbox.maxX (fun first hfirst second hsecond => (h first hfirst second hsecond).1) "X",
    hextreme hbox.minY hbox.maxY (fun first hfirst second hsecond => (h first hfirst second hsecond).2.1) "Y",
    hextreme hbox.minZ hbox.maxZ (fun first hfirst second hsecond => (h first hfirst second hsecond).2.2) "Z"]
  rfl

end Kbdx

namespace KbdxStructure

variable {Nbt : Type} {services : Services Nbt} {object t : KbdxStructure Nbt}

inductive Call where
  | read (file : File)
  | setOffset (offset : BlockPos)
  | getChunks (positions : List ChunkPos)

/-- The object after a call. -/
def step (services : Services Nbt) (object : KbdxStructure Nbt) : Call → Option (KbdxStructure Nbt)
  | .read file => some (object.read services file).2
  | .setOffset offset => some (object.setOffset offset)
  | .getChunks positions => some (object.getChunks services.registry.airRuntimeId positions).2

def Call.Safe (services : Services Nbt) : Call → Prop
  | .read file => file.Safe services
  | _ => True

/-- Every number that a request takes from the index is that of a block of the chunk. -/
def TakesBlocks (object : KbdxStructure Nbt) : Prop :=
  ∀ buckets, object.ensureIndex = some buckets → ∀ pos, ∀ index ∈ (buckets.lookup pos).getD [],
    ∃ block, object.blocks[index]? = some block ∧ blockToChunk (block.pos.add object.offset) = pos

/-- Two objects answer alike. -/
def SameAnswers (air : RuntimeId) (object other : KbdxStructure Nbt) : Prop :=
  object.size = other.size ∧
    (∀ positions, (object.getChunks air positions).1 = (other.getChunks air positions).1) ∧
    object.countNonAirBlocks = other.countNonAirBlocks

/-- A safe read leaves an object without an index, or fails without a change. -/
theorem read_cases {file : File} (hsafe : file.Safe services) (object : KbdxStructure Nbt) :
    ((object.read services file).1 = .ok () ∧ (object.read services file).2.chunkIndex = none) ∨
      ∃ error, object.read services file = (.error error, object) := by
  rw [read]
  split
  case h_1 error _ => exact .inr ⟨error, rfl⟩
  case h_2 metadata hmetadata =>
    obtain ⟨records, hrecords, hspans⟩ := hsafe metadata hmetadata
    obtain ⟨hlength, hranged⟩ := recordsOf_spec hrecords
    have hne : records ≠ [] := by
      rintro rfl
      exact (blockCount_of_readMetadata hmetadata).1 hlength.symm
    have hbox := @boundingBox_foldl_push services.registry metadata.palette records hne hranged
    have hblocks := @blocks_foldl_push services.registry metadata.palette records hranged
    rw [readRecords_of_recordsOf hrecords]
    dsimp only
    rw [hblocks, if_neg (by simpa using hne), hspans.dimensions hbox]
    exact .inl ⟨rfl, rfl⟩

theorem indexed_fresh : ({} : KbdxStructure Nbt).Indexed := by
  intro buckets hbuckets
  cases hbuckets

theorem Indexed.step (h : object.Indexed) {call : Call} (hsafe : call.Safe services)
    (hstep : object.step services call = some t) : t.Indexed := by
  cases call with
  | read file =>
    cases hstep
    rcases read_cases hsafe object with ⟨-, hnone⟩ | ⟨error, hread⟩
    · intro buckets hbuckets
      rw [hnone] at hbuckets
      cases hbuckets
    · rw [hread]
      exact h
  | setOffset offset =>
    cases hstep
    exact indexed_setOffset object offset
  | getChunks positions =>
    cases hstep
    obtain ⟨chunkIndex, heq, hindexed⟩ := h.getChunks_cases services.registry.airRuntimeId positions
    rw [heq]
    exact hindexed

theorem Indexed.takesBlocks (h : object.Indexed) : object.TakesBlocks := by
  intro buckets hbuckets pos index hindex
  rw [h.ensureIndex] at hbuckets
  exact exists_of_mem_bucket hbuckets hindex

/-- In every object that safe calls lead to, a request takes only blocks of its chunks from the index, and a
safe read that fails changes no answer. -/
theorem index_sound_of_run (services : Services Nbt) {calls : List Call}
    (hcalls : ∀ call ∈ calls, call.Safe services)
    (hrun : TransitionSystem.run (step services) {} calls = some object) :
    object.TakesBlocks ∧ ∀ file error, file.Safe services →
      (object.read services file).1 = .error error →
        (object.read services file).2.SameAnswers services.registry.airRuntimeId object := by
  have hindexed : object.Indexed := TransitionSystem.run_invariant
    (fun _ _ _ hinv hsafe hstep => Indexed.step hinv hsafe hstep) indexed_fresh hcalls hrun
  refine ⟨hindexed.takesBlocks, fun file error hsafe hfails => ?_⟩
  rcases read_cases hsafe object with ⟨hok, -⟩ | ⟨_, hread⟩
  · rw [hok] at hfails
    cases hfails
  · rw [hread]
    exact ⟨rfl, fun _ => rfl, rfl⟩

/-- Three stones that have been asked for. -/
def indexedStones : KbdxStructure Unit :=
  ((({} : KbdxStructure Unit).read stoneServices (stoneFile [0, 1, 2])).2.getChunks 0 [⟨0, 0⟩]).2

theorem run_indexedStones : TransitionSystem.run (step stoneServices) {}
    [.read (stoneFile [0, 1, 2]), .getChunks [⟨0, 0⟩]] = some indexedStones := rfl

/-- They survive a file with a bad number of records. -/
theorem index_sound_of_run_stone : indexedStones.TakesBlocks ∧ ∀ file error, file.Safe stoneServices →
    (indexedStones.read stoneServices file).1 = .error error →
      (indexedStones.read stoneServices file).2.SameAnswers 0 indexedStones := by
  refine index_sound_of_run stoneServices (fun call hcall => ?_) run_indexedStones
  rcases List.mem_pair.mp hcall with rfl | rfl
  · exact safe_of_check (by decide +kernel)
  · trivial

/-- After a read of two stones at both ends of the axis the number of the third stone is still in the index,
and the count is another one. -/
theorem not_index_sound :
    (¬ ∀ calls object, TransitionSystem.run (step stoneServices) {} calls = some object →
      object.TakesBlocks) ∧
    ¬ ∀ calls object file error, TransitionSystem.run (step stoneServices) {} calls = some object →
      (object.read stoneServices file).1 = .error error →
        (object.read stoneServices file).2.SameAnswers 0 object := by
  constructor
  · intro h
    have htakes := h [.read (stoneFile [0, 1, 2]), .getChunks [⟨0, 0⟩], .read (stoneFile [0, 2147483647])]
      (indexedStones.read stoneServices (stoneFile [0, 2147483647])).2 rfl
    have hbucket : ((indexedStones.read stoneServices (stoneFile [0, 2147483647])).2.ensureIndex.map
        fun buckets => (buckets.lookup ⟨0, 0⟩).getD []) = some [0, 1, 2] := by decide +kernel
    have hmissing : (indexedStones.read stoneServices (stoneFile [0, 2147483647])).2.blocks[2]? = none := by
      decide +kernel
    obtain ⟨buckets, hbuckets, hindices⟩ := Option.map_eq_some_iff.mp hbucket
    obtain ⟨block, hblock, -⟩ := htakes buckets hbuckets ⟨0, 0⟩ 2 (by rw [hindices]; decide)
    rw [hmissing] at hblock
    cases hblock
  · intro h
    cases hread : (indexedStones.read stoneServices (stoneFile [0, 2147483647])).1 with
    | ok done =>
      have hfails : (indexedStones.read stoneServices (stoneFile [0, 2147483647])).1.isOk = false := by
        decide +kernel
      rw [hread] at hfails
      cases hfails
    | error error =>
      have hcount := (h _ _ _ _ run_indexedStones hread).2.2
      revert hcount
      decide +kernel

end KbdxStructure

end WaterStructure
