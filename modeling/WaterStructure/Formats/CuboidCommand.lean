import WaterStructure.Core.Grid
import WaterStructure.Library.OrderedMerge

/-!
# Cuboid commands and the painter rule

The command readers keep a file as a list of filled cuboids and replay them for each requested
chunk. `painted` is what such a list means: every block has the id of the last command, in
source order, whose shifted cuboid contains it. A reader selects, for each chunk, the commands
of an index that reach the chunk and a list of broad commands; replaying both in source order
gives the same chunk as replaying everything.
-/

namespace WaterStructure

open LastValue

/-- The private `Command` of both readers, with corners in order. -/
structure CuboidCommand where
  x1 : ℤ
  x2 : ℤ
  y1 : ℤ
  y2 : ℤ
  z1 : ℤ
  z2 : ℤ
  runtimeId : RuntimeId

namespace CuboidCommand

/-- The block lies in the cuboid moved by the offset. -/
def Covers (command : CuboidCommand) (offset pos : BlockPos) : Prop :=
  (command.x1 + offset.x ≤ pos.x ∧ pos.x ≤ command.x2 + offset.x) ∧
    (command.y1 + offset.y ≤ pos.y ∧ pos.y ≤ command.y2 + offset.y) ∧
    (command.z1 + offset.z ≤ pos.z ∧ pos.z ≤ command.z2 + offset.z)

instance (command : CuboidCommand) (offset pos : BlockPos) :
    Decidable (command.Covers offset pos) :=
  inferInstanceAs (Decidable ((_ ∧ _) ∧ (_ ∧ _) ∧ (_ ∧ _)))

/-- The id the command paints on a block. -/
def paints (offset pos : BlockPos) (command : CuboidCommand) : Option RuntimeId :=
  if command.Covers offset pos then some command.runtimeId else none

/-- The command is normalised and lies in the bounding box of the structure. -/
def Inside (command : CuboidCommand) (size : Size) : Prop :=
  (0 ≤ command.x1 ∧ command.x1 ≤ command.x2 ∧ command.x2 < size.width) ∧
    (0 ≤ command.y1 ∧ command.y1 ≤ command.y2 ∧ command.y2 < size.height) ∧
    (0 ≤ command.z1 ∧ command.z1 ≤ command.z2 ∧ command.z2 < size.length)

instance (command : CuboidCommand) (size : Size) : Decidable (command.Inside size) :=
  inferInstanceAs (Decidable ((_ ∧ _ ∧ _) ∧ (_ ∧ _ ∧ _) ∧ (_ ∧ _ ∧ _)))

end CuboidCommand

/-- The id of a block after all commands, if any command reaches it. -/
def painted (commands : List CuboidCommand) (offset pos : BlockPos) : Option RuntimeId :=
  lastValue (CuboidCommand.paints offset pos) commands

/-- The chunks that a shifted command reaches. -/
structure ChunkRange where
  x1 : ℤ
  x2 : ℤ
  z1 : ℤ
  z2 : ℤ

/-- The largest value of `std::uint64_t`. -/
def uint64Max : ℕ := 18446744073709551615

namespace ChunkRange

/-- `chunk_x1`, `chunk_x2`, `chunk_z1` and `chunk_z2` of a command. -/
def of (command : CuboidCommand) (offset : BlockPos) : ChunkRange where
  x1 := floorDiv64 (command.x1 + offset.x) 16
  x2 := floorDiv64 (command.x2 + offset.x) 16
  z1 := floorDiv64 (command.z1 + offset.z) 16
  z2 := floorDiv64 (command.z2 + offset.z) 16

/-- The number of chunks, saturating at the largest 64-bit value. -/
def covered (range : ChunkRange) : ℕ :=
  let spanX := range.x2 - range.x1 + 1
  let spanZ := range.z2 - range.z1 + 1
  if spanX ≤ 0 ∨ spanZ ≤ 0 then uint64Max
  else if spanX.toNat > uint64Max / spanZ.toNat then uint64Max
  else spanX.toNat * spanZ.toNat

/-- The chunks of the range, z outermost. -/
def positions (range : ChunkRange) : List ChunkPos :=
  (Int.range range.z1 (range.z2 + 1)).flatMap fun z =>
    (Int.range range.x1 (range.x2 + 1)).map fun x => ⟨x, z⟩

def Contains (range : ChunkRange) (pos : ChunkPos) : Prop :=
  (range.x1 ≤ pos.x ∧ pos.x ≤ range.x2) ∧ range.z1 ≤ pos.z ∧ pos.z ≤ range.z2

instance (range : ChunkRange) (pos : ChunkPos) : Decidable (range.Contains pos) :=
  inferInstanceAs (Decidable ((_ ∧ _) ∧ _ ∧ _))

theorem mem_positions {range : ChunkRange} {pos : ChunkPos} :
    pos ∈ range.positions ↔ range.Contains pos := by
  simp only [positions, Contains, List.mem_flatMap, List.mem_map, Int.mem_range_iff]
  constructor
  · rintro ⟨z, hz, x, hx, rfl⟩
    simp only
    omega
  · rintro ⟨hx, hz⟩
    exact ⟨pos.z, by omega, pos.x, by omega, rfl⟩

/-- Each chunk of the range is visited once. -/
theorem nodup_positions (range : ChunkRange) : range.positions.Nodup := by
  refine List.nodup_flatMap.mpr ⟨fun z _ => ?_, ?_⟩
  · exact (NestedLoop.nodup_range _ _).map fun a b hab => by simpa using hab
  · refine (NestedLoop.pairwise_lt_range _ _).imp fun hlt => ?_
    intro pos hfirst hsecond
    obtain ⟨_, -, rfl⟩ := List.mem_map.mp hfirst
    obtain ⟨_, -, heq⟩ := List.mem_map.mp hsecond
    simp only [ChunkPos.mk.injEq] at heq
    omega

/-- A command reaches no block outside its chunks. -/
theorem contains_of_covers {command : CuboidCommand} {offset pos : BlockPos}
    (h : command.Covers offset pos) : (of command offset).Contains (blockToChunk pos) := by
  obtain ⟨hx, -, hz⟩ := h
  simp only [Contains, of, blockToChunk, floorDiv64_sixteen, floorDiv_sixteen]
  omega

end ChunkRange

/-- What a successful read leaves: normalised commands inside a box with `std::int32_t` extents,
few enough for 32-bit indices. -/
structure CommandList where
  size : Size
  commands : List CuboidCommand
  width_le : size.width ≤ int32Max
  height_le : size.height ≤ int32Max
  length_le : size.length ≤ int32Max
  inside : ∀ command ∈ commands, command.Inside size
  count_le : commands.length ≤ 4294967295

/-- The part of a command's columns that lies in a chunk. -/
structure ColumnClip where
  x1 : ℤ
  x2 : ℤ
  z1 : ℤ
  z2 : ℤ

/-- Clip a shifted command to a chunk. -/
def CuboidCommand.clip (command : CuboidCommand) (offset : BlockPos) (chunkPos : ChunkPos) :
    ColumnClip where
  x1 := max (command.x1 + offset.x) (chunkPos.x * 16)
  x2 := min (command.x2 + offset.x) (chunkPos.x * 16 + 15)
  z1 := max (command.z1 + offset.z) (chunkPos.z * 16)
  z2 := min (command.z2 + offset.z) (chunkPos.z * 16 + 15)

/-- The chunks reached by the command at an index. -/
def positionsOf (commands : List CuboidCommand) (offset : BlockPos) (index : ℕ) : List ChunkPos :=
  match commands[index]? with
  | none => []
  | some command => (ChunkRange.of command offset).positions

theorem nodup_positionsOf (commands : List CuboidCommand) (offset : BlockPos) (index : ℕ) :
    (positionsOf commands offset index).Nodup := by
  rw [positionsOf]
  split
  case h_1 => exact List.nodup_nil
  case h_2 => exact ChunkRange.nodup_positions _

/-- Replay the command at one index. An index outside the list, which the source would read
unchecked, is an error here. -/
def replayAt (commands : List CuboidCommand)
    (process : ChunkData → CuboidCommand → Except String ChunkData) (chunk : ChunkData)
    (index : ℕ) : Except String ChunkData :=
  match commands[index]? with
  | none => .error "index out of range"
  | some command => process chunk command

/-- Replay the commands at the given indices on a chunk. -/
def replay (commands : List CuboidCommand)
    (process : ChunkData → CuboidCommand → Except String ChunkData) (indices : List ℕ)
    (chunk : ChunkData) : Except String ChunkData :=
  indices.foldlM (replayAt commands process) chunk

/-- A replay step for one chunk draws the command on the chunk's blocks and does not fail. -/
def Draws (process : ChunkData → CuboidCommand → Except String ChunkData) (air : RuntimeId)
    (offset : BlockPos) (chunkPos : ChunkPos) (command : CuboidCommand) : Prop :=
  ∀ chunk : ChunkData, chunk.layout = .Internal →
    ∃ next, process chunk command = .ok next ∧ next.layout = .Internal ∧
      ∀ pos, blockToChunk pos = chunkPos →
        next.blockAt air pos = (command.paints offset pos).getD (chunk.blockAt air pos)

/-- The indices a reader files under a chunk: indexed commands that reach it. -/
def localIndices (commands : List CuboidCommand) (offset : BlockPos) (indexed : ℕ → Bool)
    (chunkPos : ChunkPos) : List ℕ :=
  (List.range commands.length).filter fun index =>
    chunkPos ∈ if indexed index then positionsOf commands offset index else []

/-- The indices a reader replays for every chunk. -/
def broadIndices (commands : List CuboidCommand) (indexed : ℕ → Bool) : List ℕ :=
  (List.range commands.length).filter fun index => !indexed index

/-- Every command is in exactly one of the two: an indexed one is filed under exactly the chunks
it reaches, a broad one under none. -/
def Splits (commands : List CuboidCommand) (offset : BlockPos) (localOf : ChunkPos → List ℕ)
    (broad : List ℕ) : Prop :=
  ∀ index command, commands[index]? = some command →
    (index ∈ broad ∧ ∀ pos, index ∉ localOf pos) ∨
      (index ∉ broad ∧ ∀ pos, index ∈ localOf pos ↔ (ChunkRange.of command offset).Contains pos)

/-- Whichever commands are indexed, the two lists split the commands. -/
theorem splits_indices (commands : List CuboidCommand) (offset : BlockPos) (indexed : ℕ → Bool) :
    Splits commands offset (localIndices commands offset indexed)
      (broadIndices commands indexed) := by
  intro index command hcommand
  have hrange : index ∈ List.range commands.length :=
    List.mem_range.mpr (List.getElem?_eq_some_iff.mp hcommand).1
  cases hindexed : indexed index with
  | false => exact .inl ⟨by simp [broadIndices, hrange, hindexed], by simp [localIndices, hindexed]⟩
  | true =>
    refine .inr ⟨by simp [broadIndices, hindexed], fun pos => ?_⟩
    simp only [localIndices, List.mem_filter, hrange, hindexed, if_true, true_and,
      decide_eq_true_eq, positionsOf, hcommand, ChunkRange.mem_positions]

variable {process : ChunkData → CuboidCommand → Except String ChunkData} {air : RuntimeId}
  {offset : BlockPos} {chunkPos : ChunkPos} {commands : List CuboidCommand}

/-- Replaying some commands in source order, among them all that reach the chunk, paints the
chunk. -/
theorem blockAt_replay {keep : ℕ → Bool}
    (hdraws : ∀ command ∈ commands, Draws process air offset chunkPos command)
    (hkeep : ∀ index command, commands[index]? = some command → keep index = false →
      ¬ (ChunkRange.of command offset).Contains chunkPos) :
    ∃ chunk, replay commands process ((List.range commands.length).filter keep) {} = .ok chunk ∧
      ∀ pos, blockToChunk pos = chunkPos →
        chunk.blockAt air pos = (painted commands offset pos).getD air := by
  have hstep : ∀ chunk : ChunkData, chunk.layout = .Internal →
      ∀ index ∈ (List.range commands.length).filter keep, ∃ next,
        replayAt commands process chunk index = .ok next ∧ next.layout = .Internal ∧
          ∀ pos : {pos // blockToChunk pos = chunkPos}, next.blockAt air pos =
            (commands[index]?.bind (CuboidCommand.paints offset pos)).getD
              (chunk.blockAt air pos) := by
    intro chunk hlayout index hindex
    have hlt : index < commands.length := List.mem_range.mp (List.mem_of_mem_filter hindex)
    obtain ⟨next, hnext, hnextLayout, hblock⟩ := hdraws _ (List.getElem_mem hlt) chunk hlayout
    refine ⟨next, by rw [replayAt, List.getElem?_eq_getElem hlt]; exact hnext, hnextLayout,
      fun pos => ?_⟩
    rw [hblock pos pos.2, List.getElem?_eq_getElem hlt, Option.bind_some]
  obtain ⟨chunk, hchunk, -, hblock⟩ := foldlM_observe_inv
    (fun (pos : {pos // blockToChunk pos = chunkPos}) (chunk : ChunkData) => chunk.blockAt air pos)
    (fun pos index => commands[index]?.bind (CuboidCommand.paints offset pos))
    (replayAt commands process) (fun chunk => chunk.layout = .Internal) _ (s := {}) rfl hstep
  refine ⟨chunk, hchunk, fun pos hpos => ?_⟩
  rw [hblock ⟨pos, hpos⟩, ChunkData.blockAt_empty, lastValue_filter, lastValue_range, painted]
  intro index _ hdropped
  cases hcommand : commands[index]? with
  | none => rfl
  | some command =>
    refine if_neg fun hcovers => hkeep index command hcommand hdropped ?_
    rw [← hpos]
    exact ChunkRange.contains_of_covers hcovers

/-- Merging the indexed commands of a chunk with the broad ones replays them in source order, and
that paints the chunk. -/
theorem blockAt_replay_merge (indexed : ℕ → Bool)
    (hdraws : ∀ command ∈ commands, Draws process air offset chunkPos command) :
    ∃ chunk, replay commands process (OrderedMerge.merge
        (localIndices commands offset indexed chunkPos) (broadIndices commands indexed)) {} =
          .ok chunk ∧
      ∀ pos, blockToChunk pos = chunkPos →
        chunk.blockAt air pos = (painted commands offset pos).getD air := by
  rw [localIndices, broadIndices, OrderedMerge.merge_filter List.pairwise_lt_range]
  · refine blockAt_replay hdraws fun index command hcommand hdropped hcontains => ?_
    cases hindexed : indexed index with
    | false => simp [hindexed] at hdropped
    | true =>
      simp [hindexed, positionsOf, hcommand, ChunkRange.mem_positions, hcontains] at hdropped
  · intro index _ hboth
    cases hindexed : indexed index with
    | false => simp [hindexed] at hboth
    | true => simp [hindexed] at hboth

end WaterStructure
