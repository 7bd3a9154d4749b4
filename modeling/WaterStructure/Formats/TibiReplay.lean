import WaterStructure.Formats.Tibi
import WaterStructure.Library.MeteredLoop

/-!
# TIBI: what a replay leaves

A request replays the commands of every requested chunk. A cell gets the last command that reaches it
when its own chunk is replayed. A single block in the broad list is stored once more for every other
requested chunk, and so comes back over later commands if its chunk was replayed before.
-/

namespace WaterStructure.TibiReader

open LastValue NestedLoop MeteredLoop Tibi

variable {reader : TibiReader} {air : RuntimeId}

/-- The shifted cell or box of a command contains the position. -/
def Reaches (reader : TibiReader) (command : TibiCommand) (pos : BlockPos) : Prop :=
  let first := reader.toLocal command.first
  let second := reader.toLocal command.second
  (command.type = 0 ∧ first = pos) ∨
    (command.type = 1 ∧ (min first.x second.x ≤ pos.x ∧ pos.x ≤ max first.x second.x) ∧
      (min first.y second.y ≤ pos.y ∧ pos.y ≤ max first.y second.y) ∧
        min first.z second.z ≤ pos.z ∧ pos.z ≤ max first.z second.z)

instance (reader : TibiReader) (command : TibiCommand) (pos : BlockPos) :
    Decidable (reader.Reaches command pos) :=
  inferInstanceAs (Decidable ((_ ∧ _) ∨ (_ ∧ (_ ∧ _) ∧ (_ ∧ _) ∧ _ ∧ _)))

/-- The id a command stores in a cell, unless it is air. -/
def writes (reader : TibiReader) (air : RuntimeId) (pos : BlockPos) (command : TibiCommand) :
    Option RuntimeId :=
  if command.runtimeId ≠ air ∧ reader.Reaches command pos then some command.runtimeId else none

/-- The last command in file order that is not air and reaches the cell. -/
def lastCommand (reader : TibiReader) (air : RuntimeId) (pos : BlockPos) : Option RuntimeId :=
  lastValue (reader.writes air pos) reader.commands

/-- What the single block at an index stores in a cell, if it is in the broad list. -/
def broadBlock (reader : TibiReader) (air : RuntimeId) (pos : BlockPos) (index : ℕ) :
    Option RuntimeId :=
  reader.commands[index]?.bind fun command =>
    if reader.flagOf index = some false ∧ command.type = 0 then reader.writes air pos command else none

/-- The last single block in the broad list that is not air and lies in the cell. -/
def lastBroadBlock (reader : TibiReader) (air : RuntimeId) (pos : BlockPos) : Option RuntimeId :=
  lastValue (reader.broadBlock air pos) (List.range reader.commands.length)

/-- The command at an index is replayed for a chunk. -/
def isReplayed (reader : TibiReader) (chunkPosition : ChunkPos) (index : ℕ) : Bool :=
  match reader.commands[index]? with
  | none => false
  | some command =>
    reader.flagOf index = some false ∨
      (reader.flagOf index = some true ∧ (reader.rangeOf command).Contains chunkPosition)

/-- The indices that are replayed for a chunk, in file order. -/
def replayed (reader : TibiReader) (chunkPosition : ChunkPos) : List ℕ :=
  (List.range reader.commands.length).filter (reader.isReplayed chunkPosition)

/-- Merging the filed commands of a chunk with the broad ones gives them in file order. -/
theorem merge_buildIndex (chunkPosition : ChunkPos) :
    OrderedMerge.merge ((reader.buildIndex.commandIndex.lookup chunkPosition).getD [])
      reader.buildIndex.broadCommands = reader.replayed chunkPosition := by
  have hlocal : (reader.buildIndex.commandIndex.lookup chunkPosition).getD [] =
      (List.range reader.commands.length).filter fun index =>
        chunkPosition ∈ if reader.flagOf index = some true then reader.positionsOf index else [] := by
    rw [buildIndex, AssocMap.lookup_foldl_pushBack, AList.lookup_empty, Option.getD_none,
      List.nil_append, chunkEntries, map_snd_filter_flatMap]
    intro index _
    split
    · rw [positionsOf]
      split
      case h_1 => exact List.nodup_nil
      case h_2 => exact ChunkRange.nodup_positions _
    · exact List.nodup_nil
  rw [hlocal, buildIndex, OrderedMerge.merge_filter List.pairwise_lt_range]
  · refine List.filter_congr fun index hindex => ?_
    rw [isReplayed, positionsOf]
    have hlt := List.mem_range.mp hindex
    rw [List.getElem?_eq_getElem hlt]
    cases hflag : reader.flagOf index with
    | none => simp
    | some indexed => cases indexed <;> simp [ChunkRange.mem_positions]
  · intro index _ hboth
    cases hflag : reader.flagOf index with
    | none => simp [hflag] at hboth
    | some indexed => cases indexed <;> simp [hflag] at hboth

/-- Every chunk is in the order of the readers, and those that are there are the requested ones. -/
structure Laid (positions : List ChunkPos) (state : ChunkMap × ℕ) : Prop where
  layout : ∀ key chunk, state.1.lookup key = some chunk → chunk.layout = .Internal
  requested : ∀ key ∈ positions, ∃ chunk, state.1.lookup key = some chunk
  others : ∀ key, key ∉ positions → state.1.lookup key = none

/-- The block of a requested cell. -/
def shown (positions : List ChunkPos) (air : RuntimeId) (state : ChunkMap × ℕ)
    (cell : {pos // blockToChunk pos ∈ positions}) : RuntimeId :=
  (state.1.blockAt air cell).getD air

variable {chunks : ChunkMap} {state : ChunkMap × ℕ} {order : List ChunkPos}

/-- Storing a block is storing it in the chunk that holds it. -/
theorem setBlock_eq (hlayout : ∀ key chunk, chunks.lookup key = some chunk → chunk.layout = .Internal)
    (runtime : RuntimeId) (position : BlockPos) :
    setBlock air runtime chunks position =
      AssocMap.update chunks (blockToChunk position) fun chunk => chunk.setAt air position runtime := by
  rw [setBlock]
  unfold AssocMap.update
  cases hchunk : chunks.lookup (blockToChunk position) with
  | none => rfl
  | some chunk =>
    dsimp only
    rw [ChunkData.setAt, hlayout _ chunk hchunk]
    rfl

variable {positions : List ChunkPos} {pos : BlockPos} {chunkPosition : ChunkPos} {command : TibiCommand}

theorem laid_setBlock (h : Laid positions state) (runtime : RuntimeId) (position : BlockPos) (spent : ℕ) :
    Laid positions (setBlock air runtime state.1 position, spent) := by
  rw [setBlock_eq h.layout]
  constructor
  · intro key chunk hchunk
    rw [AssocMap.lookup_update] at hchunk
    split at hchunk
    · obtain ⟨old, hold, rfl⟩ := Option.map_eq_some_iff.mp hchunk
      exact h.layout _ old hold
    · exact h.layout key chunk hchunk
  · intro key hkey
    obtain ⟨chunk, hchunk⟩ := h.requested key hkey
    rw [AssocMap.lookup_update]
    split_ifs with hsame
    · exact ⟨_, by rw [← hsame, hchunk, Option.map_some]⟩
    · exact ⟨chunk, hchunk⟩
  · intro key hkey
    have hnone := h.others key hkey
    rw [AssocMap.lookup_update]
    split_ifs with hsame
    · rw [← hsame, hnone, Option.map_none]
    · exact hnone

theorem shown_setBlock (h : Laid positions state) (runtime : RuntimeId) (position : BlockPos) (spent : ℕ)
    (cell : {pos // blockToChunk pos ∈ positions}) :
    shown positions air (setBlock air runtime state.1 position, spent) cell =
      if position = cell then runtime else shown positions air state cell := by
  obtain ⟨chunk, hchunk⟩ := h.requested _ cell.2
  rw [setBlock_eq h.layout, shown, shown, ChunkMap.blockAt, ChunkMap.blockAt, AssocMap.lookup_update]
  by_cases hsame : blockToChunk cell.1 = blockToChunk position
  · rw [if_pos hsame, ← hsame, hchunk, Option.map_some, Option.map_some, Option.map_some,
      Option.getD_some, Option.getD_some, ChunkData.blockAt_setAt chunk air runtime hsame.symm]
    exact if_congr eq_comm rfl rfl
  · rw [if_neg hsame, if_neg]
    rintro rfl
    exact hsame rfl

theorem mem_cellsXYZ {low high : BlockPos} : pos ∈ cellsXYZ low high ↔
    (low.x ≤ pos.x ∧ pos.x ≤ high.x) ∧ (low.y ≤ pos.y ∧ pos.y ≤ high.y) ∧
      low.z ≤ pos.z ∧ pos.z ≤ high.z := by
  simp only [cellsXYZ, List.mem_flatMap, List.mem_map, Int.mem_range_iff]
  constructor
  · rintro ⟨x, hx, y, hy, z, hz, rfl⟩
    dsimp only
    omega
  · intro h
    exact ⟨pos.x, by omega, pos.y, by omega, pos.z, by omega, rfl⟩

/-- Filling cells. -/
theorem fill_setBlock {positions : List ChunkPos} {state : ChunkMap × ℕ} (h : Laid positions state)
    (runtime : RuntimeId) (cells : List BlockPos) (spent : ℕ) :
    Laid positions (cells.foldl (setBlock air runtime) state.1, spent) ∧
      ∀ cell : {pos // blockToChunk pos ∈ positions},
        shown positions air (cells.foldl (setBlock air runtime) state.1, spent) cell =
          if cell.1 ∈ cells then runtime else shown positions air state cell := by
  induction cells generalizing state with
  | nil => exact ⟨⟨h.layout, h.requested, h.others⟩, fun cell => (if_neg List.not_mem_nil).symm⟩
  | cons first rest ih =>
    obtain ⟨hlaid, hshown⟩ := ih (laid_setBlock h runtime first spent)
    refine ⟨hlaid, fun cell => ?_⟩
    rw [List.foldl_cons, hshown, shown_setBlock h]
    by_cases hrest : cell.1 ∈ rest
    · rw [if_pos hrest, if_pos (List.mem_cons_of_mem _ hrest)]
    · rw [if_neg hrest]
      refine if_congr ?_ rfl rfl
      rw [List.mem_cons, or_iff_left hrest, eq_comm]

/-- What a command stores in a cell when it is replayed for a chunk. -/
def turnWrites (reader : TibiReader) (air : RuntimeId) (chunkPosition : ChunkPos)
    (command : TibiCommand) (pos : BlockPos) : Option RuntimeId :=
  if command.type = 1 ∧ blockToChunk pos ≠ chunkPosition then none else reader.writes air pos command

/-- The number of blocks that a command stores for a chunk. -/
def turnCost (reader : TibiReader) (air : RuntimeId) (chunkPosition : ChunkPos)
    (command : TibiCommand) : ℕ :=
  if command.runtimeId = air then 0
  else if command.type = 0 then 1
  else if command.type ≠ 1 then 0
  else
    let (low, high) := reader.clipped chunkPosition command
    (high.x - low.x + 1).toNat * (high.z - low.z + 1).toNat * (high.y - low.y + 1).toNat

/-- The clipped cells are those that the fill reaches in the chunk. -/
theorem mem_clipped {command : TibiCommand} (htype : command.type = 1) {chunkPosition : ChunkPos}
    {pos : BlockPos} : pos ∈ cellsXYZ (reader.clipped chunkPosition command).1
      (reader.clipped chunkPosition command).2 ↔
        blockToChunk pos = chunkPosition ∧ reader.Reaches command pos := by
  obtain ⟨x, z⟩ := chunkPosition
  rw [mem_cellsXYZ, Reaches, clipped, blockToChunk, ChunkPos.mk.injEq, floorDiv_sixteen,
    floorDiv_sixteen]
  dsimp only
  constructor
  · intro h
    refine ⟨by omega, .inr ⟨htype, by omega, by omega, by omega⟩⟩
  · rintro ⟨hchunk, ⟨hblock, -⟩ | ⟨-, hx, hy, hz⟩⟩
    · omega
    · omega

/-- A step of the replay, for a request of the given chunks. -/
abbrev IsTurn (positions : List ChunkPos) (air : RuntimeId)
    (step : ChunkMap × ℕ → Except String (ChunkMap × ℕ)) (cost : ℕ)
    (written : BlockPos → Option RuntimeId) : Prop :=
  Metered (Laid positions) Prod.snd kMaxMaterializedBlocksPerRequest (shown positions air) step cost
    fun cell => written cell

/-- A command that stores nothing. -/
theorem isTurn_skip (h : command.runtimeId = air ∨ (command.type ≠ 0 ∧ command.type ≠ 1)) :
    IsTurn positions air (fun state => reader.process air chunkPosition state command)
      (reader.turnCost air chunkPosition command) (reader.turnWrites air chunkPosition command) := by
  have hcost : reader.turnCost air chunkPosition command = 0 := by
    rw [turnCost]
    split
    case isTrue => rfl
    case isFalse hair =>
      obtain ⟨hblock, hfill⟩ := h.resolve_left hair
      rw [if_neg hblock, if_pos hfill]
  have hwrites (pos : BlockPos) : reader.turnWrites air chunkPosition command pos = none := by
    rw [turnWrites, writes]
    split
    · rfl
    · rw [if_neg]
      rintro ⟨hair, ⟨htype, -⟩ | ⟨htype, -⟩⟩
      · exact (h.resolve_left hair).1 htype
      · exact (h.resolve_left hair).2 htype
  have hstep (state : ChunkMap × ℕ) : reader.process air chunkPosition state command = .ok state := by
    rw [process]
    split
    case isTrue => rfl
    case isFalse hair =>
      obtain ⟨hblock, hfill⟩ := h.resolve_left hair
      rw [if_neg hblock, if_pos hfill]
  unfold IsTurn
  rw [hcost]
  simp only [hwrites]
  exact Metered.skip hstep

/-- A single block. -/
theorem isTurn_block (hair : command.runtimeId ≠ air) (htype : command.type = 0) :
    IsTurn positions air (fun state => reader.process air chunkPosition state command)
      (reader.turnCost air chunkPosition command) (reader.turnWrites air chunkPosition command) := by
  have hcost : reader.turnCost air chunkPosition command = 1 := by
    rw [turnCost, if_neg hair, if_pos htype]
  have hstep (state : ChunkMap × ℕ) : reader.process air chunkPosition state command =
      if state.2 + 1 > kMaxMaterializedBlocksPerRequest then .error "TIBI 请求展开量超过限制"
      else .ok (setBlock air command.runtimeId state.1 (reader.toLocal command.first), state.2 + 1) := by
    rw [process, if_neg hair, if_pos htype]
  have hone : command.type ≠ 1 := by rw [htype]; decide
  have hwrites (pos : BlockPos) :
      reader.turnWrites air chunkPosition command pos = reader.writes air pos command :=
    if_neg fun h => hone h.1
  unfold IsTurn
  rw [hcost]
  constructor
  · intro state hstate hle
    refine ⟨_, (hstep state).trans (if_neg (by omega)), laid_setBlock hstate _ _ _, rfl, fun cell => ?_⟩
    rw [shown_setBlock hstate, hwrites, writes]
    by_cases hsame : reader.toLocal command.first = cell
    · rw [if_pos hsame, if_pos ⟨hair, .inl ⟨htype, hsame⟩⟩, Option.getD_some]
    · rw [if_neg hsame, if_neg, Option.getD_none]
      rintro ⟨-, ⟨-, h⟩ | ⟨h, -⟩⟩
      · exact hsame h
      · exact hone h
  · intro state _ _ hlt
    exact ⟨_, (hstep state).trans (if_pos (by omega))⟩

/-- A box. -/
theorem isTurn_fill (hair : command.runtimeId ≠ air) (htype : command.type = 1) :
    IsTurn positions air (fun state => reader.process air chunkPosition state command)
      (reader.turnCost air chunkPosition command) (reader.turnWrites air chunkPosition command) := by
  have hzero : command.type ≠ 0 := by rw [htype]; decide
  obtain ⟨low, high, hclip⟩ : ∃ low high, reader.clipped chunkPosition command = (low, high) :=
    ⟨_, _, rfl⟩
  have hcost : reader.turnCost air chunkPosition command =
      (high.x - low.x + 1).toNat * (high.z - low.z + 1).toNat * (high.y - low.y + 1).toNat := by
    rw [turnCost, if_neg hair, if_neg hzero, if_neg (not_not.mpr htype), hclip]
  have hmem {pos : BlockPos} : pos ∈ cellsXYZ low high ↔
      blockToChunk pos = chunkPosition ∧ reader.Reaches command pos := by
    rw [← @mem_clipped reader command htype chunkPosition pos, hclip]
  have hwrites (pos : BlockPos) : reader.turnWrites air chunkPosition command pos =
      if pos ∈ cellsXYZ low high then some command.runtimeId else none := by
    rw [turnWrites, writes]
    by_cases hchunk : blockToChunk pos = chunkPosition
    · rw [if_neg fun h => h.2 hchunk]
      refine if_congr ?_ rfl rfl
      rw [hmem, and_iff_right hair, and_iff_right hchunk]
    · rw [if_pos ⟨htype, hchunk⟩, if_neg fun h => hchunk (hmem.mp h).1]
  have hstep (state : ChunkMap × ℕ) : reader.process air chunkPosition state command =
      if low.x > high.x ∨ low.z > high.z then .ok state
      else if reader.turnCost air chunkPosition command > kMaxMaterializedBlocksPerRequest - state.2 then
        .error "TIBI fill 请求展开量超过限制"
      else .ok ((cellsXYZ low high).foldl (setBlock air command.runtimeId) state.1,
        state.2 + reader.turnCost air chunkPosition command) := by
    rw [process, if_neg hair, if_neg hzero, if_neg (not_not.mpr htype), hclip, hcost]
  simp only [IsTurn, hwrites]
  by_cases hempty : low.x > high.x ∨ low.z > high.z
  · -- An empty clip has no cells, and its volume is zero.
    have hnone (pos : BlockPos) : pos ∉ cellsXYZ low high := by
      rw [mem_cellsXYZ]
      omega
    have hfree : reader.turnCost air chunkPosition command = 0 := by
      rw [hcost]
      rcases hempty with h | h
      · rw [Int.toNat_of_nonpos (show high.x - low.x + 1 ≤ 0 by omega), Nat.zero_mul, Nat.zero_mul]
      · rw [Int.toNat_of_nonpos (show high.z - low.z + 1 ≤ 0 by omega), Nat.mul_zero, Nat.zero_mul]
    rw [hfree]
    simp only [if_neg (hnone _)]
    exact Metered.skip fun state => (hstep state).trans (if_pos hempty)
  · constructor
    · intro state hstate hle
      obtain ⟨hlaid, hshown⟩ := @fill_setBlock air positions state hstate command.runtimeId
        (cellsXYZ low high) (state.2 + reader.turnCost air chunkPosition command)
      refine ⟨_, (hstep state).trans ((if_neg hempty).trans (if_neg (by omega))), hlaid, rfl,
        fun cell => ?_⟩
      rw [hshown]
      split <;> rfl
    · intro state _ hspent hlt
      exact ⟨_, (hstep state).trans ((if_neg hempty).trans (if_pos (by omega)))⟩

theorem isTurn_process (positions : List ChunkPos) (chunkPosition : ChunkPos) (command : TibiCommand) :
    IsTurn positions air (fun state => reader.process air chunkPosition state command)
      (reader.turnCost air chunkPosition command) (reader.turnWrites air chunkPosition command) := by
  by_cases hskip : command.runtimeId = air ∨ (command.type ≠ 0 ∧ command.type ≠ 1)
  · exact isTurn_skip hskip
  · rw [not_or, not_and_or, not_not, not_not] at hskip
    obtain ⟨hair, htype | htype⟩ := hskip
    · exact isTurn_block hair htype
    · exact isTurn_fill hair htype

/-- The number of blocks that are stored for a chunk. -/
def chunkCost (reader : TibiReader) (air : RuntimeId) (chunkPosition : ChunkPos) : ℕ :=
  ((reader.replayed chunkPosition).map fun index =>
    (reader.commands[index]?.map (reader.turnCost air chunkPosition)).getD 0).sum

/-- What the replay for a chunk stores in a cell. -/
def chunkWrites (reader : TibiReader) (air : RuntimeId) (chunkPosition : ChunkPos) (pos : BlockPos) :
    Option RuntimeId :=
  lastValue (fun index => reader.commands[index]?.bind fun command =>
    reader.turnWrites air chunkPosition command pos) (reader.replayed chunkPosition)

theorem isTurn_replayChunk (positions : List ChunkPos) (chunkPosition : ChunkPos) :
    IsTurn positions air
      (fun state => reader.replayChunk air reader.buildIndex state chunkPosition)
      (reader.chunkCost air chunkPosition) (reader.chunkWrites air chunkPosition) := by
  simp only [replayChunk, merge_buildIndex]
  refine Metered.foldlM fun index hindex => ?_
  have hlt : index < reader.commands.length :=
    List.mem_range.mp (List.mem_of_mem_filter hindex)
  rw [List.getElem?_eq_getElem hlt]
  exact isTurn_process positions chunkPosition reader.commands[index]

/-- Single blocks have one corner. -/
def SingleCorners (reader : TibiReader) : Prop :=
  ∀ command ∈ reader.commands, command.type = 0 → command.second = command.first

/-- A command reaches cells of its chunks only. -/
theorem contains_of_reaches (h : reader.SingleCorners) (hcommand : command ∈ reader.commands)
    (hreaches : reader.Reaches command pos) : (reader.rangeOf command).Contains (blockToChunk pos) := by
  simp only [ChunkRange.Contains, rangeOf, blockToChunk, floorDiv64_sixteen, floorDiv_sixteen]
  rcases hreaches with ⟨htype, hfirst⟩ | ⟨-, hx, -, hz⟩
  · rw [h command hcommand htype, hfirst]
    omega
  · omega

/-- A single block has one chunk. -/
theorem eq_of_contains (h : reader.SingleCorners) (hcommand : command ∈ reader.commands)
    (htype : command.type = 0) (hcontains : (reader.rangeOf command).Contains chunkPosition) :
    blockToChunk (reader.toLocal command.first) = chunkPosition := by
  obtain ⟨x, z⟩ := chunkPosition
  simp only [ChunkRange.Contains, rangeOf, floorDiv64_sixteen, h command hcommand htype, min_self,
    max_self] at hcontains
  simp only [blockToChunk, floorDiv_sixteen, ChunkPos.mk.injEq]
  omega

/-- Every block and every box is filed or broad. -/
theorem flagOf_isSome {index : ℕ} {command : TibiCommand} (hcommand : reader.commands[index]? = some command)
    (htype : command.type = 0 ∨ command.type = 1) : (reader.flagOf index).isSome = true := by
  rw [flagOf]
  generalize reader.commands = commands at hcommand
  suffices ∀ entries, ((reader.indexedFlags entries commands)[index]?).join.isSome = true from this 0
  induction commands generalizing index with
  | nil => cases hcommand
  | cons first rest ih =>
    intro entries
    rw [indexedFlags]
    cases index with
    | zero =>
      rw [List.getElem?_cons_zero] at hcommand
      cases hcommand
      rw [if_neg (by omega)]
      split <;> rfl
    | succ index =>
      rw [List.getElem?_cons_succ] at hcommand
      split
      · exact ih hcommand entries
      · split
        · exact ih hcommand entries
        · exact ih hcommand _

/-- The replay for its own chunk leaves a cell the last command that reaches it. -/
theorem chunkWrites_self (h : reader.SingleCorners) (pos : BlockPos) :
    reader.chunkWrites air (blockToChunk pos) pos = reader.lastCommand air pos := by
  have hsame (index : ℕ) : (reader.commands[index]?.bind fun command =>
      reader.turnWrites air (blockToChunk pos) command pos) =
        reader.commands[index]?.bind (reader.writes air pos) := by
    refine congrArg reader.commands[index]?.bind (funext fun command => ?_)
    exact if_neg fun hne => hne.2 rfl
  simp only [chunkWrites, hsame]
  rw [replayed, lastValue_filter, lastValue_range, lastCommand]
  intro index hindex hdropped
  have hlt := List.mem_range.mp hindex
  rw [isReplayed, List.getElem?_eq_getElem hlt] at hdropped
  rw [List.getElem?_eq_getElem hlt, Option.bind_some]
  refine if_neg fun hwrites => ?_
  have hcommand : reader.commands[index] ∈ reader.commands := List.getElem_mem hlt
  have hcontains := contains_of_reaches h hcommand hwrites.2
  have hflag := @flagOf_isSome reader index _ (List.getElem?_eq_getElem hlt)
    (hwrites.2.imp And.left And.left)
  obtain ⟨indexed, hindexed⟩ := Option.isSome_iff_exists.mp hflag
  cases indexed <;> simp [hindexed, hcontains] at hdropped

/-- The replay for another chunk stores the single blocks of the broad list once more. -/
theorem chunkWrites_other (h : reader.SingleCorners) (hother : blockToChunk pos ≠ chunkPosition) :
    reader.chunkWrites air chunkPosition pos = reader.lastBroadBlock air pos := by
  have hbroad : ∀ index ∈ List.range reader.commands.length, reader.isReplayed chunkPosition index = false →
      reader.broadBlock air pos index = none := by
    intro index hindex hdropped
    have hlt := List.mem_range.mp hindex
    rw [isReplayed, List.getElem?_eq_getElem hlt] at hdropped
    rw [broadBlock, List.getElem?_eq_getElem hlt, Option.bind_some]
    refine if_neg fun hflag => ?_
    simp [hflag.1] at hdropped
  rw [lastBroadBlock, ← lastValue_filter hbroad, chunkWrites, replayed]
  refine lastValue_congr fun index hindex => ?_
  have hlt := List.mem_range.mp (List.mem_of_mem_filter hindex)
  have hreplayed := (List.mem_filter.mp hindex).2
  have hcommand : reader.commands[index] ∈ reader.commands := List.getElem_mem hlt
  rw [isReplayed, List.getElem?_eq_getElem hlt] at hreplayed
  rw [broadBlock, List.getElem?_eq_getElem hlt, Option.bind_some, Option.bind_some, turnWrites]
  by_cases hfill : reader.commands[index].type = 1
  · rw [if_pos ⟨hfill, hother⟩, if_neg]
    rintro ⟨-, hblock⟩
    rw [hfill] at hblock
    cases hblock
  · rw [if_neg fun hne => hfill hne.1]
    split_ifs with hflag
    · rfl
    · refine if_neg fun hwrites => ?_
      rcases hwrites.2 with ⟨hblock, hfirst⟩ | ⟨hone, -⟩
      · have hnot : reader.flagOf index ≠ some false := fun hfalse => hflag ⟨hfalse, hblock⟩
        simp only [decide_eq_true_eq, hnot, false_or] at hreplayed
        have hchunk := eq_of_contains h hcommand hblock hreplayed.2
        rw [hfirst] at hchunk
        exact hother hchunk
      · exact hfill hone

/-- A command that is kept in the broad list and stores a block stores it in its own turn as well. -/
theorem lastCommand_isSome {id : RuntimeId} (h : reader.lastBroadBlock air pos = some id) :
    (reader.lastCommand air pos).isSome = true := by
  rw [Option.isSome_iff_ne_none]
  intro hnone
  suffices reader.lastBroadBlock air pos = none by rw [this] at h; cases h
  refine lastValue_eq_none.mpr fun index hindex => ?_
  have hlt := List.mem_range.mp hindex
  rw [broadBlock, List.getElem?_eq_getElem hlt, Option.bind_some]
  split
  · exact lastValue_eq_none.mp hnone _ (List.getElem_mem hlt)
  · rfl

/-- What the replays of all chunks store in a cell: its own replay counts, and then any other. -/
theorem lastValue_chunkWrites (h : reader.SingleCorners) {pos : BlockPos} {before after : List ChunkPos}
    (hnodup : (before ++ blockToChunk pos :: after).Nodup) :
    lastValue (fun chunkPosition => reader.chunkWrites air chunkPosition pos)
      (before ++ blockToChunk pos :: after) =
        (if after = [] then none else reader.lastBroadBlock air pos).or (reader.lastCommand air pos) := by
  obtain ⟨-, hafter, hbefore⟩ := List.nodup_append.mp hnodup
  have hothers {chunks : List ChunkPos} (hnotin : blockToChunk pos ∉ chunks) :
      lastValue (fun chunkPosition => reader.chunkWrites air chunkPosition pos) chunks =
        if chunks = [] then none else reader.lastBroadBlock air pos := by
    refine lastValue_of_same fun chunkPosition hmem => chunkWrites_other h ?_
    rintro rfl
    exact hnotin hmem
  rw [lastValue_append, lastValue_cons, chunkWrites_self h,
    hothers (List.nodup_cons.mp hafter).1,
    hothers fun hmem => hbefore _ hmem _ List.mem_cons_self rfl]
  cases hlast : reader.lastCommand air pos with
  | some id => cases (if after = [] then none else reader.lastBroadBlock air pos) <;> rfl
  | none =>
    have hbroad : reader.lastBroadBlock air pos = none := by
      cases hbroad : reader.lastBroadBlock air pos with
      | none => rfl
      | some id =>
        have := lastCommand_isSome hbroad
        rw [hlast] at this
        cases this
    rw [hbroad, ite_self, ite_self]
    rfl

/-- The requested chunks before any command is replayed. -/
theorem laid_emplaceAll (positions : List ChunkPos) : Laid positions (ChunkMap.emplaceAll positions, 0) := by
  have hlookup := ChunkMap.lookup_emplaceAll positions
  constructor
  · intro key chunk hchunk
    rw [hlookup] at hchunk
    obtain ⟨-, hchunk⟩ := then_of_some hchunk
    cases hchunk; rfl
  · intro key hkey
    exact ⟨{}, (hlookup key).trans (if_pos hkey)⟩
  · intro key hkey
    exact (hlookup key).trans (if_neg hkey)

/-- The number of blocks that a request stores. -/
def materialized (reader : TibiReader) (air : RuntimeId) (positions : List ChunkPos) : ℕ :=
  ((ChunkMap.emplaceAll positions).keys.map (reader.chunkCost air)).sum

/-- A request, whatever the order in which the chunks are visited. -/
theorem isTurn_order {positions order : List ChunkPos}
    (horder : order.Perm (ChunkMap.emplaceAll positions).keys) :
    IsTurn positions air (fun state => order.foldlM (reader.replayChunk air reader.buildIndex) state)
      (reader.materialized air positions)
      fun pos => lastValue (fun chunkPosition => reader.chunkWrites air chunkPosition pos) order := by
  rw [materialized, ← (horder.map _).sum_eq]
  exact Metered.foldlM fun chunkPosition _ => isTurn_replayChunk positions chunkPosition

/-- The index is the one that the commands, the offset and the options give. -/
def Indexed (reader : TibiReader) : Prop :=
  ∀ index, reader.index = some index → index = reader.buildIndex

theorem getChunks_eq (hindex : reader.Indexed) (positions order : List ChunkPos) :
    (reader.getChunks air positions order).1 =
      (order.foldlM (reader.replayChunk air reader.buildIndex) (ChunkMap.emplaceAll positions, 0)).map
        Prod.fst := by
  have : reader.index.getD reader.buildIndex = reader.buildIndex := by
    cases h : reader.index with
    | none => rfl
    | some index => exact hindex index h
  rw [getChunks, this]

/-- A request that succeeds stays within the limit, and leaves every cell what was stored there last. -/
theorem blockAt_getChunks (hindex : reader.Indexed)
    (horder : order.Perm (ChunkMap.emplaceAll positions).keys)
    (hchunks : (reader.getChunks air positions order).1 = .ok chunks) :
    reader.materialized air positions ≤ kMaxMaterializedBlocksPerRequest ∧
      ∀ pos, chunks.blockAt air pos =
        if blockToChunk pos ∈ positions then
          some ((lastValue (fun chunkPosition => reader.chunkWrites air chunkPosition pos) order).getD air)
        else none := by
  have hturn := @isTurn_order reader air positions order horder
  rw [getChunks_eq hindex] at hchunks
  have hle : reader.materialized air positions ≤ kMaxMaterializedBlocksPerRequest := by
    by_contra hlt
    obtain ⟨error, herror⟩ := hturn.error _ (laid_emplaceAll positions) (Nat.zero_le _) (by omega)
    rw [herror] at hchunks
    cases hchunks
  obtain ⟨next, hnext, hlaid, -, hview⟩ := hturn.ok _ (laid_emplaceAll positions) (by omega)
  rw [hnext] at hchunks
  cases hchunks
  refine ⟨hle, fun pos => ?_⟩
  by_cases hpos : blockToChunk pos ∈ positions
  · rw [if_pos hpos]
    have hshown := hview ⟨pos, hpos⟩
    obtain ⟨chunk, hchunk⟩ := hlaid.requested _ hpos
    rw [shown, shown, ChunkMap.blockAt, ChunkMap.blockAt, hchunk,
      ChunkMap.lookup_emplaceAll, if_pos hpos] at hshown
    rw [ChunkMap.blockAt, hchunk]
    exact congrArg some hshown
  · rw [if_neg hpos, ChunkMap.blockAt, hlaid.others _ hpos]
    rfl

theorem exists_getChunks (hindex : reader.Indexed) (horder : order.Perm (ChunkMap.emplaceAll positions).keys)
    (hle : reader.materialized air positions ≤ kMaxMaterializedBlocksPerRequest) :
    ∃ chunks, (reader.getChunks air positions order).1 = .ok chunks := by
  obtain ⟨next, hnext, -⟩ :=
    (@isTurn_order reader air positions order horder).ok _ (laid_emplaceAll positions) (by omega)
  refine ⟨next.1, ?_⟩
  rw [getChunks_eq hindex, hnext]
  rfl

/-- The answers of a request: whatever the order in which the chunk map is iterated, each requested
cell holds the last command that is not air and reaches it. -/
def CommandReplay (reader : TibiReader) (air : RuntimeId) (positions : List ChunkPos) : Prop :=
  ∀ order, order.Perm (ChunkMap.emplaceAll positions).keys → ∀ chunks,
    (reader.getChunks air positions order).1 = .ok chunks → ∀ pos, chunks.blockAt air pos =
      if blockToChunk pos ∈ positions then some ((reader.lastCommand air pos).getD air) else none

/-- In every requested cell, the last block that the broad list stores there and the last command there
have the same id, unless no other chunk is requested or the request is too large to be answered. -/
def BroadBlocksLast (reader : TibiReader) (air : RuntimeId) (positions : List ChunkPos) : Prop :=
  reader.materialized air positions ≤ kMaxMaterializedBlocksPerRequest →
    ∀ pos, blockToChunk pos ∈ positions → (∃ other ∈ positions, other ≠ blockToChunk pos) →
      ∀ id, reader.lastBroadBlock air pos = some id → reader.lastCommand air pos = some id

theorem commandReplay_of_broadBlocksLast (hsingle : reader.SingleCorners) (hindex : reader.Indexed)
    (h : reader.BroadBlocksLast air positions) : reader.CommandReplay air positions := by
  intro order horder chunks hchunks pos
  obtain ⟨hle, hblocks⟩ := blockAt_getChunks hindex horder hchunks
  rw [hblocks]
  split_ifs with hpos
  · have hmem : blockToChunk pos ∈ order :=
      horder.mem_iff.mpr (ChunkMap.mem_keys_emplaceAll.mpr hpos)
    obtain ⟨before, after, rfl⟩ := List.append_of_mem hmem
    have hnodup := horder.nodup_iff.mpr (ChunkMap.emplaceAll positions).keys_nodup
    rw [lastValue_chunkWrites hsingle hnodup]
    cases after with
    | nil => rfl
    | cons other rest =>
      have hother : other ∈ positions :=
        ChunkMap.mem_keys_emplaceAll.mp (horder.mem_iff.mp (by simp))
      have hne : other ≠ blockToChunk pos := by
        rintro rfl
        exact (List.nodup_cons.mp (List.nodup_append.mp hnodup).2.1).1 List.mem_cons_self
      rw [if_neg (List.cons_ne_nil _ _)]
      cases hbroad : reader.lastBroadBlock air pos with
      | none => rfl
      | some id => rw [h hle pos hpos ⟨other, hother, hne⟩ id hbroad, Option.or_self]
  · rfl

theorem broadBlocksLast_of_commandReplay (hsingle : reader.SingleCorners) (hindex : reader.Indexed)
    (h : reader.CommandReplay air positions) : reader.BroadBlocksLast air positions := by
  rintro hle pos hpos ⟨other, hother, hne⟩ id hbroad
  -- The chunk of the cell is visited first, and the other chunks store the block once more.
  have hperm := List.perm_cons_erase (ChunkMap.mem_keys_emplaceAll.mpr hpos)
  have hnodup := hperm.symm.nodup_iff.mpr (ChunkMap.emplaceAll positions).keys_nodup
  have hrest : (ChunkMap.emplaceAll positions).keys.erase (blockToChunk pos) ≠ [] :=
    List.ne_nil_of_mem ((List.mem_erase_of_ne hne).mpr (ChunkMap.mem_keys_emplaceAll.mpr hother))
  obtain ⟨chunks, hchunks⟩ := exists_getChunks hindex hperm.symm hle
  have hstored := (blockAt_getChunks hindex hperm.symm hchunks).2 pos
  have hwrites := @lastValue_chunkWrites reader air hsingle pos [] _ hnodup
  rw [List.nil_append, if_neg hrest, hbroad, Option.some_or] at hwrites
  rw [h _ hperm.symm chunks hchunks, if_pos hpos, if_pos hpos, Option.some.injEq, hwrites,
    Option.getD_some] at hstored
  obtain ⟨last, hlast⟩ := Option.isSome_iff_exists.mp (lastCommand_isSome hbroad)
  rw [hlast, Option.getD_some] at hstored
  rw [hlast, hstored]

/-- The index does not depend on whether it has been built. -/
theorem buildIndex_index (index : Option CommandIndex) :
    ({ reader with index } : TibiReader).buildIndex = reader.buildIndex := by
  have hflags (entries : ℕ) (commands : List TibiCommand) :
      ({ reader with index } : TibiReader).indexedFlags entries commands =
        reader.indexedFlags entries commands := by
    induction commands generalizing entries with
    | nil => rfl
    | cons command rest ih =>
      simp only [indexedFlags, ih]
      rfl
  have hflag (i : ℕ) : ({ reader with index } : TibiReader).flagOf i = reader.flagOf i := by
    rw [flagOf, flagOf, hflags]
  simp only [buildIndex, chunkEntries, hflag]
  rfl

/-- A reader that has read a file, and has been given offsets, options and requests since. -/
inductive Opened (air : RuntimeId) : TibiReader → Prop
  | read {reader next : TibiReader} {raw : List RawCommand} :
    reader.read raw = .ok next → Opened air next
  | setOffset {reader : TibiReader} (offset : BlockPos) :
    Opened air reader → Opened air (reader.setOffset offset)
  | setStreamingOptions {reader : TibiReader} (softMemoryBudgetBytes : ℕ) :
    Opened air reader → Opened air (reader.setStreamingOptions softMemoryBudgetBytes)
  | getChunks {reader : TibiReader} (positions order : List ChunkPos) :
    Opened air reader → Opened air (reader.getChunks air positions order).2

theorem second_of_readCommand {commandIndex : ℕ} {raw : RawCommand}
    (h : readCommand commandIndex raw = .ok command) (htype : command.type = 0) :
    command.second = command.first := by
  rw [readCommand] at h
  obtain ⟨x, -, h⟩ := exists_of_bind_ok h
  obtain ⟨y, -, h⟩ := exists_of_bind_ok h
  obtain ⟨z, -, h⟩ := exists_of_bind_ok h
  split_ifs at h with hbox
  · obtain ⟨dx, -, h⟩ := exists_of_bind_ok h
    obtain ⟨dy, -, h⟩ := exists_of_bind_ok h
    obtain ⟨dz, -, h⟩ := exists_of_bind_ok h
    cases h
    rw [hbox] at htype
    cases htype
  · cases h
    rfl

theorem read_ok {next : TibiReader} {raw : List RawCommand} (h : reader.read raw = .ok next) :
    next.SingleCorners ∧ next.index = none := by
  rw [read] at h
  cases hcommands : reader.readCommands raw with
  | error error =>
    rw [hcommands] at h
    cases h
  | ok result =>
    rw [hcommands] at h
    cases h
    rw [readCommands] at hcommands
    split at hcommands
    · cases hcommands
    split at hcommands
    · cases hcommands
    obtain ⟨commands, hmap, hcommands⟩ := exists_of_bind_ok hcommands
    change ite _ _ _ = _ at hcommands
    split at hcommands
    · cases hcommands
    obtain ⟨width, -, hcommands⟩ := exists_of_bind_ok hcommands
    obtain ⟨height, -, hcommands⟩ := exists_of_bind_ok hcommands
    obtain ⟨length, -, hcommands⟩ := exists_of_bind_ok hcommands
    cases hcommands
    refine ⟨fun command hcommand htype => ?_, rfl⟩
    have hall := forall₂_of_mapM_ok hmap
    obtain ⟨i, hi, rfl⟩ := List.getElem_of_mem hcommand
    exact second_of_readCommand (hall.get (hall.length_eq ▸ hi) hi) htype

/-- What a reader keeps after the file has been read. -/
theorem Opened.kept (h : Opened air reader) : reader.SingleCorners ∧ reader.Indexed := by
  induction h with
  | read hread =>
    obtain ⟨hsingle, hnone⟩ := read_ok hread
    exact ⟨hsingle, fun index hindex => nomatch hnone.symm.trans hindex⟩
  | setOffset offset _ ih => exact ⟨ih.1, fun index hindex => nomatch hindex⟩
  | setStreamingOptions softMemoryBudgetBytes _ ih => exact ⟨ih.1, fun index hindex => nomatch hindex⟩
  | @getChunks reader positions order _ ih =>
    refine ⟨ih.1, fun index hindex => ?_⟩
    cases hindex
    refine Eq.trans ?_ (buildIndex_index _).symm
    cases hold : reader.index with
    | none => rfl
    | some old => exact ih.2 old hold

/-- A request gives the last commands, on every iteration order, exactly if no block of the broad list
that is stored again for another chunk comes back over a different id. -/
theorem commandReplay_iff (h : Opened air reader) (positions : List ChunkPos) :
    reader.CommandReplay air positions ↔ reader.BroadBlocksLast air positions :=
  ⟨broadBlocksLast_of_commandReplay h.kept.1 h.kept.2,
    commandReplay_of_broadBlocksLast h.kept.1 h.kept.2⟩

/-- A block and a fill over it, with both chunks of the fill requested. -/
theorem commandReplay_iff_fill :
    let reader : TibiReader :=
      { commands := [⟨0, 2, ⟨0, 0, 0⟩, ⟨0, 0, 0⟩⟩, ⟨1, 3, ⟨0, 0, 0⟩, ⟨16, 0, 0⟩⟩]
        originalSize := ⟨17, 1, 1⟩
        size := ⟨17, 1, 1⟩ }
    ({} : TibiReader).read [⟨0, 2, (0, 0, 0), (0, 0, 0)⟩, ⟨1, 3, (0, 0, 0), (16, 0, 0)⟩] = .ok reader ∧
      (reader.CommandReplay 0 [⟨0, 0⟩, ⟨1, 0⟩] ↔ reader.BroadBlocksLast 0 [⟨0, 0⟩, ⟨1, 0⟩]) := by
  intro reader
  have hread : ({} : TibiReader).read
      [⟨0, 2, (0, 0, 0), (0, 0, 0)⟩, ⟨1, 3, (0, 0, 0), (16, 0, 0)⟩] = .ok reader := rfl
  exact ⟨hread, commandReplay_iff (.read hread) _⟩

/-- Two fills with air take all of the smallest index. The block at the origin is then in the broad
list, and is stored again over the fill that follows it when the second chunk is replayed. -/
theorem not_commandReplay :
    let reader : TibiReader :=
      { commands := [⟨1, 0, ⟨0, 0, 0⟩, ⟨1023, 0, 1023⟩⟩, ⟨1, 0, ⟨0, 0, 0⟩, ⟨1023, 0, 1023⟩⟩,
          ⟨0, 2, ⟨0, 0, 0⟩, ⟨0, 0, 0⟩⟩, ⟨1, 3, ⟨0, 0, 0⟩, ⟨0, 0, 0⟩⟩]
        originalSize := ⟨1024, 1, 1024⟩
        size := ⟨1024, 1, 1024⟩
        softMemoryBudgetBytes := 524288 }
    (({} : TibiReader).setStreamingOptions 524288).read
        [⟨1, 0, (0, 0, 0), (1023, 0, 1023)⟩, ⟨1, 0, (0, 0, 0), (1023, 0, 1023)⟩,
          ⟨0, 2, (0, 0, 0), (0, 0, 0)⟩, ⟨1, 3, (0, 0, 0), (0, 0, 0)⟩] = .ok reader ∧
      ¬ reader.CommandReplay 0 [⟨0, 0⟩, ⟨1, 0⟩] := by
  intro reader
  have hread : (({} : TibiReader).setStreamingOptions 524288).read
      [⟨1, 0, (0, 0, 0), (1023, 0, 1023)⟩, ⟨1, 0, (0, 0, 0), (1023, 0, 1023)⟩,
        ⟨0, 2, (0, 0, 0), (0, 0, 0)⟩, ⟨1, 3, (0, 0, 0), (0, 0, 0)⟩] = .ok reader := rfl
  refine ⟨hread, fun h => ?_⟩
  have hlast := broadBlocksLast_of_commandReplay (read_ok hread).1 (fun index hindex => nomatch hindex) h
    (by decide +kernel) ⟨0, 0, 0⟩ (by decide) ⟨⟨1, 0⟩, by decide, by decide⟩ 2 (by decide +kernel)
  have hother : reader.lastCommand 0 ⟨0, 0, 0⟩ ≠ some 2 := by decide +kernel
  exact hother hlast

end WaterStructure.TibiReader
