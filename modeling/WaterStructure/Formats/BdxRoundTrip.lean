import WaterStructure.Formats.BdxCursor
import WaterStructure.Formats.BdxWriterCells

/-!
# Reading what the BDX writer has written

The constants that the reader has collected are those of the states in the palette of the writer, so the
two numbers behind a placement stand for the name and the properties of its state, and the caches of the
reader only have what such numbers stand for. The reader then finds exactly the blocks of the structure,
each of them once.
-/

namespace WaterStructure.Bdx

open ByteReader NestedLoop

section Constants

variable {reader : MappingRegistry}

/-- Two numbers are those of constants that give a runtime id. -/
def Tables.Gives (reader : MappingRegistry) (tables : Tables) (key : ℕ × ℕ) (runtime : RuntimeId) :
    Prop :=
  ∃ name states, tables.constants[key.1]? = some name ∧ tables.constants[key.2]? = some states ∧
    stateRuntime reader name states = .ok runtime

variable {tables : Tables} {key : ℕ × ℕ} {runtime : RuntimeId}

theorem Tables.Gives.unique {other : RuntimeId} (h : tables.Gives reader key runtime)
    (h' : tables.Gives reader key other) : runtime = other := by
  obtain ⟨name, states, hname, hstates, hruntime⟩ := h
  obtain ⟨name', states', hname', hstates', hruntime'⟩ := h'
  cases hname.symm.trans hname'
  cases hstates.symm.trans hstates'
  exact Except.ok.inj (hruntime.symm.trans hruntime')

/-- The caches only have what the constants give. -/
structure Tables.Sound (reader : MappingRegistry) (tables : Tables) : Prop where
  direct : ∀ slot key runtime, tables.stateDirect slot = some (key, runtime) →
    tables.Gives reader key runtime
  cached : ∀ key runtime, tables.stateRuntimeCache.lookup key = some runtime →
    tables.Gives reader key runtime

theorem Tables.sound_empty : Tables.Sound reader {} where
  direct _ _ _ h := nomatch h
  cached _ _ h := by
    rw [AList.lookup_empty] at h
    cases h

theorem Tables.Sound.gives_cachedState (h : tables.Sound reader)
    (hcached : tables.cachedState key = some runtime) : tables.Gives reader key runtime := by
  rw [cachedState] at hcached
  split at hcached
  case h_1 other found hdirect =>
    split_ifs at hcached with hkey
    · subst hkey
      cases hcached
      exact h.direct _ _ _ hdirect
    · exact h.cached _ _ hcached
  case h_2 => exact h.cached _ _ hcached

theorem Tables.Sound.keepDirect (h : tables.Sound reader) (hgives : tables.Gives reader key runtime) :
    (tables.keepDirect key runtime).Sound reader where
  direct slot other found hfound := by
    rw [Tables.keepDirect] at hfound
    dsimp only at hfound
    rw [Function.update_apply] at hfound
    split at hfound
    · cases hfound
      exact hgives
    · exact h.direct _ _ _ hfound
  cached := h.cached

theorem Tables.Sound.keepState (h : tables.Sound reader) (hgives : tables.Gives reader key runtime) :
    (tables.keepState key runtime).Sound reader where
  direct := h.direct
  cached other found hfound := by
    rw [Tables.keepState] at hfound
    dsimp only at hfound
    split at hfound
    · rw [AssocMap.lookup_insert_eq] at hfound
      split_ifs at hfound with hkey
      · cases hfound
        exact hkey ▸ hgives
      · exact h.cached _ _ hfound
    · exact h.cached _ _ hfound

/-- The reader finds the id that two constants give, in its caches or without them. -/
theorem Tables.Sound.constantStateRuntime (h : tables.Sound reader) {name states : ℕ}
    (hgives : tables.Gives reader (name, states) runtime) :
    ∃ next, tables.constantStateRuntime reader name states = .ok (runtime, next) ∧ next.Sound reader ∧
      next.constants = tables.constants ∧ next.constantBytes = tables.constantBytes := by
  rw [Tables.constantStateRuntime]
  split
  case h_1 found hcached =>
    cases (h.gives_cachedState hcached).unique hgives
    exact ⟨_, rfl, h.keepDirect hgives, rfl, rfl⟩
  case h_2 =>
    obtain ⟨text, encoded, htext, hencoded, hruntime⟩ := id hgives
    refine ⟨(tables.keepState (name, states) runtime).keepDirect (name, states) runtime, ?_,
      (h.keepState hgives).keepDirect hgives, rfl, rfl⟩
    dsimp only at htext hencoded
    rw [hencoded]
    dsimp only
    rw [resolveStateRuntime, htext]
    dsimp only
    rw [hruntime]
    rfl

/-- More constants do not change what the first ones give. -/
theorem Tables.Sound.addConstant (h : tables.Sound reader) (value : List Char) (count : ℕ) : Tables.Sound reader
      { tables with constants := tables.constants ++ [value], constantBytes := count } := by
  have hgives {key : ℕ × ℕ} {runtime : RuntimeId} (hgives : tables.Gives reader key runtime) :
      Tables.Gives reader { tables with constants := tables.constants ++ [value], constantBytes := count }
        key runtime := by
    obtain ⟨name, states, hname, hstates, hruntime⟩ := hgives
    refine ⟨name, states, ?_, ?_, hruntime⟩
    · rw [List.getElem?_append_left (List.getElem?_eq_some_iff.mp hname).1, hname]
    · rw [List.getElem?_append_left (List.getElem?_eq_some_iff.mp hstates).1, hstates]
  exact ⟨fun _ _ _ hdirect => hgives (h.direct _ _ _ hdirect), fun _ _ hcached => hgives (h.cached _ _ hcached)⟩

end Constants

section Segments

variable {readBlockNbt : Reader Unit} {reader : MappingRegistry} {low high : BlockPos}

/-- Bytes of the stream: what the reader does with them, starting with some tables and at some position,
and what they place. -/
def Segment (readBlockNbt : Reader Unit) (reader : MappingRegistry) (low high : BlockPos)
    (start : Tables × BlockPos) (bytes : Input) (placed : List (BlockPos × RuntimeId))
    (stop : Tables × BlockPos) : Prop :=
  ∃ commands, Encodes readBlockNbt reader start.1 bytes commands stop.1 ∧
    Visits (Inside low high) start.2 commands ∧ cursorAfter start.2 commands = stop.2 ∧
    placementsFrom start.2 commands = placed

theorem Segment.nil (start : Tables × BlockPos) :
    Segment readBlockNbt reader low high start [] [] start :=
  ⟨[], .nil _, trivial, rfl, rfl⟩

theorem Segment.append {start middle stop : Tables × BlockPos} {first second : Input}
    {placed more : List (BlockPos × RuntimeId)}
    (h : Segment readBlockNbt reader low high start first placed middle)
    (h' : Segment readBlockNbt reader low high middle second more stop) :
    Segment readBlockNbt reader low high start (first ++ second) (placed ++ more) stop := by
  obtain ⟨commands, hencodes, hvisits, hcursor, hplaced⟩ := h
  obtain ⟨others, hencodes', hvisits', hcursor', hplaced'⟩ := h'
  refine ⟨commands ++ others, hencodes.append hencodes', visits_append.mpr ⟨hvisits, ?_⟩, ?_, ?_⟩
  · rwa [hcursor]
  · rw [cursorAfter_append, hcursor, hcursor']
  · rw [placementsFrom_append hvisits, hcursor, hplaced, hplaced']

theorem placementsFrom_silent {allowed : BlockPos → Prop} {pos : BlockPos} {commands : List Command}
    (hvisits : Visits allowed pos commands) (h : ∀ command ∈ commands, command.placed = none) :
    placementsFrom pos commands = [] := by
  induction commands generalizing pos with
  | nil => rfl
  | cons command rest ih =>
    have hterminate : command ≠ .terminate := fun heq => (heq ▸ hvisits.1 : Command.Succeeds .terminate)
    rw [placementsFrom_cons hterminate, h command List.mem_cons_self,
      ih hvisits.2.2 fun other hother => h other (List.mem_cons_of_mem command hother)]
    rfl

/-- Moving the cursor. -/
theorem segment_appendMove {tables : Tables} {cursor target : BlockPos} (hcursor : Inside low high cursor)
    (htarget : Inside low high target) :
    Segment readBlockNbt reader low high (tables, cursor) (appendMove cursor target) [] (tables, target) := by
  obtain ⟨commands, hencodes, hsilent, hafter, hvisits⟩ :=
    @reaches_appendMove readBlockNbt reader cursor target
  have hbox := hvisits low high hcursor htarget
  exact ⟨commands, hencodes tables, hbox, hafter, placementsFrom_silent hbox hsilent⟩

/-- One command that does not move the cursor. -/
theorem segment_single {tables tables' : Tables} {pos : BlockPos} {id : UInt8} {operands : Input}
    {command : Command} (h : Reads (readCommand readBlockNbt reader tables id.toNat) operands (command, tables'))
    (hsucceeds : command.Succeeds) (hdelta : command.delta = ⟨0, 0, 0⟩) (hpos : Inside low high pos) :
    Segment readBlockNbt reader low high (tables, pos) (id :: operands)
      (command.placed.toList.map fun runtime => (pos, runtime)) (tables', pos) := by
  have hterminate : command ≠ .terminate := fun heq => (heq ▸ hsucceeds : Command.Succeeds .terminate)
  have hstays : pos.add command.delta = pos := by rw [hdelta, DecodeState.add_zero]
  refine ⟨[command], .single h hterminate, ⟨hsucceeds, ?_, trivial⟩, hstays, ?_⟩
  · dsimp only
    rwa [hstays]
  · rw [placementsFrom_cons hterminate, placementsFrom, List.append_nil]

/-- Defining a constant. -/
theorem segment_appendConstant {tables : Tables} {pos : BlockPos} {value : List Char}
    (hvalue : NonzeroBytes value) (hlength : value.length ≤ kMaximumConstantStringBytes)
    (hcount : tables.constants.length < kMaximumConstants)
    (htotal : tables.constantBytes + value.length ≤ kMaximumConstantBytes) (hpos : Inside low high pos) :
    Segment readBlockNbt reader low high (tables, pos) (appendConstant value) []
      ({ tables with
          constants := tables.constants ++ [value]
          constantBytes := tables.constantBytes + value.length }, pos) := by
  refine @segment_single readBlockNbt reader low high tables _ pos 1 _ (.metadata (.ok ())) ?_ rfl rfl hpos
  refine Reads.failIf (decide_eq_false (Nat.not_le.mpr hcount)) ?_
  rw [← List.append_nil (textBytes value ++ [0])]
  refine (reads_cstring _ hvalue hlength).bind (Reads.failIf (decide_eq_false ?_) (.pure _))
  omega

/-- Placing the block of two constants. -/
theorem segment_appendPlacement {tables : Tables} (h : tables.Sound reader) {pos : BlockPos} {index : ℕ}
    {runtime : RuntimeId} (hindex : index < kMaximumPalette)
    (hgives : tables.Gives reader (index * 2, index * 2 + 1) runtime) (hpos : Inside low high pos) :
    ∃ next, Segment readBlockNbt reader low high (tables, pos) (appendPlacement index) [(pos, runtime)]
        (next, pos) ∧
      next.Sound reader ∧ next.constants = tables.constants ∧ next.constantBytes = tables.constantBytes := by
  obtain ⟨next, hruntime, hsound, hconstants, hbytes⟩ := h.constantStateRuntime hgives
  refine ⟨next, ?_, hsound, hconstants, hbytes⟩
  have hlimit : kMaximumPalette = 32768 := rfl
  have hname := @reads_u16 "block constant id" ((index * 2 : ℕ) : ℤ)
  have hstates := @reads_u16 "states constant id" ((index * 2 + 1 : ℕ) : ℤ)
  have hfirst : (((index * 2 : ℕ) : ℤ) % 65536).toNat = index * 2 := by omega
  have hsecond : (((index * 2 + 1 : ℕ) : ℤ) % 65536).toNat = index * 2 + 1 := by omega
  rw [hfirst] at hname
  rw [hsecond] at hstates
  have hstate : Reads (readConstantState reader tables)
      (be16 ((index * 2 : ℕ) : ℤ) ++ (be16 ((index * 2 + 1 : ℕ) : ℤ) ++ [])) (runtime, next) := by
    refine hname.bind (hstates.bind fun rest => ?_)
    rw [lift, hruntime]
    rfl
  rw [List.append_nil] at hstate
  exact @segment_single readBlockNbt reader low high tables _ pos 5 _ (.placeConstant (.ok runtime))
    hstate.map ⟨runtime, rfl⟩ rfl hpos

end Segments

section Palette

/-- The constants of a runtime id. -/
def stateConstants (registry : RuntimeRegistry) (id : RuntimeId) : List (List Char) :=
  [(writtenState registry id).name, stateString (writtenState registry id)]

/-- The size of the constants of a runtime id. -/
def constantBytesOf (registry : RuntimeRegistry) (id : RuntimeId) : ℕ :=
  (writtenState registry id).name.length + (stateString (writtenState registry id)).length

/-- The id that a reader finds for the constants of a runtime id. -/
def ReadsAs (registry : RuntimeRegistry) (reader : MappingRegistry) (id runtime : RuntimeId) : Prop :=
  stateRuntime reader (writtenState registry id).name (stateString (writtenState registry id)) =
    .ok runtime

/-- The constants of the ids are texts without null bytes within the limits of the reader, one by one and
together, and the reader can read the properties. -/
structure Readable (registry : RuntimeRegistry) (used : RuntimeId → Prop) : Prop where
  nonzero : ∀ id, used id → ∀ text ∈ stateConstants registry id, NonzeroBytes text
  length_le : ∀ id, used id → ∀ text ∈ stateConstants registry id,
    text.length ≤ kMaximumConstantStringBytes
  total_le : ∀ ids : List RuntimeId, ids.Nodup → (∀ id ∈ ids, used id) →
    (ids.map (constantBytesOf registry)).sum ≤ kMaximumConstantBytes
  properties : ∀ id, used id →
    ∃ properties, parseBlockStates (stateString (writtenState registry id)) = .ok properties

variable {id : RuntimeId} {tables : Tables}

theorem Readable.readsAs {registry : RuntimeRegistry} {used : RuntimeId → Prop} (h : Readable registry used)
    (reader : MappingRegistry) (hid : used id) : ∃ runtime, ReadsAs registry reader id runtime := by
  obtain ⟨properties, hproperties⟩ := h.properties id hid
  exact ⟨_, by rw [ReadsAs, stateRuntime, hproperties]; rfl⟩

/-- The reader has the constants of a palette. -/
structure Tables.Knows (registry : RuntimeRegistry) (reader : MappingRegistry) (tables : Tables)
    (palette : List RuntimeId) : Prop where
  sound : tables.Sound reader
  constants : tables.constants = palette.flatMap (stateConstants registry)
  bytes : tables.constantBytes = (palette.map (constantBytesOf registry)).sum

variable {registry : RuntimeRegistry} {reader : MappingRegistry} {used : RuntimeId → Prop}
  {palette : List RuntimeId} {runtime : RuntimeId} {s t : WriterState} {placed : List RuntimeId}
  {pos : BlockPos}

theorem Tables.Knows.length_constants (h : tables.Knows registry reader palette) :
    tables.constants.length = palette.length * 2 := by
  rw [h.constants]
  exact length_flatMap_uniform fun _ _ => rfl

/-- The constants of an id are at the places that belong to its index. -/
theorem Tables.Knows.gives (h : tables.Knows registry reader palette) {index : ℕ}
    (hindex : palette[index]? = some id) (hruntime : ReadsAs registry reader id runtime) :
    tables.Gives reader (index * 2, index * 2 + 1) runtime := by
  have hconstant (j : ℕ) (hj : j < 2) : tables.constants[index * 2 + j]? = (stateConstants registry id)[j]? := by
    rw [h.constants, @getElem?_flatMap_uniform _ _ palette (stateConstants registry) 2 (fun _ _ => rfl)
      index j hj, hindex]
    rfl
  exact ⟨_, _, hconstant 0 (by decide), hconstant 1 (by decide), hruntime⟩

variable {readBlockNbt : Reader Unit} {low high : BlockPos}

/-- The constants of a new id. -/
theorem Tables.Knows.appendState {tables : Tables} {palette : List RuntimeId}
    (h : tables.Knows registry reader palette) (hreadable : Readable registry used) {id : RuntimeId}
    {pos : BlockPos} (hid : used id) (hused : ∀ other ∈ palette, used other)
    (hnodup : (palette ++ [id]).Nodup) (hroom : palette.length < kMaximumPalette)
    (hpos : Inside low high pos) :
    ∃ next : Tables, Segment readBlockNbt reader low high (tables, pos) (appendState registry id) []
        (next, pos) ∧
      next.Knows registry reader (palette ++ [id]) := by
  have hlength := h.length_constants
  have hlimit : kMaximumPalette = 32768 := rfl
  have hconstants : kMaximumConstants = 65536 := rfl
  have htotal := hreadable.total_le (palette ++ [id]) hnodup fun other hother => by
    rcases List.mem_append.mp hother with hold | hnew
    · exact hused other hold
    · exact List.mem_singleton.mp hnew ▸ hid
  rw [List.map_append, List.sum_append, ← h.bytes, List.map_singleton, List.sum_singleton,
    constantBytesOf] at htotal
  have hname : (writtenState registry id).name ∈ stateConstants registry id := List.mem_cons_self
  have hstates : stateString (writtenState registry id) ∈ stateConstants registry id :=
    List.mem_cons_of_mem _ List.mem_cons_self
  have hfirst := @segment_appendConstant readBlockNbt reader low high tables pos _
    (hreadable.nonzero id hid _ hname) (hreadable.length_le id hid _ hname) (by omega) (by omega) hpos
  have hsecond := @segment_appendConstant readBlockNbt reader low high
    { tables with
      constants := tables.constants ++ [(writtenState registry id).name]
      constantBytes := tables.constantBytes + (writtenState registry id).name.length } pos _
    (hreadable.nonzero id hid _ hstates) (hreadable.length_le id hid _ hstates)
    (by dsimp only; rw [List.length_append, List.length_singleton]; omega) (by dsimp only; omega) hpos
  refine ⟨_, hfirst.append hsecond, (h.sound.addConstant _ _).addConstant _ _, ?_, ?_⟩
  · dsimp only
    rw [h.constants, List.flatMap_append, List.flatMap_singleton, List.append_assoc]
    rfl
  · dsimp only
    rw [List.map_append, List.sum_append, ← h.bytes, List.map_singleton, List.sum_singleton,
      constantBytesOf, Nat.add_assoc]

/-- The palette of a writer that has placed some blocks, which have been read as others. -/
structure PaletteOf (used : RuntimeId → Prop) (palette placed : List RuntimeId) : Prop where
  nodup : palette.Nodup
  length_le : palette.length ≤ kMaximumPalette
  mem_iff : ∀ id, id ∈ palette ↔ id ∈ placed
  used : ∀ id ∈ palette, used id

/-- Placing a block adds its id to the palette if it is new. -/
theorem PaletteOf.placeBlock (h : PaletteOf used s.palette placed) (hid : used id)
    (hplace : placeBlock registry s id pos = .ok t) : PaletteOf used t.palette (placed ++ [id]) := by
  rw [Bdx.placeBlock] at hplace
  split at hplace
  case h_1 index hindex =>
    cases hplace
    have hmem : id ∈ s.palette := List.isSome_idxOf?.mp (by rw [hindex]; rfl)
    refine ⟨h.nodup, h.length_le, fun other => ?_, h.used⟩
    rw [List.mem_append, List.mem_singleton, ← h.mem_iff]
    exact ⟨.inl, fun hother => hother.elim (fun hold => hold) fun hsame => hsame ▸ hmem⟩
  case h_2 hnew =>
    obtain ⟨hroom, hplace⟩ := else_of_ok hplace
    cases hplace
    rw [List.idxOf?_eq_none_iff] at hnew
    refine ⟨List.nodup_append_comm.mp (List.nodup_cons.mpr ⟨hnew, h.nodup⟩), ?_, fun other => ?_,
      fun other hother => ?_⟩
    · rw [List.length_append, List.length_singleton]
      omega
    · rw [List.mem_append, List.mem_append, h.mem_iff]
    · rcases List.mem_append.mp hother with hold | hadded
      · exact h.used other hold
      · exact List.mem_singleton.mp hadded ▸ hid

/-- What the writer appends for a block places what the reader finds for it. -/
theorem segment_placeBlock (hpalette : PaletteOf used s.palette placed)
    (hknows : tables.Knows registry reader s.palette) (hreadable : Readable registry used) (hid : used id)
    (hruntime : ReadsAs registry reader id runtime) (hcursor : Inside low high s.cursor)
    (hpos : Inside low high pos) (hplace : placeBlock registry s id pos = .ok t) :
    ∃ bytes next, t.output = s.output ++ bytes ∧ t.cursor = pos ∧ next.Knows registry reader t.palette ∧
      Segment readBlockNbt reader low high (tables, s.cursor) bytes [(pos, runtime)] (next, pos) := by
  have hmove := @segment_appendMove readBlockNbt reader low high tables _ _ hcursor hpos
  rw [Bdx.placeBlock] at hplace
  split at hplace
  case h_1 index hindex =>
    cases hplace
    obtain ⟨hlt, hfound, -⟩ := List.idxOf?_eq_some_iff.mp hindex
    have hgives := hknows.gives (List.getElem?_eq_some_iff.mpr ⟨hlt, hfound⟩) hruntime
    obtain ⟨next, hsegment, hsound, hconstants, hbytes⟩ := @segment_appendPlacement readBlockNbt reader low high
      tables hknows.sound pos index runtime (Nat.lt_of_lt_of_le hlt hpalette.length_le) hgives hpos
    exact ⟨_, next, List.append_assoc _ _ _, rfl,
      ⟨hsound, hconstants.trans hknows.constants, hbytes.trans hknows.bytes⟩, hmove.append hsegment⟩
  case h_2 hnew =>
    obtain ⟨hroom, hplace⟩ := else_of_ok hplace
    cases hplace
    rw [List.idxOf?_eq_none_iff] at hnew
    have hnodup : (s.palette ++ [id]).Nodup :=
      List.nodup_append_comm.mp (List.nodup_cons.mpr ⟨hnew, hpalette.nodup⟩)
    obtain ⟨defined, hstate, hdefined⟩ := @Tables.Knows.appendState registry reader used readBlockNbt low
      high tables s.palette hknows hreadable id pos hid hpalette.used hnodup (Nat.not_le.mp hroom) hpos
    have hgives := hdefined.gives List.getElem?_concat_length hruntime
    obtain ⟨next, hsegment, hsound, hconstants, hbytes⟩ := @segment_appendPlacement readBlockNbt reader
      low high defined hdefined.sound pos s.palette.length runtime (Nat.not_le.mp hroom) hgives hpos
    refine ⟨_, next, ?_, rfl,
      ⟨hsound, hconstants.trans hdefined.constants, hbytes.trans hdefined.bytes⟩,
      hmove.append (hstate.append hsegment)⟩
    simp only [List.append_assoc]

end Palette

section Runs

variable {registry : RuntimeRegistry} {reader : MappingRegistry} {readBlockNbt : Reader Unit}
  {used : RuntimeId → Prop} {content : BlockPos → RuntimeId} {high : BlockPos}

/-- The cells with blocks. -/
def blockCells (air : RuntimeId) (content : BlockPos → RuntimeId) (cells : List BlockPos) : List BlockPos :=
  cells.filter fun pos => content pos ≠ air

theorem blockCells_concat (air : RuntimeId) (cells : List BlockPos) (pos : BlockPos) :
    blockCells air content (cells ++ [pos]) =
      blockCells air content cells ++ if content pos ≠ air then [pos] else [] := by
  rw [blockCells, blockCells, List.filter_append]
  by_cases hpos : content pos = air <;> simp [hpos]

/-- What has been written is read as these blocks. -/
structure Emitted (registry : RuntimeRegistry) (reader : MappingRegistry) (readBlockNbt : Reader Unit)
    (used : RuntimeId → Prop) (high : BlockPos) (s : WriterState) (ids : List RuntimeId)
    (placed : List (BlockPos × RuntimeId)) : Prop where
  palette : PaletteOf used s.palette ids
  cursor : Inside ⟨0, 0, 0⟩ high s.cursor
  stream : ∃ body tables, s.output = headerBytes ++ body ∧ tables.Knows registry reader s.palette ∧
    Segment readBlockNbt reader ⟨0, 0, 0⟩ high ({}, ⟨0, 0, 0⟩) body placed (tables, s.cursor)

theorem PaletteOf.nil : PaletteOf used [] [] :=
  ⟨List.nodup_nil, Nat.zero_le _, fun _ => Iff.rfl, nofun⟩

theorem emitted_start (hhigh : Inside ⟨0, 0, 0⟩ high ⟨0, 0, 0⟩) :
    Emitted registry reader readBlockNbt used high ⟨headerBytes, ⟨0, 0, 0⟩, []⟩ [] [] :=
  ⟨.nil, hhigh, [], {}, rfl, ⟨Tables.sound_empty, rfl, rfl⟩, .nil _⟩

variable {s t : WriterState} {ids : List RuntimeId} {pos : BlockPos} {stream : Input}

theorem Emitted.placeBlock {placed : List (BlockPos × RuntimeId)} {id runtime : RuntimeId}
    (h : Emitted registry reader readBlockNbt used high s ids placed) (hreadable : Readable registry used)
    (hid : used id) (hruntime : ReadsAs registry reader id runtime) (hpos : Inside ⟨0, 0, 0⟩ high pos)
    (hplace : placeBlock registry s id pos = .ok t) :
    Emitted registry reader readBlockNbt used high t (ids ++ [id]) (placed ++ [(pos, runtime)]) := by
  obtain ⟨body, tables, houtput, hknows, hsegment⟩ := h.stream
  obtain ⟨bytes, next, hbytes, hcursor, hnext, hplaced⟩ :=
    segment_placeBlock h.palette hknows hreadable hid hruntime h.cursor hpos hplace
  refine ⟨h.palette.placeBlock hid hplace, hcursor ▸ hpos, body ++ bytes, next, ?_, hnext, ?_⟩
  · rw [hbytes, houtput, List.append_assoc]
  · rw [hcursor]
    exact hsegment.append hplaced

theorem Emitted.writeId {cells : List BlockPos} {reads : RuntimeId → RuntimeId}
    (h : Emitted registry reader readBlockNbt used high s
      ((blockCells registry.airRuntimeId content cells).map content)
      ((blockCells registry.airRuntimeId content cells).map fun pos => (pos, reads (content pos))))
    (hreadable : Readable registry used) (hreads : ∀ id, used id → ReadsAs registry reader id (reads id))
    (hid : content pos ≠ registry.airRuntimeId → used (content pos)) (hpos : Inside ⟨0, 0, 0⟩ high pos)
    (hwrite : writeId registry content s pos = .ok t) :
    Emitted registry reader readBlockNbt used high t
      ((blockCells registry.airRuntimeId content (cells ++ [pos])).map content)
      ((blockCells registry.airRuntimeId content (cells ++ [pos])).map fun pos =>
        (pos, reads (content pos))) := by
  rw [blockCells_concat, List.map_append, List.map_append]
  rw [Bdx.writeId] at hwrite
  split_ifs at hwrite with hair
  · cases hwrite
    rw [if_neg (not_not_intro hair), List.map_nil, List.map_nil, List.append_nil, List.append_nil]
    exact h
  · rw [if_pos hair]
    exact h.placeBlock hreadable (hid hair) (hreads _ (hid hair)) hpos hwrite

/-- The header is read. -/
theorem reads_header : Reads readHeader headerBytes () := fun _ => rfl

/-- The whole stream is read as what its part behind the header places. -/
theorem interpret_of_segment {window : ℕ → ℕ} {body : Input} {placed : List (BlockPos × RuntimeId)}
    {stop : Tables × BlockPos} (hfits : high.FitsInt32)
    (hhigh : Inside ⟨0, 0, 0⟩ high ⟨0, 0, 0⟩) (hspan : high.x < int32Max ∧ high.y < int32Max ∧ high.z < int32Max)
    (h : Segment readBlockNbt reader ⟨0, 0, 0⟩ high ({}, ⟨0, 0, 0⟩) body placed stop) :
    ∃ state size, interpret readBlockNbt reader window (headerBytes ++ body ++ [88]) = .ok (state, size) ∧
      state.placements = placed := by
  obtain ⟨commands, hencodes, hvisits, -, hplaced⟩ := h
  have hlow : BlockPos.FitsInt32 ⟨0, 0, 0⟩ := by decide
  have hread : readCommands readBlockNbt reader (body ++ [88]).length {} (body ++ [88]) =
      .ok (commands ++ [.terminate]) := by
    have hfuel : (body ++ [(88 : UInt8)]).length = body.length - commands.length + 1 + commands.length := by
      have hle := hencodes.length_le
      rw [List.length_append, List.length_singleton]
      omega
    rw [hfuel, hencodes.reads]
    rfl
  have hwithin : DecodeState.Within ⟨0, 0, 0⟩ high {} := ⟨hhigh, hhigh, hhigh⟩
  obtain ⟨t, hdecode, hbounds⟩ := @decodeFull_succeeds ⟨0, 0, 0⟩ high window {} commands
    (commands ++ [Command.terminate]).length hlow hfits (by dsimp only; omega) hwithin hvisits (by
      rw [List.length_append, List.length_singleton]
      exact Nat.lt_succ_self _)
  have hinitial : DecodeState.InBox {} ⟨0, 0, 0⟩ := by simp [DecodeState.InBox]
  obtain ⟨hcovers, hplacements⟩ := decodeFull_ok hinitial hdecode
  obtain ⟨⟨hx, hx'⟩, ⟨hy, hy'⟩, hz, hz'⟩ := hcovers.keeps ⟨0, 0, 0⟩ hinitial
  obtain ⟨-, ⟨⟨hlx, -⟩, ⟨hly, -⟩, hlz, -⟩, ⟨-, hhx⟩, ⟨-, hhy⟩, -, hhz⟩ := hbounds
  have hdimension {axis : String} {low high : ℤ} (hle : low ≤ high) (hlow : 0 ≤ low) (hhigh : high < int32Max) :
      dimension axis low high = .ok (high - low + 1) := by
    rw [dimension]
    exact if_neg (by omega)
  dsimp only at hx hx' hy hy' hz hz' hlx hly hlz
  refine ⟨t, ⟨t.maximum.x - t.minimum.x + 1, t.maximum.y - t.minimum.y + 1, t.maximum.z - t.minimum.z + 1⟩,
    ?_, ?_⟩
  · rw [interpret, List.append_assoc, reads_header, ok_bind]
    dsimp only
    rw [hread, ok_bind, parse, decode, if_neg Bool.false_ne_true, hdecode, ok_bind,
      hdimension (by omega) hlx (by omega), ok_bind, hdimension (by omega) hly (by omega), ok_bind,
      hdimension (by omega) hlz (by omega), ok_bind]
    rfl
  · rw [hplacements, placementsFrom_append hvisits, hplaced]
    exact List.append_nil _

variable {batchSize : ℕ}

theorem batchSizeOf_ok {size : Size} {options : ConversionOptions}
    (h : batchSizeOf size options = .ok batchSize) :
    (0 < size.width ∧ 0 < size.height ∧ 0 < size.length) ∧ 0 < batchSize := by
  rw [batchSizeOf] at h
  obtain ⟨hsize, h⟩ := else_of_ok h
  obtain ⟨_, h⟩ := else_of_ok h
  dsimp only at h
  obtain ⟨_, h⟩ := else_of_ok h
  obtain ⟨hbudget, h⟩ := else_of_ok h
  cases h
  refine ⟨by omega, lt_min (by decide) (lt_min ?_ (Nat.pos_of_ne_zero hbudget))⟩
  split
  · decide
  · exact lt_of_lt_of_le Nat.zero_lt_one (Nat.le_max_left _ _)

/-- The ids of the blocks of a structure. -/
def UsesId (registry : RuntimeRegistry) (source : StructureSource) (content : BlockPos → RuntimeId)
    (id : RuntimeId) : Prop :=
  id ≠ registry.airRuntimeId ∧ ∃ pos, source.size.Contains pos ∧ content pos = id

variable {source : StructureSource} {options : ConversionOptions}

/-- What is left of a run of the writer. -/
theorem exists_of_writeBdx (hshows : ShowsIds registry.airRuntimeId source content)
    (h : writeBdx registry source options = .ok stream) :
    ∃ batchSize s, batchSizeOf source.size options = .ok batchSize ∧
      (writtenCells source.size batchSize).foldlM (writeId registry content)
        ⟨headerBytes, ⟨0, 0, 0⟩, []⟩ = .ok s ∧ stream = s.output ++ [88] := by
  rw [writeBdx] at h
  obtain ⟨batchSize, hbatch, h⟩ := exists_of_bind_ok h
  obtain ⟨s, hrun, h⟩ := exists_of_bind_ok h
  obtain ⟨⟨hwidth, -⟩, hpos⟩ := batchSizeOf_ok hbatch
  exact ⟨batchSize, s, hbatch,
    foldlM_writeId_of_writeBatches hshows (Int.natCast_pos.mpr hpos) hwidth hrun, (Except.ok.inj h).symm⟩

theorem PaletteOf.writeId (h : PaletteOf used s.palette ids)
    (hid : content pos ≠ registry.airRuntimeId → used (content pos))
    (hwrite : Bdx.writeId registry content s pos = .ok t) :
    PaletteOf used t.palette
      (ids ++ if content pos ≠ registry.airRuntimeId then [content pos] else []) := by
  rw [Bdx.writeId] at hwrite
  split_ifs at hwrite with hair
  · cases hwrite
    rwa [if_neg (not_not_intro hair), List.append_nil]
  · rw [if_pos hair]
    exact h.placeBlock (hid hair) hwrite

/-- A structure that is written has at most 32768 ids. -/
theorem length_le_of_writeBdx (hshows : ShowsIds registry.airRuntimeId source content)
    (h : writeBdx registry source options = .ok stream) (hnodup : ids.Nodup)
    (hids : ∀ id ∈ ids, UsesId registry source content id) : ids.length ≤ kMaximumPalette := by
  obtain ⟨batchSize, s, hbatch, hrun, -⟩ := exists_of_writeBdx hshows h
  obtain ⟨⟨hwidth, -, hlength⟩, hpos⟩ := batchSizeOf_ok hbatch
  have hcells {pos : BlockPos} := @mem_writtenCells source.size batchSize (Int.natCast_pos.mpr hpos)
    hwidth hlength pos
  have hpalette : PaletteOf (fun _ => True) s.palette
      ((blockCells registry.airRuntimeId content (writtenCells source.size batchSize)).map content) := by
    refine @foldlM_ok_rule _ _ _ _ (fun cells (s : WriterState) => PaletteOf (fun _ => True) s.palette
      ((blockCells registry.airRuntimeId content cells).map content)) _
      (fun cells s pos _ t hinv hwrite => ?_) [] _ _ .nil hrun
    have hnext := hinv.writeId (fun _ => trivial) hwrite
    rw [blockCells_concat, List.map_append]
    by_cases hair : content pos = registry.airRuntimeId
    · rwa [if_neg (not_not_intro hair)] at hnext ⊢
    · rwa [if_pos hair] at hnext ⊢
  have hsubset : ids ⊆ s.palette := fun id hid => by
    obtain ⟨hblock, pos, hcontains, rfl⟩ := hids id hid
    refine (hpalette.mem_iff _).mpr (List.mem_map_of_mem (List.mem_filter.mpr ⟨hcells.mpr hcontains, ?_⟩))
    exact decide_eq_true hblock
  exact Nat.le_trans (hnodup.subperm hsubset).length_le hpalette.length_le

/-- Conversely the writer succeeds when there are not more. -/
theorem writeBdx_succeeds (hshows : ShowsIds registry.airRuntimeId source content)
    (hchunks : ∀ positions, ∃ chunks, source.getChunksLayer0 positions = .ok chunks)
    (hbatch : batchSizeOf source.size options = .ok batchSize)
    (hfew : ∀ ids : List RuntimeId, ids.Nodup → (∀ id ∈ ids, UsesId registry source content id) →
      ids.length ≤ kMaximumPalette) : ∃ stream, writeBdx registry source options = .ok stream := by
  obtain ⟨⟨hwidth, -, hlength⟩, hpos⟩ := batchSizeOf_ok hbatch
  have hbatchPos := Int.natCast_pos.mpr hpos
  obtain ⟨s, hrun, -⟩ := @foldlM_succeeds _ _ _ (writeId registry content)
    (fun s => ∃ ids, PaletteOf (UsesId registry source content) s.palette ids)
    (writtenCells source.size batchSize) (fun s pos hpos hinv => by
      obtain ⟨ids, hinv⟩ := hinv
      have hcontains := (mem_writtenCells hbatchPos hwidth hlength).mp hpos
      have hid (hblock : content pos ≠ registry.airRuntimeId) :
          UsesId registry source content (content pos) := ⟨hblock, pos, hcontains, rfl⟩
      have hwritten : ∃ t, writeId registry content s pos = .ok t := by
        rw [writeId]
        split_ifs with hblock
        · exact ⟨s, rfl⟩
        · rw [placeBlock]
          split
          case h_1 => exact ⟨_, rfl⟩
          case h_2 hnew =>
            rw [List.idxOf?_eq_none_iff] at hnew
            have hroom := hfew (content pos :: s.palette) (List.nodup_cons.mpr ⟨hnew, hinv.nodup⟩)
              (List.forall_mem_cons.mpr ⟨hid hblock, hinv.used⟩)
            rw [List.length_cons] at hroom
            rw [if_neg (by omega)]
            exact ⟨_, rfl⟩
      obtain ⟨t, ht⟩ := hwritten
      exact ⟨t, ht, _, hinv.writeId hid ht⟩) ⟨headerBytes, ⟨0, 0, 0⟩, []⟩ ⟨[], .nil⟩
  refine ⟨s.output ++ [88], ?_⟩
  rw [writeBdx, hbatch, ok_bind, foldlM_writeBatch_eq hshows hbatchPos hwidth hchunks, hrun]
  rfl

/-- A stream of the writer is read as the blocks of the structure. -/
theorem interpret_of_writeBdx (hshows : ShowsIds registry.airRuntimeId source content)
    (hextents : source.size.width ≤ int32Max ∧ source.size.height ≤ int32Max ∧ source.size.length ≤ int32Max)
    (hreadable : Readable registry (UsesId registry source content))
    (h : writeBdx registry source options = .ok stream) (window : ℕ → ℕ) :
    ∃ state size, interpret readBlockNbt reader window stream = .ok (state, size) ∧
      (state.placements.map Prod.fst).Nodup ∧
      ∀ pos runtime, (pos, runtime) ∈ state.placements ↔
        source.size.Contains pos ∧ content pos ≠ registry.airRuntimeId ∧
          ReadsAs registry reader (content pos) runtime := by
  obtain ⟨batchSize, s, hbatch, hrun, rfl⟩ := exists_of_writeBdx hshows h
  obtain ⟨⟨hwidth, hheight, hlength⟩, hpos⟩ := batchSizeOf_ok hbatch
  have hbatchPos := Int.natCast_pos.mpr hpos
  have hcells {pos : BlockPos} := @mem_writtenCells source.size batchSize hbatchPos hwidth hlength pos
  choose! reads hreads using fun id (hid : UsesId registry source content id) => hreadable.readsAs reader hid
  let high : BlockPos := ⟨source.size.width - 1, source.size.height - 1, source.size.length - 1⟩
  have hhigh : Inside ⟨0, 0, 0⟩ high ⟨0, 0, 0⟩ := by
    dsimp only [Inside, high]
    omega
  have hemitted := @foldlM_ok_rule _ _ _ _ (fun cells (s : WriterState) =>
    Emitted registry reader readBlockNbt (UsesId registry source content) high s
      ((blockCells registry.airRuntimeId content cells).map content)
      ((blockCells registry.airRuntimeId content cells).map fun pos => (pos, reads (content pos)))) _
    (fun cells s pos hcell t hinv hwrite => by
      have hcontains := hcells.mp hcell
      refine hinv.writeId hreadable hreads (fun hblock => ⟨hblock, pos, hcontains, rfl⟩) ?_ hwrite
      obtain ⟨hx, hy, hz⟩ := hcontains
      dsimp only [Inside, high]
      omega) [] _ _ (emitted_start hhigh) hrun
  rw [List.nil_append] at hemitted
  obtain ⟨body, tables, houtput, -, hsegment⟩ := hemitted.stream
  obtain ⟨state, size, hinterpret, hplacements⟩ := @interpret_of_segment reader readBlockNbt high window body _ _
    (by dsimp only [BlockPos.FitsInt32, IsInt32, high]; rw [int32Min, int32Max] at *; omega) hhigh
    (by dsimp only [high]; omega) hsegment
  refine ⟨state, size, houtput ▸ hinterpret, ?_, fun pos runtime => ?_⟩
  · rw [hplacements, List.map_map]
    exact ((nodup_writtenCells hbatchPos hwidth).filter _).map fun _ _ => id
  · rw [hplacements, List.mem_map]
    constructor
    · rintro ⟨cell, hcell, heq⟩
      cases heq
      obtain ⟨hmem, hblock⟩ := List.mem_filter.mp hcell
      have hcontains := hcells.mp hmem
      exact ⟨hcontains, of_decide_eq_true hblock, hreads _ ⟨of_decide_eq_true hblock, _, hcontains, rfl⟩⟩
    · rintro ⟨hcontains, hblock, hruntime⟩
      refine ⟨pos, List.mem_filter.mpr ⟨hcells.mpr hcontains, decide_eq_true hblock⟩, ?_⟩
      have hsame : reads (content pos) = runtime :=
        Except.ok.inj ((hreads _ ⟨hblock, pos, hcontains, rfl⟩).symm.trans hruntime)
      rw [hsame]

end Runs

section Cursors

variable {s : DecodeState}

/-- A command that places nothing leaves the placements as they are. -/
theorem deliveries_of_step {t : DecodeState} {command : Command} (hsucceeds : command.Succeeds)
    (hplaced : command.placed = none) (h : s.step false command = .ok t) : t.deliveries = s.deliveries := by
  have hmove {moved : DecodeState} {axis : Axis} {delta : ℤ} (h : s.move axis delta = .ok moved) :
      moved.deliveries = s.deliveries := by
    obtain ⟨cursor, -, rfl⟩ := DecodeState.map_eq_ok h
    rfl
  cases command with
  | metadata result =>
    cases (show result = .ok () from hsucceeds)
    cases h
    rfl
  | stay result =>
    cases (show result = .ok () from hsucceeds)
    cases h
    rfl
  | move axis delta | nextZ =>
    obtain ⟨moved, hmoved, rfl⟩ := DecodeState.map_eq_ok h
    exact (hmove hmoved : _)
  | placeConstant runtime | place runtime =>
    obtain ⟨id, rfl⟩ := hsucceeds
    cases hplaced
  | terminate => cases hsucceeds

/-- Commands that stay in a box and place nothing only move the cursor. -/
theorem foldlM_step_of_visits {low high : BlockPos} (hlow : low.FitsInt32) (hhigh : high.FitsInt32)
    (h : s.Within low high) {commands : List Command} (hvisits : Visits (Inside low high) s.cursor commands)
    (hsilent : ∀ command ∈ commands, command.placed = none) :
    ∃ t, commands.foldlM (DecodeState.step false) s = .ok t ∧ t.cursor = cursorAfter s.cursor commands ∧
      t.deliveries = s.deliveries := by
  induction commands generalizing s with
  | nil => exact ⟨s, rfl, rfl, rfl⟩
  | cons command rest ih =>
    obtain ⟨hsucceeds, hnext, hmore⟩ := hvisits
    obtain ⟨next, hstep, hwithin, hcursor⟩ := h.step hlow hhigh hsucceeds hnext
    have hkept := deliveries_of_step hsucceeds (hsilent command List.mem_cons_self) hstep
    obtain ⟨t, hrun, hend, hdeliveries⟩ := ih hwithin (by rwa [hcursor])
      fun other hother => hsilent other (List.mem_cons_of_mem command hother)
    refine ⟨t, ?_, ?_, hdeliveries.trans hkept⟩
    · rw [List.foldlM_cons, hstep]
      exact hrun
    · rw [hend, hcursor]
      rfl

/-- The commands that the reader finds in a move bring its cursor from one place to another and do
nothing else. -/
def MovesCursor (readBlockNbt : Reader Unit) (reader : MappingRegistry) (cursor target : BlockPos) : Prop :=
  ∃ commands : List Command,
    (∀ fuel tables rest, readCommands readBlockNbt reader (fuel + commands.length) tables
      (appendMove cursor target ++ rest) =
        (readCommands readBlockNbt reader fuel tables rest).map (commands ++ ·)) ∧
    ∀ s : DecodeState, s.cursor = cursor → s.minimum.FitsInt32 → s.maximum.FitsInt32 →
      ∃ t, commands.foldlM (DecodeState.step false) s = .ok t ∧ t.cursor = target ∧
        t.deliveries = s.deliveries

theorem movesCursor (readBlockNbt : Reader Unit) (reader : MappingRegistry) {cursor target : BlockPos}
    (hcursor : cursor.FitsInt32) (htarget : target.FitsInt32) :
    MovesCursor readBlockNbt reader cursor target := by
  obtain ⟨commands, hencodes, hsilent, hafter, hvisits⟩ :=
    @reaches_appendMove readBlockNbt reader cursor target
  refine ⟨commands, fun fuel tables rest => (hencodes tables).reads fuel rest, fun s hs hmin hmax => ?_⟩
  subst hs
  have hinside {pos : BlockPos} (h : pos.FitsInt32) :
      Inside ⟨int32Min, int32Min, int32Min⟩ ⟨int32Max, int32Max, int32Max⟩ pos := ⟨h.1, h.2.1, h.2.2⟩
  obtain ⟨t, hrun, hend, hdeliveries⟩ := foldlM_step_of_visits (by decide) (by decide)
    ⟨hinside hcursor, hinside hmin, hinside hmax⟩ (hvisits _ _ (hinside hcursor) (hinside htarget)) hsilent
  exact ⟨t, hrun, hend.trans hafter, hdeliveries⟩

end Cursors

section LowStructures

/-- The chunks of a structure that is at most 16 blocks high. -/
def lowChunk (content : BlockPos → RuntimeId) (key : ChunkPos) (chunk : ChunkData) : ChunkData :=
  { chunk with
    subChunks := chunk.subChunks.insert (-4)
      ⟨fun index => content ⟨key.x * 16 + (index % 16 : ℕ), (index / 256 : ℕ),
        key.z * 16 + (index / 16 % 16 : ℕ)⟩, fun _ => 0⟩ }

/-- A structure that is at most 16 blocks high. -/
def lowSource (size : Size) (content : BlockPos → RuntimeId) : StructureSource where
  size := size
  getChunksLayer0 positions := .ok ((ChunkMap.emplaceAll positions).forEach (lowChunk content))
  visitChunkPalettes _ := .error "unsupported"

theorem showsIds_lowSource {size : Size} (hheight : size.height ≤ 16) (air : RuntimeId)
    (content : BlockPos → RuntimeId) : ShowsIds air (lowSource size content) content := by
  rintro positions chunks ⟨⟩
  refine ⟨fun key chunk hchunk => ?_, fun pos hpos hkey => ?_⟩
  · rw [ChunkMap.lookup_forEach, ChunkMap.lookup_emplaceAll] at hchunk
    split at hchunk
    · cases hchunk
      rfl
    · cases hchunk
  · obtain ⟨-, ⟨hlow, hhigh⟩, -⟩ := hpos
    have hrow : floorDiv (pos.y - 64) 16 = -4 := by
      rw [floorDiv_sixteen]
      have hsize : (lowSource size content).size.height = size.height := rfl
      omega
    rw [ChunkMap.runtimeAt, ChunkMap.blockAt_forEach_emplaceAll, if_pos hkey, Option.getD_some,
      ChunkData.blockAt, hrow, ChunkData.layer0At, lowChunk]
    dsimp only
    rw [AList.lookup_insert]
    dsimp only
    rw [BlockLayerLayout.index, blockToChunk]
    dsimp only
    rw [floorMod_sixteen, floorMod_sixteen, floorDiv_sixteen, floorDiv_sixteen]
    have hsize : (lowSource size content).size.height = size.height := rfl
    refine congrArg content ?_
    obtain ⟨x, y, z⟩ := pos
    rw [BlockPos.mk.injEq]
    dsimp only at *
    omega

end LowStructures

/-- What the writer writes is read as the blocks of the structure, each of them once; the writer writes a
structure with 32768 ids at most, the reader can read ordinary states, and the moves of the cursor arrive. -/
theorem bdx_round_trip (registry : RuntimeRegistry) (reader : MappingRegistry) (readBlockNbt : Reader Unit)
    (source : StructureSource) (content : BlockPos → RuntimeId) (options : ConversionOptions)
    (hshows : ShowsIds registry.airRuntimeId source content)
    (hextents : source.size.width ≤ int32Max ∧ source.size.height ≤ int32Max ∧
      source.size.length ≤ int32Max)
    (hreadable : Readable registry (UsesId registry source content)) :
    (∀ stream window, writeBdx registry source options = .ok stream →
      ∃ state size, interpret readBlockNbt reader window stream = .ok (state, size) ∧
        (state.placements.map Prod.fst).Nodup ∧
        ∀ pos runtime, (pos, runtime) ∈ state.placements ↔
          source.size.Contains pos ∧ content pos ≠ registry.airRuntimeId ∧
            ReadsAs registry reader (content pos) runtime) ∧
    ((∀ positions, ∃ chunks, source.getChunksLayer0 positions = .ok chunks) →
      (∃ batchSize, batchSizeOf source.size options = .ok batchSize) →
      (∀ ids : List RuntimeId, ids.Nodup → (∀ id ∈ ids, UsesId registry source content id) →
        ids.length ≤ 32768) →
      ∃ stream, writeBdx registry source options = .ok stream) ∧
    (∀ state, OrdinaryState state →
      parseBlockStates (stateString state) = .ok ((sortedProperties state).map reread)) ∧
    ∀ cursor target : BlockPos, cursor.FitsInt32 → target.FitsInt32 →
      MovesCursor readBlockNbt reader cursor target := by
  refine ⟨fun stream window h => interpret_of_writeBdx hshows hextents hreadable h window,
    fun hchunks hoptions hfew => ?_, fun state h => parseBlockStates_stateString h,
    fun cursor target => movesCursor readBlockNbt reader⟩
  obtain ⟨batchSize, hbatch⟩ := hoptions
  exact writeBdx_succeeds hshows hchunks hbatch hfew

/-- Air with id 0, and one state for all other ids. -/
def oneState (state : BlockState) : RuntimeRegistry where
  state id := if id = 0 then some ⟨"minecraft:air".toList, [], 0⟩ else some state
  resolveState id := if id = 0 then some ⟨"minecraft:air".toList, [], 0⟩ else some state
  upgradeState state := state
  airRuntimeId := 0
  state_air := ⟨_, rfl, rfl, rfl⟩
  resolveState_eq _ _ h := h

theorem bdx_round_trip_stone : ∃ stream,
    writeBdx (oneState ⟨"minecraft:stone".toList, [], 0⟩) (lowSource ⟨1, 1, 1⟩ fun _ => 1)
        ⟨1048576, 0⟩ = .ok stream ∧
      ∃ state size, interpret (pure ()) .initial (fun _ => 0) stream = .ok (state, size) ∧
        (state.placements.map Prod.fst).Nodup ∧
        ∀ pos runtime, (pos, runtime) ∈ state.placements ↔
          Size.Contains ⟨1, 1, 1⟩ pos ∧ (1 : RuntimeId) ≠ 0 ∧
            ReadsAs (oneState ⟨"minecraft:stone".toList, [], 0⟩) .initial 1 runtime := by
  have hone {ids : List RuntimeId} (hnodup : ids.Nodup) (hids : ∀ id ∈ ids,
      UsesId (oneState ⟨"minecraft:stone".toList, [], 0⟩) (lowSource ⟨1, 1, 1⟩ fun _ => 1) (fun _ => 1) id) :
      (∀ id ∈ ids, id = 1) ∧ ids.length ≤ 1 := by
    have hone : ∀ id ∈ ids, id = 1 := fun id hid => (hids id hid).2.choose_spec.2.symm
    rw [List.eq_replicate_of_mem hone] at hnodup
    exact ⟨hone, List.nodup_replicate.mp hnodup⟩
  have hreadable : Readable (oneState ⟨"minecraft:stone".toList, [], 0⟩)
      (UsesId (oneState ⟨"minecraft:stone".toList, [], 0⟩) (lowSource ⟨1, 1, 1⟩ fun _ => 1) fun _ => 1) := by
    refine ⟨?_, ?_, fun ids hnodup hids => ?_, ?_⟩
    · rintro _ ⟨-, -, -, rfl⟩
      exact (by decide : ∀ text ∈ stateConstants (oneState ⟨"minecraft:stone".toList, [], 0⟩) 1,
        NonzeroBytes text)
    · rintro _ ⟨-, pos, -, rfl⟩ text htext
      have hshort : ∀ text ∈ stateConstants (oneState ⟨"minecraft:stone".toList, [], 0⟩) 1,
        text.length ≤ 15 := by decide
      exact Nat.le_trans (hshort text htext) (by decide)
    · obtain ⟨hone, hlength⟩ := hone hnodup hids
      rw [List.map_congr_left fun id hid => congrArg _ (hone id hid), List.map_const', List.sum_replicate]
      refine Nat.le_trans (Nat.mul_le_mul_right _ hlength) ?_
      decide
    · rintro _ ⟨-, -, -, rfl⟩
      exact ⟨_, parseBlockStates_stateString ⟨Nat.zero_le _, nofun⟩⟩
  obtain ⟨hread, hwrite, -⟩ := bdx_round_trip (oneState ⟨"minecraft:stone".toList, [], 0⟩) .initial (pure ())
    (lowSource ⟨1, 1, 1⟩ fun _ => 1) (fun _ => 1) ⟨1048576, 0⟩ (showsIds_lowSource (by decide) _ _)
    (by decide) hreadable
  have hbatch : batchSizeOf (lowSource ⟨1, 1, 1⟩ fun _ => 1).size ⟨1048576, 0⟩ = .ok 5 := by
    norm_num [batchSizeOf, lowSource, uint64Max]
  obtain ⟨stream, hstream⟩ := hwrite (fun _ => ⟨_, rfl⟩) ⟨5, hbatch⟩ fun ids hnodup hids =>
    (hone hnodup hids).2.trans (by decide)
  exact ⟨stream, hstream, hread stream _ hstream⟩

/-- A state with 129 properties. -/
def crowdedState : BlockState :=
  ⟨"minecraft:stone".toList, (List.range 129).map fun i : ℕ => ⟨'p' :: decimal i, .Int, decimal i⟩, 0⟩

/-- More than 32768 states are refused by the writer; a name with a null byte is written, and the stream is
refused by the reader; and so are the properties of a state with too many of them. -/
theorem bdx_round_trip_not : (∀ options stream,
      writeBdx (oneState ⟨"minecraft:stone".toList, [], 0⟩)
        (lowSource ⟨32769, 1, 1⟩ fun pos => UInt32.ofNat (pos.x.toNat + 1)) options ≠ .ok stream) ∧
    (∃ stream, writeBdx (oneState ⟨"a\x00b".toList, [], 0⟩) (lowSource ⟨1, 1, 1⟩ fun _ => 1)
        ⟨1048576, 0⟩ = .ok stream ∧
      ∃ error, interpret (pure ()) .initial (fun _ => 0) stream = .error error) ∧
    parseBlockStates (stateString crowdedState) = .error "BDX block states 属性过多" := by
  refine ⟨fun options stream hwrite => ?_, ?_, ?_⟩
  · have hinjective : ∀ first ∈ List.range 32769, ∀ second ∈ List.range 32769,
        UInt32.ofNat (first + 1) = UInt32.ofNat (second + 1) → first = second := by
      intro first hfirst second hsecond heq
      rw [List.mem_range] at hfirst hsecond
      have hvalue := congrArg UInt32.toNat heq
      rw [UInt32.toNat_ofNat', UInt32.toNat_ofNat'] at hvalue
      omega
    have hlength := length_le_of_writeBdx (showsIds_lowSource (by decide) _ _) hwrite
      (List.Nodup.map_on hinjective List.nodup_range) fun id hid => ?_
    · rw [List.length_map, List.length_range] at hlength
      exact absurd hlength (by decide)
    · obtain ⟨i, hi, rfl⟩ := List.mem_map.mp hid
      rw [List.mem_range] at hi
      refine ⟨fun hair => ?_, ⟨i, 0, 0⟩, ⟨⟨Int.natCast_nonneg i, Int.ofNat_lt.mpr hi⟩,
        ⟨Int.le_refl 0, Int.zero_lt_one⟩, Int.le_refl 0, Int.zero_lt_one⟩, rfl⟩
      have hvalue := congrArg UInt32.toNat hair
      rw [UInt32.toNat_ofNat'] at hvalue
      have hzero : (oneState ⟨"minecraft:stone".toList, [], 0⟩).airRuntimeId.toNat = 0 := rfl
      omega
  · have hshows : ShowsIds (oneState ⟨"a\x00b".toList, [], 0⟩).airRuntimeId
        (lowSource ⟨1, 1, 1⟩ fun _ => 1) fun _ => 1 := showsIds_lowSource (by decide) _ _
    have hcells : writtenCells ⟨1, 1, 1⟩ 5 = [⟨0, 0, 0⟩] := by
      rw [writtenCells_eq (by decide) (by decide)]
      decide
    refine ⟨headerBytes ++ appendState (oneState ⟨"a\x00b".toList, [], 0⟩) 1 ++ appendPlacement 0 ++ [88],
      ?_, _, rfl⟩
    have hbatch : batchSizeOf (lowSource ⟨1, 1, 1⟩ fun _ => 1).size ⟨1048576, 0⟩ = .ok 5 := by
      norm_num [batchSizeOf, lowSource, uint64Max]
    rw [writeBdx, hbatch, ok_bind, foldlM_writeBatch_eq hshows (by decide) (by decide) fun _ => ⟨_, rfl⟩]
    rw [show writtenCells (lowSource ⟨1, 1, 1⟩ fun _ => 1).size (5 : ℕ) = [⟨0, 0, 0⟩] from hcells]
    rfl
  · have hlength : crowdedState.states.length = 129 := (List.length_map _).trans List.length_range
    have hmany : kMaximumStateProperties < crowdedState.states.length := by
      rw [hlength]
      exact Nat.lt_succ_self 128
    refine parseBlockStates_many hmany fun property hmem => ?_
    obtain ⟨i, hi, rfl⟩ := List.mem_map.mp hmem
    have hsmall := List.mem_range.mp hi
    have hplain {c : Char} (hdigit : c.isDigit = false) (hminus : c ≠ '-') (hp : c ≠ 'p') :
        c ∉ 'p' :: decimal i := fun hc => (List.mem_cons.mp hc).elim hp fun hnumber =>
      (isNumeric_decimal hnumber).ne hdigit hminus rfl
    exact ⟨⟨hplain (by decide) (by decide) (by decide), hplain (by decide) (by decide) (by decide)⟩,
      nofun, fun _ _ => ⟨i, ⟨by rw [int32Min]; omega, by rw [int32Max]; omega⟩, rfl⟩⟩

end WaterStructure.Bdx
