import WaterStructure.Core.Decimal
import WaterStructure.Core.Types
import WaterStructure.Library.NestedLoop
import WaterStructure.Library.TransitionSystem

/-!
# Encoding chunks on several workers

`encode_chunks` cuts the list of chunks into ranges, hands one to each worker of a pool that is kept from
call to call, and collects the results in the order of the ranges. It returns at the first range that has
failed, without waiting for those behind it. The codec of the payloads is a parameter. The settings that the
number of workers comes from are left out; a call may ask for any number.
-/

namespace WaterStructure

namespace EncodeChunks

/-- `EncodedSubChunkData` -/
structure EncodedSubChunk where
  pos : SubChunkPos
  payload : List UInt8
  deriving DecidableEq

/-- `ChunkWrite`; the chunk may be missing. -/
structure ChunkWrite where
  pos : ChunkPos
  chunk : Option ChunkData

/-- What the codec of the payloads does with layers in its own order. -/
structure PayloadCodec where
  setBlocks : BlockLayer → ℕ → Bool
  encode : BlockLayer → Option BlockLayer → ℤ → Except String (List UInt8)

section Encoding

variable (codec : PayloadCodec) (air : RuntimeId)

/-- A layer in the order of the codec. -/
def nativeLayer (layout : BlockLayerLayout) (layer : BlockLayer) : BlockLayer :=
  match layout with
  | .Native => layer
  | .Internal => fun index => layer ((index / 16 % 16 * 16 + index % 16) * 16 + index / 256)

def hasLayer1 (data : SubChunkData) : Bool := (List.range 4096).any fun index => data.layer1 index ≠ air

/-- The body of the loop over the subchunks. -/
def encodeSubChunk (pos : ChunkPos) (layout : BlockLayerLayout) (subY : ℤ) (data : SubChunkData) :
    Except String EncodedSubChunk :=
  if subY < kMinSubChunkY ∨ subY > kMaxSubChunkY then
    .error ("subchunk Y 超出 Overworld 范围: " ++ String.ofList (decimal subY))
  else if codec.setBlocks (nativeLayer layout data.layer0) 0 = false then .error "创建 subchunk layer 0 失败"
  else if hasLayer1 air data = true ∧ codec.setBlocks (nativeLayer layout data.layer1) 1 = false then
    .error "创建 subchunk layer 1 失败"
  else
    match codec.encode (nativeLayer layout data.layer0)
      (if hasLayer1 air data then some (nativeLayer layout data.layer1) else none) (subY - kMinSubChunkY) with
    | .error error => .error ("编码 subchunk 失败: " ++ error)
    | .ok payload => .ok ⟨⟨pos.x, subY, pos.z⟩, payload⟩

/-- The subchunks of one chunk. -/
def encodeChunk (write : ChunkWrite) : Except String (List EncodedSubChunk) :=
  match write.chunk with
  | none => .ok []
  | some chunk => chunk.subChunks.entries.mapM fun entry =>
      encodeSubChunk codec air write.pos chunk.layout entry.1 entry.2

/-- `encode_range`, on the chunks of the range. -/
def encodeRange : List ChunkWrite → Except String (List EncodedSubChunk)
  | [] => .ok []
  | write :: rest => do
    let first ← encodeChunk codec air write
    let others ← encodeRange rest
    return first ++ others

end Encoding

/-- The loop that cuts the list: the first ranges take one chunk more while a remainder is left. -/
def splitRanges (base remainder : ℕ) : (worker workers : ℕ) → List ChunkWrite → List (List ChunkWrite)
  | _, 0, _ => []
  | worker, workers + 1, chunks =>
    let count := base + if worker < remainder then 1 else 0
    chunks.take count :: splitRanges base remainder (worker + 1) workers (chunks.drop count)

def ranges (workers : ℕ) (chunks : List ChunkWrite) : List (List ChunkWrite) :=
  splitRanges (chunks.length / workers) (chunks.length % workers) 0 workers chunks

/-- The arguments of `encode_chunks`, whether the world is open, and the number of workers. -/
structure Call where
  valid : Bool := true
  chunks : List ChunkWrite
  workers : ℕ

/-- What is returned before anything is encoded. -/
def precheck (call : Call) : Option (Except String (List EncodedSubChunk)) :=
  if call.valid = false then some (.error "世界未打开")
  else if call.chunks.any fun write => write.chunk.isNone then some (.error "chunk write is empty")
  else if call.chunks.isEmpty then some (.ok [])
  else none

/-- A submitted task; its future is known by the ticket. -/
structure Task where
  ticket : ℕ
  chunks : List ChunkWrite

/-- `BoundedThreadPool`; the queue has room for as many tasks as there are workers. -/
structure Pool where
  workers : ℕ
  queue : List Task := []
  running : List Task := []

def Pool.drained (pool : Pool) : Bool := pool.queue.isEmpty && pool.running.isEmpty

/-- Where the calling thread is. -/
inductive Phase where
  | idle
  | replacing (call : Call)
  | working (call : Call) (left : List (List ChunkWrite)) (pending : List Task)
      (result : List EncodedSubChunk)
  | returned (call : Call) (outcome : Except String (List EncodedSubChunk))

structure State where
  pool : Option Pool := none
  tickets : ℕ := 0
  ready : List ℕ := []
  phase : Phase := .idle

inductive Action where
  | call (call : Call)
  | replace
  | submit
  | start
  | finish (ticket : ℕ)
  | collect
  | close

/-- Whether the calling thread may begin something new. -/
def Phase.free : Phase → Bool
  | .idle | .returned _ _ => true
  | _ => false

section Machine

variable (codec : PayloadCodec) (air : RuntimeId)

/-- Begin a call: the pool of the last one is kept when it has the right size. -/
def beginCall (state : State) (call : Call) : State :=
  match precheck call with
  | some outcome => { state with phase := .returned call outcome }
  | none =>
    if call.workers = 1 then { state with phase := .returned call (encodeRange codec air call.chunks) }
    else if state.pool.map Pool.workers = some call.workers then
      { state with phase := .working call (ranges call.workers call.chunks) [] [] }
    else { state with phase := .replacing call }

/-- The old pool is joined, so its workers must have nothing left to do. -/
def replacePool (state : State) (call : Call) : Option State :=
  if state.pool.all Pool.drained then
    some { state with
      pool := some { workers := call.workers }
      phase := .working call (ranges call.workers call.chunks) [] [] }
  else none

/-- Submit the next range, once the queue has room. -/
def submitRange (state : State) (pool : Pool) (call : Call) (range : List ChunkWrite)
    (left : List (List ChunkWrite)) (pending : List Task) (result : List EncodedSubChunk) : Option State :=
  if pool.queue.length < pool.workers then
    let task : Task := ⟨state.tickets, range⟩
    some { state with
      pool := some { pool with queue := pool.queue ++ [task] }
      tickets := state.tickets + 1
      phase := .working call left (pending ++ [task]) result }
  else none

/-- Wait for the next future. -/
def collectResult (state : State) (call : Call) (result : List EncodedSubChunk) :
    List Task → Option State
  | [] => some { state with phase := .returned call (.ok result) }
  | task :: pending =>
    if task.ticket ∈ state.ready then
      match encodeRange codec air task.chunks with
      | .error error => some { state with phase := .returned call (.error error) }
      | .ok values => some { state with phase := .working call [] pending (result ++ values) }
    else none

def step (state : State) : Action → Option State
  | .call call =>
    if state.phase.free = true ∧ 0 < call.workers then some (beginCall codec air state call) else none
  | .replace =>
    match state.phase with
    | .replacing call => replacePool state call
    | _ => none
  | .submit =>
    match state.pool, state.phase with
    | some pool, .working call (range :: left) pending result =>
      submitRange state pool call range left pending result
    | _, _ => none
  | .start =>
    match state.pool with
    | some { workers, queue := task :: queue, running } =>
      if running.length < workers then
        some { state with pool := some { workers, queue, running := task :: running } }
      else none
    | _ => none
  | .finish ticket =>
    match state.pool with
    | some pool =>
      if pool.running.any fun task => task.ticket = ticket then
        some { state with
          pool := some { pool with running := pool.running.filter fun task => task.ticket ≠ ticket }
          ready := ticket :: state.ready }
      else none
    | none => none
  | .collect =>
    match state.phase with
    | .working call [] pending result => collectResult codec air state call result pending
    | _ => none
  | .close =>
    if state.phase.free = true ∧ state.pool.all Pool.drained = true then
      some { state with pool := none, phase := .idle }
    else none

/-- Every range of the call but the last one is encoded without an error. -/
def Quiet (_ : State) : Action → Prop
  | .call call => precheck call = none →
    ∀ range ∈ (ranges call.workers call.chunks).dropLast, ∃ values, encodeRange codec air range = .ok values
  | _ => True

end Machine

/-- No submitted task is queued or running. -/
def State.Joined (state : State) : Prop := ∀ pool ∈ state.pool, pool.queue = [] ∧ pool.running = []

section Ranges

variable {codec : PayloadCodec} {air : RuntimeId}

/-- The ranges from some worker on hold as many chunks as these workers take. -/
theorem flatten_splitRanges (base remainder worker workers : ℕ) (chunks : List ChunkWrite) :
    (splitRanges base remainder worker workers chunks).flatten =
      chunks.take (workers * base + (min (worker + workers) remainder - min worker remainder)) := by
  induction workers generalizing worker chunks with
  | zero => simp [splitRanges]
  | succ workers ih =>
    rw [splitRanges, List.flatten_cons, ih, ← List.take_add]
    congr 1
    rw [Nat.succ_mul]
    split <;> omega

/-- The ranges hold all chunks in their order. -/
theorem flatten_ranges {workers : ℕ} (hpos : 0 < workers) (chunks : List ChunkWrite) :
    (ranges workers chunks).flatten = chunks := by
  rw [ranges, flatten_splitRanges]
  refine List.take_of_length_le ?_
  have hsplit := Nat.div_add_mod chunks.length workers
  have hlt := Nat.mod_lt chunks.length hpos
  omega

theorem ranges_one (chunks : List ChunkWrite) : ranges 1 chunks = [chunks] := by
  rw [ranges, Nat.div_one, Nat.mod_one, splitRanges, splitRanges]
  simp

theorem encodeRange_append (first second : List ChunkWrite) :
    encodeRange codec air (first ++ second) = do
      let values ← encodeRange codec air first
      let others ← encodeRange codec air second
      return values ++ others := by
  induction first with
  | nil =>
    rw [List.nil_append, encodeRange]
    cases encodeRange codec air second <;> rfl
  | cons write rest ih =>
    rw [List.cons_append, encodeRange, encodeRange, ih]
    cases encodeChunk codec air write with
    | error error => rfl
    | ok values =>
      cases encodeRange codec air rest with
      | error error => rfl
      | ok others =>
        cases encodeRange codec air second with
        | error error => rfl
        | ok more => exact congrArg Except.ok (List.append_assoc values others more).symm

/-- The subchunks of a chunk. -/
def ChunkWrite.positions (write : ChunkWrite) : List SubChunkPos :=
  (write.chunk.elim [] fun chunk => chunk.subChunks.keys).map fun subY => ⟨write.pos.x, subY, write.pos.z⟩

theorem encodeSubChunk_pos {pos : ChunkPos} {layout : BlockLayerLayout} {subY : ℤ} {data : SubChunkData}
    {value : EncodedSubChunk} (h : encodeSubChunk codec air pos layout subY data = .ok value) :
    value.pos = ⟨pos.x, subY, pos.z⟩ := by
  rw [encodeSubChunk] at h
  obtain ⟨_, h⟩ := NestedLoop.else_of_ok h
  obtain ⟨_, h⟩ := NestedLoop.else_of_ok h
  obtain ⟨_, h⟩ := NestedLoop.else_of_ok h
  split at h
  case h_1 => cases h
  case h_2 =>
    cases h
    rfl

variable {values : List EncodedSubChunk}

theorem encodeChunk_positions {write : ChunkWrite} (h : encodeChunk codec air write = .ok values) :
    values.map EncodedSubChunk.pos = write.positions := by
  rw [encodeChunk] at h
  rw [ChunkWrite.positions]
  cases hchunk : write.chunk with
  | none =>
    rw [hchunk] at h
    cases h
    rfl
  | some chunk =>
    rw [hchunk] at h
    have hall := NestedLoop.forall₂_of_mapM_ok h
    rw [Option.elim_some, AList.keys, List.keys, List.map_map, ← List.forall₂_eq_eq_eq, List.forall₂_map_left_iff,
      List.forall₂_map_right_iff]
    exact hall.flip.imp fun value entry hvalue => encodeSubChunk_pos hvalue

/-- Every subchunk of every chunk is encoded once, in the order of the chunks. -/
theorem encodeRange_positions {chunks : List ChunkWrite} (h : encodeRange codec air chunks = .ok values) :
    values.map EncodedSubChunk.pos = chunks.flatMap ChunkWrite.positions := by
  induction chunks generalizing values with
  | nil =>
    cases h
    rfl
  | cons write rest ih =>
    rw [encodeRange] at h
    obtain ⟨first, hfirst, h⟩ := NestedLoop.exists_of_bind_ok h
    obtain ⟨others, hothers, h⟩ := NestedLoop.exists_of_bind_ok h
    cases h
    rw [List.map_append, List.flatMap_cons, encodeChunk_positions hfirst, ih hothers]

/-- The range that fails first decides how the whole list fails. -/
theorem encodeRange_of_failed {before : List (List ChunkWrite)} {range : List ChunkWrite}
    {after : List (List ChunkWrite)} {error : String}
    (hbefore : encodeRange codec air before.flatten = .ok values)
    (hrange : encodeRange codec air range = .error error) :
    encodeRange codec air (before ++ range :: after).flatten = .error error := by
  rw [List.flatten_append, List.flatten_cons, encodeRange_append, hbefore, encodeRange_append, hrange]
  rfl

end Ranges

section Answers

variable {codec : PayloadCodec} {air : RuntimeId}

/-- The outcome of a call is what one worker would return, a failure is that of the first range that fails,
and a success has every subchunk once. -/
structure Answers (codec : PayloadCodec) (air : RuntimeId) (call : Call)
    (outcome : Except String (List EncodedSubChunk)) : Prop where
  whole : outcome = (precheck call).getD (encodeRange codec air call.chunks)
  failing : precheck call = none → ∀ error, outcome = .error error → ∃ before range after,
    ranges call.workers call.chunks = before ++ range :: after ∧
      (∀ other ∈ before, ∃ values, encodeRange codec air other = .ok values) ∧
      encodeRange codec air range = .error error
  positions : precheck call = none → ∀ values, outcome = .ok values →
    values.map EncodedSubChunk.pos = call.chunks.flatMap ChunkWrite.positions

variable {call : Call}

/-- A call that ends before anything is encoded. -/
theorem answers_precheck {outcome : Except String (List EncodedSubChunk)} (h : precheck call = some outcome) :
    Answers codec air call outcome where
  whole := by rw [h, Option.getD_some]
  failing hnone := nomatch h.symm.trans hnone
  positions hnone := nomatch h.symm.trans hnone

theorem answers_single (h : precheck call = none) (hworkers : call.workers = 1) :
    Answers codec air call (encodeRange codec air call.chunks) where
  whole := by rw [h, Option.getD_none]
  failing _ error herror := ⟨[], call.chunks, [], by rw [hworkers, ranges_one]; rfl, nofun, herror⟩
  positions _ values hvalues := encodeRange_positions hvalues

/-- What the calling thread knows. -/
def PhaseInv (codec : PayloadCodec) (air : RuntimeId) : Phase → Prop
  | .idle => True
  | .replacing call => precheck call = none ∧ 0 < call.workers
  | .working call left pending result => precheck call = none ∧ 0 < call.workers ∧
    ∃ done, ranges call.workers call.chunks = done ++ (pending.map Task.chunks ++ left) ∧
      (∀ range ∈ done, ∃ values, encodeRange codec air range = .ok values) ∧
      encodeRange codec air done.flatten = .ok result
  | .returned call outcome => Answers codec air call outcome

theorem phaseInv_begin (h : precheck call = none) (hworkers : 0 < call.workers) :
    PhaseInv codec air (.working call (ranges call.workers call.chunks) [] []) :=
  ⟨h, hworkers, [], rfl, nofun, rfl⟩

variable {state next : State}

/-- The next future. -/
theorem phaseInv_collect {result : List EncodedSubChunk} {pending : List Task}
    (h : PhaseInv codec air (.working call [] pending result))
    (hnext : collectResult codec air state call result pending = some next) :
    PhaseInv codec air next.phase := by
  obtain ⟨hcheck, hworkers, done, hranges, hdone, hresult⟩ := h
  rw [List.append_nil] at hranges
  have hflat := flatten_ranges hworkers call.chunks
  cases pending with
  | nil =>
    cases hnext
    rw [List.map_nil, List.append_nil] at hranges
    rw [hranges] at hflat
    rw [hflat] at hresult
    refine ⟨?_, nofun, fun _ values hvalues => ?_⟩
    · rw [hcheck, Option.getD_none, hresult]
    · cases hvalues
      exact encodeRange_positions hresult
  | cons task pending =>
    rw [collectResult] at hnext
    obtain ⟨_, hnext⟩ := NestedLoop.then_of_some hnext
    split at hnext
    case h_1 error herror =>
      cases hnext
      rw [hranges, List.map_cons] at hflat
      refine ⟨?_, fun _ other hother => ?_, nofun⟩
      · rw [hcheck, Option.getD_none, ← hflat, encodeRange_of_failed hresult herror]
      · cases hother
        exact ⟨done, task.chunks, pending.map Task.chunks, hranges, hdone, herror⟩
    case h_2 values hvalues =>
      cases hnext
      refine ⟨hcheck, hworkers, done ++ [task.chunks], ?_, ?_, ?_⟩
      · rw [hranges, List.append_nil, List.map_cons, List.append_assoc, List.singleton_append]
      · exact List.forall_mem_append.mpr ⟨hdone, List.forall_mem_singleton.mpr ⟨values, hvalues⟩⟩
      · rw [List.flatten_append, List.flatten_singleton, encodeRange_append, hresult, hvalues]
        rfl

/-- One step, of the calling thread or of a worker. -/
theorem phaseInv_step {action : Action} (h : PhaseInv codec air state.phase)
    (hstep : step codec air state action = some next) : PhaseInv codec air next.phase := by
  cases action with
  | call call =>
    rw [step] at hstep
    obtain ⟨hfree, hstep⟩ := NestedLoop.then_of_some hstep
    cases hstep
    rw [beginCall]
    split
    case h_1 outcome hcheck => exact answers_precheck hcheck
    case h_2 hcheck =>
      split_ifs with hone
      · exact answers_single hcheck hone
      · exact phaseInv_begin hcheck hfree.2
      · exact ⟨hcheck, hfree.2⟩
  | replace =>
    rw [step] at hstep
    split at hstep
    case h_1 call hphase =>
      rw [hphase] at h
      rw [replacePool] at hstep
      obtain ⟨-, hstep⟩ := NestedLoop.then_of_some hstep
      cases hstep
      exact phaseInv_begin h.1 h.2
    case h_2 => cases hstep
  | submit =>
    rw [step] at hstep
    split at hstep
    case h_1 pool call range left pending result hpool hphase =>
      rw [hphase] at h
      rw [submitRange] at hstep
      obtain ⟨-, hstep⟩ := NestedLoop.then_of_some hstep
      cases hstep
      obtain ⟨hcheck, hworkers, done, hranges, hdone, hresult⟩ := h
      refine ⟨hcheck, hworkers, done, ?_, hdone, hresult⟩
      rw [hranges, List.map_append, List.map_singleton, List.append_assoc, List.singleton_append]
    case h_2 => cases hstep
  | start =>
    rw [step] at hstep
    split at hstep
    case h_1 =>
      obtain ⟨-, hstep⟩ := NestedLoop.then_of_some hstep
      cases hstep
      exact h
    case h_2 => cases hstep
  | finish ticket =>
    rw [step] at hstep
    split at hstep
    case h_1 =>
      obtain ⟨-, hstep⟩ := NestedLoop.then_of_some hstep
      cases hstep
      exact h
    case h_2 => cases hstep
  | collect =>
    rw [step] at hstep
    split at hstep
    case h_1 call pending result hphase =>
      rw [hphase] at h
      exact phaseInv_collect h hstep
    case h_2 => cases hstep
  | close =>
    rw [step] at hstep
    obtain ⟨-, hstep⟩ := NestedLoop.then_of_some hstep
    cases hstep
    trivial

end Answers

section Joining

variable {codec : PayloadCodec} {air : RuntimeId}

/-- The tasks the calling thread will still ask for. -/
def Phase.pending : Phase → List Task
  | .working _ _ pending _ => pending
  | _ => []

/-- The submitted tasks that are not finished. -/
def State.active (state : State) : List Task := state.pool.elim [] fun pool => pool.queue ++ pool.running

/-- The tickets of all tasks, finished or not. -/
def State.known (state : State) : List ℕ := state.active.map Task.ticket ++ state.ready

/-- Only the last of the ranges may fail. -/
def LastFails (codec : PayloadCodec) (air : RuntimeId) (ranges : List (List ChunkWrite)) : Prop :=
  ∀ range ∈ ranges.dropLast, ∃ values, encodeRange codec air range = .ok values

def Phase.LastFails (codec : PayloadCodec) (air : RuntimeId) : Phase → Prop
  | .replacing call => EncodeChunks.LastFails codec air (ranges call.workers call.chunks)
  | .working _ left pending _ => EncodeChunks.LastFails codec air (pending.map Task.chunks ++ left)
  | _ => True

/-- What holds of the pool: the calling thread still waits for every task there, and no future is ready
before its task is finished. -/
structure PoolInv (codec : PayloadCodec) (air : RuntimeId) (state : State) : Prop where
  awaited : ∀ task ∈ state.active, task ∈ state.phase.pending
  nodup : state.known.Nodup
  issued : ∀ ticket ∈ state.known, ticket < state.tickets
  lastFails : state.phase.LastFails codec air

variable {range : List ChunkWrite} {state : State} {phase : Phase} {next : State} {call : Call}
  {ranges : List (List ChunkWrite)} {pool : Pool} {pending : List Task} {result : List EncodedSubChunk}
  {ticket : ℕ}

theorem lastFails_tail (h : LastFails codec air (range :: ranges)) : LastFails codec air ranges := by
  cases ranges with
  | nil => exact nofun
  | cons next rest => exact fun other hother => h other (List.mem_cons_of_mem _ hother)

/-- A range that fails is the last one. -/
theorem eq_nil_of_lastFails {error : String} (h : LastFails codec air (range :: ranges))
    (herror : encodeRange codec air range = .error error) : ranges = [] := by
  cases ranges with
  | nil => rfl
  | cons next rest =>
    obtain ⟨values, hvalues⟩ := h range List.mem_cons_self
    exact nomatch herror.symm.trans hvalues

theorem joined_of_active (h : state.active = []) : state.Joined := by
  intro pool hpool
  rw [State.active, Option.mem_def.mp hpool, Option.elim_some] at h
  exact List.append_eq_nil_iff.mp h

theorem PoolInv.active_eq_nil (h : PoolInv codec air state) (hpending : state.phase.pending = []) :
    state.active = [] :=
  List.eq_nil_iff_forall_not_mem.mpr fun task htask => List.not_mem_nil (hpending ▸ h.awaited task htask)

/-- A task whose future is ready is not in the pool. -/
theorem PoolInv.not_mem_active (h : PoolInv codec air state) {task : Task} (hready : task.ticket ∈ state.ready) :
    task ∉ state.active := fun htask =>
  (List.nodup_append.mp h.nodup).2.2 _ (List.mem_map_of_mem htask) _ hready rfl

/-- The steps that leave the tasks alone. -/
theorem PoolInv.of_phase (h : PoolInv codec air state) (hawaited : ∀ task ∈ state.active, task ∈ phase.pending)
    (hlast : phase.LastFails codec air) : PoolInv codec air { state with phase := phase } where
  awaited := hawaited
  nodup := h.nodup
  issued := h.issued
  lastFails := hlast

/-- The steps of the workers only move tasks. -/
theorem PoolInv.of_perm (h : PoolInv codec air state) (hactive : next.active ⊆ state.active)
    (hknown : next.known.Perm state.known) (htickets : next.tickets = state.tickets)
    (hphase : next.phase = state.phase) : PoolInv codec air next where
  awaited task htask := hphase ▸ h.awaited task (hactive htask)
  nodup := hknown.nodup_iff.mpr h.nodup
  issued ticket hticket := htickets ▸ h.issued ticket (hknown.subset hticket)
  lastFails := hphase ▸ h.lastFails

/-- A new pool has no tasks. -/
theorem PoolInv.of_pool (h : PoolInv codec air state) {pool : Option Pool}
    (hactive : (pool.elim [] fun pool => pool.queue ++ pool.running) = []) (hlast : phase.LastFails codec air) :
    PoolInv codec air { state with pool := pool, phase := phase } where
  awaited task htask := by
    rw [State.active, hactive] at htask
    cases htask
  nodup := by
    rw [State.known, State.active, hactive]
    exact (List.nodup_append.mp h.nodup).2.1
  issued ticket hticket := by
    rw [State.known, State.active, hactive] at hticket
    exact h.issued ticket (List.mem_append_right _ hticket)
  lastFails := hlast

theorem pending_of_free (h : phase.free = true) : phase.pending = [] := by
  cases phase with
  | idle => rfl
  | replacing call => cases h
  | working call left pending result => cases h
  | returned call outcome => rfl

theorem poolInv_call (h : PoolInv codec air state) (hfree : state.phase.free = true)
    (hquiet : Quiet codec air state (.call call)) : PoolInv codec air (beginCall codec air state call) := by
  have hactive := h.active_eq_nil (pending_of_free hfree)
  have hawaited : ∀ phase : Phase, ∀ task ∈ state.active, task ∈ phase.pending := by
    intro phase task htask
    rw [hactive] at htask
    cases htask
  rw [beginCall]
  split
  case h_1 outcome hcheck => exact h.of_phase (hawaited _) trivial
  case h_2 hcheck =>
    split_ifs
    · exact h.of_phase (hawaited _) trivial
    · exact h.of_phase (hawaited _) (hquiet hcheck)
    · exact h.of_phase (hawaited _) (hquiet hcheck)

theorem poolInv_submit {left : List (List ChunkWrite)} (h : PoolInv codec air state)
    (hpool : state.pool = some pool) (hphase : state.phase = .working call (range :: left) pending result)
    (hnext : submitRange state pool call range left pending result = some next) : PoolInv codec air next := by
  rw [submitRange] at hnext
  obtain ⟨-, hnext⟩ := NestedLoop.then_of_some hnext
  cases hnext
  have hactive : state.active = pool.queue ++ pool.running := by rw [State.active, hpool, Option.elim_some]
  have hperm : List.Perm (pool.queue ++ [(⟨state.tickets, range⟩ : Task)] ++ pool.running)
      ((⟨state.tickets, range⟩ : Task) :: state.active) := by
    rw [hactive, List.append_assoc, List.singleton_append]
    exact List.perm_middle
  have hknown := (hperm.map Task.ticket).append_right state.ready
  have hnew : state.tickets ∉ state.known := fun hmem => lt_irrefl _ (h.issued _ hmem)
  refine ⟨fun task htask => ?_, hknown.nodup_iff.mpr (List.nodup_cons.mpr ⟨hnew, h.nodup⟩),
    fun ticket hticket => ?_, ?_⟩
  · rcases List.mem_cons.mp (hperm.subset htask) with rfl | htask
    · exact List.mem_append_right _ (List.mem_singleton_self _)
    · have hmem := h.awaited task htask
      rw [hphase] at hmem
      exact List.mem_append_left _ hmem
  · rcases List.mem_cons.mp (hknown.subset hticket) with rfl | hticket
    · exact Nat.lt_succ_self _
    · exact Nat.lt_succ_of_lt (h.issued ticket hticket)
  · have hlast := h.lastFails
    rw [hphase] at hlast
    change LastFails codec air ((pending ++ [(⟨state.tickets, range⟩ : Task)]).map Task.chunks ++ left)
    rw [List.map_append, List.append_assoc]
    exact hlast

/-- A failure is seen when every other task is finished. -/
theorem poolInv_collect (h : PoolInv codec air state) (hphase : state.phase = .working call [] pending result)
    (hnext : collectResult codec air state call result pending = some next) : PoolInv codec air next := by
  have hlast := h.lastFails
  have hawaited := h.awaited
  rw [hphase] at hlast hawaited
  cases pending with
  | nil =>
    cases hnext
    exact h.of_phase hawaited trivial
  | cons task pending =>
    change LastFails codec air (task.chunks :: (pending.map Task.chunks ++ [])) at hlast
    rw [collectResult] at hnext
    obtain ⟨hready, hnext⟩ := NestedLoop.then_of_some hnext
    have hrest : ∀ other ∈ state.active, other ∈ pending := fun other hother =>
      (List.mem_cons.mp (hawaited other hother)).resolve_left fun heq =>
        h.not_mem_active hready (heq ▸ hother)
    split at hnext
    case h_1 error herror =>
      cases hnext
      have hnil := List.map_eq_nil_iff.mp (List.append_eq_nil_iff.mp (eq_nil_of_lastFails hlast herror)).1
      rw [hnil] at hrest
      exact h.of_phase hrest trivial
    case h_2 values hvalues =>
      cases hnext
      exact h.of_phase hrest (lastFails_tail hlast)

/-- The task that is finished leaves the pool, and its ticket becomes ready. -/
theorem perm_finish {queue running : List Task} {ready : List ℕ}
    (hnodup : ((queue ++ running).map Task.ticket ++ ready).Nodup) (hmem : ticket ∈ running.map Task.ticket) :
    ((queue ++ running.filter fun task => task.ticket ≠ ticket).map Task.ticket ++ ticket :: ready).Perm
      ((queue ++ running).map Task.ticket ++ ready) := by
  rw [List.map_append] at hnodup
  have hrunning := (List.nodup_append.mp (List.nodup_append.mp hnodup).1).2.1
  have hfilter : (running.filter fun task => task.ticket ≠ ticket).map Task.ticket =
      (running.map Task.ticket).erase ticket := by
    rw [hrunning.erase_eq_filter, List.filter_map]
    congr 1
    refine List.filter_congr fun task _ => ?_
    exact decide_not
  rw [List.map_append, List.map_append, hfilter]
  refine List.perm_middle.trans ?_
  rw [← List.cons_append]
  refine List.Perm.append_right ready ?_
  exact List.perm_middle.symm.trans ((List.perm_cons_erase hmem).symm.append_left _)

theorem poolInv_finish (h : PoolInv codec air state) (hpool : state.pool = some pool)
    (hmem : ticket ∈ pool.running.map Task.ticket) :
    PoolInv codec air { state with
      pool := some { pool with running := pool.running.filter fun task => task.ticket ≠ ticket }
      ready := ticket :: state.ready } := by
  have hactive : state.active = pool.queue ++ pool.running := by rw [State.active, hpool, Option.elim_some]
  have hknown := h.nodup
  rw [State.known, hactive] at hknown
  refine h.of_perm ?_ ?_ rfl rfl
  · rw [hactive]
    exact (List.filter_sublist.append_left pool.queue).subset
  · rw [State.known, State.known, hactive]
    exact perm_finish hknown hmem

/-- One step of a quiet call, of the calling thread or of a worker. -/
theorem poolInv_step {action : Action} (h : PoolInv codec air state) (hquiet : Quiet codec air state action)
    (hstep : step codec air state action = some next) : PoolInv codec air next := by
  cases action with
  | call call =>
    rw [step] at hstep
    obtain ⟨hfree, hstep⟩ := NestedLoop.then_of_some hstep
    cases hstep
    exact poolInv_call h hfree.1 hquiet
  | replace =>
    rw [step] at hstep
    split at hstep
    case h_1 call hphase =>
      rw [replacePool] at hstep
      obtain ⟨-, hstep⟩ := NestedLoop.then_of_some hstep
      cases hstep
      have hlast := h.lastFails
      rw [hphase] at hlast
      exact h.of_pool rfl hlast
    case h_2 => cases hstep
  | submit =>
    rw [step] at hstep
    split at hstep
    case h_1 pool call range left pending result hpool hphase => exact poolInv_submit h hpool hphase hstep
    case h_2 => cases hstep
  | start =>
    rw [step] at hstep
    split at hstep
    case h_1 workers task queue running hpool =>
      obtain ⟨-, hstep⟩ := NestedLoop.then_of_some hstep
      cases hstep
      have hactive : state.active = task :: queue ++ running := by rw [State.active, hpool, Option.elim_some]
      have hperm : (queue ++ task :: running).Perm state.active := hactive ▸ List.perm_middle
      exact h.of_perm hperm.subset ((hperm.map Task.ticket).append_right state.ready) rfl rfl
    case h_2 => cases hstep
  | finish ticket =>
    rw [step] at hstep
    split at hstep
    case h_1 pool hpool =>
      obtain ⟨hrunning, hstep⟩ := NestedLoop.then_of_some hstep
      cases hstep
      obtain ⟨task, htask, hticket⟩ := List.any_eq_true.mp hrunning
      exact poolInv_finish h hpool (of_decide_eq_true hticket ▸ List.mem_map_of_mem htask)
    case h_2 => cases hstep
  | collect =>
    rw [step] at hstep
    split at hstep
    case h_1 call pending result hphase => exact poolInv_collect h hphase hstep
    case h_2 => cases hstep
  | close =>
    rw [step] at hstep
    obtain ⟨-, hstep⟩ := NestedLoop.then_of_some hstep
    cases hstep
    exact h.of_pool rfl trivial

/-- In a run of quiet calls every call returns what one worker would return, and it returns with an empty
pool. -/
theorem encodeChunks_joined (codec : PayloadCodec) (air : RuntimeId) (state : State)
    (hreach : TransitionSystem.ReachableBy (Quiet codec air) (step codec air) {} state) (call : Call)
    (outcome : Except String (List EncodedSubChunk)) (hphase : state.phase = .returned call outcome) :
    Answers codec air call outcome ∧ state.Joined := by
  have hinit : PhaseInv codec air ({} : State).phase ∧ PoolInv codec air {} :=
    ⟨trivial, nofun, List.nodup_nil, nofun, trivial⟩
  obtain ⟨hanswers, hpool⟩ := @TransitionSystem.ReachableBy.invariant _ _ _ _ _ _
    (fun state => PhaseInv codec air state.phase ∧ PoolInv codec air state) hreach hinit
    fun _ _ _ h hquiet hstep => ⟨phaseInv_step h.1 hstep, poolInv_step h.2 hquiet hstep⟩
  rw [hphase] at hanswers
  refine ⟨hanswers, joined_of_active (hpool.active_eq_nil ?_)⟩
  rw [hphase]
  rfl

/-- A codec that takes every layer. -/
def plainCodec : PayloadCodec where
  setBlocks _ _ := true
  encode _ _ index := .ok [UInt8.ofNat index.toNat]

/-- A chunk with one subchunk of air. -/
def oneSubChunk (x subY : ℤ) : ChunkWrite := ⟨⟨x, 0⟩, some { subChunks := AList.insert subY (.filled 0) ∅ }⟩

/-- A chunk without subchunks, and one whose subchunk lies above the world. -/
def lastAbove : Call where
  chunks := [⟨⟨0, 0⟩, some {}⟩, oneSubChunk 1 20]
  workers := 2

/-- The same chunks the other way round. -/
def firstAbove : Call where
  chunks := [oneSubChunk 1 20, ⟨⟨0, 0⟩, some {}⟩]
  workers := 2

theorem encodeChunks_joined_lastAbove : ∃ (state : State) (outcome : _), state.phase = .returned lastAbove outcome ∧
    Answers plainCodec 0 lastAbove outcome ∧ state.Joined := by
  have hquiet : ∀ state, ∀ action ∈ [Action.call lastAbove, .replace, .submit, .submit, .start, .start, .finish 1,
      .finish 0, .collect, .collect], Quiet plainCodec 0 state action := by
    intro state action haction
    cases action with
    | call call =>
      have hcall : call = lastAbove := by simpa using haction
      intro _ range hrange
      rw [hcall] at hrange
      rw [show range = [⟨⟨0, 0⟩, some {}⟩] from List.mem_singleton.mp hrange]
      exact ⟨[], rfl⟩
    | _ => trivial
  have hstart : TransitionSystem.ReachableBy (Quiet plainCodec 0) (step plainCodec 0) {} {} := .start
  have hreach := hstart.of_run hquiet rfl
  exact ⟨_, _, rfl, encodeChunks_joined plainCodec 0 _ hreach _ _ rfl⟩

/-- The first of two ranges has failed while the second one is still queued. -/
theorem encodeChunks_not_joined : ¬ ∀ (codec : PayloadCodec) (air : RuntimeId) (state : State),
    TransitionSystem.Reachable (step codec air) {} state → ∀ call outcome,
      state.phase = .returned call outcome → Answers codec air call outcome ∧ state.Joined := by
  intro h
  have hrun : TransitionSystem.run (step plainCodec 0) {}
      [.call firstAbove, .replace, .submit, .submit, .start, .finish 0, .collect] = some _ := rfl
  have hreach := TransitionSystem.Reachable.start.of_run hrun
  obtain ⟨hqueue, -⟩ := (h plainCodec 0 _ hreach _ _ rfl).2 _ rfl
  exact nomatch hqueue

end Joining

end EncodeChunks

end WaterStructure
