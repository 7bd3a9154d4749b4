import Mathlib.Data.List.Infix
import WaterStructure.Library.TransitionSystem

/-!
# The bounded chunk stream

`ChunkStream::pump` runs a producer on the calling thread and the downstream sink on one
consumer thread. Both share a `QueueSink`, whose methods each hold one mutex. The model takes
every locked section and every call of the downstream sink as one atomic step; a wait on a
condition variable is a step that is enabled when its predicate holds. The sink may answer
any call with success or failure.

The ghost field `attempted` lists the chunks the producer handed to `push`, and `calls` the
calls the downstream sink has seen.
-/

namespace WaterStructure.ChunkStream

/-- `Result<void>`: success, or an error text. -/
abbrev Outcome := Except String Unit

/-- The rest of a producer: it ends with a result, or pushes one chunk and goes on with
whatever it does after seeing the answer. An exception that leaves the producer is turned
into a failure by `pump`. -/
inductive Producer (Chunk : Type*) where
  | done (result : Outcome)
  | push (chunk : Chunk) (next : Outcome → Producer Chunk)

structure QueueSink (Chunk : Type*) where
  queue : List Chunk
  error : Option String
  closed : Bool

namespace QueueSink

variable {Chunk : Type*}

/-- The locked part of `push`; `none` while the producer has to wait for space. -/
def push (capacity : ℕ) (sink : QueueSink Chunk) (chunk : Chunk) :
    Option (Outcome × QueueSink Chunk) :=
  if sink.closed || sink.error.isSome || decide (sink.queue.length < max capacity 1) then
    match sink.error with
    | some error => some (.error error, sink)
    | none =>
      if sink.closed then some (.error "chunk stream 已取消", sink)
      else some (.ok (), { sink with queue := sink.queue ++ [chunk] })
  else none

def close (sink : QueueSink Chunk) : QueueSink Chunk := { sink with closed := true }

/-- The locked part of `fail`: the first error stays, and waiting chunks are dropped. -/
def fail (sink : QueueSink Chunk) (error : String) : QueueSink Chunk :=
  { queue := [], error := some (sink.error.getD error), closed := true }

/-- What the consumer finds when it holds the lock. -/
inductive Taken (Chunk : Type*) where
  | chunk (chunk : Chunk) (sink : QueueSink Chunk)
  | stop (result : Outcome)

/-- The locked part of one turn of `consume`; `none` while the consumer has to wait. -/
def take (sink : QueueSink Chunk) : Option (Taken Chunk) :=
  match sink.queue with
  | chunk :: rest => some (.chunk chunk { sink with queue := rest })
  | [] =>
    if sink.closed then
      match sink.error with
      | some error => some (.stop (.error error))
      | none => some (.stop (.ok ()))
    else none

/-- A push either reports why the stream is over, or appends to a queue that has room. -/
theorem push_cases {capacity : ℕ} {sink sink' : QueueSink Chunk} {chunk : Chunk}
    {result : Outcome} (h : sink.push capacity chunk = some (result, sink')) :
    (sink' = sink ∧ (∃ error, result = .error error) ∧
        (sink.error.isSome = true ∨ sink.closed = true)) ∨
      (result = .ok () ∧ sink.error = none ∧ sink.closed = false ∧
        sink.queue.length < max capacity 1 ∧ sink' = { sink with queue := sink.queue ++ [chunk] }) := by
  unfold push at h
  split at h
  case isFalse => cases h
  case isTrue hguard =>
    split at h
    case h_1 error herror =>
      cases h
      exact .inl ⟨rfl, ⟨error, rfl⟩, .inl (by rw [herror]; rfl)⟩
    case h_2 herror =>
      split_ifs at h with hopen
      · cases h
        exact .inl ⟨rfl, ⟨_, rfl⟩, .inr hopen⟩
      · cases h
        have hroom : sink.queue.length < max capacity 1 := by
          simpa [herror, hopen] using hguard
        exact .inr ⟨rfl, herror, by simpa using hopen, hroom, rfl⟩

/-- The consumer receives the head of the queue, or learns how the closed stream ended. -/
theorem take_cases {sink : QueueSink Chunk} {taken : Taken Chunk} (h : sink.take = some taken) :
    (∃ chunk rest, sink.queue = chunk :: rest ∧ taken = .chunk chunk { sink with queue := rest }) ∨
      (∃ error, sink.queue = [] ∧ sink.error = some error ∧ taken = .stop (.error error)) ∨
      (sink.queue = [] ∧ sink.closed = true ∧ sink.error = none ∧ taken = .stop (.ok ())) := by
  unfold take at h
  split at h
  case h_1 chunk rest hqueue =>
    cases h
    exact .inl ⟨chunk, rest, hqueue, rfl⟩
  case h_2 hqueue =>
    split at h
    case isFalse => cases h
    case isTrue hclosed =>
      split at h
      case h_1 error herror =>
        cases h
        exact .inr (.inl ⟨error, hqueue, herror, rfl⟩)
      case h_2 herror =>
        cases h
        exact .inr (.inr ⟨hqueue, hclosed, herror, rfl⟩)

end QueueSink

/-- Where the calling thread stands in `pump`. -/
inductive MainPhase (Chunk : Type*) where
  | producing (rest : Producer Chunk)
  | failing (error : String)
  | cancelling (error : String)
  | closing (result : Outcome)
  | joining (result : Outcome)
  | finishing
  | returned (result : Outcome)

/-- Where the consumer thread stands in `consume`. -/
inductive ConsumerPhase (Chunk : Type*) where
  | waiting
  | holding (chunk : Chunk)
  | failing (error : String)
  | cancelling (error : String)
  | stopped (result : Outcome)

/-- A call of the downstream sink; a `push` is recorded with its answer. -/
inductive SinkCall (Chunk : Type*) where
  | push (chunk : Chunk) (accepted : Bool)
  | finish
  | cancel

structure PumpState (Chunk : Type*) where
  sink : QueueSink Chunk
  main : MainPhase Chunk
  consumer : ConsumerPhase Chunk
  attempted : List Chunk
  producerResult : Option Outcome
  calls : List (SinkCall Chunk)

/-- Each thread's next step; the answer is used when that step calls the downstream sink. -/
inductive Action where
  | main (answer : Outcome)
  | consumer (answer : Outcome)

variable {Chunk : Type*}

/-- The answer is a success. -/
def succeeded : Outcome → Bool
  | .ok _ => true
  | .error _ => false

/-- `pump` before the producer has started. -/
def PumpState.initial (producer : Producer Chunk) : PumpState Chunk where
  sink := ⟨[], none, false⟩
  main := .producing producer
  consumer := .waiting
  attempted := []
  producerResult := none
  calls := []

/-- Where `pump` goes after the join: the producer's failure comes first, then the consumer's,
then an error left in the queue. -/
def afterJoin : (producerResult consumerResult : Outcome) → Option String → MainPhase Chunk
  | .error error, _, _ => .returned (.error error)
  | .ok (), .error error, _ => .returned (.error error)
  | .ok (), .ok (), some error => .returned (.error error)
  | .ok (), .ok (), none => .finishing

/-- One step of the calling thread. -/
def PumpState.stepMain (capacity : ℕ) (s : PumpState Chunk) (answer : Outcome) :
    Option (PumpState Chunk) :=
  match s.main with
  | .producing (.push chunk next) =>
    match s.sink.push capacity chunk with
    | none => none
    | some (result, sink) =>
      some { s with sink, main := .producing (next result), attempted := s.attempted ++ [chunk] }
  | .producing (.done (.ok ())) =>
    some { s with main := .closing (.ok ()), producerResult := some (.ok ()) }
  | .producing (.done (.error error)) =>
    some { s with main := .failing error, producerResult := some (.error error) }
  | .failing error => some { s with sink := s.sink.fail error, main := .cancelling error }
  | .cancelling error => some { s with main := .closing (.error error), calls := s.calls ++ [.cancel] }
  | .closing result => some { s with sink := s.sink.close, main := .joining result }
  | .joining result =>
    match s.consumer with
    | .stopped consumerResult =>
      some { s with main := afterJoin result consumerResult s.sink.error }
    | _ => none
  | .finishing => some { s with main := .returned answer, calls := s.calls ++ [.finish] }
  | .returned _ => none

/-- One step of the consumer thread. -/
def PumpState.stepConsumer (s : PumpState Chunk) (answer : Outcome) : Option (PumpState Chunk) :=
  match s.consumer with
  | .waiting =>
    match s.sink.take with
    | none => none
    | some (.chunk chunk sink) => some { s with sink, consumer := .holding chunk }
    | some (.stop result) => some { s with consumer := .stopped result }
  | .holding chunk =>
    let calls := s.calls ++ [.push chunk (succeeded answer)]
    match answer with
    | .ok () => some { s with consumer := .waiting, calls }
    | .error error => some { s with consumer := .failing error, calls }
  | .failing error => some { s with sink := s.sink.fail error, consumer := .cancelling error }
  | .cancelling error =>
    some { s with consumer := .stopped (.error error), calls := s.calls ++ [.cancel] }
  | .stopped _ => none

/-- One step of either thread, for a queue of the given capacity. -/
def PumpState.step (capacity : ℕ) (s : PumpState Chunk) : Action → Option (PumpState Chunk)
  | .main answer => s.stepMain capacity answer
  | .consumer answer => s.stepConsumer answer

/-- The states of `pump` under some interleaving of its two threads. -/
def Reachable (capacity : ℕ) (producer : Producer Chunk) : PumpState Chunk → Prop :=
  TransitionSystem.Reachable (PumpState.step capacity) (PumpState.initial producer)

end WaterStructure.ChunkStream
