import WaterStructure.Core.ChunkStream

/-!
# Delivery through the chunk stream

What the downstream sink has seen, together with the chunk in the consumer's hand and the
queue, is always an initial segment of what the producer pushed, and is all of it as long as
no error is recorded. An error is recorded only by a side that has failed, and only a side
that has failed keeps `pump` from calling `finish`.
-/

namespace WaterStructure.ChunkStream

variable {Chunk : Type*}

/-- The chunks the downstream sink was given, in call order. -/
def received (calls : List (SinkCall Chunk)) : List Chunk :=
  calls.filterMap fun
    | .push chunk _ => some chunk
    | _ => none

/-- The chunks the downstream sink accepted, in call order. -/
def accepted (calls : List (SinkCall Chunk)) : List Chunk :=
  calls.filterMap fun
    | .push chunk true => some chunk
    | _ => none

/-- How often `finish` was called. -/
def finishes (calls : List (SinkCall Chunk)) : ℕ :=
  calls.countP fun
    | .finish => true
    | _ => false

/-- The chunk that left the queue and has not reached the sink. -/
def ConsumerPhase.held : ConsumerPhase Chunk → List Chunk
  | .holding chunk => [chunk]
  | _ => []

/-- The consumer has seen a failure. -/
def ConsumerPhase.failed : ConsumerPhase Chunk → Bool
  | .failing _ | .cancelling _ | .stopped (.error _) => true
  | _ => false

/-- The calling thread has closed the queue. -/
def MainPhase.afterClose : MainPhase Chunk → Bool
  | .joining _ | .finishing | .returned _ => true
  | _ => false

@[simp] theorem received_append (calls more : List (SinkCall Chunk)) :
    received (calls ++ more) = received calls ++ received more :=
  List.filterMap_append

@[simp] theorem accepted_append (calls more : List (SinkCall Chunk)) :
    accepted (calls ++ more) = accepted calls ++ accepted more :=
  List.filterMap_append

@[simp] theorem finishes_append (calls more : List (SinkCall Chunk)) :
    finishes (calls ++ more) = finishes calls + finishes more :=
  List.countP_append

@[simp] theorem received_push (chunk : Chunk) (answer : Bool) :
    received [.push chunk answer] = [chunk] := rfl

@[simp] theorem received_cancel : received [(.cancel : SinkCall Chunk)] = [] := rfl

@[simp] theorem received_finish : received [(.finish : SinkCall Chunk)] = [] := rfl

@[simp] theorem accepted_push (chunk : Chunk) : accepted [.push chunk true] = [chunk] := rfl

@[simp] theorem accepted_cancel : accepted [(.cancel : SinkCall Chunk)] = [] := rfl

@[simp] theorem accepted_finish : accepted [(.finish : SinkCall Chunk)] = [] := rfl

@[simp] theorem finishes_push (chunk : Chunk) (answer : Bool) :
    finishes [.push chunk answer] = 0 := rfl

@[simp] theorem finishes_cancel : finishes [(.cancel : SinkCall Chunk)] = 0 := rfl

@[simp] theorem finishes_finish : finishes [(.finish : SinkCall Chunk)] = 1 := rfl

/-- What the phase of the calling thread says about the results so far. -/
def MainSound (s : PumpState Chunk) : Prop :=
  match s.main with
  | .producing _ => s.producerResult = none ∧ finishes s.calls = 0
  | .failing error => s.producerResult = some (.error error) ∧ finishes s.calls = 0
  | .cancelling error =>
    s.producerResult = some (.error error) ∧ s.sink.error.isSome = true ∧ finishes s.calls = 0
  | .closing result | .joining result =>
    s.producerResult = some result ∧ (succeeded result = false → s.sink.error.isSome = true) ∧
      finishes s.calls = 0
  | .finishing =>
    s.producerResult = some (.ok ()) ∧ s.consumer = .stopped (.ok ()) ∧ finishes s.calls = 0
  | .returned result =>
    ∃ producer consumer, s.producerResult = some producer ∧ s.consumer = .stopped consumer ∧
      finishes s.calls = (if succeeded producer && succeeded consumer then 1 else 0) ∧
      (succeeded result = true → succeeded producer = true ∧ succeeded consumer = true)

/-- The facts every interleaving keeps. -/
structure PumpInvariant (capacity : ℕ) (s : PumpState Chunk) : Prop where
  bounded : s.sink.queue.length ≤ max capacity 1
  inOrder : received s.calls ++ s.consumer.held ++ s.sink.queue <+: s.attempted
  complete : s.sink.error = none →
    received s.calls ++ s.consumer.held ++ s.sink.queue = s.attempted
  errorClears : s.sink.error.isSome = true → s.sink.queue = [] ∧ s.sink.closed = true
  closedLate : s.sink.closed = true → s.sink.error.isSome = true ∨ s.main.afterClose = true
  stoppedWell : s.consumer = .stopped (.ok ()) →
    s.sink.error = none ∧ s.sink.queue = [] ∧ s.sink.closed = true
  acceptedAll : s.consumer.failed = false → accepted s.calls = received s.calls
  main : MainSound s

/-- Nothing has happened yet. -/
theorem PumpInvariant.initial (capacity : ℕ) (producer : Producer Chunk) :
    PumpInvariant capacity (PumpState.initial producer) where
  bounded := by simp [PumpState.initial]
  inOrder := by simp [PumpState.initial, received, ConsumerPhase.held]
  complete := by simp [PumpState.initial, received, ConsumerPhase.held]
  errorClears := by simp [PumpState.initial]
  closedLate := by simp [PumpState.initial]
  stoppedWell := by simp [PumpState.initial]
  acceptedAll := by simp [PumpState.initial, accepted, received]
  main := ⟨rfl, rfl⟩

/-- Recording an error drops the waiting chunks and keeps the order of the rest. -/
theorem PumpInvariant.fail {capacity : ℕ} {s t : PumpState Chunk} (hs : PumpInvariant capacity s)
    (error : String) (hsink : t.sink = s.sink.fail error) (hcalls : t.calls = s.calls)
    (hheld : t.consumer.held = s.consumer.held) (hattempted : t.attempted = s.attempted)
    (hstopped : t.consumer ≠ .stopped (.ok ()))
    (haccepted : t.consumer.failed = false → s.consumer.failed = false) (hmain : MainSound t) :
    PumpInvariant capacity t where
  bounded := by simp [hsink, QueueSink.fail]
  inOrder := by
    have hprefix : received s.calls ++ s.consumer.held <+: s.attempted :=
      (List.prefix_append _ _).trans hs.inOrder
    simpa [hsink, QueueSink.fail, hcalls, hheld, hattempted] using hprefix
  complete := by simp [hsink, QueueSink.fail]
  errorClears := by simp [hsink, QueueSink.fail]
  closedLate := by simp [hsink, QueueSink.fail]
  stoppedWell := fun h => absurd h hstopped
  acceptedAll := fun h => by rw [hcalls]; exact hs.acceptedAll (haccepted h)
  main := hmain

variable {capacity : ℕ} {s : PumpState Chunk} {result : Outcome} {t : PumpState Chunk}
  {answer : Outcome}

/-- A push by the producer: refused because the stream is over, or queued behind the rest. -/
theorem PumpInvariant.push {chunk : Chunk} {sink : QueueSink Chunk} (hs : PumpInvariant capacity s)
    {next : Outcome → Producer Chunk} (hphase : s.main = .producing (.push chunk next))
    (hpush : s.sink.push capacity chunk = some (result, sink)) :
    PumpInvariant capacity { s with
      sink, main := .producing (next result), attempted := s.attempted ++ [chunk] } := by
  have hmain : s.producerResult = none ∧ finishes s.calls = 0 := by
    simpa [MainSound, hphase] using hs.main
  rcases QueueSink.push_cases hpush with ⟨rfl, -, hover⟩ | ⟨-, hnone, hopen, hroom, rfl⟩
  · -- While the producer runs, the queue is closed only after an error.
    have herror : s.sink.error.isSome = true := by
      rcases hover with herror | hclosed
      · exact herror
      · simpa [hphase, MainPhase.afterClose] using hs.closedLate hclosed
    exact {
      bounded := hs.bounded
      inOrder := hs.inOrder.trans (List.prefix_append _ _)
      complete := fun hnone => by rw [show s.sink.error = none from hnone] at herror; cases herror
      errorClears := hs.errorClears
      closedLate := fun _ => .inl herror
      stoppedWell := hs.stoppedWell
      acceptedAll := hs.acceptedAll
      main := hmain }
  · have hall := hs.complete hnone
    exact {
      bounded := by simpa [Nat.succ_le_iff] using hroom
      inOrder := by simp [← hall]
      complete := fun _ => by simp [← hall]
      errorClears := fun herror => by simp [hnone] at herror
      closedLate := fun hclosed => by simp [hopen] at hclosed
      stoppedWell := fun hstopped => by simp [(hs.stoppedWell hstopped).2.2] at hopen
      acceptedAll := hs.acceptedAll
      main := hmain }

/-- A step of the calling thread that touches neither the queue nor the chunks. -/
theorem PumpInvariant.advance (hs : PumpInvariant capacity s) (hsink : t.sink = s.sink)
    (hconsumer : t.consumer = s.consumer) (hattempted : t.attempted = s.attempted)
    (hreceived : received t.calls = received s.calls)
    (haccepted : accepted t.calls = accepted s.calls)
    (hclosed : s.main.afterClose = true → t.main.afterClose = true) (hmain : MainSound t) :
    PumpInvariant capacity t where
  bounded := hsink ▸ hs.bounded
  inOrder := by rw [hreceived, hconsumer, hsink, hattempted]; exact hs.inOrder
  complete := by rw [hreceived, hconsumer, hsink, hattempted]; exact hs.complete
  errorClears := hsink ▸ hs.errorClears
  closedLate := fun h => (hs.closedLate (hsink ▸ h)).imp (fun herror => hsink ▸ herror) hclosed
  stoppedWell := fun h => by rw [hsink]; exact hs.stoppedWell (hconsumer ▸ h)
  acceptedAll := fun h => by rw [haccepted, hreceived]; exact hs.acceptedAll (hconsumer ▸ h)
  main := hmain

/-- Closing the queue changes nothing that is in flight. -/
theorem PumpInvariant.close (hs : PumpInvariant capacity s) (hphase : s.main = .closing result) :
    PumpInvariant capacity { s with sink := s.sink.close, main := .joining result } where
  bounded := hs.bounded
  inOrder := hs.inOrder
  complete := hs.complete
  errorClears := fun herror => ⟨(hs.errorClears herror).1, rfl⟩
  closedLate := fun _ => .inr rfl
  stoppedWell := fun h => ⟨(hs.stoppedWell h).1, (hs.stoppedWell h).2.1, rfl⟩
  acceptedAll := hs.acceptedAll
  main := by simpa [MainSound, hphase, QueueSink.close] using hs.main

/-- The join picks the producer's failure, then the consumer's, and otherwise finishes. -/
theorem PumpInvariant.join (hs : PumpInvariant capacity s) (hphase : s.main = .joining result)
    (h : s.stepMain capacity answer = some t) : PumpInvariant capacity t := by
  have hmain : s.producerResult = some result ∧
      (succeeded result = false → s.sink.error.isSome = true) ∧ finishes s.calls = 0 := by
    simpa [MainSound, hphase] using hs.main
  cases hconsumer : s.consumer with
  | stopped consumerResult =>
    have hreturn (error : String)
        (hfails : (succeeded result && succeeded consumerResult) = false) :
        PumpInvariant capacity { s with main := .returned (.error error) } :=
      hs.advance rfl rfl rfl rfl rfl (fun _ => rfl)
        ⟨result, consumerResult, hmain.1, hconsumer, by simp [hmain.2.2, hfails],
          fun hfalse => by cases hfalse⟩
    have ht : t = { s with main := afterJoin result consumerResult s.sink.error } := by
      simpa [PumpState.stepMain, hphase, hconsumer, eq_comm] using h
    subst ht
    rcases result with error | ⟨⟩
    · exact hreturn error rfl
    · rcases consumerResult with error | ⟨⟩
      · exact hreturn error rfl
      · -- A consumer that stopped well has seen no error.
        rw [(hs.stoppedWell hconsumer).1]
        exact hs.advance rfl rfl rfl rfl rfl (fun _ => rfl) ⟨hmain.1, hconsumer, hmain.2.2⟩
  | _ => simp [PumpState.stepMain, hphase, hconsumer] at h

/-- Every step of the calling thread keeps the invariant. -/
theorem stepMain_invariant (hs : PumpInvariant capacity s) (h : s.stepMain capacity answer = some t) :
    PumpInvariant capacity t := by
  have hmain := hs.main
  unfold MainSound at hmain
  cases hphase : s.main with
  | joining result => exact hs.join hphase h
  | returned result => simp [PumpState.stepMain, hphase] at h
  | closing result =>
    simp only [PumpState.stepMain, hphase, Option.some.injEq] at h
    exact h ▸ hs.close hphase
  | finishing =>
    simp only [PumpState.stepMain, hphase, Option.some.injEq] at h hmain
    subst h
    refine hs.advance rfl rfl rfl (by simp) (by simp) (fun _ => rfl) ?_
    exact ⟨.ok (), .ok (), hmain.1, hmain.2.1, by simp [hmain.2.2, succeeded], fun _ => ⟨rfl, rfl⟩⟩
  | cancelling error =>
    simp only [PumpState.stepMain, hphase, Option.some.injEq] at h hmain
    subst h
    refine hs.advance rfl rfl rfl (by simp) (by simp) (by simp [hphase, MainPhase.afterClose]) ?_
    exact ⟨hmain.1, fun _ => hmain.2.1, by simp [hmain.2.2]⟩
  | failing error =>
    simp only [PumpState.stepMain, hphase, Option.some.injEq] at h hmain
    subst h
    refine hs.fail error rfl rfl rfl rfl (fun hstopped => ?_) id ⟨hmain.1, rfl, hmain.2⟩
    -- The queue of a consumer that stopped well is closed, and this thread has not closed it.
    obtain ⟨hnone, -, hclosed⟩ := hs.stoppedWell hstopped
    simpa [hnone, hphase, MainPhase.afterClose] using hs.closedLate hclosed
  | producing rest =>
    rw [hphase] at hmain
    cases rest with
    | push chunk next =>
      simp only [PumpState.stepMain, hphase] at h
      split at h
      case h_1 => cases h
      case h_2 result sink hpush =>
        cases h
        exact hs.push hphase hpush
    | done result =>
      have hopen : s.main.afterClose = true → False := by simp [hphase, MainPhase.afterClose]
      cases result with
      | ok =>
        simp only [PumpState.stepMain, hphase, Option.some.injEq] at h
        subst h
        exact hs.advance rfl rfl rfl rfl rfl (fun h => (hopen h).elim)
          ⟨rfl, (fun hfalse => by cases hfalse), hmain.2⟩
      | error error =>
        simp only [PumpState.stepMain, hphase, Option.some.injEq] at h
        subst h
        exact hs.advance rfl rfl rfl rfl rfl (fun h => (hopen h).elim) ⟨rfl, hmain.2⟩

/-- While the consumer has not stopped, the phase of the calling thread does not speak of it. -/
theorem MainSound.of_running (hs : MainSound s) (hrunning : ∀ result, s.consumer ≠ .stopped result)
    (hmain : t.main = s.main) (hresult : t.producerResult = s.producerResult)
    (hcalls : finishes t.calls = finishes s.calls)
    (herror : s.sink.error.isSome = true → t.sink.error.isSome = true) : MainSound t := by
  unfold MainSound at hs ⊢
  rw [hmain, hresult, hcalls]
  cases hphase : s.main with
  | cancelling error =>
    rw [hphase] at hs
    exact ⟨hs.1, herror hs.2.1, hs.2.2⟩
  | closing result =>
    rw [hphase] at hs
    exact ⟨hs.1, fun h => herror (hs.2.1 h), hs.2.2⟩
  | joining result =>
    rw [hphase] at hs
    exact ⟨hs.1, fun h => herror (hs.2.1 h), hs.2.2⟩
  | finishing =>
    rw [hphase] at hs
    exact absurd hs.2.1 (hrunning _)
  | returned result =>
    rw [hphase] at hs
    obtain ⟨_, consumer, _, hconsumer, _⟩ := hs
    exact absurd hconsumer (hrunning consumer)
  | _ => simpa [hphase] using hs

/-- A step of the consumer on an untouched queue, as long as it does not stop well. -/
theorem PumpInvariant.deliver (hs : PumpInvariant capacity s) (hsink : t.sink = s.sink)
    (hmain : t.main = s.main) (hattempted : t.attempted = s.attempted)
    (hflight : received t.calls ++ t.consumer.held = received s.calls ++ s.consumer.held)
    (hstopped : t.consumer ≠ .stopped (.ok ()))
    (haccepted : t.consumer.failed = false → accepted t.calls = received t.calls)
    (hsound : MainSound t) : PumpInvariant capacity t where
  bounded := hsink ▸ hs.bounded
  inOrder := by rw [hflight, hsink, hattempted]; exact hs.inOrder
  complete := by rw [hflight, hsink, hattempted]; exact hs.complete
  errorClears := hsink ▸ hs.errorClears
  closedLate := by rw [hsink, hmain]; exact hs.closedLate
  stoppedWell := fun h => absurd h hstopped
  acceptedAll := haccepted
  main := hsound

/-- Taking the head of the queue moves it into the consumer's hand. -/
theorem PumpInvariant.take {chunk : Chunk} {rest : List Chunk} (hs : PumpInvariant capacity s)
    (hphase : s.consumer = .waiting) (hqueue : s.sink.queue = chunk :: rest) :
    PumpInvariant capacity
      { s with sink := { s.sink with queue := rest }, consumer := .holding chunk } where
  bounded := by
    have hlength := hs.bounded
    rw [hqueue, List.length_cons] at hlength
    exact Nat.le_of_succ_le hlength
  inOrder := by
    simpa [hphase, hqueue, ConsumerPhase.held] using hs.inOrder
  complete := by
    simpa [hphase, hqueue, ConsumerPhase.held] using hs.complete
  errorClears := fun herror => by
    have hempty := (hs.errorClears herror).1
    simp [hqueue] at hempty
  closedLate := hs.closedLate
  stoppedWell := fun h => by cases h
  acceptedAll := fun _ => hs.acceptedAll (by simp [hphase, ConsumerPhase.failed])
  main := hs.main.of_running (by simp [hphase]) rfl rfl rfl id

/-- Every step of the consumer thread keeps the invariant. -/
theorem stepConsumer_invariant (hs : PumpInvariant capacity s) (h : s.stepConsumer answer = some t) :
    PumpInvariant capacity t := by
  cases hphase : s.consumer with
  | stopped result => simp [PumpState.stepConsumer, hphase] at h
  | waiting =>
    have hrunning : ∀ result, s.consumer ≠ .stopped result := by simp [hphase]
    have haccepted := hs.acceptedAll (by simp [hphase, ConsumerPhase.failed])
    simp only [PumpState.stepConsumer, hphase] at h
    split at h
    case h_1 => cases h
    case h_2 chunk sink htake =>
      cases h
      rcases QueueSink.take_cases htake with ⟨_, rest, hqueue, heq⟩ | ⟨_, _, _, heq⟩ | ⟨_, _, _, heq⟩
      · cases heq
        exact hs.take hphase hqueue
      · cases heq
      · cases heq
    case h_3 result htake =>
      cases h
      have hsound : MainSound { s with consumer := .stopped result } :=
        hs.main.of_running hrunning rfl rfl rfl id
      rcases QueueSink.take_cases htake with
        ⟨_, _, _, heq⟩ | ⟨error, _, _, heq⟩ | ⟨hempty, hclosed, hnone, heq⟩
      · cases heq
      · cases heq
        exact hs.deliver rfl rfl rfl (by simp [hphase, ConsumerPhase.held]) (by simp)
          (fun _ => haccepted) hsound
      · cases heq
        have hheld : s.consumer.held = (.stopped (.ok ()) : ConsumerPhase Chunk).held := by
          rw [hphase]; rfl
        exact {
          bounded := hs.bounded
          inOrder := hheld ▸ hs.inOrder
          complete := hheld ▸ hs.complete
          errorClears := hs.errorClears
          closedLate := hs.closedLate
          stoppedWell := fun _ => ⟨hnone, hempty, hclosed⟩
          acceptedAll := fun _ => haccepted
          main := hsound }
  | holding chunk =>
    have hrunning : ∀ result, s.consumer ≠ .stopped result := by simp [hphase]
    have haccepted := hs.acceptedAll (by simp [hphase, ConsumerPhase.failed])
    simp only [PumpState.stepConsumer, hphase] at h
    rcases answer with error | ⟨⟩
    · cases h
      exact hs.deliver rfl rfl rfl (by simp [hphase, ConsumerPhase.held]) (by simp)
        (fun hfailed => by cases hfailed) (hs.main.of_running hrunning rfl rfl (by simp) id)
    · cases h
      exact hs.deliver rfl rfl rfl (by simp [hphase, ConsumerPhase.held]) (by simp)
        (fun _ => by simp [haccepted, succeeded])
        (hs.main.of_running hrunning rfl rfl (by simp) id)
  | failing error =>
    simp only [PumpState.stepConsumer, hphase, Option.some.injEq] at h
    subst h
    exact hs.fail error rfl rfl (by simp [hphase, ConsumerPhase.held]) rfl (by simp)
      (by simp [ConsumerPhase.failed])
      (hs.main.of_running (by simp [hphase]) rfl rfl rfl fun _ => rfl)
  | cancelling error =>
    simp only [PumpState.stepConsumer, hphase, Option.some.injEq] at h
    subst h
    exact hs.deliver rfl rfl rfl (by simp [hphase, ConsumerPhase.held]) (by simp)
      (fun hfailed => by cases hfailed)
      (hs.main.of_running (by simp [hphase]) rfl rfl (by simp) id)

/-- Every interleaving keeps the invariant. -/
theorem reachable_invariant {producer : Producer Chunk} (h : Reachable capacity producer s) :
    PumpInvariant capacity s :=
  h.invariant (PumpInvariant.initial capacity producer) fun _ action _ hs hstep =>
    match action with
    | .main _ => stepMain_invariant hs hstep
    | .consumer _ => stepConsumer_invariant hs hstep

/-- The chunks that reached the sink are the first ones pushed, in push order. -/
theorem PumpInvariant.received_prefix (hs : PumpInvariant capacity s) :
    received s.calls <+: s.attempted := by
  have hflight := hs.inOrder
  rw [List.append_assoc] at hflight
  exact (List.prefix_append _ _).trans hflight

/-- A successful `pump` delivered everything. -/
theorem PumpInvariant.accepted_of_success (hs : PumpInvariant capacity s)
    (h : s.main = .returned (.ok ())) : accepted s.calls = s.attempted := by
  have hmain := hs.main
  rw [MainSound, h] at hmain
  obtain ⟨producer, consumer, -, hconsumer, -, hsucceeded⟩ := hmain
  obtain rfl : consumer = .ok () := by
    rcases consumer with error | ⟨⟩
    · simpa [succeeded] using (hsucceeded rfl).2
    · rfl
  obtain ⟨hnone, hempty, -⟩ := hs.stoppedWell hconsumer
  rw [hs.acceptedAll (by rw [hconsumer]; rfl), ← hs.complete hnone, hconsumer, hempty]
  simp [ConsumerPhase.held]

/-- `finish` follows the success of both sides. -/
theorem PumpInvariant.finishes_of_main (hs : PumpInvariant capacity s) :
    finishes s.calls = 0 ∨ (finishes s.calls = 1 ∧ s.producerResult = some (.ok ()) ∧
      s.consumer = .stopped (.ok ())) := by
  have hmain := hs.main
  unfold MainSound at hmain
  cases hphase : s.main with
  | returned result =>
    rw [hphase] at hmain
    obtain ⟨producer, consumer, hproducer, hconsumer, hcount, -⟩ := hmain
    rcases producer with error | ⟨⟩
    · exact .inl (by simpa [succeeded] using hcount)
    · rcases consumer with error | ⟨⟩
      · exact .inl (by simpa [succeeded] using hcount)
      · exact .inr ⟨by simpa [succeeded] using hcount, hproducer, hconsumer⟩
  | producing rest => rw [hphase] at hmain; exact .inl hmain.2
  | failing error => rw [hphase] at hmain; exact .inl hmain.2
  | cancelling error | closing result | joining result | finishing =>
    rw [hphase] at hmain; exact .inl hmain.2.2

/-- A `pump` that has returned called `finish` once exactly if both sides succeeded. -/
theorem PumpInvariant.finishes_of_returned (hs : PumpInvariant capacity s)
    (h : s.main = .returned result) (hproducer : s.producerResult = some (.ok ()))
    (hconsumer : s.consumer = .stopped (.ok ())) : finishes s.calls = 1 := by
  have hmain := hs.main
  rw [MainSound, h] at hmain
  obtain ⟨producer, consumer, hproducer', hconsumer', hcount, -⟩ := hmain
  cases hproducer.symm.trans hproducer'
  cases hconsumer.symm.trans hconsumer'
  simpa [succeeded] using hcount

/-- The delivery protocol of `pump`, in every state of every interleaving: order, bound,
nothing lost behind a success, and `finish` exactly when both sides succeeded. -/
theorem pump_delivery (capacity : ℕ) (producer : Producer Chunk) (s : PumpState Chunk)
    (h : Reachable capacity producer s) :
    received s.calls <+: s.attempted ∧
      s.sink.queue.length ≤ max capacity 1 ∧
      (s.main = .returned (.ok ()) → accepted s.calls = s.attempted) ∧
      (finishes s.calls = 0 ∨ (finishes s.calls = 1 ∧ s.producerResult = some (.ok ()) ∧
        s.consumer = .stopped (.ok ()))) ∧
      (∀ result, s.main = .returned result → s.producerResult = some (.ok ()) →
        s.consumer = .stopped (.ok ()) → finishes s.calls = 1) := by
  have hs := reachable_invariant h
  exact ⟨hs.received_prefix, hs.bounded, hs.accepted_of_success, hs.finishes_of_main,
    fun _ hreturned => hs.finishes_of_returned hreturned⟩

/-- A producer that pushes one chunk and succeeds. -/
def pushOnce (chunk : Chunk) : Producer Chunk := .push chunk fun _ => .done (.ok ())

/-- Both threads take turns on one chunk: push, take, accept, close, stop, join, finish. -/
def pushOnceSchedule : List Action :=
  [.main (.ok ()), .consumer (.ok ()), .main (.ok ()), .consumer (.ok ()), .main (.ok ()),
    .consumer (.ok ()), .main (.ok ()), .main (.ok ())]

/-- One complete delivery of a single chunk, with every part of the protocol in force. -/
theorem pump_delivery_pushOnce :
    ∃ s, Reachable 1 (pushOnce 7) s ∧ s.main = .returned (.ok ()) ∧
      accepted s.calls = [7] ∧ finishes s.calls = 1 := by
  obtain ⟨s, hrun⟩ : ∃ s, TransitionSystem.run (PumpState.step 1)
      (PumpState.initial (pushOnce 7)) pushOnceSchedule = some s := ⟨_, rfl⟩
  have hs : Reachable 1 (pushOnce 7) s := .of_run .start hrun
  obtain ⟨-, -, haccepted, -, hfinished⟩ := pump_delivery 1 (pushOnce 7) s hs
  cases hrun
  exact ⟨_, hs, rfl, haccepted rfl, hfinished _ rfl rfl rfl⟩

end WaterStructure.ChunkStream
