import WaterStructure.Core.PumpDelivery

/-!
# The last call of the downstream sink

`QueueSink::fail` drops the queue before it cancels the downstream sink, so that nothing more
is delivered. A chunk that the consumer already holds is not in the queue: when the producer
fails just then, the calling thread cancels the sink and the consumer pushes afterwards. In
the runs that avoid this, a cancel is followed by nothing but further cancels.
-/

namespace WaterStructure.ChunkStream

variable {Chunk : Type*}

/-- After a cancel the sink is only ever cancelled again. -/
def CancelTerminal (calls : List (SinkCall Chunk)) : Prop :=
  ∀ before after, calls = before ++ .cancel :: after → ∀ call ∈ after, call = .cancel

/-- The calling thread does not cancel the sink while the consumer holds a chunk. -/
def CancelsEmptyHanded (s : PumpState Chunk) : Action → Prop
  | .main _ => ∀ error, s.main = .cancelling error → s.consumer.held = []
  | .consumer _ => True

/-- The runs of `pump` in which the calling thread never cancels over a held chunk. -/
def ReachableEmptyHanded (capacity : ℕ) (producer : Producer Chunk) : PumpState Chunk → Prop :=
  TransitionSystem.ReachableBy CancelsEmptyHanded (PumpState.step capacity)
    (PumpState.initial producer)

theorem CancelTerminal.nil : CancelTerminal ([] : List (SinkCall Chunk)) := by
  intro before after h
  simp at h

variable {calls : List (SinkCall Chunk)} {s t : PumpState Chunk} {capacity : ℕ} {answer : Outcome}

/-- What may follow a cancel when one more call is made. -/
theorem after_cancel_of_append {before after : List (SinkCall Chunk)} {call : SinkCall Chunk}
    (h : calls ++ [call] = before ++ .cancel :: after) :
    after = [] ∨ ∃ init, calls = before ++ .cancel :: init ∧ after = init ++ [call] := by
  rcases List.eq_nil_or_concat after with rfl | ⟨init, last, rfl⟩
  · exact .inl rfl
  · have hsplit : calls ++ [call] = (before ++ .cancel :: init) ++ [last] := by simpa using h
    obtain ⟨hinit, hlast⟩ := List.append_inj' hsplit rfl
    exact .inr ⟨init, hinit, by rw [List.concat_eq_append, hlast]⟩

theorem CancelTerminal.append_cancel (h : CancelTerminal calls) : CancelTerminal (calls ++ [.cancel]) := by
  intro before after hsplit call hcall
  rcases after_cancel_of_append hsplit with rfl | ⟨init, hinit, rfl⟩
  · cases hcall
  · rcases List.mem_append.mp hcall with hmem | hmem
    · exact h before init hinit call hmem
    · exact List.mem_singleton.mp hmem

/-- Any call may follow as long as the sink has not been cancelled. -/
theorem CancelTerminal.append_of_not_mem {call : SinkCall Chunk} (h : SinkCall.cancel ∉ calls) :
    CancelTerminal (calls ++ [call]) := by
  intro before after hsplit
  rcases after_cancel_of_append hsplit with rfl | ⟨init, hinit, -⟩
  · intro _ hcall
    cases hcall
  · exact absurd (by simp [hinit]) h

/-- A push behind a cancel is what the runs must avoid. -/
theorem not_cancelTerminal_push {calls : List (SinkCall Chunk)} {chunk : Chunk} {answer : Bool} :
    ¬ CancelTerminal (calls ++ [.cancel] ++ [.push chunk answer]) := by
  intro h
  have hpush := h calls [.push chunk answer] (by simp) _ List.mem_cons_self
  cases hpush

/-- A cancelled sink is never called again: an error is recorded and the consumer's hand is
empty. -/
structure CancelInvariant (s : PumpState Chunk) : Prop where
  terminal : CancelTerminal s.calls
  recorded : ∀ error, s.consumer = .cancelling error → s.sink.error.isSome = true
  quiet : SinkCall.cancel ∈ s.calls → s.sink.error.isSome = true ∧ s.consumer.held = []

theorem CancelInvariant.initial (producer : Producer Chunk) :
    CancelInvariant (PumpState.initial producer) where
  terminal := .nil
  recorded := fun _ h => by cases h
  quiet := fun h => by cases h

/-- A step that calls nobody, forgets no error and gives the consumer no chunk. -/
theorem CancelInvariant.silent (hs : CancelInvariant s) (hcalls : t.calls = s.calls)
    (herror : s.sink.error.isSome = true → t.sink.error.isSome = true)
    (hrecorded : ∀ error, t.consumer = .cancelling error →
      s.consumer = .cancelling error ∨ t.sink.error.isSome = true)
    (hheld : s.sink.error.isSome = true → s.consumer.held = [] → t.consumer.held = []) :
    CancelInvariant t where
  terminal := hcalls ▸ hs.terminal
  recorded := fun error h => (hrecorded error h).elim (fun hs' => herror (hs.recorded error hs')) id
  quiet := fun h => by
    obtain ⟨hrecorded, hempty⟩ := hs.quiet (hcalls ▸ h)
    exact ⟨herror hrecorded, hheld hrecorded hempty⟩

/-- A cancel by a thread that has recorded its error, with the consumer's hand empty. -/
theorem CancelInvariant.cancel (hs : CancelInvariant s) (hcalls : t.calls = s.calls ++ [.cancel])
    (herror : t.sink.error.isSome = true) (hheld : t.consumer.held = []) : CancelInvariant t where
  terminal := hcalls ▸ hs.terminal.append_cancel
  recorded := fun _ _ => herror
  quiet := fun _ => ⟨herror, hheld⟩

/-- The calling thread keeps the invariant when it does not cancel over a held chunk. -/
theorem stepMain_cancelInvariant (hpump : PumpInvariant capacity s) (hs : CancelInvariant s)
    (hallowed : CancelsEmptyHanded s (.main answer)) (h : s.stepMain capacity answer = some t) :
    CancelInvariant t := by
  have hmain := hpump.main
  unfold MainSound at hmain
  cases hphase : s.main with
  | returned result => simp [PumpState.stepMain, hphase] at h
  | closing result =>
    simp only [PumpState.stepMain, hphase, Option.some.injEq] at h
    exact h ▸ hs.silent rfl id (fun _ => .inl) (fun _ => id)
  | joining result =>
    simp only [PumpState.stepMain, hphase] at h
    split at h
    case h_2 => cases h
    case h_1 => exact Option.some.inj h ▸ hs.silent rfl id (fun _ => .inl) (fun _ => id)
  | failing error =>
    simp only [PumpState.stepMain, hphase, Option.some.injEq] at h
    exact h ▸ hs.silent rfl (fun _ => rfl) (fun _ _ => .inr rfl) (fun _ => id)
  | cancelling error =>
    simp only [PumpState.stepMain, hphase, Option.some.injEq] at h hmain
    subst h
    exact hs.cancel rfl hmain.2.1 (hallowed error hphase)
  | finishing =>
    -- The consumer stopped well, so no error is recorded and nobody has cancelled.
    simp only [PumpState.stepMain, hphase, Option.some.injEq] at h hmain
    subst h
    have hnone := (hpump.stoppedWell hmain.2.1).1
    have hfresh : SinkCall.cancel ∉ s.calls := fun hcancel => by
      simpa [hnone] using (hs.quiet hcancel).1
    exact {
      terminal := .append_of_not_mem hfresh
      recorded := hs.recorded
      quiet := fun hcancel => hs.quiet (by simpa using hcancel) }
  | producing rest =>
    cases rest with
    | push chunk next =>
      simp only [PumpState.stepMain, hphase] at h
      split at h
      case h_1 => cases h
      case h_2 result sink hpush =>
        cases h
        refine hs.silent rfl (fun herror => ?_) (fun _ => .inl) (fun _ => id)
        rcases QueueSink.push_cases hpush with ⟨rfl, -, -⟩ | ⟨-, hnone, -, -, rfl⟩
        · exact herror
        · simp [hnone] at herror
    | done result =>
      cases result with
      | ok =>
        simp only [PumpState.stepMain, hphase, Option.some.injEq] at h
        exact h ▸ hs.silent rfl id (fun _ => .inl) (fun _ => id)
      | error error =>
        simp only [PumpState.stepMain, hphase, Option.some.injEq] at h
        exact h ▸ hs.silent rfl id (fun _ => .inl) (fun _ => id)

/-- The consumer thread keeps the invariant: it pushes only what it holds. -/
theorem stepConsumer_cancelInvariant (hpump : PumpInvariant capacity s) (hs : CancelInvariant s)
    (h : s.stepConsumer answer = some t) : CancelInvariant t := by
  cases hphase : s.consumer with
  | stopped result => simp [PumpState.stepConsumer, hphase] at h
  | waiting =>
    simp only [PumpState.stepConsumer, hphase] at h
    split at h
    case h_1 => cases h
    case h_2 chunk sink htake =>
      cases h
      rcases QueueSink.take_cases htake with ⟨_, rest, hqueue, heq⟩ | ⟨_, _, _, heq⟩ | ⟨_, _, _, heq⟩
      · cases heq
        -- A queue with a chunk in it belongs to a stream without an error.
        refine hs.silent rfl id (fun _ h => by cases h) (fun herror => ?_)
        have hempty := (hpump.errorClears herror).1
        simp [hqueue] at hempty
      · cases heq
      · cases heq
    case h_3 result htake =>
      cases h
      exact hs.silent rfl id (fun _ h => by cases h) (fun _ _ => rfl)
  | holding chunk =>
    have hfresh : SinkCall.cancel ∉ s.calls := fun hcancel => by
      simpa [hphase, ConsumerPhase.held] using (hs.quiet hcancel).2
    simp only [PumpState.stepConsumer, hphase] at h
    have hpush : ∀ phase : ConsumerPhase Chunk, (∀ error, phase ≠ .cancelling error) →
        CancelInvariant { s with
          consumer := phase, calls := s.calls ++ [.push chunk (succeeded answer)] } := fun phase hphase => {
      terminal := .append_of_not_mem hfresh
      recorded := fun error h => absurd h (hphase error)
      quiet := fun hcancel => absurd (by simpa using hcancel) hfresh }
    rcases answer with error | ⟨⟩
    · cases h
      exact hpush _ (by simp)
    · cases h
      exact hpush _ (by simp)
  | failing error =>
    simp only [PumpState.stepConsumer, hphase, Option.some.injEq] at h
    subst h
    exact hs.silent rfl (fun _ => rfl) (fun _ _ => .inr rfl) (fun _ _ => rfl)
  | cancelling error =>
    simp only [PumpState.stepConsumer, hphase, Option.some.injEq] at h
    subst h
    exact hs.cancel rfl (hs.recorded error hphase) rfl

/-- Every run that avoids the late push keeps the invariant. -/
theorem ReachableEmptyHanded.cancelInvariant {producer : Producer Chunk}
    (h : ReachableEmptyHanded capacity producer s) : CancelInvariant s := by
  have hboth : PumpInvariant capacity s ∧ CancelInvariant s := by
    refine @TransitionSystem.ReachableBy.invariant _ _ _ _ _ _
      (fun s => PumpInvariant capacity s ∧ CancelInvariant s) h
      ⟨.initial capacity producer, .initial producer⟩ ?_
    rintro s action t ⟨hpump, hs⟩ hallowed hstep
    cases action with
    | main answer =>
      exact ⟨stepMain_invariant hpump hstep, stepMain_cancelInvariant hpump hs hallowed hstep⟩
    | consumer answer =>
      exact ⟨stepConsumer_invariant hpump hstep, stepConsumer_cancelInvariant hpump hs hstep⟩
  exact hboth.2

/-- A cancel over a held chunk is always followed by the push of that chunk: the consumer has
no other step, and `pump` returns only after it. -/
theorem push_of_cancel_over_held {u : PumpState Chunk} {reply : Outcome}
    (hdenied : ¬ CancelsEmptyHanded s (.main answer)) (ht : s.step capacity (.main answer) = some t)
    (hu : t.step capacity (.consumer reply) = some u) : ¬ CancelTerminal u.calls := by
  simp only [CancelsEmptyHanded, not_forall] at hdenied
  obtain ⟨error, hphase, hheld⟩ := hdenied
  simp only [PumpState.step, PumpState.stepMain, hphase, Option.some.injEq] at ht
  subst ht
  cases hconsumer : s.consumer with
  | holding chunk =>
    simp only [PumpState.step, PumpState.stepConsumer, hconsumer] at hu
    rcases reply with error | ⟨⟩
    · cases hu
      exact not_cancelTerminal_push
    · cases hu
      exact not_cancelTerminal_push
  | _ => simp [hconsumer, ConsumerPhase.held] at hheld

/-- Cancelling is final in every run whose calling thread never cancels while the consumer
holds a chunk, and in no other: the push that such a cancel leaves open breaks it. -/
theorem cancel_terminal_iff_emptyHanded (capacity : ℕ) (producer : Producer Chunk) :
    (∀ s, ReachableEmptyHanded capacity producer s → CancelTerminal s.calls) ∧
      ∀ s t u answer reply, Reachable capacity producer s →
        ¬ CancelsEmptyHanded s (.main answer) → s.step capacity (.main answer) = some t →
        t.step capacity (.consumer reply) = some u → ¬ CancelTerminal u.calls :=
  ⟨fun _ h => h.cancelInvariant.terminal,
    fun _ _ _ _ _ _ hdenied ht hu => push_of_cancel_over_held hdenied ht hu⟩

/-- A producer that pushes one chunk and fails. -/
def pushThenFail (chunk : Chunk) : Producer Chunk := .push chunk fun _ => .done (.error "failed")

/-- The consumer takes the chunk just before the producer fails, and hands it over just after
the sink has been cancelled. -/
def lateHandoverSchedule : List Action :=
  [.main (.ok ()), .consumer (.ok ()), .main (.ok ()), .main (.ok ()), .main (.ok ()),
    .consumer (.ok ())]

/-- The consumer accepts the chunk before the producer fails, so the cancel is the last call;
had it only taken the chunk, the calling thread would be about to cancel over a held chunk. -/
theorem cancel_terminal_pushThenFail :
    (∃ s, ReachableEmptyHanded 1 (pushThenFail 7) s ∧ s.calls = [.push 7 true, .cancel] ∧
        CancelTerminal s.calls) ∧
      ∃ s t u, Reachable 1 (pushThenFail 7) s ∧ s.step 1 (.main (.ok ())) = some t ∧
        t.step 1 (.consumer (.ok ())) = some u ∧ ¬ CancelTerminal u.calls := by
  obtain ⟨hfinal, hbroken⟩ := cancel_terminal_iff_emptyHanded 1 (pushThenFail 7)
  constructor
  · have hmain {s t : PumpState ℕ} (hs : ReachableEmptyHanded 1 (pushThenFail 7) s)
        (hempty : CancelsEmptyHanded s (.main (.ok ())))
        (ht : s.step 1 (.main (.ok ())) = some t) : ReachableEmptyHanded 1 (pushThenFail 7) t :=
      hs.next hempty ht
    have hconsumer {s t : PumpState ℕ} (hs : ReachableEmptyHanded 1 (pushThenFail 7) s)
        (ht : s.step 1 (.consumer (.ok ())) = some t) : ReachableEmptyHanded 1 (pushThenFail 7) t :=
      hs.next (show CancelsEmptyHanded s (.consumer (.ok ())) from trivial) ht
    have hpushed := hmain .start (fun _ h => by cases h) rfl
    have haccepted := hconsumer (hconsumer hpushed rfl) rfl
    have hfailed := hmain haccepted (fun _ h => by cases h) rfl
    have hcleared := hmain hfailed (fun _ h => by cases h) rfl
    have hrun := hmain hcleared (fun _ _ => rfl) rfl
    exact ⟨_, hrun, rfl, hfinal _ hrun⟩
  · obtain ⟨s, hrun⟩ : ∃ s, TransitionSystem.run (PumpState.step 1)
        (PumpState.initial (pushThenFail 7)) (lateHandoverSchedule.take 4) = some s := ⟨_, rfl⟩
    have hs : Reachable 1 (pushThenFail 7) s := .of_run .start hrun
    cases hrun
    refine ⟨_, _, _, hs, rfl, rfl, hbroken _ _ _ (.ok ()) (.ok ()) hs (fun hallowed => ?_) rfl rfl⟩
    cases hallowed "failed" rfl

/-- A chunk reaches the sink after its cancel. -/
theorem cancel_not_terminal_pushThenFail :
    ¬ ∀ s, Reachable 1 (pushThenFail 7) s → CancelTerminal s.calls := by
  intro h
  obtain ⟨s, hrun⟩ : ∃ s, TransitionSystem.run (PumpState.step 1)
      (PumpState.initial (pushThenFail 7)) lateHandoverSchedule = some s := ⟨_, rfl⟩
  have hterminal := h s (.of_run .start hrun)
  cases hrun
  exact @not_cancelTerminal_push _ [] _ _ hterminal

end WaterStructure.ChunkStream
