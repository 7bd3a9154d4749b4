import Mathlib.Order.Basic
import WaterStructure.World.ArchiveCommit

/-!
# The archive over the life of an adapter

A call that closes an adapter first does what cannot be undone, from closing LevelDB up to replacing
the archive, and then only tidies up. After it LevelDB is closed, so it is the only call that can
replace the archive.
-/

namespace WaterStructure

open BedrockWorldAdapter

variable {Path : Type}

namespace AdapterEffect

def isReplaced : AdapterEffect Path → Bool
  | .replaced _ _ => true
  | _ => false

/-- A call of this callback for statistics that had to wait. -/
def isDeferred (callback : ℕ) : AdapterEffect Path → Bool
  | .deferredStatistics other _ => other = callback
  | _ => false

/-- Cleaning up, with the statistics that go out afterwards. -/
def isCleanup : AdapterEffect Path → Bool
  | .removedPending _ => true
  | .removedDirectory _ => true
  | .deferredStatistics _ _ => true
  | _ => false

end AdapterEffect

open AdapterEffect

/-- The steps up to replacing the archive succeed. -/
structure CloseOutcomes.Succeed (outcomes : CloseOutcomes Path) : Prop where
  levelDbClose : outcomes.levelDbClose = none
  pack : outcomes.pack = .packed
  replace : outcomes.replace = none

namespace BedrockWorldAdapter

/-- The callback waits for statistics. -/
def Waits (adapter : BedrockWorldAdapter Path) (callback : ℕ) : Prop :=
  adapter.deferredStats.isSome = true ∧ adapter.deferredStatisticsCallback = some callback

instance (adapter : BedrockWorldAdapter Path) (callback : ℕ) : Decidable (adapter.Waits callback) :=
  inferInstanceAs (Decidable (_ ∧ _))

/-- How many calls of the callback are still to come. -/
def waiting (adapter : BedrockWorldAdapter Path) (callback : ℕ) : ℕ :=
  if adapter.Waits callback then 1 else 0

/-- What only tidies up: a path is forgotten when it has been removed, and a callback that waits is
called once. -/
structure Tidies (adapter : BedrockWorldAdapter Path) (effects : List (AdapterEffect Path))
    (next : BedrockWorldAdapter Path) : Prop where
  world : next.world = adapter.world
  pending : ∀ path, adapter.pendingArchivePath = some path →
    next.pendingArchivePath = some path ∨ .removedPending path ∈ effects
  directory : ∀ path, adapter.temporaryDirectory = some path →
    next.temporaryDirectory = some path ∨ .removedDirectory path ∈ effects
  statistics : ∀ callback,
    effects.countP (isDeferred callback) + next.waiting callback ≤ adapter.waiting callback
  cleanup : ∀ effect ∈ effects, effect.isCleanup = true

theorem Tidies.refl (adapter : BedrockWorldAdapter Path) : Tidies adapter [] adapter :=
  ⟨rfl, fun _ => .inl, fun _ => .inl, fun _ => Nat.le_of_eq (Nat.zero_add _), fun _ h => nomatch h⟩

variable {adapter : BedrockWorldAdapter Path}

theorem Tidies.trans {middle next : BedrockWorldAdapter Path} {first second : List (AdapterEffect Path)}
    (h : Tidies adapter first middle) (hnext : Tidies middle second next) :
    Tidies adapter (first ++ second) next where
  world := hnext.world.trans h.world
  pending path hpath := by
    rcases h.pending path hpath with hkept | hremoved
    · exact (hnext.pending path hkept).imp_right (List.mem_append_right _)
    · exact .inr (List.mem_append_left _ hremoved)
  directory path hpath := by
    rcases h.directory path hpath with hkept | hremoved
    · exact (hnext.directory path hkept).imp_right (List.mem_append_right _)
    · exact .inr (List.mem_append_left _ hremoved)
  statistics callback := by
    have hfirst := h.statistics callback
    have hsecond := hnext.statistics callback
    rw [List.countP_append]
    omega
  cleanup effect heffect := (List.mem_append.mp heffect).elim (h.cleanup effect) (hnext.cleanup effect)

theorem mem_removeKnown {known : Option Path} {error : Option String} {message : String}
    {removed : Path → AdapterEffect Path} {effect : AdapterEffect Path}
    (h : effect ∈ (removeKnown known error message removed).2.1) : ∃ path, effect = removed path := by
  unfold removeKnown at h
  split at h
  case h_2 path => exact ⟨path, List.mem_singleton.mp h⟩
  all_goals cases h

theorem tidies_cleanup (outcomes : CloseOutcomes Path) (adapter : BedrockWorldAdapter Path) :
    Tidies adapter (cleanupTemporaryArtifacts outcomes adapter).2.1
      (cleanupTemporaryArtifacts outcomes adapter).1 where
  world := rfl
  pending path hpath := by
    rw [cleanupTemporaryArtifacts, hpath]
    cases outcomes.removePending with
    | none => exact .inr (List.mem_append_left _ List.mem_cons_self)
    | some error => exact .inl rfl
  directory path hpath := by
    rw [cleanupTemporaryArtifacts, hpath]
    cases outcomes.removeDirectory with
    | none => exact .inr (List.mem_append_right _ List.mem_cons_self)
    | some error => exact .inl rfl
  statistics callback := by
    have hnone : (cleanupTemporaryArtifacts outcomes adapter).2.1.countP (isDeferred callback) = 0 := by
      rw [List.countP_eq_zero]
      intro effect heffect
      rcases List.mem_append.mp heffect with hmem | hmem
      · obtain ⟨path, rfl⟩ := mem_removeKnown hmem
        exact Bool.false_ne_true
      · obtain ⟨path, rfl⟩ := mem_removeKnown hmem
        exact Bool.false_ne_true
    rw [hnone, Nat.zero_add]
    exact Nat.le_refl _
  cleanup effect heffect := by
    rcases List.mem_append.mp heffect with hmem | hmem
    · obtain ⟨path, rfl⟩ := mem_removeKnown hmem
      rfl
    · obtain ⟨path, rfl⟩ := mem_removeKnown hmem
      rfl

theorem tidies_emit (success : Bool) (stage : String) (adapter : BedrockWorldAdapter Path) :
    Tidies adapter (emitDeferredStatistics success stage adapter).2
      (emitDeferredStatistics success stage adapter).1 := by
  rw [emitDeferredStatistics]
  cases hstats : adapter.deferredStats with
  | none =>
    exact ⟨rfl, fun _ => .inl, fun _ => .inl, fun _ => Nat.le_of_eq (Nat.zero_add _), fun _ h => nomatch h⟩
  | some stats =>
    refine ⟨rfl, fun _ => .inl, fun _ => .inl, fun callback => ?_, fun effect heffect => ?_⟩
    · have hdone : waiting ({ adapter with deferredStats := none, deferredStatisticsCallback := none })
          callback = 0 := if_neg fun h => nomatch h.1
      rw [hdone]
      cases hcallback : adapter.deferredStatisticsCallback with
      | none => exact Nat.zero_le _
      | some other =>
        by_cases hsame : other = callback
        · rw [waiting, if_pos ⟨by rw [hstats]; rfl, by rw [hcallback, hsame]⟩]
          simp [isDeferred, hsame]
        · simp [isDeferred, hsame]
    · cases hcallback : adapter.deferredStatisticsCallback with
      | none =>
        rw [hcallback] at heffect
        cases heffect
      | some other =>
        rw [hcallback] at heffect
        rw [List.mem_singleton.mp heffect]
        rfl

theorem tidies_disarm (adapter : BedrockWorldAdapter Path) : Tidies adapter [] adapter.disarm :=
  ⟨rfl, fun _ => .inl, fun _ => .inl, fun _ => Nat.le_of_eq (Nat.zero_add _), fun _ h => nomatch h⟩

/-- The call tidies up after these effects. -/
def TidiesAfter (adapter : BedrockWorldAdapter Path) (front : List (AdapterEffect Path))
    (result : CallResult Path) : Prop :=
  ∃ tidy, result.effects = front ++ tidy ∧ Tidies adapter tidy result.adapter

theorem failAt_tidies (outcomes : CloseOutcomes Path) (stage error : String)
    (adapter : BedrockWorldAdapter Path) (effects : List (AdapterEffect Path)) :
    TidiesAfter adapter effects (failAt outcomes stage error adapter effects) :=
  ⟨_, List.append_assoc .., (tidies_disarm adapter).trans
    ((tidies_cleanup outcomes adapter.disarm).trans (tidies_emit false stage _))⟩

theorem finishClose_tidies (outcomes : CloseOutcomes Path) (adapter : BedrockWorldAdapter Path)
    (effects : List (AdapterEffect Path)) :
    TidiesAfter adapter effects (finishClose outcomes adapter effects) :=
  ⟨_, List.append_assoc .., (tidies_cleanup outcomes adapter).trans (tidies_emit _ _ _)⟩

/-- What a call does before it tidies up, and the pending archive that it then knows. -/
inductive Front (adapter : BedrockWorldAdapter Path) (commits : Prop) :
    List (AdapterEffect Path) → Option Path → Prop where
  | closed : adapter.world = false → Front adapter commits [] adapter.pendingArchivePath
  | levelDb : adapter.world = true →
      Front adapter commits [.levelDbClosed] adapter.pendingArchivePath
  | packing (pending : Path) : adapter.world = true →
      Front adapter commits [.levelDbClosed, .packing pending] (some pending)
  | replaced (pending final : Path) : adapter.world = true → adapter.discardOnClose = false →
      adapter.archivePath = some final → commits →
      Front adapter commits [.levelDbClosed, .packing pending, .replaced pending final] none

/-- The call closes the adapter: LevelDB is closed afterwards. -/
def Closes (adapter : BedrockWorldAdapter Path) (commits : Prop) (result : CallResult Path) : Prop :=
  ∃ front pending middle, Front adapter commits front pending ∧ TidiesAfter middle front result ∧
    middle.world = false ∧ middle.pendingArchivePath = pending ∧
      middle.temporaryDirectory = adapter.temporaryDirectory ∧
        middle.deferredStats = adapter.deferredStats ∧
          middle.deferredStatisticsCallback = adapter.deferredStatisticsCallback

theorem discard_closes (outcomes : CloseOutcomes Path) (adapter : BedrockWorldAdapter Path)
    (commits : Prop) : Closes adapter commits (discard outcomes adapter) := by
  refine ⟨if adapter.world then [.levelDbClosed] else [], adapter.pendingArchivePath,
    ({ adapter with discardOnClose := false, world := false } : BedrockWorldAdapter Path).disarm,
    ?_, ⟨_, List.append_assoc .., (tidies_cleanup outcomes _).trans (tidies_emit _ _ _)⟩,
    rfl, rfl, rfl, rfl, rfl⟩
  cases hworld : adapter.world with
  | false => exact .closed hworld
  | true => exact .levelDb hworld

/-- Packing and replacing, once LevelDB is closed. -/
theorem commitArchive_closes {outcomes : CloseOutcomes Path} {final : Path} (hworld : adapter.world = true)
    (hkeep : adapter.discardOnClose = false) (hfinal : adapter.archivePath = some final)
    (hlevelDb : outcomes.levelDbClose = none) :
    Closes adapter outcomes.Succeed
      (commitArchive outcomes final { adapter with world := false } [.levelDbClosed]) := by
  let pending : BedrockWorldAdapter Path :=
    { adapter with world := false, pendingArchivePath := some outcomes.pendingPath }
  rw [commitArchive]
  dsimp only
  split
  case h_1 =>
    exact ⟨_, _, pending, .packing _ hworld, ⟨[], (List.append_nil _).symm, .refl pending⟩, rfl, rfl,
      rfl, rfl, rfl⟩
  case h_2 error _ =>
    exact ⟨_, _, pending, .packing _ hworld, failAt_tidies outcomes _ error pending _, rfl, rfl, rfl,
      rfl, rfl⟩
  case h_3 hpack =>
    split
    case h_1 error _ =>
      exact ⟨_, _, pending, .packing _ hworld, failAt_tidies outcomes _ _ pending _, rfl, rfl, rfl,
        rfl, rfl⟩
    case h_2 hreplace =>
      exact ⟨_, _, ({ pending with pendingArchivePath := none } : BedrockWorldAdapter Path).disarm,
        .replaced _ _ hworld hkeep hfinal ⟨hlevelDb, hpack, hreplace⟩,
        finishClose_tidies outcomes _ _, rfl, rfl, rfl, rfl, rfl⟩

theorem close_closes (outcomes : CloseOutcomes Path) (adapter : BedrockWorldAdapter Path) :
    Closes adapter outcomes.Succeed (close outcomes adapter) := by
  rw [close]
  split
  case isTrue => exact discard_closes outcomes adapter _
  case isFalse hkeep =>
    split
    case isTrue hclosed =>
      have hworld := Bool.eq_false_iff.mpr hclosed
      exact ⟨[], _, adapter, .closed hworld, finishClose_tidies outcomes adapter [], hworld, rfl, rfl,
        rfl, rfl⟩
    case isFalse hopen =>
      have hworld : adapter.world = true := not_not.mp hopen
      dsimp only
      split
      case h_1 error _ =>
        exact ⟨_, _, _, .levelDb hworld, failAt_tidies outcomes _ _ { adapter with world := false } _,
          rfl, rfl, rfl, rfl, rfl⟩
      case h_2 hlevelDb =>
        split
        case h_1 final hfinal _ =>
          exact commitArchive_closes hworld (Bool.eq_false_iff.mpr hkeep) hfinal hlevelDb
        case h_2 =>
          exact ⟨_, _, ({ adapter with world := false } : BedrockWorldAdapter Path).disarm,
            .levelDb hworld, finishClose_tidies outcomes _ _, rfl, rfl, rfl, rfl, rfl⟩

/-- The destructor closes the adapter as if no statistics waited. -/
theorem destroy_closes (outcomes : CloseOutcomes Path) (adapter : BedrockWorldAdapter Path) :
    Closes { adapter with deferredStats := none, deferredStatisticsCallback := none }
      outcomes.Succeed (destroy outcomes adapter) := by
  rw [destroy]
  dsimp only
  split
  · exact discard_closes outcomes _ _
  · exact close_closes outcomes _

/-- What a call that closes the adapter does, seen from outside. -/
structure Closed (adapter : BedrockWorldAdapter Path) (commits : Prop) (result : CallResult Path) :
    Prop where
  world : result.adapter.world = false
  once : result.effects.countP isReplaced ≤ 1
  replaced : ∀ pending final, .replaced pending final ∈ result.effects →
    adapter.world = true ∧ adapter.discardOnClose = false ∧ adapter.archivePath = some final ∧ commits
  cleanup : adapter.world = false → ∀ effect ∈ result.effects, effect.isCleanup = true
  pending : (adapter.world = true → adapter.pendingArchivePath = none) → ∀ path,
    adapter.pendingArchivePath = some path ∨ .packing path ∈ result.effects →
      result.adapter.pendingArchivePath = some path ∨ .removedPending path ∈ result.effects ∨
        ∃ final, .replaced path final ∈ result.effects
  directory : ∀ path, adapter.temporaryDirectory = some path →
    result.adapter.temporaryDirectory = some path ∨ .removedDirectory path ∈ result.effects
  statistics : ∀ callback,
    result.effects.countP (isDeferred callback) + result.adapter.waiting callback ≤
      adapter.waiting callback

theorem Front.pending_or {commits : Prop} {front : List (AdapterEffect Path)} {pending : Option Path}
    (h : Front adapter commits front pending)
    (hopen : adapter.world = true → adapter.pendingArchivePath = none) {path : Path}
    (hpath : adapter.pendingArchivePath = some path ∨ .packing path ∈ front) :
    pending = some path ∨ ∃ final, .replaced path final ∈ front := by
  cases h with
  | closed => exact .inl (hpath.resolve_right fun h => nomatch h)
  | levelDb hworld =>
    rw [hopen hworld] at hpath
    simp at hpath
  | packing other hworld =>
    rw [hopen hworld] at hpath
    simp at hpath
    exact .inl (congrArg some hpath.symm)
  | replaced other final hworld =>
    rw [hopen hworld] at hpath
    simp at hpath
    exact .inr ⟨final, by simp [hpath]⟩

theorem Closes.closed {commits : Prop} {result : CallResult Path} (h : Closes adapter commits result) :
    Closed adapter commits result := by
  obtain ⟨front, pending, middle, hfront, ⟨tidy, heffects, htidy⟩, hworld, hpending, hdirectory,
    hstats, hcallback⟩ := h
  -- Tidying up packs and replaces nothing.
  have hnone (effect : AdapterEffect Path) (heffect : effect ∈ tidy) (hother : effect.isCleanup = false) :
      False := by
    rw [htidy.cleanup effect heffect] at hother
    cases hother
  have hreplaced : tidy.countP isReplaced = 0 := by
    rw [List.countP_eq_zero]
    intro effect heffect his
    cases effect with
    | replaced => exact hnone _ heffect rfl
    | _ => cases his
  have hwaiting (callback : ℕ) : middle.waiting callback = adapter.waiting callback := by
    exact if_congr (by rw [Waits, Waits, hstats, hcallback]) rfl rfl
  refine ⟨htidy.world.trans hworld, ?_, fun path final hmem => ?_, fun hclosed => ?_,
    fun hopen path hpath => ?_, fun path hpath => ?_, fun callback => ?_⟩
  · rw [heffects, List.countP_append, hreplaced]
    cases hfront <;> simp [isReplaced]
  · rw [heffects] at hmem
    rcases List.mem_append.mp hmem with hmem | hmem
    · cases hfront with
      | replaced other last hopen hkeep hlast hcommits =>
        simp at hmem
        rw [hmem.2]
        exact ⟨hopen, hkeep, hlast, hcommits⟩
      | _ => simp at hmem
    · exact (hnone _ hmem rfl).elim
  · rw [heffects]
    cases hfront with
    | closed => exact htidy.cleanup
    | levelDb hopen | packing _ hopen | replaced _ _ hopen => exact nomatch hclosed.symm.trans hopen
  · rw [heffects] at hpath ⊢
    have hfrontPath : adapter.pendingArchivePath = some path ∨ .packing path ∈ front :=
      hpath.imp_right fun hmem => (List.mem_append.mp hmem).resolve_right fun hmem => hnone _ hmem rfl
    rcases hfront.pending_or hopen hfrontPath with hkept | ⟨final, hfinal⟩
    · exact (htidy.pending path (hpending.trans hkept)).imp_right fun hremoved =>
        .inl (List.mem_append_right _ hremoved)
    · exact .inr (.inr ⟨final, List.mem_append_left _ hfinal⟩)
  · rw [heffects]
    exact (htidy.directory path (hdirectory.trans hpath)).imp_right (List.mem_append_right _)
  · have hcount : front.countP (isDeferred callback) = 0 := by cases hfront <;> rfl
    have hstatistics := htidy.statistics callback
    rw [heffects, List.countP_append, hcount, Nat.zero_add, ← hwaiting]
    exact hstatistics

end BedrockWorldAdapter

namespace AdapterCall

/-- A conversion that failed. -/
def Fails : AdapterCall Path → Prop
  | .convert _ failedAt _ => failedAt.isSome = true
  | _ => False

def IsConversion : AdapterCall Path → Prop
  | .convert _ _ _ => True
  | _ => False

/-- A `close`, also that of the destructor, whose steps up to replacing the archive succeed. -/
def Commits : AdapterCall Path → Prop
  | .close outcomes => outcomes.Succeed
  | .destroy outcomes => outcomes.Succeed
  | _ => False

/-- Statistics are kept for the callback until the adapter is closed. -/
def defers (callback : ℕ) : AdapterCall Path → Bool
  | .convert path none (some other) => path ≠ .schemStream ∧ other = callback
  | _ => false

/-- If it is a failed conversion, the adapter is marked. -/
def Marks : AdapterCall Path → Prop
  | .convert path failedAt _ => path = .schemStream → failedAt = none
  | _ => True

end AdapterCall

open AdapterCall

namespace AdapterLife

/-- All effects so far, in order. -/
def effects (life : AdapterLife Path) : List (AdapterEffect Path) := life.history.flatMap Prod.snd

/-- What holds of an adapter for an archive and a temporary directory, at any time of its life. -/
structure Safe (archive directory : Option Path) (life : AdapterLife Path) : Prop where
  once : life.effects.countP isReplaced ≤ 1
  committed : ∀ before call effects after, life.history = before ++ (call, effects) :: after →
    ∀ pending final, .replaced pending final ∈ effects →
      call.Commits ∧ archive = some final ∧
        ∀ earlier ∈ before, earlier.1.IsConversion ∧ ¬ earlier.1.Fails
  later : ∀ before call effects after, life.history = before ++ (call, effects) :: after →
    ¬ call.IsConversion → (∃ earlier ∈ before, ¬ earlier.1.IsConversion) →
      ∀ effect ∈ effects, effect.isCleanup = true
  pending : ∀ path, .packing path ∈ life.effects →
    life.adapter.pendingArchivePath = some path ∨ .removedPending path ∈ life.effects ∨
      ∃ final, .replaced path final ∈ life.effects
  directory : ∀ path, directory = some path →
    life.adapter.temporaryDirectory = some path ∨ .removedDirectory path ∈ life.effects
  callbacks : ∀ callback, life.effects.countP (isDeferred callback) ≤
    life.history.countP fun entry => entry.1.defers callback
  destructor : ∀ outcomes effects, (.destroy outcomes, effects) ∈ life.history →
    ∀ callback stats, .deferredStatistics callback stats ∉ effects

/-- What the end of a conversion does. -/
structure Converted (adapter : BedrockWorldAdapter Path) (call : AdapterCall Path)
    (result : CallResult Path) : Prop where
  world : result.adapter.world = adapter.world
  archivePath : result.adapter.archivePath = adapter.archivePath
  pending : result.adapter.pendingArchivePath = adapter.pendingArchivePath
  directory : result.adapter.temporaryDirectory = adapter.temporaryDirectory
  kept : adapter.discardOnClose = true → result.adapter.discardOnClose = true
  marked : call.Fails → call.Marks → result.adapter.discardOnClose = true
  effects : ∀ effect ∈ result.effects, ∃ callback stats,
    effect = .deferredStatistics callback stats ∨ effect = .statistics callback stats
  statistics : ∀ callback,
    result.effects.countP (isDeferred callback) + result.adapter.waiting callback ≤
      adapter.waiting callback + if call.defers callback then 1 else 0

/-- Statistics that are kept replace those that waited, which are sent. -/
theorem converted_defer (adapter : BedrockWorldAdapter Path) {path : ConversionPath}
    (hpath : path ≠ .schemStream) (callback : ℕ) :
    Converted adapter (.convert path none (some callback))
      ⟨(adapter.deferStatistics ⟨true, ""⟩ callback).1, (adapter.deferStatistics ⟨true, ""⟩ callback).2,
        some (.ok ())⟩ := by
  have hemit := tidies_emit true "" adapter
  have hsame : (emitDeferredStatistics true "" adapter).1.archivePath = adapter.archivePath ∧
      (emitDeferredStatistics true "" adapter).1.pendingArchivePath = adapter.pendingArchivePath ∧
      (emitDeferredStatistics true "" adapter).1.temporaryDirectory = adapter.temporaryDirectory ∧
      (emitDeferredStatistics true "" adapter).1.discardOnClose = adapter.discardOnClose ∧
      ∀ effect ∈ (emitDeferredStatistics true "" adapter).2, ∃ callback stats,
        effect = .deferredStatistics callback stats := by
    rw [emitDeferredStatistics]
    split
    case h_1 => exact ⟨rfl, rfl, rfl, rfl, fun _ h => nomatch h⟩
    case h_2 =>
      refine ⟨rfl, rfl, rfl, rfl, fun effect heffect => ?_⟩
      dsimp only at heffect
      split at heffect
      case h_1 => cases heffect
      case h_2 other _ => exact ⟨other, _, List.mem_singleton.mp heffect⟩
  obtain ⟨harchive, hpending, hdirectory, hdiscard, heffects⟩ := hsame
  refine ⟨hemit.world, harchive, hpending, hdirectory, fun h => hdiscard.trans h, fun h => (nomatch h),
    fun effect heffect => ?_, fun other => ?_⟩
  · obtain ⟨other, stats, hstats⟩ := heffects effect heffect
    exact ⟨other, stats, .inl hstats⟩
  · have hbefore := hemit.statistics other
    have hnext : waiting (adapter.deferStatistics ⟨true, ""⟩ callback).1 other =
        if AdapterCall.defers other (.convert path none (some callback) : AdapterCall Path) then 1
          else 0 := by
      refine if_congr ?_ rfl rfl
      simp [Waits, deferStatistics, defers, hpath]
    rw [hnext]
    dsimp only [deferStatistics]
    omega

/-- A failure that marks the adapter. -/
theorem converted_mark (adapter : BedrockWorldAdapter Path) (call : AdapterCall Path)
    {effects : List (AdapterEffect Path)} (returned : Option (Except String Unit))
    (heffects : ∀ effect ∈ effects, ∃ callback stats, effect = .statistics callback stats) :
    Converted adapter call ⟨{ adapter with discardOnClose := true }, effects, returned⟩ := by
  refine ⟨rfl, rfl, rfl, rfl, fun _ => rfl, fun _ _ => rfl, fun effect heffect => ?_, fun callback => ?_⟩
  · obtain ⟨callback, stats, hstats⟩ := heffects effect heffect
    exact ⟨callback, stats, .inr hstats⟩
  · have hcount : effects.countP (isDeferred callback) = 0 := by
      rw [List.countP_eq_zero]
      intro effect heffect
      obtain ⟨_, _, rfl⟩ := heffects effect heffect
      exact Bool.false_ne_true
    dsimp only
    rw [hcount, Nat.zero_add]
    exact Nat.le_add_right ..

variable {call : AdapterCall Path} {archive directory : Option Path} {life : AdapterLife Path}

/-- A conversion that leaves the adapter as it is. -/
theorem converted_silent (adapter : BedrockWorldAdapter Path) (hmarks : ¬ (call.Fails ∧ call.Marks))
    (returned : Option (Except String Unit)) : Converted adapter call ⟨adapter, [], returned⟩ := by
  refine ⟨rfl, rfl, rfl, rfl, id, fun hfails hmarked => absurd ⟨hfails, hmarked⟩ hmarks,
    fun _ h => (nomatch h), fun callback => ?_⟩
  dsimp only
  rw [List.countP_nil, Nat.zero_add]
  exact Nat.le_add_right ..

theorem converted_run (adapter : BedrockWorldAdapter Path) (path : ConversionPath)
    (failedAt : Option String) (callback : Option ℕ) :
    Converted adapter (.convert path failedAt callback)
      (AdapterCall.run (.convert path failedAt callback) adapter) := by
  have hfinish (hpath : path ≠ .schemStream) : Converted adapter (.convert path failedAt callback)
      (AdapterCall.run (.convert .generic failedAt callback) adapter) := by
    cases failedAt with
    | none =>
      cases callback with
      | none =>
        refine converted_silent adapter (fun h => ?_) _
        exact Bool.false_ne_true h.1
      | some callback => exact converted_defer adapter hpath callback
    | some stage =>
      cases callback with
      | none => exact converted_mark adapter _ _ fun _ h => nomatch h
      | some callback =>
        exact converted_mark adapter _ _ fun effect heffect =>
          ⟨callback, _, List.mem_singleton.mp heffect⟩
  cases path with
  | generic => exact hfinish (by decide)
  | bdxStream => exact hfinish (by decide)
  | schemStream =>
    refine converted_silent adapter (fun h => ?_) _
    have hnone : failedAt = none := h.2 rfl
    rw [hnone] at h
    exact Bool.false_ne_true h.1

/-- The last entry of a list, or one before it. -/
theorem append_eq_snoc {α : Type} {history before after : List α} {last entry : α}
    (h : history ++ [last] = before ++ entry :: after) :
    (history = before ∧ last = entry ∧ after = []) ∨
      ∃ rest, after = rest ++ [last] ∧ history = before ++ entry :: rest := by
  rcases List.eq_nil_or_concat after with rfl | ⟨rest, final, rfl⟩
  · obtain ⟨hhistory, hlast⟩ := List.append_inj' h rfl
    exact .inl ⟨hhistory, (List.cons.inj hlast).1, rfl⟩
  · rw [List.concat_eq_append, ← List.cons_append, ← List.append_assoc] at h
    obtain ⟨hhistory, hlast⟩ := List.append_inj' h rfl
    exact .inr ⟨rest, by rw [List.concat_eq_append, (List.cons.inj hlast).1], hhistory⟩

/-- What is kept while an adapter is used. -/
structure Invariant (archive directory : Option Path) (life : AdapterLife Path) : Prop
    extends Safe archive directory life where
  archivePath : life.adapter.world = true → life.adapter.archivePath = archive
  unpacked : life.adapter.world = true → life.adapter.pendingArchivePath = none
  conversions : life.adapter.world = true → ∀ entry ∈ life.history,
    entry.1.IsConversion ∧ (entry.1.Fails → life.adapter.discardOnClose = true)
  unreplaced : life.adapter.world = true → life.effects.countP isReplaced = 0
  waits : ∀ callback, life.effects.countP (isDeferred callback) + life.adapter.waiting callback ≤
    life.history.countP fun entry => entry.1.defers callback

/-- Without statistics no callback waits. -/
theorem waiting_silent (adapter : BedrockWorldAdapter Path) (callback : ℕ) :
    waiting ({ adapter with deferredStats := none, deferredStatisticsCallback := none }) callback = 0 :=
  if_neg fun h => nomatch h.1

/-- A call that closes the adapter, also the destructor. -/
theorem closed_run (adapter : BedrockWorldAdapter Path) (hcall : ¬ call.IsConversion) :
    Closed adapter call.Commits (call.run adapter) := by
  cases call with
  | convert => exact absurd trivial hcall
  | close outcomes => exact (close_closes outcomes adapter).closed
  | discard outcomes => exact (discard_closes outcomes adapter _).closed
  | destroy outcomes =>
    have h := (destroy_closes outcomes adapter).closed
    refine ⟨h.world, h.once, h.replaced, h.cleanup, h.pending, h.directory, fun callback => ?_⟩
    have hstatistics := h.statistics callback
    rw [waiting_silent] at hstatistics
    exact Nat.le_trans hstatistics (Nat.zero_le _)

/-- The destructor calls no callback. -/
theorem no_statistics_destroy (outcomes : CloseOutcomes Path) (adapter : BedrockWorldAdapter Path)
    (callback : ℕ) (stats : ConversionStats) :
    .deferredStatistics callback stats ∉ (destroy outcomes adapter).effects := by
  intro hmem
  have hcount := (destroy_closes outcomes adapter).closed.statistics callback
  rw [waiting_silent, Nat.le_zero, Nat.add_eq_zero_iff, List.countP_eq_zero] at hcount
  exact hcount.1 _ hmem (decide_eq_true rfl)

/-- The effects of another call come last. -/
theorem effects_snoc {life : AdapterLife Path} {history : List (AdapterCall Path × List (AdapterEffect Path))}
    {adapter : BedrockWorldAdapter Path} {destroyed : Bool} {call : AdapterCall Path}
    {effects : List (AdapterEffect Path)} (h : history = life.history ++ [(call, effects)]) :
    (AdapterLife.mk adapter destroyed history).effects = life.effects ++ effects := by
  rw [AdapterLife.effects, h, List.flatMap_append, List.flatMap_singleton]
  rfl

/-- A conversion keeps what holds. -/
theorem Invariant.convert (h : Invariant archive directory life) {result : CallResult Path}
    (hcall : call.IsConversion) (hmarks : call.Marks) (hresult : Converted life.adapter call result) :
    Invariant archive directory
      ⟨result.adapter, false, life.history ++ [(call, result.effects)]⟩ := by
  have heffects := @effects_snoc Path life _ result.adapter false call result.effects rfl
  have hsilent {effect : AdapterEffect Path} (hmem : effect ∈ result.effects)
      (hother : ∀ callback stats, effect ≠ .deferredStatistics callback stats ∧
        effect ≠ .statistics callback stats) : False := by
    obtain ⟨callback, stats, hstats⟩ := hresult.effects effect hmem
    exact hstats.elim (hother callback stats).1 (hother callback stats).2
  have hreplaced : result.effects.countP isReplaced = 0 := by
    rw [List.countP_eq_zero]
    intro effect hmem his
    obtain ⟨callback, stats, rfl | rfl⟩ := hresult.effects effect hmem <;> cases his
  have hwaits (callback : ℕ) : (AdapterLife.mk result.adapter false
      (life.history ++ [(call, result.effects)])).effects.countP (isDeferred callback) +
        result.adapter.waiting callback ≤
          (life.history ++ [(call, result.effects)]).countP fun entry => entry.1.defers callback := by
    have hbefore := h.waits callback
    have hstatistics := hresult.statistics callback
    rw [heffects, List.countP_append, List.countP_append, List.countP_singleton]
    dsimp only
    omega
  refine ⟨⟨?_, ?_, ?_, ?_, ?_, fun callback => Nat.le_trans (Nat.le_add_right ..) (hwaits callback), ?_⟩,
    ?_, ?_, ?_, ?_, hwaits⟩
  · rw [heffects, List.countP_append, hreplaced]
    exact h.once
  · intro before other effects after hhistory pending final hmem
    rcases append_eq_snoc hhistory with ⟨-, hlast, -⟩ | ⟨rest, -, hbefore⟩
    · cases hlast
      exact (hsilent hmem fun _ _ => ⟨nofun, nofun⟩).elim
    · exact h.committed before other effects rest hbefore pending final hmem
  · intro before other effects after hhistory hother hearlier
    rcases append_eq_snoc hhistory with ⟨-, hlast, -⟩ | ⟨rest, -, hbefore⟩
    · cases hlast
      exact absurd hcall hother
    · exact h.later before other effects rest hbefore hother hearlier
  · intro path hpath
    rw [heffects] at hpath ⊢
    have hold := (List.mem_append.mp hpath).resolve_right fun hmem =>
      hsilent hmem fun _ _ => ⟨nofun, nofun⟩
    rcases h.pending path hold with hkept | hremoved | ⟨final, hfinal⟩
    · exact .inl (hresult.pending.trans hkept)
    · exact .inr (.inl (List.mem_append_left _ hremoved))
    · exact .inr (.inr ⟨final, List.mem_append_left _ hfinal⟩)
  · intro path hpath
    rw [heffects]
    rcases h.directory path hpath with hkept | hremoved
    · exact .inl (hresult.directory.trans hkept)
    · exact .inr (List.mem_append_left _ hremoved)
  · intro outcomes effects hmem
    rcases List.mem_append.mp hmem with hold | hnew
    · exact h.destructor outcomes effects hold
    · rw [List.mem_singleton, Prod.mk.injEq] at hnew
      rw [← hnew.1] at hcall
      exact hcall.elim
  · exact fun hworld => hresult.archivePath.trans (h.archivePath (hresult.world.symm.trans hworld))
  · exact fun hworld => hresult.pending.trans (h.unpacked (hresult.world.symm.trans hworld))
  · intro hworld entry hentry
    rcases List.mem_append.mp hentry with hold | hnew
    · obtain ⟨hconversion, hfails⟩ := h.conversions (hresult.world.symm.trans hworld) entry hold
      exact ⟨hconversion, fun hfailed => hresult.kept (hfails hfailed)⟩
    · rw [List.mem_singleton.mp hnew]
      exact ⟨hcall, fun hfailed => hresult.marked hfailed hmarks⟩
  · intro hworld
    rw [heffects, List.countP_append, hreplaced]
    exact h.unreplaced (hresult.world.symm.trans hworld)

/-- A call that closes the adapter keeps what holds. -/
theorem Invariant.close (h : Invariant archive directory life) (hcall : ¬ call.IsConversion)
    (destroyed : Bool) :
    Invariant archive directory ⟨(call.run life.adapter).adapter, destroyed,
      life.history ++ [(call, (call.run life.adapter).effects)]⟩ := by
  have hresult := closed_run life.adapter hcall
  have heffects := @effects_snoc Path life _ (call.run life.adapter).adapter destroyed call
    (call.run life.adapter).effects rfl
  have hnever {P : Prop} (hworld : (call.run life.adapter).adapter.world = true) : P := by
    rw [hresult.world] at hworld
    cases hworld
  have hdefers (callback : ℕ) : call.defers callback = false := by
    cases call with
    | convert => exact absurd trivial hcall
    | _ => rfl
  have hwaits (callback : ℕ) : (AdapterLife.mk (call.run life.adapter).adapter destroyed
      (life.history ++ [(call, (call.run life.adapter).effects)])).effects.countP (isDeferred callback) +
        (call.run life.adapter).adapter.waiting callback ≤
          (life.history ++ [(call, (call.run life.adapter).effects)]).countP fun entry =>
            entry.1.defers callback := by
    have hbefore := h.waits callback
    have hstatistics := hresult.statistics callback
    rw [heffects, List.countP_append, List.countP_append, List.countP_singleton]
    dsimp only
    rw [hdefers, if_neg Bool.false_ne_true]
    omega
  refine ⟨⟨?_, ?_, ?_, ?_, ?_, fun callback => Nat.le_trans (Nat.le_add_right ..) (hwaits callback),
    ?_⟩, hnever, hnever, hnever, hnever, hwaits⟩
  · -- Only while LevelDB is open can the archive be replaced, and then it has not been.
    rw [heffects, List.countP_append]
    cases hworld : life.adapter.world with
    | true =>
      rw [h.unreplaced hworld, Nat.zero_add]
      exact hresult.once
    | false =>
      have hnone : (call.run life.adapter).effects.countP isReplaced = 0 := by
        rw [List.countP_eq_zero]
        intro effect hmem his
        have hcleanup := hresult.cleanup hworld effect hmem
        cases effect with
        | replaced => cases hcleanup
        | _ => cases his
      rw [hnone]
      exact h.once
  · intro before other effects after hhistory pending final hmem
    rcases append_eq_snoc hhistory with ⟨hbefore, hlast, -⟩ | ⟨rest, -, hbefore⟩
    · cases hlast
      obtain ⟨hworld, hkeep, hfinal, hcommits⟩ := hresult.replaced pending final hmem
      refine ⟨hcommits, (h.archivePath hworld).symm.trans hfinal, fun earlier hearlier => ?_⟩
      rw [← hbefore] at hearlier
      obtain ⟨hconversion, hfails⟩ := h.conversions hworld earlier hearlier
      refine ⟨hconversion, fun hfailed => ?_⟩
      rw [hfails hfailed] at hkeep
      cases hkeep
    · exact h.committed before other effects rest hbefore pending final hmem
  · intro before other effects after hhistory hother hearlier
    rcases append_eq_snoc hhistory with ⟨hbefore, hlast, -⟩ | ⟨rest, -, hbefore⟩
    · cases hlast
      apply hresult.cleanup
      rw [Bool.eq_false_iff]
      intro hworld
      obtain ⟨earlier, hmem, hclose⟩ := hearlier
      rw [← hbefore] at hmem
      exact hclose (h.conversions hworld earlier hmem).1
    · exact h.later before other effects rest hbefore hother hearlier
  · intro path hpath
    rw [heffects] at hpath ⊢
    have hknown : life.adapter.pendingArchivePath = some path ∨
        .packing path ∈ (call.run life.adapter).effects ∨
          (.removedPending path ∈ life.effects ∨ ∃ final, .replaced path final ∈ life.effects) := by
      rcases List.mem_append.mp hpath with hold | hnew
      · exact (h.pending path hold).imp_right .inr
      · exact .inr (.inl hnew)
    have hkept (hpath : life.adapter.pendingArchivePath = some path ∨
        .packing path ∈ (call.run life.adapter).effects) := hresult.pending h.unpacked path hpath
    rcases or_assoc.mpr hknown with hnow | hremoved | ⟨final, hfinal⟩
    · rcases hkept hnow with hkept | hremoved | ⟨final, hfinal⟩
      · exact .inl hkept
      · exact .inr (.inl (List.mem_append_right _ hremoved))
      · exact .inr (.inr ⟨final, List.mem_append_right _ hfinal⟩)
    · exact .inr (.inl (List.mem_append_left _ hremoved))
    · exact .inr (.inr ⟨final, List.mem_append_left _ hfinal⟩)
  · intro path hpath
    rw [heffects]
    rcases h.directory path hpath with hkept | hremoved
    · exact (hresult.directory path hkept).imp_right (List.mem_append_right _)
    · exact .inr (List.mem_append_left _ hremoved)
  · intro outcomes effects hmem callback stats
    rcases List.mem_append.mp hmem with hold | hnew
    · exact h.destructor outcomes effects hold callback stats
    · rw [List.mem_singleton, Prod.mk.injEq] at hnew
      rw [hnew.2, ← hnew.1]
      exact no_statistics_destroy outcomes life.adapter callback stats

theorem Invariant.step {next : AdapterLife Path} (h : Invariant archive directory life) (hmarks : call.Marks)
    (hstep : life.step call = some next) : Invariant archive directory next := by
  have hdestroyed : life.destroyed ≠ true := fun h => by
    unfold AdapterLife.step at hstep
    rw [if_pos h] at hstep
    cases hstep
  unfold AdapterLife.step at hstep
  rw [if_neg hdestroyed] at hstep
  cases call with
  | convert path failedAt callback =>
    cases hstep
    exact h.convert trivial hmarks (converted_run life.adapter path failedAt callback)
  | close outcomes =>
    cases hstep
    exact h.close id _
  | discard outcomes =>
    cases hstep
    exact h.close id _
  | destroy outcomes =>
    cases hstep
    exact h.close id _

/-- However an adapter is used, its archive is replaced at most once, by a `close` whose steps have
succeeded after successful conversions only; later calls clean up; what is temporary is forgotten when
it is gone; and every callback that waits is called at most once, never by the destructor. This needs
that no stream of Schem fails, since its failure does not mark the adapter. -/
theorem safe_of_run {archive directory : Option Path} {writeBack : Bool}
    {calls : List (AdapterCall Path)} {life : AdapterLife Path}
    (hrun : TransitionSystem.run AdapterLife.step (.opened archive directory writeBack) calls = some life)
    (hmarks : ∀ call ∈ calls, call.Marks) : life.Safe archive directory := by
  have hopened : Invariant archive directory (.opened archive directory writeBack) :=
    { once := Nat.zero_le _
      committed := fun before call effects after h => absurd h (by simp [AdapterLife.opened])
      later := fun before call effects after h => absurd h (by simp [AdapterLife.opened])
      pending := fun _ h => nomatch h
      directory := fun _ h => .inl h
      callbacks := fun _ => Nat.zero_le _
      destructor := fun _ _ h => nomatch h
      archivePath := fun _ => rfl
      unpacked := fun _ => rfl
      conversions := fun _ _ h => nomatch h
      unreplaced := fun _ => rfl
      waits := fun _ => Nat.zero_le _ }
  exact (TransitionSystem.run_invariant (fun _ _ _ hlife hcall hstep => hlife.step hcall hstep) hopened
    hmarks hrun).toSafe

/-- Everything succeeds. -/
def allSucceed : CloseOutcomes ℕ := ⟨none, 1, .packed, none, none, none⟩

/-- Two conversions with statistics, closing, and the destructor. -/
def twoConversions : List (AdapterCall ℕ) :=
  [.convert .generic none (some 7), .convert .bdxStream none (some 8), .close allSucceed,
    .destroy allSucceed]

theorem marks_twoConversions : ∀ call ∈ twoConversions, call.Marks := by
  intro call hcall
  simp only [twoConversions, List.mem_cons, List.not_mem_nil, or_false] at hcall
  rcases hcall with rfl | rfl | rfl | rfl <;> simp [AdapterCall.Marks]

theorem safe_of_run_twice : ∃ life, TransitionSystem.run AdapterLife.step
    (.opened (some 0) (some 2) true) twoConversions = some life ∧ life.Safe (some 0) (some 2) :=
  ⟨_, rfl, safe_of_run rfl marks_twoConversions⟩

/-- A stream of Schem that fails leaves an adapter whose archive is replaced when it is closed. -/
theorem not_safe_schemStream :
    ¬ ∀ (archive directory : Option ℕ) writeBack calls (life : AdapterLife ℕ),
      TransitionSystem.run AdapterLife.step (.opened archive directory writeBack) calls = some life →
        life.Safe archive directory := by
  intro h
  have hsafe := h (some 0) (some 2) true
    [.convert .schemStream (some "Schem BlockData 方块数超过 size") none, .close allSucceed] _ rfl
  have hcommitted := hsafe.committed
    [(.convert .schemStream (some "Schem BlockData 方块数超过 size") none, [])] (.close allSucceed) _ [] rfl
    1 0 (List.mem_cons_of_mem _ (List.mem_cons_of_mem _ List.mem_cons_self))
  exact (hcommitted.2.2 _ List.mem_cons_self).2 rfl

end AdapterLife

end WaterStructure
