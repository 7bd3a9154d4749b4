import WaterStructure.Formats.BdxSpoolProtocol
import WaterStructure.Library.NestedLoop

/-!
# BDX: safety of the placement spool

The flags and the counter agree with the threads in every run, and a directory is never read while it
is written or removed. A thread that has waited for the build of another one does not look at the flag of
invalidations again, so it can start a build while the directory of the spool is being removed. In runs
where this does not happen, no build runs and no reader is registered while the directory is removed.
-/

namespace WaterStructure

open TransitionSystem ThreadCount NestedLoop

namespace SpoolPhase

variable {Directory : Type}

/-- The phases of a build. -/
def builds : SpoolPhase Directory → Bool
  | building _ | built _ | failed _ _ => true
  | _ => false

/-- The phases of an invalidation that has set its flag. -/
def invalidates : SpoolPhase Directory → Bool
  | draining | removing _ | leaving => true
  | _ => false

/-- The phase of a registered reader. -/
def reads : SpoolPhase Directory → Bool
  | reading _ => true
  | _ => false

/-- The phases in which the directory of the spool is removed or has been removed. -/
def removes : SpoolPhase Directory → Bool
  | removing _ | leaving => true
  | _ => false

theorem invalidates_of_removes {p : SpoolPhase Directory} (h : p.removes = true) :
    p.invalidates = true := by
  cases p with
  | removing => rfl
  | leaving => rfl
  | _ => cases h

/-- The directory whose files the thread writes or removes. -/
def owned : SpoolPhase Directory → Option Directory
  | building directory => directory
  | built directory => some directory
  | failed directory _ => directory
  | discarding directory => directory
  | removing directory => directory
  | _ => none

end SpoolPhase

namespace PlacementSpool

open SpoolPhase

variable {Thread Directory : Type} {s next : PlacementSpool Thread Directory}

section Counted

variable [Fintype Thread]

/-- The flags and the counter agree with the threads. -/
structure Counted (s : PlacementSpool Thread Directory) : Prop where
  building : count builds s.phase = s.building.toNat
  invalidating : count invalidates s.phase = s.invalidating.toNat
  readers : count reads s.phase = s.readers

variable {t : Thread}

theorem Counted.building_of (hs : s.Counted) (h : builds (s.phase t) = true) : s.building = true := by
  have hpos := count_pos_iff.mpr ⟨t, h⟩
  rw [hs.building] at hpos
  cases hb : s.building with
  | true => rfl
  | false => rw [hb] at hpos; exact absurd hpos (Nat.lt_irrefl 0)

theorem Counted.invalidating_of (hs : s.Counted) (h : invalidates (s.phase t) = true) :
    s.invalidating = true := by
  have hpos := count_pos_iff.mpr ⟨t, h⟩
  rw [hs.invalidating] at hpos
  cases hb : s.invalidating with
  | true => rfl
  | false => rw [hb] at hpos; exact absurd hpos (Nat.lt_irrefl 0)

/-- The counter never underflows. -/
theorem Counted.readers_of (hs : s.Counted) (h : reads (s.phase t) = true) : s.readers ≠ 0 := by
  have hpos := count_pos_iff.mpr ⟨t, h⟩
  rw [hs.readers] at hpos
  exact Nat.ne_of_gt hpos

theorem Counted.readers_eq_zero (hs : s.Counted) :
    s.readers = 0 ↔ ∀ t, (s.phase t).reads = false := by
  rw [← hs.readers, count_eq_zero_iff]

/-- A step changes a flag by what it changes for its thread. -/
theorem Counted.goto [DecidableEq Thread] (hs : s.Counted) {p q : SpoolPhase Directory} (h : s.phase t = p)
    (hphase : next.phase = Function.update s.phase t q)
    (hbuilding : s.building.toNat + (builds q).toNat = next.building.toNat + (builds p).toNat)
    (hinvalidating : s.invalidating.toNat + (invalidates q).toNat =
      next.invalidating.toNat + (invalidates p).toNat)
    (hreaders : s.readers + (reads q).toNat = next.readers + (reads p).toNat) : next.Counted := by
  have hcount (group : SpoolPhase Directory → Bool) := count_update group s.phase t q
  rw [h, ← hphase] at hcount
  obtain ⟨hb, hi, hr⟩ := hs
  have := hcount builds
  have := hcount invalidates
  have := hcount reads
  exact ⟨by omega, by omega, by omega⟩

end Counted

section

variable [DecidableEq Thread] [DecidableEq Directory]

/-- What the steps do, with all that is known when they are taken. -/
inductive Moves (s : PlacementSpool Thread Directory) :
    SpoolAction Thread Directory → PlacementSpool Thread Directory → Prop
  | getChunks {t : Thread} (h : s.phase t = .idle) : Moves s (.getChunks t) (s.goto t .ensuring)
  | ensureReady {t : Thread} (h : s.phase t = .ensuring) (hopen : s.invalidating = false)
      (hready : s.ready = true) : Moves s (.ensure t) (s.goto t .registering)
  | ensureAwait {t : Thread} (h : s.phase t = .ensuring) (hopen : s.invalidating = false)
      (hbuilding : s.building = true) : Moves s (.ensure t) (s.goto t .awaiting)
  | ensureBuild {t : Thread} (h : s.phase t = .ensuring) (hopen : s.invalidating = false)
      (hready : s.ready = false) (hbuilding : s.building = false) :
      Moves s (.ensure t) (s.startBuild t)
  | resumeReady {t : Thread} (h : s.phase t = .awaiting) (hready : s.ready = true) :
      Moves s (.resume t) (s.goto t .registering)
  | resumeFailed {t : Thread} (h : s.phase t = .awaiting) (herror : s.error ≠ "") :
      Moves s (.resume t) (s.goto t .idle)
  | resumeBuild {t : Thread} (h : s.phase t = .awaiting) (hready : s.ready = false)
      (hbuilding : s.building = false) (herror : s.error = "") : Moves s (.resume t) (s.startBuild t)
  | createDirectory {t : Thread} {directory : Directory} (h : s.phase t = .building none)
      (habsent : s.disk directory = .absent) : Moves s (.createDirectory t directory)
        ((s.store (some directory) .incomplete).goto t (.building (some directory)))
  | finish {t : Thread} {directory : Directory} (h : s.phase t = .building (some directory)) :
      Moves s (.finish t) ((s.store (some directory) .complete).goto t (.built directory))
  | fail {t : Thread} {directory : Option Directory} {failure : String}
      (h : s.phase t = .building directory) :
      Moves s (.fail t failure) (s.goto t (.failed directory failure))
  | publish {t : Thread} {directory : Directory} (h : s.phase t = .built directory) :
      Moves s (.publish t) ({ s with
        directory := some directory, shardPaths := some directory, error := "", building := false
        ready := true }.goto t .registering)
  | publishFailure {t : Thread} {directory : Option Directory} {failure : String}
      (h : s.phase t = .failed directory failure) :
      Moves s (.publishFailure t) ({ s with
        directory := none, shardPaths := none, building := false, ready := false
        error := failure }.goto t (.discarding directory))
  | discard {t : Thread} {directory : Option Directory} (h : s.phase t = .discarding directory) :
      Moves s (.discard t) ((s.store directory .absent).goto t .idle)
  | registerAgain {t : Thread} (h : s.phase t = .registering) :
      Moves s (.register t) (s.goto t .ensuring)
  | register {t : Thread} (h : s.phase t = .registering) (hopen : s.invalidating = false)
      (hready : s.ready = true) :
      Moves s (.register t) ({ s with readers := s.readers + 1 }.goto t (.reading s.shardPaths))
  | release {t : Thread} {paths : Option Directory} (h : s.phase t = .reading paths) :
      Moves s (.release t)
        ({ s with readers := if s.readers ≠ 0 then s.readers - 1 else s.readers }.goto t .idle)
  | invalidate {t : Thread} (h : s.phase t = .idle) : Moves s (.invalidate t) (s.goto t .invalidating)
  | enterDrain {t : Thread} (h : s.phase t = .invalidating) (hopen : s.invalidating = false) :
      Moves s (.enter t) ({ s with invalidating := true, ready := false }.goto t .draining)
  | enterDetach {t : Thread} (h : s.phase t = .invalidating) (hopen : s.invalidating = false)
      (hbuilding : s.building = false) (hreaders : s.readers = 0) :
      Moves s (.enter t) ({ s with invalidating := true, ready := false }.detach t)
  | drain {t : Thread} (h : s.phase t = .draining) (hbuilding : s.building = false)
      (hreaders : s.readers = 0) : Moves s (.drain t) (s.detach t)
  | remove {t : Thread} {directory : Option Directory} (h : s.phase t = .removing directory) :
      Moves s (.remove t) ((s.store directory .absent).goto t .leaving)
  | leave {t : Thread} (h : s.phase t = .leaving) :
      Moves s (.leave t) ({ s with invalidating := false }.goto t .idle)

variable {action : SpoolAction Thread Directory} {t : Thread} {q : SpoolPhase Directory} {d : Directory}
  {u : Thread}

/-- Every enabled step is one of these. -/
theorem moves_of_step (h : s.step action = some next) : Moves s action next := by
  -- Every action needs its own phase.
  cases action with (simp only [step] at h; split at h; rotate_left; cases h; rename_i hphase)
  | ensure t =>
    obtain ⟨hopen, h⟩ := else_of_some h
    have hopen := Bool.eq_false_iff.mpr hopen
    split_ifs at h with hready hbuilding
    · cases h; exact .ensureReady hphase hopen hready
    · cases h; exact .ensureAwait hphase hopen hbuilding
    · cases h
      exact .ensureBuild hphase hopen (Bool.eq_false_iff.mpr hready) (Bool.eq_false_iff.mpr hbuilding)
  | resume t =>
    obtain ⟨hguard, h⟩ := else_of_some h
    split_ifs at h with hready herror
    · cases h; exact .resumeReady hphase hready
    · cases h; exact .resumeFailed hphase herror
    · cases h
      exact .resumeBuild hphase (Bool.eq_false_iff.mpr hready)
        ((not_not.mp hguard).resolve_right hready) (not_not.mp herror)
  | register t =>
    split_ifs at h with hopen
    · cases h; exact .registerAgain hphase
    · rw [not_or, Bool.not_eq_true, Bool.not_eq_false] at hopen
      cases h
      exact .register hphase hopen.1 hopen.2
  | enter t =>
    obtain ⟨hopen, h⟩ := else_of_some h
    have hopen := Bool.eq_false_iff.mpr hopen
    split_ifs at h with hquiet
    · cases h; exact .enterDrain hphase hopen
    · rw [not_or, Bool.not_eq_true, not_not] at hquiet
      cases h
      exact .enterDetach hphase hopen hquiet.1 hquiet.2
  | drain t =>
    obtain ⟨hquiet, h⟩ := then_of_some h
    cases h
    exact .drain hphase hquiet.1 hquiet.2
  | createDirectory t directory =>
    obtain ⟨habsent, h⟩ := then_of_some h
    cases h
    exact .createDirectory hphase habsent
  | getChunks t | finish t | fail t failure | publish t | publishFailure t | discard t | release t
  | invalidate t | remove t | leave t =>
    cases h
    first
      | exact .getChunks hphase | exact .finish hphase | exact .fail hphase | exact .publish hphase
      | exact .publishFailure hphase | exact .discard hphase | exact .release hphase
      | exact .invalidate hphase | exact .remove hphase | exact .leave hphase

omit [DecidableEq Thread] in
/-- Files change on the disk only. -/
theorem store_eq (directory : Option Directory) (files : SpoolFiles) :
    s.store directory files = { s with disk := (s.store directory files).disk } := by
  cases directory <;> rfl

theorem Counted.step [Fintype Thread] (hs : s.Counted) (h : Moves s action next) : next.Counted := by
  cases h with
  | getChunks h | ensureReady h | ensureAwait h | resumeReady h | resumeFailed h | createDirectory h
  | finish h | fail h | registerAgain h | register h | invalidate h | drain h =>
    exact hs.goto h rfl rfl rfl rfl
  | ensureBuild h _ _ hbuilding | resumeBuild h _ hbuilding => exact hs.goto h rfl (by rw [hbuilding]; rfl) rfl rfl
  | publish h | publishFailure h =>
    exact hs.goto h rfl (by rw [hs.building_of (by rw [h]; rfl)]; rfl) rfl rfl
  | release h =>
    have hne := hs.readers_of (by rw [h]; rfl)
    refine hs.goto h rfl rfl rfl ?_
    change s.readers = (if s.readers ≠ 0 then s.readers - 1 else s.readers) + 1
    rw [if_pos hne, Nat.sub_add_cancel (Nat.pos_of_ne_zero hne)]
  | enterDrain h hopen | enterDetach h hopen => exact hs.goto h rfl rfl (by rw [hopen]; rfl) rfl
  | discard h | remove h =>
    rw [store_eq]
    exact hs.goto h rfl rfl rfl rfl
  | leave h =>
    exact hs.goto h rfl rfl (by rw [hs.invalidating_of (by rw [h]; rfl)]; rfl) rfl

/-- What holds of the directories and their files. -/
structure Stored (s : PlacementSpool Thread Directory) : Prop where
  owned : ∀ t d, (s.phase t).owned = some d → s.disk d ≠ .absent ∧ s.directory ≠ some d
  single : ∀ t u d, (s.phase t).owned = some d → (s.phase u).owned = some d → t = u
  built : ∀ t d, s.phase t = .built d → s.disk d = .complete
  directory : ∀ d, s.directory = some d → s.disk d = .complete
  shardPaths : s.shardPaths = s.directory
  ready : s.ready = true → ∃ d, s.directory = some d
  reading : ∀ t paths, s.phase t = .reading paths →
    ∃ d, paths = some d ∧ s.disk d = .complete ∧ ∀ u, (s.phase u).owned ≠ some d

/-- No thread writes, removes or reads the directory, and it is not the one of the spool. -/
structure Free (s : PlacementSpool Thread Directory) (d : Directory) : Prop where
  owned : ∀ u, (s.phase u).owned ≠ some d
  directory : s.directory ≠ some d
  reading : ∀ u, s.phase u ≠ .reading (some d)

omit [DecidableEq Directory] in
/-- A thread moves on: what it comes to own was its own or free, what it has built or reads is complete. -/
theorem Stored.goto (hs : s.Stored)
    (howned : ∀ d, q.owned = some d → (s.phase t).owned = some d ∨ s.disk d ≠ .absent ∧ s.Free d)
    (hbuilt : ∀ d, q = .built d → s.disk d = .complete)
    (hreading : ∀ paths, q = .reading paths → ∃ d, paths = some d ∧ s.directory = some d) :
    (s.goto t q).Stored := by
  have hphase (u : Thread) : (s.goto t q).phase u = if u = t then q else s.phase u :=
    Function.update_apply s.phase t q u
  -- What a thread owns now, it or `t` owned before, or it was free.
  have hbefore (u : Thread) (d : Directory) (h : ((s.goto t q).phase u).owned = some d) :
      (s.phase u).owned = some d ∨ (u = t ∧ s.disk d ≠ .absent ∧ s.Free d) := by
    rw [hphase] at h
    split_ifs at h with hu
    · subst hu
      exact (howned d h).imp_right fun hfree => ⟨rfl, hfree⟩
    · exact .inl h
  refine ⟨fun u d h => ?_, fun u v d hu hv => ?_, fun u d h => ?_, hs.directory, hs.shardPaths, hs.ready,
    fun u paths h => ?_⟩
  · rcases hbefore u d h with hold | ⟨-, hdisk, hfree⟩
    · exact hs.owned u d hold
    · exact ⟨hdisk, hfree.directory⟩
  · rcases hbefore u d hu with hold | ⟨rfl, -, hfree⟩
    · rcases hbefore v d hv with hold' | ⟨-, -, hfree⟩
      · exact hs.single u v d hold hold'
      · exact absurd hold (hfree.owned u)
    · rcases hbefore v d hv with hold' | ⟨rfl, -⟩
      · exact absurd hold' (hfree.owned v)
      · rfl
  · rw [hphase] at h
    split at h
    · exact hbuilt d h
    · exact hs.built u d h
  · rw [hphase] at h
    split at h
    · obtain ⟨d, rfl, hdirectory⟩ := hreading paths h
      refine ⟨d, rfl, hs.directory d hdirectory, fun v hv => ?_⟩
      rcases hbefore v d hv with hold | ⟨-, -, hfree⟩
      · exact (hs.owned v d hold).2 hdirectory
      · exact hfree.directory hdirectory
    · obtain ⟨d, rfl, hdisk, hothers⟩ := hs.reading u paths h
      refine ⟨d, rfl, hdisk, fun v hv => ?_⟩
      rcases hbefore v d hv with hold | ⟨-, -, hfree⟩
      · exact hothers v hold
      · exact hfree.reading u h

omit [DecidableEq Directory] in
/-- A thread moves on and gives up what it owned. -/
theorem Stored.goto_none (hs : s.Stored) (h : q.owned = none) (hreading : q.reads = false) :
    (s.goto t q).Stored := by
  refine hs.goto (fun d hd => ?_) (fun d hd => ?_) fun paths hpaths => ?_
  · rw [h] at hd
    cases hd
  · rw [hd] at h
    cases h
  · rw [hpaths] at hreading
    cases hreading

omit [DecidableEq Thread] in
/-- The files of a directory change, when nothing depends on them or they become complete. -/
theorem Stored.store (hs : s.Stored) {files : SpoolFiles} (h : files = .complete ∨ s.Free d) :
    (s.store (some d) files).Stored := by
  have hdisk (other : Directory) : (s.store (some d) files).disk other =
      if other = d then files else s.disk other := Function.update_apply s.disk d files other
  have hcomplete (other : Directory) (hother : s.disk other = .complete) (hnot : ¬ s.Free other) :
      (s.store (some d) files).disk other = .complete := by
    rw [hdisk]
    split_ifs with heq
    · exact h.resolve_right (heq ▸ hnot)
    · exact hother
  refine ⟨fun u other hu => ⟨?_, (hs.owned u other hu).2⟩, hs.single, fun u other hu => ?_,
    fun other hother => ?_, hs.shardPaths, hs.ready, fun u paths hu => ?_⟩
  · rw [hdisk]
    split_ifs with heq
    · subst heq
      rcases h with rfl | hfree
      · exact nofun
      · exact absurd hu (hfree.owned u)
    · exact (hs.owned u other hu).1
  · refine hcomplete other (hs.built u other hu) fun hfree => hfree.owned u ?_
    rw [show s.phase u = .built other from hu]
    rfl
  · exact hcomplete other (hs.directory other hother) fun hfree => hfree.directory hother
  · obtain ⟨other, rfl, hcompleted, hothers⟩ := hs.reading u paths hu
    exact ⟨other, rfl, hcomplete other hcompleted fun hfree => hfree.reading u hu, hothers⟩

omit [DecidableEq Thread] [DecidableEq Directory] in
/-- The members change: the directory is kept, dropped, or a complete one that no thread owns. -/
theorem Stored.keep (hs : s.Stored) (hdisk : next.disk = s.disk) (hphase : next.phase = s.phase)
    (hpaths : next.shardPaths = next.directory)
    (hready : next.ready = true → ∃ d, next.directory = some d)
    (hdirectory : ∀ d, next.directory = some d →
      s.directory = some d ∨ (s.disk d = .complete ∧ ∀ u, (s.phase u).owned ≠ some d)) :
    next.Stored := by
  obtain ⟨howned, hsingle, hbuilt, hold, -, -, hreading⟩ := hs
  rw [← hdisk, ← hphase] at *
  refine ⟨fun u d hu => ⟨(howned u d hu).1, fun hd => ?_⟩, hsingle, hbuilt, fun d hd => ?_, hpaths, hready,
    hreading⟩
  · rcases hdirectory d hd with hkept | ⟨-, hfree⟩
    · exact (howned u d hu).2 hkept
    · exact hfree u hu
  · rcases hdirectory d hd with hkept | ⟨hcomplete, -⟩
    · exact hold d hkept
    · exact hcomplete

omit [DecidableEq Thread] [DecidableEq Directory] in
/-- A directory that is not there is free. -/
theorem Stored.free_of_absent (hs : s.Stored) (h : s.disk d = .absent) : s.Free d := by
  refine ⟨fun u hu => (hs.owned u d hu).1 h, fun hd => ?_, fun u hu => ?_⟩
  · rw [hs.directory d hd] at h
    cases h
  · obtain ⟨other, heq, hcomplete, -⟩ := hs.reading u _ hu
    cases heq
    rw [hcomplete] at h
    cases h

omit [DecidableEq Directory] in
/-- A directory is free once its owner has moved on. -/
theorem Stored.free_goto (hs : s.Stored) (h : (s.phase t).owned = some d) (hq : q.owned = none)
    (hreading : q.reads = false) : (s.goto t q).Free d := by
  have hphase (u : Thread) : (s.goto t q).phase u = if u = t then q else s.phase u :=
    Function.update_apply s.phase t q u
  refine ⟨fun u hu => ?_, (hs.owned t d h).2, fun u hu => ?_⟩
  · rw [hphase] at hu
    split_ifs at hu with hne
    · rw [hq] at hu; cases hu
    · exact hne (hs.single u t d hu h)
  · rw [hphase] at hu
    split at hu
    · rw [hu] at hreading; cases hreading
    · obtain ⟨other, heq, -, hothers⟩ := hs.reading u _ hu
      cases heq
      exact hothers t h

/-- Removing files and moving on. -/
theorem Stored.remove (hs : s.Stored) {t : Thread} {directory : Option Directory}
    (h : (s.phase t).owned = directory) {q : SpoolPhase Directory} (hq : q.owned = none)
    (hreading : q.reads = false) : ((s.store directory .absent).goto t q).Stored := by
  have hnext := hs.goto_none (t := t) hq hreading
  cases directory with
  | none => exact hnext
  | some d => exact hnext.store (.inr (hs.free_goto h hq hreading))

omit [DecidableEq Directory] in
/-- Taking the directory out of the spool when nobody reads it. -/
theorem Stored.detach (hs : s.Stored) (hreaders : ∀ u, (s.phase u).reads = false) (t : Thread) :
    (s.detach t).Stored := by
  have hkept : ({ s with ready := false, directory := none, shardPaths := none, error := "" } :
      PlacementSpool Thread Directory).Stored := hs.keep rfl rfl rfl nofun nofun
  refine hkept.goto (fun d hd => .inr ?_) nofun nofun
  have hd : s.directory = some d := hd
  refine ⟨?_, fun u hu => (hs.owned u d hu).2 hd, nofun, fun u hu => ?_⟩
  · rw [show s.disk d = .complete from hs.directory d hd]
    exact nofun
  · have hreads := hreaders u
    rw [show s.phase u = .reading (some d) from hu] at hreads
    cases hreads

omit [DecidableEq Directory] in
theorem Stored.startBuild (hs : s.Stored) (t : Thread) : (s.startBuild t).Stored :=
  Stored.goto_none (s := { s with building := true, error := "" })
    (hs.keep rfl rfl hs.shardPaths hs.ready fun _ hd => .inl hd) rfl rfl

theorem Stored.step [Fintype Thread] (hs : s.Stored) (hcounted : s.Counted) (h : Moves s action next) :
    next.Stored := by
  cases h with
  | getChunks | ensureReady | ensureAwait | resumeReady | resumeFailed | registerAgain | invalidate =>
    exact hs.goto_none rfl rfl
  | ensureBuild | resumeBuild => exact hs.startBuild _
  | @createDirectory t d h habsent =>
    have hfree := hs.free_of_absent habsent
    refine (hs.store (.inr hfree)).goto (fun other hother => .inr ?_) nofun nofun
    cases hother
    refine ⟨?_, hfree.owned, hfree.directory, hfree.reading⟩
    change Function.update s.disk d SpoolFiles.incomplete d ≠ .absent
    rw [Function.update_self]
    exact nofun
  | @finish t d h =>
    refine (hs.store (.inl rfl)).goto (fun other hother => .inl ?_) (fun other hother => ?_) nofun
    · rw [show ((s.store (some d) .complete).phase t) = .building (some d) from h]
      exact hother
    · cases hother
      exact Function.update_self d SpoolFiles.complete s.disk
  | @fail t directory failure h =>
    refine hs.goto (fun d hd => .inl ?_) nofun nofun
    rw [h]
    exact hd
  | @publish t d h =>
    have howned : (s.phase t).owned = some d := by rw [h]; rfl
    refine (hs.goto_none (t := t) (q := .registering) rfl rfl).keep rfl rfl rfl (fun _ => ⟨d, rfl⟩)
      fun other hother => ?_
    cases hother
    exact .inr ⟨hs.built t d h, (hs.free_goto howned rfl rfl).owned⟩
  | @publishFailure t directory failure h =>
    have hkept : ({ s with
        directory := none, shardPaths := none, building := false, ready := false
        error := failure } : PlacementSpool Thread Directory).Stored := hs.keep rfl rfl rfl nofun nofun
    refine hkept.goto (fun d hd => .inl ?_) nofun nofun
    rw [show s.phase t = .failed directory failure from h]
    exact hd
  | register h _ hready =>
    have hkept : ({ s with readers := s.readers + 1 } : PlacementSpool Thread Directory).Stored :=
      hs.keep rfl rfl hs.shardPaths hs.ready fun _ hd => .inl hd
    refine hkept.goto nofun nofun fun paths hpaths => ?_
    cases hpaths
    obtain ⟨d, hd⟩ := hs.ready hready
    exact ⟨d, hs.shardPaths.trans hd, hd⟩
  | release =>
    exact Stored.goto_none
      (s := { s with readers := if s.readers ≠ 0 then s.readers - 1 else s.readers })
      (hs.keep rfl rfl hs.shardPaths hs.ready fun _ hd => .inl hd) rfl rfl
  | enterDrain =>
    exact Stored.goto_none (s := { s with invalidating := true, ready := false })
      (hs.keep rfl rfl hs.shardPaths nofun fun _ hd => .inl hd) rfl rfl
  | enterDetach h _ _ hreaders =>
    exact Stored.detach (s := { s with invalidating := true, ready := false })
      (hs.keep rfl rfl hs.shardPaths nofun fun _ hd => .inl hd) (hcounted.readers_eq_zero.mp hreaders) _
  | drain h _ hreaders => exact hs.detach (hcounted.readers_eq_zero.mp hreaders) _
  | discard h | remove h => exact hs.remove (by rw [h]; rfl) rfl rfl
  | leave =>
    exact Stored.goto_none (s := { s with invalidating := false })
      (hs.keep rfl rfl hs.shardPaths hs.ready fun _ hd => .inl hd) rfl rfl

/-- A thread that has waited for the build of another one builds itself only when no invalidation is in
progress. -/
def Careful (s : PlacementSpool Thread Directory) (action : SpoolAction Thread Directory) : Prop :=
  ∀ t, action = .resume t → s.ready = false → s.error = "" → s.invalidating = false

/-- What holds in addition if nobody takes a build over during an invalidation. -/
structure Settled (s : PlacementSpool Thread Directory) : Prop where
  building : s.building = true → s.ready = false ∧ s.readers = 0 ∧ s.directory = none
  idle : s.ready = false → s.invalidating = false → s.readers = 0 ∧ s.directory = none
  reading : ∀ t paths, s.phase t = .reading paths → paths = s.directory
  removing : ∀ t, (s.phase t).removes = true →
    s.building = false ∧ s.readers = 0 ∧ s.directory = none

omit [DecidableEq Directory] in
theorem Settled.goto (hs : s.Settled) (hreads : q.reads = false) (hremoves : q.removes = false) :
    (s.goto t q).Settled := by
  have hphase (u : Thread) : (s.goto t q).phase u = if u = t then q else s.phase u :=
    Function.update_apply s.phase t q u
  refine ⟨hs.building, hs.idle, fun u paths hu => ?_, fun u hu => ?_⟩
  · rw [hphase] at hu
    split at hu
    · rw [hu] at hreads
      cases hreads
    · exact hs.reading u paths hu
  · rw [hphase] at hu
    split at hu
    · rw [hremoves] at hu
      cases hu
    · exact hs.removing u hu

omit [DecidableEq Directory] in
theorem Settled.startBuild [Fintype Thread] (hs : s.Settled) (hcounted : s.Counted)
    (hopen : s.invalidating = false) (hready : s.ready = false) (t : Thread) :
    (s.startBuild t).Settled := by
  refine Settled.goto (s := { s with building := true, error := "" }) ?_ rfl rfl
  refine ⟨fun _ => ⟨hready, hs.idle hready hopen⟩, hs.idle, hs.reading, fun u hu => ?_⟩
  have := hcounted.invalidating_of (invalidates_of_removes hu)
  rw [hopen] at this
  cases this

omit [DecidableEq Directory] in
theorem Settled.detach (hbuilding : s.building = false) (hreaders : s.readers = 0)
    (hreads : ∀ u, (s.phase u).reads = false) (t : Thread) : (s.detach t).Settled := by
  refine ⟨fun h => ?_, fun _ _ => ⟨hreaders, rfl⟩, fun u paths hu => ?_, fun _ _ => ⟨hbuilding, hreaders, rfl⟩⟩
  · rw [show (s.detach t).building = s.building from rfl, hbuilding] at h
    cases h
  · have hphase : (s.detach t).phase u = if u = t then .removing s.directory else s.phase u :=
      Function.update_apply s.phase t _ u
    rw [hphase] at hu
    split at hu
    · cases hu
    · have := hreads u
      rw [hu] at this
      cases this

omit [DecidableEq Thread] in
theorem Settled.store (hs : s.Settled) (directory : Option Directory) (files : SpoolFiles) :
    (s.store directory files).Settled := by
  rw [store_eq]
  exact ⟨hs.building, hs.idle, hs.reading, hs.removing⟩

omit [DecidableEq Thread] [DecidableEq Directory] in
/-- A build ends: nobody reads or removes. -/
theorem Settled.ended (hphase : next.phase = s.phase) (hreads : ∀ u, (s.phase u).reads = false)
    (hremoves : ∀ u, (s.phase u).removes ≠ true) (hbuilding : next.building = false)
    (hidle : next.ready = false → next.readers = 0 ∧ next.directory = none) : next.Settled := by
  refine ⟨fun h => ?_, fun hready _ => hidle hready, fun u paths hu => ?_, fun u hu => ?_⟩
  · rw [hbuilding] at h
    cases h
  · have := hreads u
    rw [← hphase, hu] at this
    cases this
  · rw [hphase] at hu
    exact absurd hu (hremoves u)

theorem Settled.step [Fintype Thread] (hs : s.Settled) (hcounted : s.Counted) (hstored : s.Stored)
    (hcareful : s.Careful action) (h : Moves s action next) : next.Settled := by
  -- While a thread builds, nobody reads or removes.
  have hbuilder {t : Thread} (ht : (s.phase t).builds = true) :
      s.readers = 0 ∧ (∀ u, (s.phase u).reads = false) ∧ ∀ u, (s.phase u).removes ≠ true := by
    have hbuilding := hcounted.building_of ht
    have hreaders := (hs.building hbuilding).2.1
    refine ⟨hreaders, hcounted.readers_eq_zero.mp hreaders, fun u hu => ?_⟩
    rw [(hs.removing u hu).1] at hbuilding
    cases hbuilding
  have hclosed (hopen : s.invalidating = false) (u : Thread) : (s.phase u).removes ≠ true := fun hu => by
    have := hcounted.invalidating_of (invalidates_of_removes hu)
    rw [hopen] at this
    cases this
  cases h with
  | getChunks | ensureReady | ensureAwait | resumeReady | resumeFailed | fail | registerAgain
  | invalidate => exact hs.goto rfl rfl
  | createDirectory | finish | discard => exact (hs.store _ _).goto rfl rfl
  | ensureBuild _ hopen hready => exact hs.startBuild hcounted hopen hready _
  | resumeBuild _ hready _ herror =>
    exact hs.startBuild hcounted (hcareful _ rfl hready herror) hready _
  | @publish t d h =>
    obtain ⟨-, hreads, hremoves⟩ := hbuilder (by rw [h]; rfl)
    have hended : ({ s with
        directory := some d, shardPaths := some d, error := "", building := false
        ready := true } : PlacementSpool Thread Directory).Settled :=
      Settled.ended rfl hreads hremoves rfl nofun
    exact hended.goto rfl rfl
  | @publishFailure t directory failure h =>
    obtain ⟨hreaders, hreads, hremoves⟩ := hbuilder (by rw [h]; rfl)
    have hended : ({ s with
        directory := none, shardPaths := none, building := false, ready := false
        error := failure } : PlacementSpool Thread Directory).Settled :=
      Settled.ended rfl hreads hremoves rfl fun _ => ⟨hreaders, rfl⟩
    exact hended.goto rfl rfl
  | @register t h hopen hready =>
    have hphase (u : Thread) : (({ s with readers := s.readers + 1 } :
        PlacementSpool Thread Directory).goto t (.reading s.shardPaths)).phase u =
          if u = t then .reading s.shardPaths else s.phase u := Function.update_apply s.phase t _ u
    refine ⟨fun hbuilding => ?_, fun hnot => ?_, fun u paths hu => ?_, fun u hu => ?_⟩
    · have := (hs.building hbuilding).1
      rw [hready] at this
      cases this
    · rw [show s.ready = false from hnot] at hready
      cases hready
    · rw [hphase] at hu
      split at hu
      · cases hu
        exact hstored.shardPaths
      · exact hs.reading u paths hu
    · rw [hphase] at hu
      split at hu
      · cases hu
      · exact absurd hu (hclosed hopen u)
  | release =>
    refine Settled.goto
      (s := { s with readers := if s.readers ≠ 0 then s.readers - 1 else s.readers }) ?_ rfl rfl
    have hnone (hreaders : s.readers = 0) :
        (if s.readers ≠ 0 then s.readers - 1 else s.readers) = 0 := by
      rw [hreaders]
      rfl
    refine ⟨fun h => ?_, fun hready hopen => ?_, hs.reading, fun u hu => ?_⟩
    · obtain ⟨hready, hreaders, hdirectory⟩ := hs.building h
      exact ⟨hready, hnone hreaders, hdirectory⟩
    · exact ⟨hnone (hs.idle hready hopen).1, (hs.idle hready hopen).2⟩
    · obtain ⟨hbuilding, hreaders, hdirectory⟩ := hs.removing u hu
      exact ⟨hbuilding, hnone hreaders, hdirectory⟩
  | enterDrain _ hopen =>
    refine Settled.goto (s := { s with invalidating := true, ready := false }) ?_ rfl rfl
    exact ⟨fun h => ⟨rfl, (hs.building h).2⟩, nofun, hs.reading, fun u hu => absurd hu (hclosed hopen u)⟩
  | enterDetach _ _ hbuilding hreaders =>
    exact Settled.detach (s := { s with invalidating := true, ready := false }) hbuilding hreaders
      (hcounted.readers_eq_zero.mp hreaders) _
  | drain _ hbuilding hreaders =>
    exact Settled.detach hbuilding hreaders (hcounted.readers_eq_zero.mp hreaders) _
  | @remove t directory h =>
    have hphase (u : Thread) : ((s.store directory .absent).goto t .leaving).phase u =
        if u = t then .leaving else s.phase u := by
      rw [store_eq]
      exact Function.update_apply s.phase t _ u
    have hkept := hs.store directory .absent
    have hremoving := hs.removing t (by rw [h]; rfl)
    refine ⟨hkept.building, hkept.idle, fun u paths hu => ?_, fun u hu => ?_⟩
    · rw [hphase] at hu
      split at hu
      · cases hu
      · refine hkept.reading u paths ?_
        rw [store_eq]
        exact hu
    · rw [store_eq]
      exact hremoving
  | leave h =>
    have hremoving := hs.removing _ (by rw [h]; rfl)
    refine Settled.goto (s := { s with invalidating := false }) ?_ rfl rfl
    exact ⟨hs.building, fun _ _ => hremoving.2, hs.reading, hs.removing⟩

/-- The step that a waiting thread takes once the predicate of its wait holds. -/
def wakeUp (s : PlacementSpool Thread Directory) (t : Thread) : Option (SpoolAction Thread Directory) :=
  match s.phase t with
  | .ensuring => some (.ensure t)
  | .awaiting => some (.resume t)
  | .invalidating => some (.enter t)
  | .draining => some (.drain t)
  | _ => none

/-- The thread waits, and its predicate is false. -/
def Blocked (s : PlacementSpool Thread Directory) (t : Thread) : Prop :=
  ∃ action, s.wakeUp t = some action ∧ s.step action = none

/-- No thread builds, reads or removes files. -/
structure Quiet (s : PlacementSpool Thread Directory) : Prop where
  builds : ∀ t, (s.phase t).builds = false
  reads : ∀ t, (s.phase t).reads = false
  removing : ∀ t directory, s.phase t ≠ .removing directory
  discarding : ∀ t directory, s.phase t ≠ .discarding directory

/-- What the protocol is for. -/
structure Safe [Fintype Thread] (s : PlacementSpool Thread Directory) : Prop where
  /-- At most one thread builds. -/
  builder : ∀ t u, (s.phase t).builds = true → (s.phase u).builds = true → t = u
  /-- What is read is the spool, completely built, and no thread is removing it. -/
  reading : ∀ t paths, s.phase t = .reading paths → ∃ d, paths = some d ∧ s.directory = some d ∧
    s.disk d = .complete ∧ ∀ u, s.phase u ≠ .removing (some d) ∧ s.phase u ≠ .discarding (some d)
  /-- The directory of the spool is removed when no reader is registered and no build is running. -/
  removing : ∀ t directory, s.phase t = .removing directory →
    s.readers = 0 ∧ ∀ u, (s.phase u).reads = false ∧ (s.phase u).builds = false
  /-- The counter is the number of readers, so it does not underflow when one of them leaves. -/
  readers : s.readers = count SpoolPhase.reads s.phase
  /-- In a quiet state a blocked thread does not remain so: another thread can end its wait. -/
  waiting : s.Quiet → ∀ t, s.Blocked t → ∃ u actions s', u ≠ t ∧
    (∀ action ∈ actions, action.thread = u) ∧ run step s actions = some s' ∧ ¬ s'.Blocked t

/-- In a quiet state only the flag of invalidations can block. -/
theorem Quiet.invalidating_of_blocked [Fintype Thread] (hquiet : s.Quiet) (hcounted : s.Counted)
    (h : s.Blocked t) : s.invalidating = true ∧ (s.phase t = .ensuring ∨ s.phase t = .invalidating) := by
  have hbuilding : s.building = false := by
    have hcount := hcounted.building
    rw [count_eq_zero_iff.mpr hquiet.builds] at hcount
    exact Bool.toNat_eq_zero.mp hcount.symm
  have hreaders := hcounted.readers_eq_zero.mpr hquiet.reads
  obtain ⟨action, haction, hstep⟩ := h
  rw [wakeUp] at haction
  split at haction
  case h_1 hphase =>
    cases haction
    refine ⟨?_, .inl hphase⟩
    by_contra hopen
    simp only [step, hphase, hopen, if_false] at hstep
    split at hstep
    · cases hstep
    · split at hstep <;> cases hstep
  case h_2 hphase =>
    cases haction
    simp only [step, hphase, hbuilding, true_or, not_true, if_false] at hstep
    split at hstep
    · cases hstep
    · split at hstep <;> cases hstep
  case h_3 hphase =>
    cases haction
    refine ⟨?_, .inr hphase⟩
    by_contra hopen
    simp only [step, hphase, hopen, if_false] at hstep
    split at hstep <;> cases hstep
  case h_4 hphase =>
    cases haction
    simp [step, hphase, hbuilding, hreaders] at hstep
  case h_5 => cases haction

/-- A thread that waits for the end of invalidations is not blocked without one. -/
theorem not_blocked_of_open (h : s.phase t = .ensuring ∨ s.phase t = .invalidating)
    (hopen : s.invalidating = false) : ¬ s.Blocked t := by
  rintro ⟨action, haction, hstep⟩
  rcases h with hphase | hphase
  · simp only [wakeUp, hphase, Option.some.injEq] at haction
    subst haction
    simp only [step, hphase, hopen, Bool.false_eq_true, if_false] at hstep
    split at hstep
    · cases hstep
    · split at hstep <;> cases hstep
  · simp only [wakeUp, hphase, Option.some.injEq] at haction
    subst haction
    simp only [step, hphase, hopen, Bool.false_eq_true, if_false] at hstep
    split at hstep <;> cases hstep

/-- The end of an invalidation. -/
theorem run_leave (h : s.phase u = .leaving) (hne : u ≠ t) :
    ∃ s', run step s [.leave u] = some s' ∧ s'.phase t = s.phase t ∧ s'.invalidating = false := by
  refine ⟨{ s with invalidating := false }.goto u .idle, ?_, Function.update_of_ne hne.symm _ _, rfl⟩
  simp only [run, step, h, Option.bind_some]

theorem run_remove {directory : Option Directory} (h : s.phase u = .removing directory) (hne : u ≠ t) :
    ∃ s', run step s [.remove u, .leave u] = some s' ∧ s'.phase t = s.phase t ∧
      s'.invalidating = false := by
  have hphase : ((s.store directory .absent).goto u .leaving).phase =
      Function.update s.phase u .leaving := by
    rw [store_eq]
    rfl
  obtain ⟨s', hrun, ht, hopen⟩ := run_leave (s := (s.store directory .absent).goto u .leaving) (u := u)
    (by rw [hphase, Function.update_self]) hne
  refine ⟨s', ?_, ?_, hopen⟩
  · rw [run, step, h]
    exact hrun
  · rw [ht, hphase, Function.update_of_ne hne.symm]

theorem run_drain (h : s.phase u = .draining) (hbuilding : s.building = false) (hreaders : s.readers = 0)
    (hne : u ≠ t) : ∃ s', run step s [.drain u, .remove u, .leave u] = some s' ∧
      s'.phase t = s.phase t ∧ s'.invalidating = false := by
  have hphase : (s.detach u).phase = Function.update s.phase u (.removing s.directory) := rfl
  have hremoving : (s.detach u).phase u = .removing s.directory := by rw [hphase, Function.update_self]
  obtain ⟨s', hrun, ht, hopen⟩ := run_remove hremoving hne
  refine ⟨s', ?_, ?_, hopen⟩
  · rw [run, step, h]
    simp only [hbuilding, hreaders, and_self, if_true, Option.bind_some]
    exact hrun
  · rw [ht, hphase, Function.update_of_ne hne.symm]

/-- The thread that invalidates can go on to the end. -/
theorem Quiet.unblock [Fintype Thread] (hquiet : s.Quiet) (hcounted : s.Counted) (h : s.Blocked t) :
    ∃ u actions s', u ≠ t ∧ (∀ action ∈ actions, action.thread = u) ∧
      run step s actions = some s' ∧ ¬ s'.Blocked t := by
  obtain ⟨hinvalidating, hwaits⟩ := hquiet.invalidating_of_blocked hcounted h
  obtain ⟨u, hu⟩ : ∃ u, (s.phase u).invalidates = true := by
    rw [← count_pos_iff, hcounted.invalidating, hinvalidating]
    exact Nat.one_pos
  have hne : u ≠ t := by
    rintro rfl
    rcases hwaits with hphase | hphase
    · rw [hphase] at hu
      cases hu
    · rw [hphase] at hu
      cases hu
  suffices ∃ actions s', (∀ action ∈ actions, action.thread = u) ∧ run step s actions = some s' ∧
      s'.phase t = s.phase t ∧ s'.invalidating = false by
    obtain ⟨actions, s', hactions, hrun, hphase, hopen⟩ := this
    exact ⟨u, actions, s', hne, hactions, hrun, not_blocked_of_open (by rwa [hphase]) hopen⟩
  cases hphase : s.phase u with
  | draining =>
    have hcount := hcounted.building
    rw [count_eq_zero_iff.mpr hquiet.builds] at hcount
    obtain ⟨s', hrun, hkept⟩ := run_drain hphase (Bool.toNat_eq_zero.mp hcount.symm)
      (hcounted.readers_eq_zero.mpr hquiet.reads) hne
    exact ⟨_, s', by simp [SpoolAction.thread], hrun, hkept⟩
  | leaving =>
    obtain ⟨s', hrun, hkept⟩ := run_leave hphase hne
    exact ⟨_, s', by simp [SpoolAction.thread], hrun, hkept⟩
  | removing directory => exact absurd hphase (hquiet.removing u directory)
  | _ =>
    rw [hphase] at hu
    cases hu

/-- Everything together. -/
structure Sound [Fintype Thread] (s : PlacementSpool Thread Directory) : Prop where
  counted : s.Counted
  stored : s.Stored
  settled : s.Settled

omit [DecidableEq Thread] [DecidableEq Directory] in
theorem sound_init [Fintype Thread] (disk : Directory → SpoolFiles) :
    ({ disk } : PlacementSpool Thread Directory).Sound where
  counted := ⟨count_eq_zero_iff.mpr fun _ => rfl, count_eq_zero_iff.mpr fun _ => rfl,
    count_eq_zero_iff.mpr fun _ => rfl⟩
  stored := ⟨nofun, nofun, nofun, nofun, rfl, nofun, nofun⟩
  settled := ⟨nofun, fun _ _ => ⟨rfl, rfl⟩, nofun, nofun⟩

theorem Sound.safe [Fintype Thread] (h : s.Sound) : s.Safe := by
  obtain ⟨hcounted, hstored, hsettled⟩ := h
  refine ⟨fun t u ht hu => ?_, fun t paths ht => ?_, fun t directory ht => ?_, hcounted.readers.symm,
    fun hquiet t hblocked => hquiet.unblock hcounted hblocked⟩
  · refine eq_of_count_le_one ?_ ht hu
    rw [hcounted.building]
    exact Bool.toNat_le _
  · obtain ⟨d, rfl, hcomplete, hothers⟩ := hstored.reading t paths ht
    refine ⟨d, rfl, (hsettled.reading t _ ht).symm, hcomplete, fun u => ⟨fun hu => ?_, fun hu => ?_⟩⟩
    · exact hothers u (by rw [hu]; rfl)
    · exact hothers u (by rw [hu]; rfl)
  · obtain ⟨hbuilding, hreaders, -⟩ := hsettled.removing t (by rw [ht]; rfl)
    refine ⟨hreaders, fun u => ⟨hcounted.readers_eq_zero.mp hreaders u, ?_⟩⟩
    by_contra hu
    have := hcounted.building_of ((Bool.not_eq_false _).mp hu)
    rw [hbuilding] at this
    cases this

/-- In every run in which no build is taken over during an invalidation, every state is safe. -/
theorem safe_of_reachableBy [Fintype Thread] {disk : Directory → SpoolFiles}
    (h : ReachableBy Careful step ({ disk } : PlacementSpool Thread Directory) s) : s.Safe := by
  refine Sound.safe (h.invariant (sound_init disk) ?_)
  intro s action next hs hcareful hstep
  have hmoves := moves_of_step hstep
  exact ⟨hs.counted.step hmoves, hs.stored.step hs.counted hmoves,
    hs.settled.step hs.counted hs.stored hcareful hmoves⟩

/-- A spool is built and read. -/
theorem safe_of_reachableBy_reading : ∃ s : PlacementSpool (Fin 2) ℕ,
    run step {} [.getChunks 0, .ensure 0, .createDirectory 0 7, .finish 0, .publish 0, .register 0,
      .invalidate 1, .enter 1] = some s ∧ s.Safe := by
  have henabled : (run step ({} : PlacementSpool (Fin 2) ℕ) [.getChunks 0, .ensure 0,
      .createDirectory 0 7, .finish 0, .publish 0, .register 0, .invalidate 1, .enter 1]).isSome = true :=
    rfl
  obtain ⟨s, hs⟩ := Option.isSome_iff_exists.mp henabled
  refine ⟨s, hs, safe_of_reachableBy (ReachableBy.of_run .start ?_ hs)⟩
  intro s action haction t hresume
  subst hresume
  simp at haction

/-- Thread 1 waits for the build of thread 0 when thread 2 begins to invalidate. Thread 2 is the first to
go on after the build, and thread 1 then builds while the directory is being removed. -/
theorem not_safe_resume : ∃ s : PlacementSpool (Fin 3) ℕ,
    run step {} [.getChunks 0, .ensure 0, .createDirectory 0 7, .getChunks 1, .ensure 1, .invalidate 2,
      .enter 2, .finish 0, .publish 0, .drain 2, .resume 1] = some s ∧ ¬ s.Safe := by
  refine ⟨_, rfl, fun h => ?_⟩
  have hbuilds := (h.removing 2 (some 7) rfl).2 1
  exact nomatch hbuilds.2

end

end PlacementSpool

end WaterStructure
