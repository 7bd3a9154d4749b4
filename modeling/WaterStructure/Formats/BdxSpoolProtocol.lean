import Mathlib.Logic.Function.Basic
import WaterStructure.Library.ThreadCount
import WaterStructure.Library.TransitionSystem

/-!
# BDX: the protocol of the placement spool

The first request for chunks builds the placement spool, later ones read it, and a change of the offset
or of the options removes it. Building, reading and removing files happen outside the lock. What each
thread may do is kept in flags and a counter that are only touched under the lock, and a wait on the
condition variable is a step that is enabled when its predicate holds.
-/

namespace WaterStructure

/-- Where a thread is. -/
inductive SpoolPhase (Directory : Type) where
  | idle
  /-- At the first wait of `ensure_placement_spool`. -/
  | ensuring
  /-- At its second wait, for the build of another thread. -/
  | awaiting
  /-- Building. There is no directory before it has been created. -/
  | building (directory : Option Directory)
  /-- All shards are flushed and their sizes verified. -/
  | built (directory : Directory)
  /-- The build has thrown. -/
  | failed (directory : Option Directory) (failure : String)
  /-- The failure is published, and the directory of the build is being removed. -/
  | discarding (directory : Option Directory)
  /-- `ensure_placement_spool` has returned to `get_chunks`. -/
  | registering
  /-- Reading the shard files. -/
  | reading (shardPaths : Option Directory)
  /-- At the first wait of `invalidate_placement_spool`. -/
  | invalidating
  /-- At its second wait, for a build and for readers. -/
  | draining
  /-- Removing the directory of the spool. -/
  | removing (directory : Option Directory)
  /-- The directory is removed, but the flag is still set. -/
  | leaving
  deriving DecidableEq

/-- What the disk holds under the name of a directory. -/
inductive SpoolFiles where
  | absent
  | incomplete
  | complete
  deriving DecidableEq

/-- The members of `BdxStructure` that the lock protects, the disk, and the threads. -/
structure PlacementSpool (Thread Directory : Type) where
  ready : Bool := false
  building : Bool := false
  invalidating : Bool := false
  readers : ℕ := 0
  directory : Option Directory := none
  /-- The directory of `mPlacementShardPaths`. -/
  shardPaths : Option Directory := none
  error : String := ""
  disk : Directory → SpoolFiles := fun _ => .absent
  phase : Thread → SpoolPhase Directory := fun _ => .idle

/-- A step of a thread, from one critical section or file operation to the next. -/
inductive SpoolAction (Thread Directory : Type) where
  /-- `get_chunks` is called. -/
  | getChunks (thread : Thread)
  /-- The first critical section of `ensure_placement_spool`. -/
  | ensure (thread : Thread)
  /-- What follows its second wait. -/
  | resume (thread : Thread)
  | createDirectory (thread : Thread) (directory : Directory)
  | finish (thread : Thread)
  /-- The build throws. -/
  | fail (thread : Thread) (failure : String)
  | publish (thread : Thread)
  | publishFailure (thread : Thread)
  | discard (thread : Thread)
  /-- The critical section of the loop in `get_chunks`. -/
  | register (thread : Thread)
  /-- `release_reader` -/
  | release (thread : Thread)
  /-- `invalidate_placement_spool` is called, by `set_offset`, `read` or `set_streaming_options`, or
  `cleanup_placement_spool`, which does the same. -/
  | invalidate (thread : Thread)
  /-- Its first critical section, up to the second wait or to the end. -/
  | enter (thread : Thread)
  /-- What follows the second wait. -/
  | drain (thread : Thread)
  | remove (thread : Thread)
  /-- Its last critical section. -/
  | leave (thread : Thread)

def SpoolAction.thread {Thread Directory : Type} : SpoolAction Thread Directory → Thread
  | getChunks thread | ensure thread | resume thread | createDirectory thread _ | finish thread
  | fail thread _ | publish thread | publishFailure thread | discard thread | register thread
  | release thread | invalidate thread | enter thread | drain thread | remove thread
  | leave thread => thread

namespace PlacementSpool

open TransitionSystem

variable {Thread Directory : Type} [DecidableEq Thread] [DecidableEq Directory]

/-- The thread moves on. -/
def goto (s : PlacementSpool Thread Directory) (thread : Thread) (next : SpoolPhase Directory) :
    PlacementSpool Thread Directory :=
  { s with phase := Function.update s.phase thread next }

/-- What a directory holds changes; there is nothing to change without a directory. -/
def store (s : PlacementSpool Thread Directory) (directory : Option Directory) (files : SpoolFiles) :
    PlacementSpool Thread Directory :=
  match directory with
  | none => s
  | some directory => { s with disk := Function.update s.disk directory files }

/-- The thread becomes the builder. -/
def startBuild (s : PlacementSpool Thread Directory) (thread : Thread) :
    PlacementSpool Thread Directory :=
  { s with building := true, error := "" }.goto thread (.building none)

/-- The directory is taken out of the spool, to be removed. -/
def detach (s : PlacementSpool Thread Directory) (thread : Thread) : PlacementSpool Thread Directory :=
  { s with ready := false, directory := none, shardPaths := none, error := "" }.goto thread
    (.removing s.directory)

/-- A step, if it is enabled. -/
def step (s : PlacementSpool Thread Directory) :
    SpoolAction Thread Directory → Option (PlacementSpool Thread Directory)
  | .getChunks thread =>
    match s.phase thread with
    | .idle => some (s.goto thread .ensuring)
    | _ => none
  | .ensure thread =>
    match s.phase thread with
    | .ensuring =>
      if s.invalidating then none
      else if s.ready then some (s.goto thread .registering)
      else if s.building then some (s.goto thread .awaiting)
      else some (s.startBuild thread)
    | _ => none
  | .resume thread =>
    match s.phase thread with
    | .awaiting =>
      if ¬ (s.building = false ∨ s.ready = true) then none
      else if s.ready then some (s.goto thread .registering)
      else if s.error ≠ "" then some (s.goto thread .idle)
      else some (s.startBuild thread)
    | _ => none
  | .createDirectory thread directory =>
    match s.phase thread with
    | .building none =>
      if s.disk directory = .absent then
        some ((s.store (some directory) .incomplete).goto thread (.building (some directory)))
      else none
    | _ => none
  | .finish thread =>
    match s.phase thread with
    | .building (some directory) =>
      some ((s.store (some directory) .complete).goto thread (.built directory))
    | _ => none
  | .fail thread failure =>
    match s.phase thread with
    | .building directory => some (s.goto thread (.failed directory failure))
    | _ => none
  | .publish thread =>
    match s.phase thread with
    | .built directory =>
      some ({ s with
        directory := some directory, shardPaths := some directory, error := "", building := false
        ready := true }.goto thread .registering)
    | _ => none
  | .publishFailure thread =>
    match s.phase thread with
    | .failed directory failure =>
      some ({ s with
        directory := none, shardPaths := none, building := false, ready := false
        error := failure }.goto thread (.discarding directory))
    | _ => none
  | .discard thread =>
    match s.phase thread with
    | .discarding directory => some ((s.store directory .absent).goto thread .idle)
    | _ => none
  | .register thread =>
    match s.phase thread with
    | .registering =>
      if s.invalidating = true ∨ s.ready = false then some (s.goto thread .ensuring)
      else some ({ s with readers := s.readers + 1 }.goto thread (.reading s.shardPaths))
    | _ => none
  | .release thread =>
    match s.phase thread with
    | .reading _ =>
      some ({ s with readers := if s.readers ≠ 0 then s.readers - 1 else s.readers }.goto thread .idle)
    | _ => none
  | .invalidate thread =>
    match s.phase thread with
    | .idle => some (s.goto thread .invalidating)
    | _ => none
  | .enter thread =>
    match s.phase thread with
    | .invalidating =>
      if s.invalidating then none
      else
        let s := { s with invalidating := true, ready := false }
        if s.building = true ∨ s.readers ≠ 0 then some (s.goto thread .draining)
        else some (s.detach thread)
    | _ => none
  | .drain thread =>
    match s.phase thread with
    | .draining => if s.building = false ∧ s.readers = 0 then some (s.detach thread) else none
    | _ => none
  | .remove thread =>
    match s.phase thread with
    | .removing directory => some ((s.store directory .absent).goto thread .leaving)
    | _ => none
  | .leave thread =>
    match s.phase thread with
    | .leaving => some ({ s with invalidating := false }.goto thread .idle)
    | _ => none

end PlacementSpool

end WaterStructure
