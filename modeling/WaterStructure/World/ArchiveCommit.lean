import Mathlib.Data.Nat.Notation
import WaterStructure.Library.TransitionSystem

/-!
# Closing a world that belongs to an archive

An adapter for a `.mcworld` works in a temporary directory. Closing it closes LevelDB, packs the
directory into a pending archive next to the final one, and renames it over the final one. Each of
these steps can fail, and `create_zip` can also throw. A failed conversion only marks the adapter, so
that a later `close` discards. The timings of the statistics are left out.
-/

namespace WaterStructure

structure ConversionStats where
  success : Bool
  errorStage : String

/-- The fields of an adapter that decide what closing does; a path that is empty is `none`, and
`world` says whether LevelDB is open. -/
structure BedrockWorldAdapter (Path : Type) where
  world : Bool
  archivePath : Option Path
  temporaryDirectory : Option Path
  pendingArchivePath : Option Path := none
  writeBackArchive : Bool
  discardOnClose : Bool := false
  deferredStats : Option ConversionStats := none
  deferredStatisticsCallback : Option ℕ := none

/-- What happens outside the adapter. -/
inductive AdapterEffect (Path : Type) where
  | levelDbClosed
  | packing (pending : Path)
  | replaced (pending final : Path)
  | removedPending (path : Path)
  | removedDirectory (path : Path)
  | deferredStatistics (callback : ℕ) (stats : ConversionStats)
  | statistics (callback : ℕ) (stats : ConversionStats)

inductive PackOutcome where
  | packed
  | failed (error : String)
  | thrown

/-- The outcomes of the steps of a call, as far as it takes them; `none` is success. -/
structure CloseOutcomes (Path : Type) where
  levelDbClose : Option String
  pendingPath : Path
  pack : PackOutcome
  replace : Option String
  removePending : Option String
  removeDirectory : Option String

namespace BedrockWorldAdapter

variable {Path : Type}

/-- What a call does to the adapter, what else it does, and what it returns; nothing if it throws. -/
structure CallResult (Path : Type) where
  adapter : BedrockWorldAdapter Path
  effects : List (AdapterEffect Path)
  returned : Option (Except String Unit)

/-- The error of two steps, of which either may have failed. -/
def joinErrors : Option String → Option String → Option String
  | none, second => second
  | some first, none => some first
  | some first, some second => some (first ++ "; " ++ second)

/-- A result with this error, if there is one. -/
def resultOf : Option String → Except String Unit
  | none => .ok ()
  | some error => .error error

/-- Remove a file or a directory that is still known; it is forgotten if that succeeds. -/
def removeKnown (known : Option Path) (error : Option String) (message : String)
    (removed : Path → AdapterEffect Path) :
    Option Path × List (AdapterEffect Path) × Option String :=
  match known, error with
  | none, _ => (none, [], none)
  | some path, none => (none, [removed path], none)
  | some path, some error => (some path, [], some (message ++ error))

/-- `cleanup_temporary_artifacts`, with its error. -/
def cleanupTemporaryArtifacts (outcomes : CloseOutcomes Path) (adapter : BedrockWorldAdapter Path) :
    BedrockWorldAdapter Path × List (AdapterEffect Path) × Option String :=
  let pending := removeKnown adapter.pendingArchivePath outcomes.removePending
    "清理临时 .mcworld 失败: " .removedPending
  let directory := removeKnown adapter.temporaryDirectory outcomes.removeDirectory
    "清理世界临时目录失败: " .removedDirectory
  ({ adapter with pendingArchivePath := pending.1, temporaryDirectory := directory.1 },
    pending.2.1 ++ directory.2.1, joinErrors pending.2.2 directory.2.2)

/-- `emit_deferred_statistics`: whatever the callback does, it is called once. -/
def emitDeferredStatistics (success : Bool) (errorStage : String)
    (adapter : BedrockWorldAdapter Path) : BedrockWorldAdapter Path × List (AdapterEffect Path) :=
  match adapter.deferredStats with
  | none => (adapter, [])
  | some stats =>
    ({ adapter with deferredStats := none, deferredStatisticsCallback := none },
      match adapter.deferredStatisticsCallback with
      | none => []
      | some callback =>
        [.deferredStatistics callback
          { success
            errorStage :=
              if ¬ success ∧ stats.errorStage = "" then errorStage else stats.errorStage }])

/-- `defer_statistics`: statistics that still wait are sent first. -/
def deferStatistics (stats : ConversionStats) (callback : ℕ) (adapter : BedrockWorldAdapter Path) :
    BedrockWorldAdapter Path × List (AdapterEffect Path) :=
  let emitted := emitDeferredStatistics true "" adapter
  ({ emitted.1 with deferredStats := some stats, deferredStatisticsCallback := some callback },
    emitted.2)

/-- The archive is no longer a destination. -/
def disarm (adapter : BedrockWorldAdapter Path) : BedrockWorldAdapter Path :=
  { adapter with archivePath := none, writeBackArchive := false }

/-- The end of a call that has failed at a stage: clean up, send the statistics, and return the
error. -/
def failAt (outcomes : CloseOutcomes Path) (stage error : String)
    (adapter : BedrockWorldAdapter Path) (effects : List (AdapterEffect Path)) : CallResult Path :=
  let cleaned := cleanupTemporaryArtifacts outcomes adapter.disarm
  let emitted := emitDeferredStatistics false stage cleaned.1
  ⟨emitted.1, effects ++ cleaned.2.1 ++ emitted.2, some (resultOf (joinErrors (some error) cleaned.2.2))⟩

/-- The end of a call that has nothing left to do but to clean up. -/
def finishClose (outcomes : CloseOutcomes Path) (adapter : BedrockWorldAdapter Path)
    (effects : List (AdapterEffect Path)) : CallResult Path :=
  let cleaned := cleanupTemporaryArtifacts outcomes adapter
  let emitted := emitDeferredStatistics cleaned.2.2.isNone
    (if cleaned.2.2.isNone then "" else "mcworld cleanup") cleaned.1
  ⟨emitted.1, effects ++ cleaned.2.1 ++ emitted.2, some (resultOf cleaned.2.2)⟩

/-- `discard`. -/
def discard (outcomes : CloseOutcomes Path) (adapter : BedrockWorldAdapter Path) :
    CallResult Path :=
  let closeError := if adapter.world then
      outcomes.levelDbClose.map fun error => "关闭丢弃世界失败: " ++ error
    else none
  let closed := if adapter.world then [AdapterEffect.levelDbClosed] else []
  let cleaned := cleanupTemporaryArtifacts outcomes
    ({ adapter with discardOnClose := false, world := false } : BedrockWorldAdapter Path).disarm
  let error := joinErrors closeError cleaned.2.2
  let emitted := emitDeferredStatistics false
    (if error.isNone then "conversion aborted" else "discard cleanup") cleaned.1
  ⟨emitted.1, closed ++ cleaned.2.1 ++ emitted.2, some (resultOf error)⟩

/-- Pack the directory and rename the pending archive over the final one. -/
def commitArchive (outcomes : CloseOutcomes Path) (final : Path)
    (adapter : BedrockWorldAdapter Path) (effects : List (AdapterEffect Path)) : CallResult Path :=
  let pending := { adapter with pendingArchivePath := some outcomes.pendingPath }
  let effects := effects ++ [.packing outcomes.pendingPath]
  match outcomes.pack with
  | .thrown => ⟨pending, effects, none⟩
  | .failed error => failAt outcomes "mcworld pack" error pending effects
  | .packed =>
    match outcomes.replace with
    | some error => failAt outcomes "mcworld replace" ("替换 .mcworld 失败: " ++ error) pending effects
    | none =>
      finishClose outcomes ({ pending with pendingArchivePath := none } :
        BedrockWorldAdapter Path).disarm (effects ++ [.replaced outcomes.pendingPath final])

/-- `close`. -/
def close (outcomes : CloseOutcomes Path) (adapter : BedrockWorldAdapter Path) : CallResult Path :=
  if adapter.discardOnClose then discard outcomes adapter
  else if ¬ adapter.world then finishClose outcomes adapter []
  else
    let closed := { adapter with world := false }
    match outcomes.levelDbClose with
    | some error => failAt outcomes "leveldb close" error closed [.levelDbClosed]
    | none =>
      match adapter.archivePath, adapter.writeBackArchive with
      | some final, true => commitArchive outcomes final closed [.levelDbClosed]
      | _, _ => finishClose outcomes closed.disarm [.levelDbClosed]

/-- The destructor: statistics that still wait are dropped. -/
def destroy (outcomes : CloseOutcomes Path) (adapter : BedrockWorldAdapter Path) :
    CallResult Path :=
  let silent := { adapter with deferredStats := none, deferredStatisticsCallback := none }
  if silent.discardOnClose then discard outcomes silent else close outcomes silent

/-- The ways in which a structure is written to an adapter: by `convert_to_world`, by the stream of
BDX, and by the stream of Schem. -/
inductive ConversionPath where
  | generic
  | bdxStream
  | schemStream
  deriving DecidableEq

/-- The end of a conversion that failed at a stage or succeeded, for a statistics callback. The
first two paths end in a `finish` of their own, which does the same; the stream of Schem returns its
result and leaves the adapter as it is. -/
def convert (path : ConversionPath) (failedAt : Option String) (callback : Option ℕ)
    (adapter : BedrockWorldAdapter Path) : CallResult Path :=
  let returned := some (resultOf failedAt)
  match path with
  | .schemStream => ⟨adapter, [], returned⟩
  | .generic | .bdxStream =>
    match failedAt, callback with
    | none, none => ⟨adapter, [], returned⟩
    | none, some callback =>
      let deferred := adapter.deferStatistics ⟨true, ""⟩ callback
      ⟨deferred.1, deferred.2, returned⟩
    | some _, none => ⟨{ adapter with discardOnClose := true }, [], returned⟩
    | some stage, some callback =>
      ⟨{ adapter with discardOnClose := true }, [.statistics callback ⟨false, stage⟩], returned⟩

end BedrockWorldAdapter

open BedrockWorldAdapter

/-- A use of an adapter. -/
inductive AdapterCall (Path : Type) where
  | convert (path : ConversionPath) (failedAt : Option String) (callback : Option ℕ)
  | close (outcomes : CloseOutcomes Path)
  | discard (outcomes : CloseOutcomes Path)
  | destroy (outcomes : CloseOutcomes Path)

variable {Path : Type}

/-- What a use does. -/
def AdapterCall.run : AdapterCall Path → BedrockWorldAdapter Path → CallResult Path
  | .convert path failedAt callback => BedrockWorldAdapter.convert path failedAt callback
  | .close outcomes => BedrockWorldAdapter.close outcomes
  | .discard outcomes => BedrockWorldAdapter.discard outcomes
  | .destroy outcomes => BedrockWorldAdapter.destroy outcomes

/-- An adapter with all its uses so far and what each of them did. -/
structure AdapterLife (Path : Type) where
  adapter : BedrockWorldAdapter Path
  destroyed : Bool := false
  history : List (AdapterCall Path × List (AdapterEffect Path)) := []

/-- The next use; a destroyed adapter has none. -/
def AdapterLife.step (life : AdapterLife Path) (call : AdapterCall Path) : Option (AdapterLife Path) :=
  if life.destroyed then none
  else
    let result := call.run life.adapter
    some
      { adapter := result.adapter
        destroyed := match call with
          | .destroy _ => true
          | _ => false
        history := life.history ++ [(call, result.effects)] }

/-- An adapter that has just been opened. -/
def AdapterLife.opened (archivePath temporaryDirectory : Option Path) (writeBackArchive : Bool) :
    AdapterLife Path where
  adapter := { world := true, archivePath, temporaryDirectory, writeBackArchive }

end WaterStructure
