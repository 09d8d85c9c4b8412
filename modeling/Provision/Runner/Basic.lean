import Provision.Fault
import Provision.Run.Phase
import Provision.Text.Utf8

/-!
# Executing phases

A runner executes a phase: it writes what the phase says to a sink and returns what it reports. The
sink may refuse to take more. A cancel asks the phase to stop at a safe point, and a forced one kills
it.
-/

namespace Provision

open Provision.Text (Bytes)

/-- What was asked of an executing phase. -/
structure CancelSignal where
  /-- Whether it was asked to stop. -/
  isCanceled : Bool := false
  /-- Whether it was asked to stop by force. -/
  isForced : Bool := false
  deriving DecidableEq, Repr

/-- The signal after one more request. -/
def CancelSignal.request (s : CancelSignal) (force : Bool) : CancelSignal :=
  ⟨true, s.isForced || force⟩

/-- What to execute. -/
structure JobSpec where
  run : String
  phase : PhaseKind
  /-- The workspace of the run. -/
  workspace : String := ""
  /-- The configuration version to execute. -/
  configuration : String := ""
  /-- Destroy everything instead of converging. -/
  isDestroy : Bool := false
  deriving DecidableEq, Repr

/-- What a phase reports that was executed to its end. -/
structure Outcome where
  /-- The resources changed, if the engine told them. -/
  report : Option Report
  deriving DecidableEq, Repr

/-- How the execution of a phase ended. -/
abbrev Verdict := Except RunnerError Outcome

/-- A step that writes to a sink with state `σ` and may fail. -/
abbrev SinkStep (σ α : Type) := ExceptT RunnerError (StateM σ) α

/-- A way to write to a sink with state `σ`. -/
abbrev Sink (σ : Type) := Bytes → SinkStep σ Unit

/-- A sink that keeps what it takes, and takes a limited number of writes if it has a limit. -/
structure Buffer where
  /-- What was written. -/
  bytes : Bytes := []
  /-- How many writes were asked for. -/
  attempts : Nat := 0
  /-- How many of them were taken. -/
  writes : Nat := 0
  /-- How many writes are taken at most. -/
  limit : Option Nat := none
  deriving Repr

/-- Write to a buffer. -/
def Buffer.write : Sink Buffer := fun data b =>
  let b := { b with attempts := b.attempts + 1 }
  if b.limit.any fun n => decide (n ≤ b.writes) then (.error (.other "sink full"), b)
  else (.ok (), { b with bytes := b.bytes ++ data, writes := b.writes + 1 })

end Provision
