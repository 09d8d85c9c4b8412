import Provision.Runner.Basic

/-!
# A scripted runner

A runner that executes nothing. It writes a fixed output, takes a fixed time, and then succeeds with a
fixed report or fails; or it goes on until it is canceled.
-/

namespace Provision

open Provision.Text (Bytes)

/-- The script of a runner. -/
structure ScriptedRunner where
  /-- The milliseconds that a phase takes. -/
  delay : Nat := 10
  /-- Whether phases fail. -/
  fails : Bool := false
  /-- Whether phases go on until they are canceled. -/
  neverCompletes : Bool := false
  /-- What phases report. -/
  report : Report := ⟨1, 0, 0⟩
  /-- What phases write. -/
  output : Bytes := Text.utf8 "mock output\n"
  deriving Repr

namespace ScriptedRunner

/-- The kind of runner. -/
def kind : String :=
  "mock"

/-- How a phase ends that nobody cancels, if it ends. -/
def verdict (r : ScriptedRunner) : Verdict :=
  if r.fails then .error (.exitCode 1 "Mock failure") else .ok ⟨some r.report⟩

/-- When a phase ends by itself, in milliseconds after its start. -/
def duration? (r : ScriptedRunner) : Option Nat :=
  if r.neverCompletes then none else some r.delay

/-- Execute a phase that is canceled some milliseconds after its start, if at all. A phase that ends
neither by itself nor by a cancel gives no verdict. -/
def execute {σ : Type} (r : ScriptedRunner) (sink : Sink σ) (cancelAt : Option Nat) :
    SinkStep σ (Option Verdict) := do
  sink r.output
  return match r.duration?, cancelAt with
    | some d, some t => some (if t < d then .error .cancelled else r.verdict)
    | some _, none => some r.verdict
    | none, some _ => some (.error .cancelled)
    | none, none => none

/-- What had been asked of a phase when it ended, if it was to be canceled some milliseconds after its
start. -/
def signal (verdict : Verdict) (cancelAt : Option Nat) (force : Bool) : CancelSignal :=
  match cancelAt, verdict with
  | some _, .error .cancelled => CancelSignal.request {} force
  | some 0, _ => CancelSignal.request {} force
  | _, _ => {}

end ScriptedRunner

end Provision
