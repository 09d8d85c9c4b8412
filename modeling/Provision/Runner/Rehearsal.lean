import Provision.Runner.Engine

/-!
# A made-up engine

An engine whose two commands behave as laid down beforehand: each writes something, and then exits, dies
of a signal, or waits to be interrupted. A cancel may come before the start or with the first output.
-/

namespace Provision.Engine

open Provision.Text (Bytes)

/-- How a made-up command ends. -/
inductive Manner
  | exits (code : Int)
  /-- It dies of a signal. -/
  | dies
  /-- It waits for an interrupt, and then exits with a code. -/
  | waits (code : Int)
  deriving DecidableEq, Repr

/-- The behaviour of a made-up command. -/
structure Behaviour where
  /-- What it writes to the first stream. -/
  stdout : Bytes := []
  /-- What it writes to the second stream. -/
  stderr : Bytes := []
  /-- How it ends. -/
  manner : Manner := .exits 0
  deriving Repr

/-- When a rehearsal is canceled; the flag tells whether by force. -/
inductive CancelTime
  /-- Not at all. -/
  | never
  /-- Before the phase is executed. -/
  | before (force : Bool)
  /-- With the first output. -/
  | firstWrite (force : Bool)
  deriving DecidableEq, Repr

namespace Behaviour

/-- What the command writes. -/
def writes (b : Behaviour) : List Happening :=
  (if b.stdout.isEmpty then [] else [.wrote .stdout b.stdout]) ++
    if b.stderr.isEmpty then [] else [.wrote .stderr b.stderr]

/-- How the command ends, if it is not killed. -/
def ending (b : Behaviour) : Ending :=
  match b.manner with
  | .exits code => .exited (code % 256)
  | .dies => .died
  | .waits code => .exited (code % 256)

/-- The command when a cancel comes with its first output. -/
def canceledPlay (b : Behaviour) (force : Bool) : CommandPlay where
  happenings := b.writes.take 1 ++ .canceled force :: b.writes.drop 1
  ending := if force then .died else b.ending

/-- The command when nobody cancels it. -/
def plainPlay (b : Behaviour) : CommandPlay where
  happenings := b.writes
  ending := b.ending

end Behaviour

/-- What happens when an engine of two commands is canceled at a time. -/
def rehearse (init main : Behaviour) : CancelTime → Play
  | .never => { init := init.plainPlay, main := main.plainPlay }
  | .before force =>
    { init := { init.plainPlay with before := some force }, main := main.plainPlay }
  | .firstWrite force =>
    if !init.writes.isEmpty then { init := init.canceledPlay force, main := main.plainPlay }
    else if !main.writes.isEmpty then { init := init.plainPlay, main := main.canceledPlay force }
    else { init := init.plainPlay, main := main.plainPlay }

/-- What had been asked of a rehearsal when it was over, given how many writes were attempted. -/
def CancelTime.signal (time : CancelTime) (attempts : Nat) : CancelSignal :=
  match time with
  | .never => {}
  | .before force => CancelSignal.request {} force
  | .firstWrite force => if attempts = 0 then {} else CancelSignal.request {} force

end Provision.Engine
