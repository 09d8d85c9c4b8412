import Provision.Run.Status
import Provision.Time.Instant

/-!
# Phases

One phase of a run: its status, the log of the statuses it entered, what it reported and the agent
that claimed it. The log is written by `Phase.enter` alone, which also sets the status.
-/

namespace Provision

/-- A status and the time it was entered. -/
structure Entered (σ : Type) where
  status : σ
  /-- When it was entered. -/
  time : Instant
  deriving DecidableEq, Repr

/-- The time of the first entry with a status in a log. -/
def Entered.timeOf? {σ : Type} [DecidableEq σ] (log : List (Entered σ)) (status : σ) :
    Option Instant :=
  (log.find? fun e => decide (e.status = status)).map (·.time)

/-- How many resources a phase changes, or has changed. -/
structure Report where
  /-- Resources added. -/
  additions : Nat
  /-- Resources changed in place. -/
  changes : Nat
  /-- Resources destroyed. -/
  destructions : Nat
  deriving DecidableEq, Repr

namespace Report

/-- The report of a phase that changes nothing. -/
def empty : Report :=
  ⟨0, 0, 0⟩

/-- Each count of a report is below this bound. -/
def bound : Nat :=
  Nat.pow 2 32

/-- Whether anything changes. -/
def hasChanges (r : Report) : Bool :=
  decide (0 < r.additions) || decide (0 < r.changes) || decide (0 < r.destructions)

end Report

/-- A phase of a run. -/
structure Phase where
  /-- The run it belongs to. -/
  run : String
  /-- Which of the two phases it is. -/
  kind : PhaseKind
  status : PhaseStatus
  /-- Every status entered so far, oldest first. -/
  log : List (Entered PhaseStatus)
  /-- What the phase reported when it finished. -/
  report : Option Report
  /-- The agent that claimed it. -/
  claimedBy : Option String
  deriving DecidableEq, Repr

namespace Phase

/-- A phase of a new run. -/
def new (run : String) (kind : PhaseKind) (now : Instant) : Phase :=
  ⟨run, kind, .pending, [⟨.pending, now⟩], none, none⟩

/-- The phase after it entered a status. -/
def enter (p : Phase) (status : PhaseStatus) (now : Instant) : Phase :=
  { p with status, log := p.log ++ [⟨status, now⟩] }

/-- When the phase entered a status, if it ever did. -/
def timeOf? (p : Phase) (status : PhaseStatus) : Option Instant :=
  Entered.timeOf? p.log status

end Phase

end Provision
