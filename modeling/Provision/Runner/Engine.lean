import Provision.Runner.Basic
import Provision.Runner.Summary
import Provision.Text.Blank

/-!
# Running an engine

A phase is executed by an engine, a program that is called twice: once to initialize the working
directory and once to plan or to apply. What the engine writes goes to the sink as it comes. A cancel
interrupts the engine, which may still end well; a forced cancel kills it.

What happens around a phase is given as a `Play`: whether the directory can be made, and for each
command what comes before its turn, whether the program starts, what it writes and is asked, and how
it ends.

* `Engine.runCommand` runs a command. It is watched while one of its two streams is open, and waited for
  when they have ended; a cancel that comes so late does not reach it any more.
* `Engine.execute` runs a phase. A failure other than a cancel is written at the end of the output.
* `Engine.cleanStderr` makes one line of what an engine says about its failure.
-/

namespace Provision.Engine

open Provision.Text (Bytes isBlank words unwords lossy utf8)

/-- The kind of runner. -/
def kind : String :=
  "process"

/-- The file that a plan is written to and an apply reads. -/
def planFile : String :=
  "plan.out"

/-! ## Commands -/

/-- The arguments of the first command. -/
def initCommand : List String :=
  ["init", "-input=false", "-no-color"]

/-- The arguments of the second command. -/
def mainCommand (spec : JobSpec) : List String :=
  [spec.phase.name, "-input=false", "-no-color"] ++
    (if spec.isDestroy then ["-destroy"] else []) ++
    [match spec.phase with
      | .plan => "-out=" ++ planFile
      | .apply => planFile]

/-! ## What a command does -/

/-- One of the two streams that a program writes to. -/
inductive Channel
  /-- What the program is asked to say. -/
  | stdout
  /-- What it says about itself. -/
  | stderr
  deriving DecidableEq, Repr

/-- Something that happens while a command runs. -/
inductive Happening
  /-- The program writes. -/
  | wrote (channel : Channel) (bytes : Bytes)
  /-- A cancel is asked for. -/
  | canceled (force : Bool)
  deriving DecidableEq, Repr

/-- How a program ends. -/
inductive Ending
  | exited (code : Int)
  /-- By a signal. -/
  | died
  deriving DecidableEq, Repr

/-- Whether a program ended well. -/
def Ending.isSuccess (e : Ending) : Bool :=
  e == .exited 0

/-- The exit code of a program; a death by a signal counts as -1. -/
def Ending.code : Ending → Int
  | .exited code => code
  | .died => -1

/-- A refusal of the operating system. -/
structure Refusal where
  /-- Whether there is no file of the name. -/
  isNotFound : Bool := false
  /-- The refusal in words. -/
  reason : String
  deriving DecidableEq, Repr

/-- A command from before its turn to its end. -/
structure CommandPlay where
  /-- The cancel asked for before the command's turn; a flag tells whether by force. -/
  before : Option Bool := none
  /-- Why the program does not start, if it does not. -/
  startFailure : Option Refusal := none
  /-- What happens while one of its streams is open, in order. -/
  happenings : List Happening := []
  /-- The cancels asked for when its streams have ended and the program itself has not; the flags tell
  whether by force. -/
  late : List Bool := []
  ending : Ending := .exited 0
  deriving Repr

/-- Everything that happens around a phase. -/
structure Play where
  /-- Why the working directory cannot be made, if it cannot. -/
  directoryFailure : Option Refusal := none
  /-- The first command. -/
  init : CommandPlay := {}
  /-- The second command. -/
  main : CommandPlay := {}
  deriving Repr

/-! ## What an engine says about its failure -/

/-- The text without escape characters, and without the sequences that an escape character and an
opening bracket begin and a letter ends. -/
def dropEscapes : List Char → List Char
  | [] => []
  | '\x1b' :: '[' :: rest => inSequence rest
  | '\x1b' :: rest => dropEscapes rest
  | c :: rest => c :: dropEscapes rest
where
  /-- The text after the letter that ends a sequence. -/
  inSequence : List Char → List Char
    | [] => []
    | c :: rest => if c.isAlpha then dropEscapes rest else inSequence rest

/-- Whether a character is one of ASCII. -/
def isAscii (c : Char) : Bool :=
  decide (c.toNat < 128)

/-- The words of the text on one line, without escape sequences and in ASCII. -/
def cleanStderr (s : List Char) : List Char :=
  unwords (words ((dropEscapes s).filter isAscii))

/-! ## Execution -/

/-- The sink, and the commands that the engine was called with so far. -/
structure Session (σ : Type) where
  /-- The state of the sink. -/
  sink : σ
  /-- The arguments of each call, in order. -/
  started : List (List String) := []
  deriving Repr

variable {σ : Type}

/-- A step of a session that may fail. -/
abbrev Step (σ α : Type) := ExceptT RunnerError (StateM (Session σ)) α

/-- Write to the sink of the session. -/
def say (sink : Sink σ) (bytes : Bytes) : Step σ Unit :=
  fun s =>
    let r := sink bytes s.sink
    (r.1, { s with sink := r.2 })

/-- Why an engine was not started. -/
def startError (engine : String) (r : Refusal) : RunnerError :=
  if r.isNotFound then .binaryNotFound engine else .startFailed r.reason

/-- Call the engine, if it starts. -/
def start (engine : String) (command : List String) (failure : Option Refusal) : Step σ Unit :=
  match failure with
  | some r => throw (startError engine r)
  | none => modify fun s => { s with started := s.started ++ [command] }

/-- What a command wrote to its streams so far, and what was asked of it. -/
structure Watch where
  /-- What was written to the first stream. -/
  stdout : Bytes := []
  /-- What was written to the second stream. -/
  stderr : Bytes := []
  /-- What was asked of the command. -/
  signal : CancelSignal := {}
  deriving Repr

/-- Take note of what happens, and pass on what is written. -/
def observe (sink : Sink σ) (w : Watch) : Happening → Step σ Watch
  | .wrote .stdout bytes => do
    say sink bytes
    return { w with stdout := w.stdout ++ bytes }
  | .wrote .stderr bytes => do
    say sink bytes
    return { w with stderr := w.stderr ++ bytes }
  | .canceled force => return { w with signal := w.signal.request force }

/-- How a command that has ended is judged: the text it wrote, or why it failed. -/
def judge (w : Watch) (ending : Ending) : Except RunnerError (List Char) :=
  if w.signal.isForced || (w.signal.isCanceled && !ending.isSuccess) then .error .cancelled
  else if ending.isSuccess then .ok (lossy w.stdout)
  else .error (.exitCode ending.code (String.ofList (cleanStderr (lossy w.stderr))))

/-- Run a command, and return what it wrote and whether a cancel was asked for meanwhile. Only what was
watched until its streams ended decides how it is judged. -/
def runCommand (engine : String) (sink : Sink σ) (command : List String) (play : CommandPlay) :
    Step σ (List Char × CancelSignal) := do
  start engine command play.startFailure
  let w ← play.happenings.foldlM (observe sink) {}
  match judge w play.ending with
  | .ok text => return (text, play.late.foldl CancelSignal.request w.signal)
  | .error e => throw e

/-- Write a failure at the end of the output. -/
def writeFailure (sink : Sink σ) (reason : String) : Step σ Unit :=
  say sink (utf8 ("\nError: " ++ reason ++ "\n"))

/-- Run a command unless a cancel was asked for before, and write why it failed. -/
def takeTurn (engine : String) (sink : Sink σ) (signal : CancelSignal) (command : List String)
    (play : CommandPlay) : Step σ (List Char × CancelSignal) := do
  let signal := match play.before with
    | some force => signal.request force
    | none => signal
  if signal.isCanceled then throw .cancelled
  tryCatch (runCommand engine sink command play) fun e => do
    if e ≠ .cancelled then writeFailure sink e.message
    throw e

/-- Execute a phase with an engine. -/
def execute (engine : String) (spec : JobSpec) (sink : Sink σ) (play : Play) : Step σ Outcome := do
  if let some r := play.directoryFailure then throw (.io r.reason)
  let (_, signal) ← takeTurn engine sink {} initCommand play.init
  let (output, _) ← takeTurn engine sink signal (mainCommand spec) play.main
  match spec.phase with
  | .plan =>
    match Summary.ofPlan? output with
    | some report => return ⟨some report⟩
    | none =>
      let reason := "plan output has no resource summary"
      writeFailure sink reason
      throw (.other reason)
  | .apply => return ⟨Summary.ofApply? output⟩

end Provision.Engine
