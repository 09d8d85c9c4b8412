import Provision.Fault
import Provision.Log.Basic

/-!
# Writing a phase log

The writer of a phase's log turns output into chunks, one for each write, and puts the marks around
the whole. It stores chunks by a function `put`, which may be refused; what was refused is not part of
the log, and the writer stands where it stood before.
-/

namespace Provision

open Provision.Text (Bytes)

/-- The writer of the log of one phase. -/
structure LogWriter where
  run : String
  phase : PhaseKind
  /-- Where the next chunk begins. No log comes near 2^63 bytes, so that a 64-bit number would hold it. -/
  offset : Int := 0
  /-- Whether a chunk is stored. -/
  hasStarted : Bool := false
  /-- Whether the log is closed. -/
  isClosed : Bool := false
  deriving DecidableEq, Repr

namespace LogWriter

variable {σ : Type}

/-- A way to store a chunk in a world with state `σ`. -/
abbrev Put (σ : Type) := Chunk → ExceptT Error (StateM σ) StoredChunk

/-- A step of a writer in a world with state `σ`. -/
abbrev Step (ε σ α : Type) := ExceptT ε (StateM (LogWriter × σ)) α

/-- Store the next chunk, and move on behind it. -/
def append (put : Put σ) (data : Bytes) : Step Error σ Unit :=
  fun s =>
    let w := s.1
    let r := put ⟨w.run, w.phase, w.offset, data⟩ s.2
    match r.1 with
    | .ok _ => (.ok (), ({ w with offset := w.offset + data.length, hasStarted := true }, r.2))
    | .error e => (.error e, (w, r.2))

/-- Append output to the log. Nothing is stored for no output, and nothing can be written to a closed
log. -/
def write (put : Put σ) (data : Bytes) : Step RunnerError σ Unit :=
  fun s =>
    if s.1.isClosed then (.error (.other "phase log already closed"), s)
    else if data.isEmpty then (.ok (), s)
    else
      let r := append put (if s.1.hasStarted then data else Log.startMark :: data) s
      (r.1.mapError RunnerError.output, r.2)

/-- Close the log. To close it again does nothing. -/
def close (put : Put σ) : Step Error σ Unit :=
  fun s =>
    if s.1.isClosed then (.ok (), s)
    else
      let r := append put (if s.1.hasStarted then [Log.endMark]
        else [Log.startMark, Log.endMark]) s
      match r.1 with
      | .ok () => (.ok (), ({ r.2.1 with isClosed := true }, r.2.2))
      | .error e => (.error e, r.2)

end LogWriter

end Provision
