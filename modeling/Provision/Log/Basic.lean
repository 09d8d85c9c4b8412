import Provision.Run.Status
import Provision.Text.Numeral
import Provision.Text.Utf8

/-!
# Phase logs

The output of a phase is stored in chunks. Each chunk knows the byte it starts at; the first one
begins with a start mark and the last one ends with an end mark, and the offsets count the marks.

* `Log.assemble` puts the chunks in order and takes the marks off.
* `Log.isComplete?` decides whether they make up a whole stream without a gap. Offsets are signed
  integers of 64 bits, and the offset after a chunk need not be one; it is then `none`.
-/

namespace Provision

open Provision.Text (Bytes inInt64)

/-- A piece of a phase's output. -/
structure Chunk where
  run : String
  phase : PhaseKind
  /-- The position of the first byte in the stream. -/
  offset : Int
  /-- The bytes, marks included. -/
  data : Bytes
  deriving DecidableEq, Repr

/-- A chunk with the number that storage gave it. -/
structure StoredChunk where
  /-- The number. -/
  id : Int
  chunk : Chunk
  deriving DecidableEq, Repr

namespace Log

/-- The byte in front of the first chunk. -/
def startMark : UInt8 :=
  2

/-- The byte after the last chunk. -/
def endMark : UInt8 :=
  3

end Log

namespace Chunk

/-- Whether the chunk opens the stream. -/
def isStart (c : Chunk) : Bool :=
  c.data.head? == some Log.startMark

/-- Whether the chunk closes the stream. -/
def isEnd (c : Chunk) : Bool :=
  c.data.getLast? == some Log.endMark

/-- The offset of the byte after the chunk; none past the range of 64 bits. -/
def nextOffset? (c : Chunk) : Option Int :=
  let next := c.offset + c.data.length
  if inInt64 next then some next else none

end Chunk

namespace Log

/-- The chunks in the order of their offsets; chunks with one offset keep their order. -/
def inOrder (chunks : List Chunk) : List Chunk :=
  chunks.mergeSort fun a b => decide (a.offset ≤ b.offset)

/-- The bytes without one start mark in front. -/
def stripStart : Bytes → Bytes
  | b :: rest => if b = startMark then rest else b :: rest
  | [] => []

/-- The bytes without one end mark behind. -/
def stripEnd (bytes : Bytes) : Bytes :=
  if bytes.getLast? = some endMark then bytes.dropLast else bytes

/-- The output that chunks hold, in the order of their offsets and without the marks. -/
def assemble (chunks : List Chunk) : Bytes :=
  stripEnd (stripStart ((inOrder chunks).flatMap (·.data)))

/-- Whether each chunk starts where the one before it ends. The comparison stops at the first gap;
none if an offset compared is past the range of 64 bits. -/
def isGapFree? : List Chunk → Option Bool
  | a :: b :: rest =>
    match a.nextOffset? with
    | none => none
    | some next => if next = b.offset then isGapFree? (b :: rest) else some false
  | _ => some true

/-- Whether the chunks are a whole stream: from offset 0 and a start mark to an end mark, without a
gap. -/
def isComplete? (chunks : List Chunk) : Option Bool :=
  let ordered := inOrder chunks
  match ordered.head?, ordered.getLast? with
  | some first, some last =>
    if first.offset = 0 ∧ first.isStart ∧ last.isEnd then isGapFree? ordered else some false
  | _, _ => some false

end Log

end Provision
