import Provision.Log.Basic
import Provision.Run.Record

/-!
# Log chunks as JSON

A chunk is written with its bytes as an array of numbers. A stored chunk is one object with the
number first and the chunk's fields after it.
-/

namespace Provision

open Provision.Text (Bytes)

/-- The bytes as numbers. -/
def Log.bytesToJson (bytes : Bytes) : Json :=
  .array (bytes.map fun b => Json.ofInt b.toNat)

/-- One byte. -/
def Log.byteOfJson? (v : Json) : Option UInt8 :=
  (Json.natBelow? 256 v).map UInt8.ofNat

namespace Chunk

/-- The names of a chunk's fields, in the order they are written. -/
def fieldNames : List String :=
  ["run_id", "phase", "offset", "data"]

/-- The fields of a chunk. -/
def members (c : Chunk) : List (String × Json) :=
  [("run_id", Json.ofString c.run), ("phase", c.phase.toJson), ("offset", Json.ofInt c.offset),
    ("data", Log.bytesToJson c.data)]

/-- A chunk. -/
def toJson (c : Chunk) : Json :=
  Json.ofMembers c.members

/-- A chunk from the values of its fields, its phase read by `phase?`. -/
def ofFields? (phase? : Json → Option PhaseKind) : List (Option Json) → Option Chunk
  | [some run, some phase, some offset, some data] => do
    let run ← Json.string? run
    let phase ← phase? phase
    let offset ← Json.int64? offset
    let data ← Json.list? Log.byteOfJson? data
    some ⟨run, phase, offset, data⟩
  | _ => none

/-- A chunk. -/
def ofJson? (v : Json) : Option Chunk :=
  (Json.fields? fieldNames v).bind (ofFields? PhaseKind.ofJson?)

end Chunk

namespace StoredChunk

/-- A stored chunk: its number and the chunk's fields in one object. -/
def toJson (c : StoredChunk) : Json :=
  Json.ofMembers (("id", Json.ofInt c.id) :: c.chunk.members)

/-- A stored chunk. -/
def ofJson? (v : Json) : Option StoredChunk :=
  match Json.merged? ["id"] Chunk.fieldNames v with
  | some (some id :: fields) => do
    let id ← Json.int64? id
    let chunk ← Chunk.ofFields? (Json.choice? PhaseKind.ofName? Json.isNullOrEmpty) fields
    some ⟨id, chunk⟩
  | _ => none

end StoredChunk

end Provision
