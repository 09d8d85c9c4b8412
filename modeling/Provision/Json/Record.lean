import Provision.Json.Basic
import Provision.Text.Numeral

/-!
# Records in JSON

How typed data are taken out of a JSON value.

* `fields?` reads a record: an object in which no field of the record is repeated and other members
  do not matter, or an array with one item for each field, in order.
* `merged?` reads the fields of a record that shares its object with others. The members pass
  through a buffer, which holds sound values only, and not arbitrarily deep ones.
* `name?` reads a choice among names: the name itself, or an object that maps it to `null`.
-/

namespace Provision.Json

/-- The values of the named fields in an object, none for a field that is not there. -/
def pick? (names : List String) (members : List (Text × Json)) : Option (List (Option Json)) :=
  if members.all (fun m => m.1.isSome) &&
      names.all (fun name => (members.filter fun m => m.1 == some name).length ≤ 1) then
    some (names.map fun name => (members.find? fun m => m.1 == some name).map (·.2))
  else none

/-- The values of a record's fields. -/
def fields? (names : List String) : Json → Option (List (Option Json))
  | .array items => if items.length = names.length then some (items.map some) else none
  | .object members => pick? names members
  | _ => none

/-- The deepest nesting that a buffered object may have, its own braces included. -/
def bufferDepth : Nat :=
  127

/-- The values of the fields of a record merged into an object, of which `direct` are read without
the buffer. -/
def merged? (direct names : List String) (v : Json) : Option (List (Option Json)) :=
  match v with
  | .object members =>
    let buffered := members.filter fun m => !(m.1.any fun name => direct.contains name)
    if isSoundMembers buffered && decide (depthMembers buffered < bufferDepth) then
      pick? (direct ++ names) members
    else none
  | _ => none

/-- A text. -/
def string? : Json → Option String
  | .string t => t
  | _ => none

/-- A text or `null`. -/
def optional? {α : Type} (read : Json → Option α) : Json → Option (Option α)
  | .null => some none
  | v => (read v).map some

/-- An integer literal that satisfies `p`. -/
def int? (p : Int → Bool) : Json → Option Int
  | .number (.int i) => if p i then some i else none
  | _ => none

/-- An unsigned integer below `bound`. -/
def natBelow? (bound : Nat) (v : Json) : Option Nat :=
  (int? (fun i => decide (0 ≤ i) && decide (i < bound)) v).map Int.toNat

/-- A signed integer of 64 bits. -/
def int64? (v : Json) : Option Int :=
  int? Provision.Text.inInt64 v

/-- The items of an array, each read by `read`. -/
def list? {α : Type} (read : Json → Option α) : Json → Option (List α)
  | .array items => items.mapM read
  | _ => none

/-- A choice among names, given by its name or by an object that maps the name to what `isUnit`
accepts. -/
def choice? {α : Type} (ofName? : String → Option α) (isUnit : Json → Bool) : Json → Option α
  | .string (some name) => ofName? name
  | .object [(some name, v)] => if isUnit v then ofName? name else none
  | _ => none

/-- Whether a value says nothing more: `null`. -/
def isNull : Json → Bool
  | .null => true
  | _ => false

/-- Whether a buffered value says nothing more: `null` or an empty object. -/
def isNullOrEmpty : Json → Bool
  | .null => true
  | .object [] => true
  | _ => false

/-- A choice among names. -/
def name? {α : Type} (ofName? : String → Option α) : Json → Option α :=
  choice? ofName? isNull

end Provision.Json
