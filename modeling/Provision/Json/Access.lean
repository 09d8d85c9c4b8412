import Provision.Json.Basic

/-!
# Loose access

Reading a JSON value without insisting on its shape. A member that is not there, or not of the kind asked
for, reads as a default: the empty text, `false`, zero, no items.
-/

namespace Provision.Json

/-- The text of a value. -/
def asText : Json → String
  | .string (some s) => s
  | _ => ""

/-- The integer of a value. -/
def asInt? : Json → Option Int
  | .number (.int i) => some i
  | _ => none

/-- The items of a value. -/
def asList : Json → List Json
  | .array items => items
  | _ => []

/-- Whether a value is `true`. -/
def isTrue : Json → Bool
  | .bool b => b
  | _ => false

/-- The value of a member. -/
def member? (v : Json) (name : String) : Option Json :=
  match v with
  | .object members => (members.find? fun m => m.1 == some name).map (·.2)
  | _ => none

/-- The value of a member that is not `null`. -/
def given? (v : Json) (name : String) : Option Json :=
  match v.member? name with
  | some .null => none
  | r => r

/-- The value of a member, `null` if it is not there. -/
def member (v : Json) (name : String) : Json :=
  (v.member? name).getD .null

/-- A text, unless it is missing or `null`. -/
def textAt? (v : Json) (name : String) : Option String :=
  (v.given? name).map asText

/-- A text. -/
def textAt (v : Json) (name : String) (default : String := "") : String :=
  (v.textAt? name).getD default

/-- A truth value, unless it is missing. -/
def flagAt? (v : Json) (name : String) : Option Bool :=
  match v.member? name with
  | some (.bool b) => some b
  | _ => none

/-- A truth value. -/
def flagAt (v : Json) (name : String) (default : Bool := false) : Bool :=
  (v.flagAt? name).getD default

/-- An integer, unless it is missing. -/
def intAt? (v : Json) (name : String) : Option Int :=
  (v.member? name).bind asInt?

/-- An integer. -/
def intAt (v : Json) (name : String) : Int :=
  (v.intAt? name).getD 0

/-- A natural number, unless it is missing. -/
def natAt? (v : Json) (name : String) : Option Nat :=
  (v.intAt? name).map Int.toNat

/-- A natural number. -/
def natAt (v : Json) (name : String) (default : Nat := 0) : Nat :=
  (v.natAt? name).getD default

/-- The items of an array. -/
def itemsAt (v : Json) (name : String) : List Json :=
  (v.member name).asList

end Provision.Json
