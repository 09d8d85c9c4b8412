/-!
# JSON values

A value as a reader sees it. Two things that a text may hold have no value of their own but may
still stand where nobody looks: a string whose escapes denote no characters, and a number that is
not an integer.

* `Json.depth` counts the brackets around the innermost value.
* `Json.isSound` holds of a value all of whose strings and numbers can be represented.
-/

namespace Provision

/-- The characters of a JSON string; none if one of its escapes is half of a surrogate pair. -/
abbrev Json.Text := Option String

/-- A JSON number: an integer literal, or any other by its digits and power of ten. A zero with a
minus sign is not an integer literal. -/
inductive Json.Number
  /-- A number written without fraction, exponent or negative zero. -/
  | int (value : Int)
  /-- The absolute value `digits * 10 ^ exponent`. -/
  | real (digits : Nat) (exponent : Int)
  deriving DecidableEq, Repr

/-- A JSON value. -/
inductive Json
  /-- The literal `null`. -/
  | null
  /-- A truth value. -/
  | bool (value : Bool)
  | number (value : Json.Number)
  | string (text : Json.Text)
  /-- The items of an array, in order. -/
  | array (items : List Json)
  /-- The members of an object, in order, names repeated as they stand. -/
  | object (members : List (Json.Text × Json))
  deriving Repr, Inhabited

namespace Json

/-- An integer as a value. -/
def ofInt (i : Int) : Json :=
  .number (.int i)

/-- A text as a value. -/
def ofString (s : String) : Json :=
  .string (some s)

/-- An object with the given names. -/
def ofMembers (members : List (String × Json)) : Json :=
  .object (members.map fun m => (some m.1, m.2))

/-- The least integer that rounds past the largest number of double precision. -/
def overflow : Nat :=
  Nat.pow 2 1024 - Nat.pow 2 970

/-- Whether a number rounds to a finite one of double precision. -/
def Number.isFinite : Number → Bool
  | .int i => decide (i.natAbs < overflow)
  | .real digits (.ofNat e) => decide (digits = 0) || decide (e ≤ 400 ∧ digits * Nat.pow 10 e < overflow)
  | .real digits (.negSucc e) =>
    decide (digits < overflow) || decide (digits < overflow * Nat.pow 10 (e + 1))

mutual

/-- The number of brackets around the innermost value. -/
def depth : Json → Nat
  | .array items => depthItems items + 1
  | .object members => depthMembers members + 1
  | _ => 0

/-- The greatest depth among the items. -/
def depthItems : List Json → Nat
  | [] => 0
  | v :: rest => max (depth v) (depthItems rest)

/-- The greatest depth among the members. -/
def depthMembers : List (Text × Json) → Nat
  | [] => 0
  | (_, v) :: rest => max (depth v) (depthMembers rest)

end

mutual

/-- Whether every string has characters and every number is finite. -/
def isSound : Json → Bool
  | .number n => n.isFinite
  | .string t => t.isSome
  | .array items => isSoundItems items
  | .object members => isSoundMembers members
  | _ => true

/-- Whether every item is sound. -/
def isSoundItems : List Json → Bool
  | [] => true
  | v :: rest => isSound v && isSoundItems rest

/-- Whether every name and every value is sound. -/
def isSoundMembers : List (Text × Json) → Bool
  | [] => true
  | (name, v) :: rest => name.isSome && isSound v && isSoundMembers rest

end

end Json

end Provision
