import Provision.Json.Printer

/-!
# Identifiers

A new run or workspace is identified by the kind of thing it is and thirty-two hexadecimal digits.
The digits write a number that nobody else was given. Should the numbers ever run past `2 ^ 128`, more
digits are written, so that no two numbers share an identifier.
-/

namespace Provision.Identifier

/-- The hexadecimal digits of a number, most significant first and thirty-two at least. -/
def digits (number : Nat) : List Char :=
  (List.range (max 32 (number.log2 / 4 + 1))).reverse.map fun place =>
    Json.hexDigit (number / Nat.pow 16 place % 16)

/-- The identifier of something of the kind `stem`. -/
def fresh (stem : String) (number : Nat) : String :=
  stem ++ "-" ++ String.ofList (digits number)

/-- Whether an identifier is of the kind `stem` and has the shape of a new one. -/
def hasShape (stem id : String) : Bool :=
  match (stem ++ "-").toList.isPrefixOf? id.toList with
  | some rest => rest.length == 32 && rest.all fun c => c.isDigit || decide ('a' ≤ c ∧ c ≤ 'f')
  | none => false

end Provision.Identifier
