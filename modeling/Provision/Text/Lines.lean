import Provision.Text.Blank

/-!
# Lines

A line feed ends a line, and one carriage return before it belongs to the ending. What follows the
last line feed is a line only if it is not empty.
-/

namespace Provision.Text

/-- The line without one carriage return at its end. -/
def dropReturn (line : List Char) : List Char :=
  match line.getLast? with
  | some '\r' => line.dropLast
  | _ => line

/-- The lines of a text, without their endings. -/
def lines (s : List Char) : List (List Char) :=
  let parts := pieces (· == '\n') s
  let last := parts.getLast?.getD []
  parts.dropLast.map dropReturn ++ if last.isEmpty then [] else [last]

/-- The parts of a text between the separators `", "`, found from the left; always at least one. -/
def listed : List Char → List (List Char)
  | [] => [[]]
  | ',' :: ' ' :: rest => [] :: listed rest
  | c :: rest =>
    match listed rest with
    | [] => [[c]]
    | part :: more => (c :: part) :: more

end Provision.Text
