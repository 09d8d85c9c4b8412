/-!
# Blanks

White space is what Unicode gives the property `White_Space`: twenty-five code points, far more
than the ASCII blanks. Text is handled as a list of characters.

* `trim` drops the blanks at both ends.
* `words` are the maximal runs of characters that are not blank.
-/

namespace Provision.Text

/-- The code points with the property `White_Space`, as closed ranges. -/
def blankRanges : List (Nat × Nat) :=
  [(0x09, 0x0D), (0x20, 0x20), (0x85, 0x85), (0xA0, 0xA0), (0x1680, 0x1680), (0x2000, 0x200A),
    (0x2028, 0x2029), (0x202F, 0x202F), (0x205F, 0x205F), (0x3000, 0x3000)]

/-- Whether a character is white space. -/
def isBlank (c : Char) : Bool :=
  blankRanges.any fun r => decide (r.1 ≤ c.toNat) && decide (c.toNat ≤ r.2)

/-- The text without its leading blanks. -/
def trimStart (s : List Char) : List Char :=
  s.dropWhile isBlank

/-- The text without its last characters that satisfy `p`. -/
def trimEndWhere (p : Char → Bool) (s : List Char) : List Char :=
  (s.reverse.dropWhile p).reverse

/-- The text without its trailing blanks. -/
def trimEnd (s : List Char) : List Char :=
  trimEndWhere isBlank s

/-- The text without the blanks at its two ends. -/
def trim (s : List Char) : List Char :=
  trimEnd (trimStart s)

/-- The pieces of the text between the characters that satisfy `p`; always at least one. -/
def pieces (p : Char → Bool) : List Char → List (List Char)
  | [] => [[]]
  | c :: rest =>
    if p c then [] :: pieces p rest
    else match pieces p rest with
      | [] => [[c]]
      | piece :: more => (c :: piece) :: more

/-- The maximal runs of characters that are not blank. -/
def words (s : List Char) : List (List Char) :=
  (pieces isBlank s).filter fun piece => !piece.isEmpty

/-- The words of the text with one space between neighbours. -/
def unwords (ws : List (List Char)) : List Char :=
  List.intercalate [' '] ws

end Provision.Text
