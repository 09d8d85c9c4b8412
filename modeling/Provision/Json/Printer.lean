import Provision.Json.Basic

/-!
# Writing JSON

The compact form: no blanks, members in order. A string escapes the quotation mark, the backslash
and the control characters, the latter by a letter where one exists and by four hexadecimal digits
elsewhere; everything else stands for itself.
-/

namespace Provision.Json

/-- The lower-case hexadecimal digit of a number below sixteen. -/
def hexDigit (n : Nat) : Char :=
  if n < 10 then Char.ofNat (48 + n) else Char.ofNat (87 + n)

/-- The letter that escapes a character after a backslash. -/
def escapeLetter? (c : Char) : Option Char :=
  if c = '"' then some '"'
  else if c = '\\' then some '\\'
  else if c = '\x08' then some 'b'
  else if c = '\x0c' then some 'f'
  else if c = '\n' then some 'n'
  else if c = '\r' then some 'r'
  else if c = '\t' then some 't'
  else none

/-- A character inside a string. -/
def printChar (c : Char) : List Char :=
  match escapeLetter? c with
  | some letter => ['\\', letter]
  | none =>
    if c.toNat < 0x20 then
      ['\\', 'u', '0', '0', hexDigit (c.toNat / 16), hexDigit (c.toNat % 16)]
    else [c]

/-- A string with its quotation marks. -/
def printString (s : List Char) : List Char :=
  '"' :: (s.flatMap printChar ++ ['"'])

/-- An integer in decimal. -/
def printInt : Int → List Char
  | .ofNat n => Nat.toDigits 10 n
  | .negSucc n => '-' :: Nat.toDigits 10 (n + 1)

/-- A string that may have no characters; only one that has is ever written. -/
def printText (t : Text) : List Char :=
  printString ((t.getD "").toList)

/-- A number; what is not an integer is written by its digits and its power of ten. -/
def printNumber : Number → List Char
  | .int i => printInt i
  | .real digits exponent => Nat.toDigits 10 digits ++ 'e' :: printInt exponent

mutual

/-- The compact text of a value. -/
def print : Json → List Char
  | .null => "null".toList
  | .bool true => "true".toList
  | .bool false => "false".toList
  | .number n => printNumber n
  | .string t => printText t
  | .array [] => ['[', ']']
  | .array (v :: rest) => '[' :: (print v ++ printItems rest)
  | .object [] => ['\x7b', '\x7d']
  | .object ((name, v) :: rest) =>
    '\x7b' :: (printText name ++ ':' :: (print v ++ printMembers rest))

/-- The items after the first, and the closing bracket. -/
def printItems : List Json → List Char
  | [] => [']']
  | v :: rest => ',' :: (print v ++ printItems rest)

/-- The members after the first, and the closing brace. -/
def printMembers : List (Text × Json) → List Char
  | [] => ['\x7d']
  | (name, v) :: rest => ',' :: (printText name ++ ':' :: (print v ++ printMembers rest))

end

/-- The compact text of a value as a string. -/
def render (v : Json) : String :=
  String.ofList v.print

end Provision.Json
