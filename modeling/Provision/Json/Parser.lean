import Provision.Json.Basic
import Provision.Text.Numeral

/-!
# Reading JSON

A reader takes a text and returns what it read with the rest. Blanks are the four that JSON knows.
A string is read in two steps, first into units, one for each character or escape, then into
characters, so that the halves of a surrogate pair meet; a string in which a half stands alone is
read as a string without characters.

Nothing bounds how deep brackets may nest. The readers of values count down a number of steps, and
the length of the text is enough of them.
-/

namespace Provision.Json.Reader

open Provision.Text (digit? digitsFrom)

/-- Whether JSON allows the character between tokens. -/
def isSpace (c : Char) : Bool :=
  c == ' ' || c == '\t' || c == '\n' || c == '\r'

/-- The text without the blanks in front. -/
def skip (s : List Char) : List Char :=
  s.dropWhile isSpace

/-! ## Strings -/

/-- A part of a string: a character, or a code unit of sixteen bits given by an escape. -/
inductive Unit
  /-- A character written as itself or by a letter. -/
  | char (c : Char)
  /-- A code unit written by four hexadecimal digits. -/
  | code (n : Nat)
  deriving DecidableEq, Repr

/-- The value of a hexadecimal digit in either case. -/
def hexValue? (c : Char) : Option Nat :=
  if '0' ≤ c ∧ c ≤ '9' then some (c.toNat - 48)
  else if 'a' ≤ c ∧ c ≤ 'f' then some (c.toNat - 87)
  else if 'A' ≤ c ∧ c ≤ 'F' then some (c.toNat - 55)
  else none

/-- The value of four hexadecimal digits. -/
def hex4? (a b c d : Char) : Option Nat :=
  match hexValue? a, hexValue? b, hexValue? c, hexValue? d with
  | some w, some x, some y, some z => some (((w * 16 + x) * 16 + y) * 16 + z)
  | _, _, _, _ => none

/-- The character that a letter after a backslash stands for. -/
def unescape? (c : Char) : Option Char :=
  if c = '"' ∨ c = '\\' ∨ c = '/' then some c
  else if c = 'b' then some '\x08'
  else if c = 'f' then some '\x0c'
  else if c = 'n' then some '\n'
  else if c = 'r' then some '\r'
  else if c = 't' then some '\t'
  else none

/-- The units of a string up to its closing quotation mark, and the text after it. -/
def units : List Char → Option (List Unit × List Char)
  | [] => none
  | '"' :: rest => some ([], rest)
  | '\\' :: 'u' :: a :: b :: c :: d :: rest =>
    match hex4? a b c d, units rest with
    | some n, some (us, rest) => some (.code n :: us, rest)
    | _, _ => none
  | '\\' :: c :: rest =>
    match unescape? c, units rest with
    | some c, some (us, rest) => some (.char c :: us, rest)
    | _, _ => none
  | c :: rest =>
    if c.toNat < 0x20 ∨ c = '\\' then none
    else match units rest with
      | some (us, rest) => some (.char c :: us, rest)
      | none => none

/-- Whether a code unit is the first half of a surrogate pair. -/
def isHigh (n : Nat) : Bool :=
  decide (0xD800 ≤ n) && decide (n < 0xDC00)

/-- Whether a code unit is the second half of a surrogate pair. -/
def isLow (n : Nat) : Bool :=
  decide (0xDC00 ≤ n) && decide (n < 0xE000)

/-- The characters that units stand for; none if half of a surrogate pair stands alone. -/
def characters : List Unit → Option (List Char)
  | [] => some []
  | .char c :: rest => (characters rest).map (c :: ·)
  | .code n :: .code m :: rest =>
    if isHigh n then
      if isLow m then
        (characters rest).map (Char.ofNat (0x10000 + (n - 0xD800) * 1024 + (m - 0xDC00)) :: ·)
      else none
    else if isLow n then none
    else (characters (.code m :: rest)).map (Char.ofNat n :: ·)
  | .code n :: rest =>
    if isHigh n || isLow n then none else (characters rest).map (Char.ofNat n :: ·)

/-- A string after its opening quotation mark. -/
def text (s : List Char) : Option (Text × List Char) :=
  (units s).map fun r => ((characters r.1).map String.ofList, r.2)

/-! ## Numbers -/

/-- The digits in front, and the rest. -/
def digitSpan (s : List Char) : List Char × List Char :=
  (s.takeWhile fun c => (digit? c).isSome, s.dropWhile fun c => (digit? c).isSome)

/-- The value of a list of digits. -/
def digitsValue (ds : List Char) : Nat :=
  (digitsFrom 0 ds).getD 0

/-- The digits after a decimal point; none where a point is followed by no digit. -/
def fraction (s : List Char) : Option (Option (List Char) × List Char) :=
  match s with
  | '.' :: rest =>
    let r := digitSpan rest
    if r.1.isEmpty then none else some (some r.1, r.2)
  | _ => some (none, s)

/-- The power of ten after an exponent's letter; none where no digit follows. -/
def exponent (s : List Char) : Option (Option Int × List Char) :=
  match s with
  | e :: rest =>
    if e = 'e' ∨ e = 'E' then
      let negative := rest.head? == some '-'
      let body := if negative || rest.head? == some '+' then rest.tail else rest
      let r := digitSpan body
      if r.1.isEmpty then none
      else
        let n : Int := digitsValue r.1
        some (some (if negative then -n else n), r.2)
    else some (none, s)
  | [] => some (none, s)

/-- A number without its sign. -/
def magnitude (negative : Bool) (s : List Char) : Option (Number × List Char) :=
  let whole := digitSpan s
  match whole.1 with
  | [] => none
  | '0' :: _ :: _ => none
  | ds =>
    match fraction whole.2 with
    | none => none
    | some (frac, rest) =>
      match exponent rest with
      | none => none
      | some (power, rest) =>
        let n := digitsValue ds
        match frac, power with
        | none, none =>
          if negative then
            if n = 0 then some (.real 0 0, rest) else some (.int (-(n : Int)), rest)
          else some (.int n, rest)
        | _, _ =>
          let places := frac.getD []
          some (.real (digitsValue (ds ++ places)) (power.getD 0 - places.length), rest)

/-- A number. -/
def number (s : List Char) : Option (Number × List Char) :=
  match s with
  | '-' :: rest => magnitude true rest
  | _ => magnitude false s

/-! ## Values -/

/-- The text after a literal that stands in front of it. -/
def expect (literal : String) (s : List Char) : Option (List Char) :=
  literal.toList.isPrefixOf? s

mutual

/-- A value, with no blanks in front. -/
def value : Nat → List Char → Option (Json × List Char)
  | 0, _ => none
  | fuel + 1, s =>
    match s with
    | 'n' :: rest => (expect "ull" rest).map fun r => (.null, r)
    | 't' :: rest => (expect "rue" rest).map fun r => (.bool true, r)
    | 'f' :: rest => (expect "alse" rest).map fun r => (.bool false, r)
    | '"' :: rest => (text rest).map fun r => (.string r.1, r.2)
    | '[' :: rest =>
      match skip rest with
      | ']' :: rest => some (.array [], rest)
      | rest => (items fuel rest).map fun r => (.array r.1, r.2)
    | '\x7b' :: rest =>
      match skip rest with
      | '\x7d' :: rest => some (.object [], rest)
      | rest => (members fuel rest).map fun r => (.object r.1, r.2)
    | _ => (number s).map fun r => (.number r.1, r.2)

/-- One or more items, and the closing bracket. -/
def items : Nat → List Char → Option (List Json × List Char)
  | 0, _ => none
  | fuel + 1, s =>
    match value fuel s with
    | none => none
    | some (v, rest) =>
      match skip rest with
      | ']' :: rest => some ([v], rest)
      | ',' :: rest => (items fuel (skip rest)).map fun r => (v :: r.1, r.2)
      | _ => none

/-- One or more members, and the closing brace. -/
def members : Nat → List Char → Option (List (Text × Json) × List Char)
  | 0, _ => none
  | fuel + 1, s =>
    match s with
    | '"' :: rest =>
      match text rest with
      | none => none
      | some (name, rest) =>
        match skip rest with
        | ':' :: rest =>
          match value fuel (skip rest) with
          | none => none
          | some (v, rest) =>
            match skip rest with
            | '\x7d' :: rest => some ([(name, v)], rest)
            | ',' :: rest => (members fuel (skip rest)).map fun r => ((name, v) :: r.1, r.2)
            | _ => none
        | _ => none
    | _ => none

end

end Provision.Json.Reader

namespace Provision.Json

open Reader (value skip)

/-- The value of a whole text, with blanks around it. -/
def parse (s : List Char) : Option Json :=
  match value (2 * s.length + 2) (skip s) with
  | some (v, rest) => if (skip rest).isEmpty then some v else none
  | none => none

end Provision.Json
