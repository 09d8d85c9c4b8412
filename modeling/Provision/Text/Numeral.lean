/-!
# Decimal numerals

Numbers are read from ASCII digits alone, with an optional sign in front and a bound on the value;
no blanks, no separators. Leading zeros are allowed.
-/

namespace Provision.Text

/-- The value of an ASCII digit. -/
def digit? (c : Char) : Option Nat :=
  if '0' ≤ c ∧ c ≤ '9' then some (c.toNat - 48) else none

/-- The value of a list of digits after the digits read so far. -/
def digitsFrom (acc : Nat) : List Char → Option Nat
  | [] => some acc
  | c :: rest => (digit? c).bind fun d => digitsFrom (acc * 10 + d) rest

/-- The value of one or more digits. -/
def digits? : List Char → Option Nat
  | [] => none
  | s => digitsFrom 0 s

/-- An unsigned numeral, with an optional plus sign, whose value is below `bound`. -/
def natBelow? (bound : Nat) (s : List Char) : Option Nat :=
  let body := match s with
    | '+' :: rest => rest
    | _ => s
  (digits? body).filter (· < bound)

/-- The values of a signed integer of 64 bits. -/
def inInt64 (i : Int) : Bool :=
  decide (-(Int.pow 2 63) ≤ i) && decide (i < Int.pow 2 63)

/-- A signed numeral, with an optional sign, in the range of 64 bits. -/
def int64? (s : List Char) : Option Int :=
  let value := match s with
    | '-' :: rest => (digits? rest).map fun n => -(n : Int)
    | '+' :: rest => (digits? rest).map Int.ofNat
    | _ => (digits? s).map Int.ofNat
  value.filter inInt64

/-- The decimal digits of `n`, with zeros in front up to `width` places. -/
def padded (width n : Nat) : List Char :=
  let body := Nat.toDigits 10 n
  List.replicate (width - body.length) '0' ++ body

end Provision.Text
