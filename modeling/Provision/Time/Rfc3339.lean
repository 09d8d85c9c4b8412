import Provision.Text.Blank
import Provision.Text.Numeral
import Provision.Time.Date
import Provision.Time.Instant

/-!
# Times as text

Times are written as RFC 3339 has it, in UTC, with a `T` and a `Z`, and with as many digits of the
second's fraction as lose nothing: none, three, six or nine. A year outside 0 to 9999 has a sign.

They are read more freely. Date and time may be separated by a blank, blanks may stand around the
parts, a part may have fewer digits than it is written with, a year may have a sign and then any
number of digits, and the place may be `UTC`, `Z` in either case or an offset. Digits after the
ninth of a fraction are dropped. A second of 60 is read as a leap second.

* `write` and `read?` are the two directions.
-/

namespace Provision.Rfc3339

open Provision.Text (trimStart isBlank digit? digitsFrom padded)

/-! ## Writing -/

/-- A year of four digits, or a year with its sign. -/
def writeYear (year : Int) : List Char :=
  if 0 ≤ year ∧ year ≤ 9999 then padded 4 year.toNat
  else (if year < 0 then '-' else '+') :: padded 4 year.natAbs

/-- The fraction of a second, in the fewest groups of three digits. -/
def writeFraction (nano : Nat) : List Char :=
  if nano = 0 then []
  else if nano % 1000000 = 0 then '.' :: padded 3 (nano / 1000000)
  else if nano % 1000 = 0 then '.' :: padded 6 (nano / 1000)
  else '.' :: padded 9 nano

/-- A time in UTC. -/
def write (t : Instant) : List Char :=
  let date := Date.ofDay (t.second / 86400)
  let clock := (t.second % 86400).toNat
  let leap := decide (1000000000 ≤ t.nano)
  let second := clock % 60 + if leap then 1 else 0
  let nano := if leap then t.nano - 1000000000 else t.nano
  writeYear date.year ++ '-' :: padded 2 date.month ++ '-' :: padded 2 date.day ++
    'T' :: padded 2 (clock / 3600) ++ ':' :: padded 2 (clock / 60 % 60) ++
    ':' :: padded 2 second ++ writeFraction nano ++ ['Z']

/-! ## Reading -/

/-- One digit at least and `width` at most, with the number of digits and the rest. -/
def digitsUpTo (width : Nat) (s : List Char) : Option (Nat × Nat × List Char) :=
  let ds := (s.take width).takeWhile fun c => (digit? c).isSome
  if ds.isEmpty then none else (digitsFrom 0 ds).map fun n => (n, ds.length, s.drop ds.length)

/-- A number of at most two digits after blanks. -/
def part (s : List Char) : Option (Nat × List Char) :=
  (digitsUpTo 2 (trimStart s)).map fun r => (r.1, r.2.2)

/-- A year after blanks. -/
def year (s : List Char) : Option (Int × List Char) :=
  match trimStart s with
  | '-' :: rest => (digitsUpTo rest.length rest).map fun r => (-(r.1 : Int), r.2.2)
  | '+' :: rest => (digitsUpTo rest.length rest).map fun r => ((r.1 : Int), r.2.2)
  | rest => (digitsUpTo 4 rest).map fun r => ((r.1 : Int), r.2.2)

/-- The text after a mark, with blanks before it. -/
def mark (c : Char) (s : List Char) : Option (List Char) :=
  match trimStart s with
  | d :: rest => if d = c then some rest else none
  | [] => none

/-- The text after the separator of date and time. -/
def separator : List Char → Option (List Char)
  | c :: rest => if c = 't' ∨ c = 'T' ∨ c = ' ' then some rest else none
  | [] => none

/-- A fraction of a second in nanoseconds, if one is there. -/
def fraction : List Char → Option (Nat × List Char)
  | '.' :: rest =>
    (digitsUpTo 9 rest).map fun r =>
      (r.1 * Nat.pow 10 (9 - r.2.1), r.2.2.dropWhile fun c => (digit? c).isSome)
  | s => some (0, s)

/-- Two digits. -/
def twoDigits : List Char → Option (Nat × List Char)
  | a :: b :: rest =>
    match digit? a, digit? b with
    | some x, some y => some (x * 10 + y, rest)
    | _, _ => none
  | _ => none

/-- Hours and minutes of an offset, in seconds. -/
def offsetSeconds (s : List Char) : Option (Int × List Char) :=
  match twoDigits s with
  | none => none
  | some (hours, rest) =>
    match twoDigits (rest.dropWhile fun c => c == ':' || isBlank c) with
    | none => none
    | some (minutes, rest) =>
      if minutes < 60 then some (((hours * 3600 + minutes * 60 : Nat) : Int), rest) else none

/-- The offset from UTC in seconds. -/
def offset (s : List Char) : Option (Int × List Char) :=
  match s with
  | a :: b :: c :: rest =>
    if [a.toUpper, b.toUpper, c.toUpper] = ['U', 'T', 'C'] then some (0, rest)
    else signed s
  | _ => signed s
where
  /-- A zero offset by its letter, or an offset with its sign. -/
  signed : List Char → Option (Int × List Char)
    | 'Z' :: rest => some (0, rest)
    | 'z' :: rest => some (0, rest)
    | '+' :: rest => offsetSeconds rest
    | '-' :: rest => (offsetSeconds rest).map fun r => (-r.1, r.2)
    | '\u2212' :: rest => (offsetSeconds rest).map fun r => (-r.1, r.2)
    | _ => none

/-- Whether a year is one that times are kept for. -/
def hasYear (y : Int) : Bool :=
  decide (-262143 ≤ y) && decide (y ≤ 262142)

/-- The instant of a local date and time. -/
def instant? (date : Date) (hour minute second nano : Nat) (offset : Int) : Option Instant :=
  if hasYear date.year && date.exists? && decide (hour < 24) && decide (minute < 60) &&
      decide (second ≤ 60) && decide (offset.natAbs < 86400) then
    let clock : Int := hour * 3600 + minute * 60 + min second 59
    let t : Instant :=
      ⟨date.toDay * 86400 + clock - offset, if second = 60 then nano + 1000000000 else nano⟩
    if hasYear (Date.ofDay (t.second / 86400)).year then some t else none
  else none

/-- The instant that a whole text gives. -/
def read? (s : List Char) : Option Instant := do
  let (y, s) ← year s
  let s ← mark '-' s
  let (month, s) ← part s
  let s ← mark '-' s
  let (day, s) ← part s
  let s ← separator s
  let (hour, s) ← part s
  let s ← mark ':' s
  let (minute, s) ← part s
  let s ← mark ':' s
  let (second, s) ← part s
  let (nano, s) ← fraction s
  let (off, s) ← offset (trimStart s)
  if (trimStart s).isEmpty then instant? ⟨y, month, day⟩ hour minute second nano off else none

end Provision.Rfc3339
