import Provision.Json.Parser
import Provision.Json.Printer
import Provision.Proofs.Text.Digits

/-!
# Reading back strings and numbers

The reader finds in the text of a string or a number what was written, and the text that follows.

* `text_printText`: a string, whatever its characters are. Control characters come back through
  four hexadecimal digits or a letter, all others as they stand.
* `number_printNumber`: a number, if what follows does not go on with it (`EndsNumber`).
-/

namespace Provision.Json

open Reader Provision.Text

/-! ## Strings -/

/-- The unit as which a character is read back. -/
def unitOf (c : Char) : Reader.Unit :=
  if escapeLetter? c = none ∧ c.toNat < 0x20 then .code c.toNat else .char c

theorem units_escape {c letter : Char} (h : escapeLetter? c = some letter) (s : List Char) :
    units ('\\' :: letter :: s) = (units s).map fun r => (.char c :: r.1, r.2) := by
  have hletter : unescape? letter = some c ∧ letter ≠ 'u' := by
    unfold escapeLetter? at h
    split_ifs at h with h1 h2 h3 h4 h5 h6 h7 <;> cases h <;> subst_vars <;> decide
  rw [units]
  · rw [hletter.1]
    cases units s <;> rfl
  · rintro a b c d rest hu
    exact absurd hu hletter.2

theorem hex4?_control : ∀ n < 0x20, hex4? '0' '0' (hexDigit (n / 16)) (hexDigit (n % 16)) = some n := by
  decide

theorem units_printChar (c : Char) (s : List Char) :
    units (printChar c ++ s) = (units s).map fun r => (unitOf c :: r.1, r.2) := by
  cases hc : escapeLetter? c with
  | some letter => simp [printChar, unitOf, hc, units_escape hc]
  | none =>
    by_cases hlow : c.toNat < 0x20
    · simp only [printChar, unitOf, hc, hlow, if_true, List.cons_append, List.nil_append, units,
        hex4?_control c.toNat hlow]
      cases units s <;> simp
    · have hquote : c ≠ '"' := by rintro rfl; cases hc
      have hback : c ≠ '\\' := by rintro rfl; cases hc
      simp only [printChar, unitOf, hc, hlow, if_false, and_false, List.cons_append,
        List.nil_append]
      rw [units]
      · simp only [hlow, hback, or_self, if_false]
        cases units s <;> rfl
      all_goals simp_all

theorem units_flatMap (cs s : List Char) :
    units (cs.flatMap printChar ++ '"' :: s) = some (cs.map unitOf, s) := by
  induction cs with
  | nil => simp [units]
  | cons c rest ih =>
    rw [List.flatMap_cons, List.append_assoc, units_printChar, ih]
    rfl

theorem characters_map (cs : List Char) : characters (cs.map unitOf) = some cs := by
  induction cs with
  | nil => rfl
  | cons c rest ih =>
    by_cases hc : escapeLetter? c = none ∧ c.toNat < 0x20
    · -- a control character is no half of a surrogate pair
      have hhigh : isHigh c.toNat = false := by simp [isHigh]; omega
      have hlow : isLow c.toNat = false := by simp [isLow]; omega
      rw [List.map_cons, show unitOf c = .code c.toNat from if_pos hc]
      cases hr : rest.map unitOf with
      | nil => simp_all [characters]
      | cons u us => cases u <;> simp_all [characters, Char.ofNat_toNat]
    · rw [List.map_cons, show unitOf c = .char c from if_neg hc, characters, ih]
      rfl

theorem text_printText {t : Text} (h : t.isSome) (s : List Char) :
    ∃ body, printText t = '"' :: body ∧ text (body ++ s) = some (t, s) := by
  obtain ⟨str, rfl⟩ := Option.isSome_iff_exists.mp h
  refine ⟨_, rfl, ?_⟩
  rw [List.append_assoc, text, List.singleton_append, Option.getD_some, units_flatMap]
  simp [characters_map]

/-! ## Numbers -/

/-- Whether a text does not go on with a number that stands in front of it. -/
def EndsNumber (s : List Char) : Prop :=
  ∀ c, s.head? = some c → c.isDigit = false ∧ c ≠ '.' ∧ c ≠ 'e' ∧ c ≠ 'E'

theorem digitSpan_append {ds s : List Char} (hds : ∀ c ∈ ds, c.isDigit = true)
    (hs : ∀ c, s.head? = some c → c.isDigit = false) : digitSpan (ds ++ s) = (ds, s) := by
  have hall : ∀ c ∈ ds, (digit? c).isSome = true := fun c hc => by rw [isSome_digit?, hds c hc]
  rw [digitSpan, List.takeWhile_append_of_pos hall, List.dropWhile_append_of_pos hall]
  cases s with
  | nil => simp
  | cons c rest => simp [isSome_digit?, hs c rfl]

theorem digitsValue_toDigits (n : ℕ) : digitsValue (Nat.toDigits 10 n) = n := by
  rw [digitsValue, digitsFrom_toDigits, Option.getD_some]

theorem fraction_of_ne {s : List Char} (h : s.head? ≠ some '.') : fraction s = some (none, s) := by
  cases s with
  | nil => rfl
  | cons c rest =>
    rw [fraction]
    rintro _ hs
    simp_all

theorem exponent_of_endsNumber {s : List Char} (h : EndsNumber s) :
    exponent s = some (none, s) := by
  cases s with
  | nil => rfl
  | cons c rest => simp [exponent, (h c rfl).2.2]

theorem number_toDigits (n : ℕ) (t : List Char) :
    Reader.number (Nat.toDigits 10 n ++ t) = magnitude false (Nat.toDigits 10 n ++ t) := by
  obtain ⟨d, ds, hn, hd⟩ := exists_toDigits_eq_cons n
  rw [hn, List.cons_append, Reader.number]
  rintro rest hminus
  cases hminus
  cases hd

theorem magnitude_toDigits (negative : Bool) (n : ℕ) {s t : List Char} {power : Option ℤ}
    (hspan : digitSpan (Nat.toDigits 10 n ++ t) = (Nat.toDigits 10 n, t))
    (hpoint : t.head? ≠ some '.') (hpower : exponent t = some (power, s)) :
    magnitude negative (Nat.toDigits 10 n ++ t) = some
      (match power with
        | none => if negative then if n = 0 then .real 0 0 else .int (-n) else .int n
        | some e => .real n e, s) := by
  simp only [magnitude, hspan]
  split
  case h_1 hnil => exact absurd hnil Nat.toDigits_ne_nil
  case h_2 hzero => cases toDigits_eq_zero_cons hzero
  case h_3 =>
    simp only [fraction_of_ne hpoint, hpower, digitsValue_toDigits]
    cases power with
    | none => cases negative <;> simp; split_ifs <;> rfl
    | some e => simp [digitsValue_toDigits]

section Numbers

variable {s : List Char} (hs : EndsNumber s)
include hs

theorem digitSpan_toDigits (n : ℕ) :
    digitSpan (Nat.toDigits 10 n ++ s) = (Nat.toDigits 10 n, s) :=
  digitSpan_append (fun _ => isDigit_of_mem_toDigits) fun c hc => (hs c hc).1

theorem exponent_printInt (i : ℤ) : exponent ('e' :: (printInt i ++ s)) = some (some i, s) := by
  cases i with
  | ofNat n =>
    obtain ⟨d, ds, hn, hd⟩ := exists_toDigits_eq_cons n
    have hsign : d ≠ '-' ∧ d ≠ '+' := by constructor <;> rintro rfl <;> cases hd
    have hspan := digitSpan_toDigits hs n
    have hvalue := digitsValue_toDigits n
    rw [hn] at hspan hvalue
    simp_all [exponent, printInt]
  | negSucc n =>
    simp [exponent, printInt, digitSpan_toDigits hs, digitsValue_toDigits, Nat.toDigits_ne_nil,
      Int.negSucc_eq]

theorem number_printNumber (n : Number) : Reader.number (printNumber n ++ s) = some (n, s) := by
  have hpoint : s.head? ≠ some '.' := fun h => (hs '.' h).2.1 rfl
  have hint (n : ℕ) (negative : Bool) := magnitude_toDigits negative n (digitSpan_toDigits hs n)
    hpoint (exponent_of_endsNumber hs)
  cases n with
  | int i =>
    cases i with
    | ofNat n => simpa [printNumber, printInt, number_toDigits] using hint n false
    | negSucc n =>
      simpa [printNumber, printInt, Reader.number, Int.negSucc_eq] using hint (n + 1) true
  | real digits e =>
    have hspan : digitSpan (Nat.toDigits 10 digits ++ 'e' :: (printInt e ++ s)) =
        (Nat.toDigits 10 digits, 'e' :: (printInt e ++ s)) :=
      digitSpan_append (fun _ => isDigit_of_mem_toDigits) fun c hc => by cases hc; rfl
    have hread := magnitude_toDigits false digits hspan (by simp) (exponent_printInt hs e)
    rwa [printNumber, List.append_assoc, List.cons_append, number_toDigits]

end Numbers

end Provision.Json
