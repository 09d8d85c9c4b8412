import Mathlib.Data.List.Basic
import Mathlib.Tactic.IntervalCases
import Provision.Text.Numeral

/-!
# Decimal digits

The library writes a number by `Nat.toDigits` and reads digits by `Nat.ofDigitChars`; the readers of
this project agree with the latter on digits.

* `digitsFrom_toDigits`, `digitsFrom_padded`: reading undoes writing, with or without zeros in front.
* `toDigits_eq_zero_cons`: a numeral has no zero in front.
* `natBelow?_of_digits?`, `exists_of_natBelow?`: what is read as an unsigned number, and as which.
-/

namespace Provision.Text

theorem digit?_of_isDigit {c : Char} (h : c.isDigit = true) : digit? c = some (c.toNat - 48) := by
  rw [Char.isDigit_iff_toNat] at h
  exact if_pos ⟨h.1, h.2⟩

theorem isSome_digit? (c : Char) : (digit? c).isSome = c.isDigit := by
  by_cases h : c.isDigit = true
  · rw [digit?_of_isDigit h, h, Option.isSome_some]
  · have hc : ¬ ('0' ≤ c ∧ c ≤ '9') := fun hr => h (Char.isDigit_iff_toNat.mpr ⟨hr.1, hr.2⟩)
    rw [digit?, if_neg hc, Option.isSome_none, Bool.eq_false_iff.mpr h]

theorem digitsFrom_of_isDigit {s : List Char} (h : ∀ c ∈ s, c.isDigit = true) (acc : ℕ) :
    digitsFrom acc s = some (Nat.ofDigitChars 10 s acc) := by
  induction s generalizing acc with
  | nil => simp [digitsFrom]
  | cons c rest ih =>
    simp only [digitsFrom, digit?_of_isDigit (h c List.mem_cons_self), Option.bind_some,
      Nat.ofDigitChars_cons, ih fun d hd => h d (List.mem_cons_of_mem c hd)]
    rw [Nat.mul_comm acc]
    rfl

theorem isDigit_of_mem_toDigits {n : ℕ} {c : Char} (h : c ∈ Nat.toDigits 10 n) :
    c.isDigit = true :=
  Nat.isDigit_of_mem_toDigits (by decide) (by decide) h

theorem exists_toDigits_eq_cons (n : ℕ) :
    ∃ d ds, Nat.toDigits 10 n = d :: ds ∧ d.isDigit = true := by
  cases h : Nat.toDigits 10 n with
  | nil => exact absurd h Nat.toDigits_ne_nil
  | cons d ds => exact ⟨d, ds, rfl, isDigit_of_mem_toDigits (h ▸ List.mem_cons_self)⟩

theorem digitsFrom_toDigits (n : ℕ) : digitsFrom 0 (Nat.toDigits 10 n) = some n := by
  rw [digitsFrom_of_isDigit fun _ => isDigit_of_mem_toDigits, Nat.ofDigitChars_ten_toDigits]

theorem head?_toDigits {n : ℕ} (h : 0 < n) : (Nat.toDigits 10 n).head? ≠ some '0' := by
  induction n using Nat.strongRecOn with
  | ind n ih =>
    rw [Nat.toDigits_eq_if (by decide)]
    split
    case isTrue hlt => interval_cases n <;> decide
    case isFalse hge =>
      -- the first digit is the first digit of the tenth part
      have hlead := ih (n / 10) (Nat.div_lt_self h (by decide)) (by omega)
      rwa [List.head?_append_of_ne_nil (Nat.toDigits 10 (n / 10)) Nat.toDigits_ne_nil]

theorem toDigits_eq_zero_cons {n : ℕ} {s : List Char} (h : Nat.toDigits 10 n = '0' :: s) :
    s = [] := by
  rcases n.eq_zero_or_pos with rfl | hpos
  · exact (List.cons.inj h).2.symm
  · exact absurd (by rw [h, List.head?_cons]) (head?_toDigits hpos)

/-! ## What is a numeral -/

theorem digitsFrom_eq_some_iff {s : List Char} {acc n : ℕ} :
    digitsFrom acc s = some n ↔ (∀ c ∈ s, c.isDigit = true) ∧ Nat.ofDigitChars 10 s acc = n := by
  refine ⟨fun h => ?_, fun ⟨hs, hn⟩ => (digitsFrom_of_isDigit hs acc).trans (congrArg some hn)⟩
  have hs : ∀ c ∈ s, c.isDigit = true := by
    induction s generalizing acc with
    | nil => exact List.forall_mem_nil _
    | cons c rest ih =>
      obtain ⟨d, hd, hrest⟩ := Option.bind_eq_some_iff.mp h
      refine List.forall_mem_cons.mpr ⟨?_, ih hrest⟩
      rw [← isSome_digit?, hd, Option.isSome_some]
  exact ⟨hs, Option.some.inj ((digitsFrom_of_isDigit hs acc).symm.trans h)⟩

theorem digits?_eq_some_iff {s : List Char} {n : ℕ} :
    digits? s = some n ↔ s ≠ [] ∧ (∀ c ∈ s, c.isDigit = true) ∧ Nat.ofDigitChars 10 s 0 = n := by
  cases s with
  | nil => simp [digits?]
  | cons c rest => simp [digits?, digitsFrom_eq_some_iff]

/-- **Digits are read as their value**, with a plus sign in front or none, if it is below the bound. -/
theorem natBelow?_of_digits? {n : ℕ} {s digits : List Char} (hs : s = digits ∨ s = '+' :: digits)
    (h : digits? digits = some n) (bound : ℕ) :
    natBelow? bound s = if n < bound then some n else none := by
  have hbody : natBelow? bound s = (digits? digits).filter (· < bound) := by
    rcases hs with rfl | rfl
    · unfold natBelow?
      split
      case h_1 rest =>
        -- a plus sign is no digit
        exact absurd ((digits?_eq_some_iff.mp h).2.1 '+' List.mem_cons_self) (by decide)
      case h_2 => rfl
    · rfl
  simp [hbody, h, Option.filter_some]

/-- **What is read as an unsigned number** is such digits. -/
theorem exists_of_natBelow? {bound n : ℕ} {s : List Char} (h : natBelow? bound s = some n) :
    ∃ digits, (s = digits ∨ s = '+' :: digits) ∧ digits? digits = some n ∧ n < bound := by
  unfold natBelow? at h
  split at h
  case h_1 rest => exact ⟨rest, .inr rfl, by simpa [Option.filter_eq_some_iff] using h⟩
  case h_2 => exact ⟨s, .inl rfl, by simpa [Option.filter_eq_some_iff] using h⟩

/-! ## Zeros in front -/

theorem isDigit_of_mem_padded {width n : ℕ} {c : Char} (h : c ∈ padded width n) :
    c.isDigit = true := by
  rcases List.mem_append.mp h with hz | hd
  · rw [(List.mem_replicate.mp hz).2]
    decide
  · exact isDigit_of_mem_toDigits hd

theorem digitsFrom_padded (width n : ℕ) : digitsFrom 0 (padded width n) = some n := by
  rw [digitsFrom_of_isDigit fun _ => isDigit_of_mem_padded, padded, Nat.ofDigitChars_append,
    Nat.ofDigitChars_replicate_zero]
  simp [Nat.ofDigitChars_ten_toDigits]

theorem length_padded {width n : ℕ} (hw : 0 < width) (h : n < 10 ^ width) :
    (padded width n).length = width := by
  have hle := (Nat.length_toDigits_le_iff (by decide) hw).mpr h
  simp only [padded, List.length_append, List.length_replicate]
  omega

theorem padded_ne_nil (width n : ℕ) : padded width n ≠ [] :=
  fun h => Nat.toDigits_ne_nil (List.append_eq_nil_iff.mp h).2

end Provision.Text
