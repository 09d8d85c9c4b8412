import Mathlib.Data.List.DropRight
import Provision.Text.Lines

/-!
# The ends and the parts of a text

* `trimEndWhere_append`, `exists_eq_trimEndWhere_append`: only what is to be cut off at the end is cut
  off, and all of it.
* `trim_append`, `exists_eq_append_trim`: the same for the blanks at both ends.
* `listed_intercalate`, `intercalate_listed`: a text falls into the parts between its separators.
-/

namespace Provision.Text

variable {p : Char → Bool} {s front back : List Char}

theorem isBlank_of_isDigit {c : Char} (h : c.isDigit = true) : isBlank c = false := by
  have hc : 48 ≤ c.toNat ∧ c.toNat ≤ 57 := Char.isDigit_iff_toNat.mp h
  simp [isBlank, blankRanges]
  omega

theorem trimStart_cons {c : Char} (h : isBlank c = false) (s : List Char) :
    trimStart (c :: s) = c :: s := by
  simp [trimStart, h]

/-! ## Ends -/

theorem dropWhile_eq_self (h : ∀ c ∈ s.head?, p c = false) : s.dropWhile p = s := by
  cases s with
  | nil => rfl
  | cons c rest => exact List.dropWhile_cons_of_neg (Bool.eq_false_iff.mp (h c rfl))

theorem trimEndWhere_append (hs : ∀ c ∈ s.getLast?, p c = false) (hb : ∀ c ∈ back, p c = true) :
    trimEndWhere p (s ++ back) = s := by
  have hb : ∀ c ∈ back.reverse, p c = true := fun c hc => hb c (List.mem_reverse.mp hc)
  have hs : ∀ c ∈ s.reverse.head?, p c = false := by rwa [List.head?_reverse]
  rw [trimEndWhere, List.reverse_append, List.dropWhile_append_of_pos hb, dropWhile_eq_self hs,
    List.reverse_reverse]

theorem exists_eq_trimEndWhere_append (p : Char → Bool) (s : List Char) :
    ∃ back, (∀ c ∈ back, p c = true) ∧ s = trimEndWhere p s ++ back :=
  ⟨s.rtakeWhile p, fun _ hc => List.mem_rtakeWhile_imp hc, List.rdropWhile_append_rtakeWhile.symm⟩

/-- **A text is what is left** when the blanks around it are taken away. -/
theorem trim_append (hne : s ≠ []) (hh : ∀ c ∈ s.head?, isBlank c = false)
    (hl : ∀ c ∈ s.getLast?, isBlank c = false) (hf : ∀ c ∈ front, isBlank c = true)
    (hb : ∀ c ∈ back, isBlank c = true) : trim (front ++ s ++ back) = s := by
  have hh : ∀ c ∈ (s ++ back).head?, isBlank c = false := by
    rwa [List.head?_append_of_ne_nil _ hne]
  rw [trim, trimStart, List.append_assoc, List.dropWhile_append_of_pos hf, dropWhile_eq_self hh,
    trimEnd, trimEndWhere_append hl hb]

theorem exists_eq_append_trim (s : List Char) :
    ∃ front back, (∀ c ∈ front, isBlank c = true) ∧ (∀ c ∈ back, isBlank c = true) ∧
      s = front ++ trim s ++ back := by
  obtain ⟨back, hb, hs⟩ := exists_eq_trimEndWhere_append isBlank (trimStart s)
  refine ⟨s.takeWhile isBlank, back, fun _ => List.mem_takeWhile_imp, hb, ?_⟩
  calc s = s.takeWhile isBlank ++ trimStart s := List.takeWhile_append_dropWhile.symm
    _ = s.takeWhile isBlank ++ (trim s ++ back) := congrArg _ hs
    _ = s.takeWhile isBlank ++ trim s ++ back := (List.append_assoc _ _ _).symm

/-! ## Parts -/

theorem listed_ne_nil (s : List Char) : listed s ≠ [] := by
  fun_cases listed s <;> simp_all

theorem listed_cons {c : Char} (h : c ≠ ',') (s : List Char) :
    listed (c :: s) = (listed s).modifyHead (c :: ·) := by
  rw [listed]
  · cases hs : listed s with
    | nil => exact absurd hs (listed_ne_nil s)
    | cons part more => rfl
  · rintro rest rfl
    exact absurd rfl h

theorem listed_of_notMem (h : ',' ∉ s) : listed s = [s] := by
  induction s with
  | nil => rfl
  | cons c s ih =>
    obtain ⟨hc, hs⟩ := List.ne_and_not_mem_of_not_mem_cons h
    rw [listed_cons hc.symm, ih hs, List.modifyHead_cons]

theorem listed_append (h : ',' ∉ s) (rest : List Char) :
    listed (s ++ ',' :: ' ' :: rest) = s :: listed rest := by
  induction s with
  | nil => rfl
  | cons c s ih =>
    obtain ⟨hc, hs⟩ := List.ne_and_not_mem_of_not_mem_cons h
    rw [List.cons_append, listed_cons hc.symm, ih hs, List.modifyHead_cons]

/-- **Parts put together with separators** come apart again, if no comma is in them. -/
theorem listed_intercalate {parts : List (List Char)} (hne : parts ≠ [])
    (h : ∀ part ∈ parts, ',' ∉ part) : listed ([',', ' '].intercalate parts) = parts := by
  induction parts with
  | nil => exact absurd rfl hne
  | cons part more ih =>
    obtain ⟨hpart, hmore⟩ := List.forall_mem_cons.mp h
    cases more with
    | nil => simpa [List.intercalate] using listed_of_notMem hpart
    | cons other more =>
      have hsplit : [',', ' '].intercalate (part :: other :: more) =
          part ++ ',' :: ' ' :: [',', ' '].intercalate (other :: more) := by
        simp [List.intercalate]
      rw [hsplit, listed_append hpart, ih (List.cons_ne_nil _ _) hmore]

theorem intercalate_modifyHead_cons {parts : List (List Char)} (h : parts ≠ []) (sep : List Char)
    (c : Char) : sep.intercalate (parts.modifyHead (c :: ·)) = c :: sep.intercalate parts := by
  match parts, h with
  | [part], _ => simp [List.intercalate]
  | part :: other :: more, _ => simp [List.intercalate]

/-- **The parts with their separators** are the text. -/
theorem intercalate_listed (s : List Char) : [',', ' '].intercalate (listed s) = s := by
  fun_induction listed s with
  | case1 => rfl
  | case2 rest ih =>
    conv_rhs => rw [← ih]
    cases hr : listed rest with
    | nil => exact absurd hr (listed_ne_nil rest)
    | cons part more => simp [List.intercalate]
  | case3 c rest hc hr ih => exact absurd hr (listed_ne_nil rest)
  | case4 c rest hc part more hr ih =>
    conv_rhs => rw [← ih, hr]
    exact intercalate_modifyHead_cons (List.cons_ne_nil part more) _ c

end Provision.Text
