import Provision.Proofs.Json.Literal
import Provision.Run.Record

/-!
# Reading back values

`parse_print`: the compact text of a sound value is read as this value. The length of the text is
enough steps for the reader; `ReadsBack` says so of values, items and members whose text stands in front
of another one, and is proved by induction on the steps, along the constructors of a value.
-/

namespace Provision.Json

open Reader Provision.Text

theorem skip_cons {c : Char} (h : isSpace c = false) (s : List Char) : skip (c :: s) = c :: s := by
  simp [skip, h]

theorem exists_printNumber_eq_cons (n : Number) :
    ∃ c r, printNumber n = c :: r ∧ (c.isDigit = true ∨ c = '-') := by
  have hdigits (n : ℕ) (t : List Char) :
      ∃ c r, Nat.toDigits 10 n ++ t = c :: r ∧ (c.isDigit = true ∨ c = '-') := by
    obtain ⟨d, ds, hn, hd⟩ := exists_toDigits_eq_cons n
    exact ⟨d, ds ++ t, by rw [hn, List.cons_append], .inl hd⟩
  match n with
  | .int (.ofNat n) => simpa [printNumber, printInt] using hdigits n []
  | .int (.negSucc n) => exact ⟨'-', _, rfl, .inr rfl⟩
  | .real digits e => exact hdigits digits _

theorem exists_print_eq_cons (v : Json) :
    ∃ c r, v.print = c :: r ∧ isSpace c = false ∧ c ≠ ']' := by
  match v with
  | .null | .bool true | .bool false => exact ⟨_, _, by rw [print]; rfl, by decide⟩
  | .number n =>
    obtain ⟨c, r, hn, hc⟩ := exists_printNumber_eq_cons n
    refine ⟨c, r, by rw [print, hn], ?_, ?_⟩
    · simp only [isSpace, Bool.or_eq_false_iff, beq_eq_false_iff_ne]
      refine ⟨⟨⟨?_, ?_⟩, ?_⟩, ?_⟩ <;> rintro rfl <;> simp at hc
    · rintro rfl
      simp at hc
  | .string t => exact ⟨'"', _, by rw [print]; rfl, by decide⟩
  | .array [] | .array (_ :: _) => exact ⟨'[', _, by rw [print], by decide⟩
  | .object [] | .object (_ :: _) => exact ⟨'\x7b', _, by rw [print], by decide⟩

theorem skip_print (v : Json) (s : List Char) : skip (v.print ++ s) = v.print ++ s := by
  obtain ⟨c, r, hv, hc, -⟩ := exists_print_eq_cons v
  rw [hv, List.cons_append, skip_cons hc]

theorem length_print_pos (v : Json) : 0 < v.print.length := by
  obtain ⟨c, r, hv, -⟩ := exists_print_eq_cons v
  simp [hv]

theorem exists_printText_eq_cons (t : Text) : ∃ body, printText t = '"' :: body :=
  ⟨_, rfl⟩

theorem value_number (n : Number) {s : List Char} (hs : EndsNumber s) (fuel : ℕ) :
    value (fuel + 1) (printNumber n ++ s) = some (.number n, s) := by
  obtain ⟨c, r, hn, hc⟩ := exists_printNumber_eq_cons n
  have hread := number_printNumber hs n
  rw [hn] at hread ⊢
  rw [List.cons_append] at hread ⊢
  rw [value]
  · rw [hread]
    rfl
  all_goals rintro rest hcons; cases hcons; simp at hc

theorem endsNumber_cons {c : Char} (s : List Char)
    (h : c.isDigit = false ∧ c ≠ '.' ∧ c ≠ 'e' ∧ c ≠ 'E') : EndsNumber (c :: s) :=
  fun d hd => by cases hd; exact h

theorem endsNumber_printItems (vs : List Json) (s : List Char) :
    EndsNumber (printItems vs ++ s) := by
  cases vs <;> rw [printItems] <;> exact endsNumber_cons _ (by decide)

theorem endsNumber_printMembers (ms : List (Text × Json)) (s : List Char) :
    EndsNumber (printMembers ms ++ s) := by
  match ms with
  | [] | (_, _) :: _ => rw [printMembers]; exact endsNumber_cons _ (by decide)

/-! ## Values, items and members -/

/-- The readers find what was written, as far as a number of steps goes. -/
structure ReadsBack (fuel : ℕ) : Prop where
  value : ∀ v : Json, v.isSound = true → v.print.length ≤ fuel → ∀ s, EndsNumber s →
    Reader.value fuel (v.print ++ s) = some (v, s)
  items : ∀ v rest, isSoundItems (v :: rest) = true →
    (v.print ++ printItems rest).length ≤ fuel → ∀ s,
      Reader.items fuel (v.print ++ (printItems rest ++ s)) = some (v :: rest, s)
  members : ∀ name v rest, isSoundMembers ((name, v) :: rest) = true →
    (printText name ++ ':' :: (v.print ++ printMembers rest)).length ≤ fuel → ∀ s,
      Reader.members fuel (printText name ++ ':' :: (v.print ++ (printMembers rest ++ s))) =
        some ((name, v) :: rest, s)

namespace ReadsBack

variable {fuel : ℕ} (ih : ReadsBack fuel)
include ih

theorem value_succ (v : Json) (hv : v.isSound = true) (hf : v.print.length ≤ fuel + 1)
    (s : List Char) (hs : EndsNumber s) : Reader.value (fuel + 1) (v.print ++ s) = some (v, s) := by
  match v with
  | .null | .bool true | .bool false => simp [print, Reader.value, expect]
  | .number n => rw [print, value_number n hs]
  | .string t =>
    obtain ⟨body, ht, hread⟩ := text_printText hv s
    simp [print, ht, Reader.value, hread]
  | .array [] | .object [] => simp [print, Reader.value, skip, isSpace]
  | .array (v :: rest) =>
    rw [print] at hf ⊢
    have hread := ih.items v rest hv (Nat.le_of_succ_le_succ hf) s
    obtain ⟨c, r, hc, -, hclose⟩ := exists_print_eq_cons v
    rw [List.cons_append, Reader.value, List.append_assoc, skip_print]
    split
    case h_1 hcons => simp_all
    case h_2 => rw [hread]; rfl
  | .object ((name, v) :: rest) =>
    rw [print] at hf ⊢
    have hread := ih.members name v rest hv (Nat.le_of_succ_le_succ hf) s
    obtain ⟨body, hname⟩ := exists_printText_eq_cons name
    rw [hname] at hread ⊢
    simp only [List.cons_append, List.append_assoc] at hread ⊢
    rw [Reader.value, skip_cons rfl]
    simp [hread]

theorem items_succ (v : Json) (rest : List Json) (hv : isSoundItems (v :: rest) = true)
    (hf : (v.print ++ printItems rest).length ≤ fuel + 1) (s : List Char) :
    Reader.items (fuel + 1) (v.print ++ (printItems rest ++ s)) = some (v :: rest, s) := by
  have hpos := length_print_pos v
  rw [List.length_append] at hf
  rw [isSoundItems, Bool.and_eq_true] at hv
  cases rest with
  | nil =>
    rw [printItems] at hf ⊢
    have hread := ih.value v hv.1 (Nat.le_of_succ_le_succ hf) _ (endsNumber_printItems [] s)
    rw [printItems] at hread
    rw [Reader.items, hread]
    simp [skip, isSpace]
  | cons w rest =>
    rw [printItems, List.length_cons] at hf
    have hread := ih.value v hv.1 (by omega) _ (endsNumber_printItems (w :: rest) s)
    have hrest := ih.items w rest hv.2 (by omega) s
    rw [printItems, List.cons_append, List.append_assoc] at hread ⊢
    rw [Reader.items, hread]
    simp only [skip_cons (c := ',') rfl, skip_print, hrest, Option.map_some]

theorem members_succ (name : Text) (v : Json) (rest : List (Text × Json))
    (hv : isSoundMembers ((name, v) :: rest) = true)
    (hf : (printText name ++ ':' :: (v.print ++ printMembers rest)).length ≤ fuel + 1)
    (s : List Char) :
    Reader.members (fuel + 1) (printText name ++ ':' :: (v.print ++ (printMembers rest ++ s))) =
      some ((name, v) :: rest, s) := by
  rw [isSoundMembers, Bool.and_eq_true, Bool.and_eq_true] at hv
  rw [List.length_append, List.length_cons, List.length_append] at hf
  obtain ⟨body, hname, htext⟩ := text_printText hv.1.1 (':' :: (v.print ++ (printMembers rest ++ s)))
  rw [hname, List.length_cons] at hf
  have hread := ih.value v hv.1.2 (by omega) _ (endsNumber_printMembers rest s)
  rw [hname, List.cons_append, Reader.members, htext]
  simp only [skip_cons (c := ':') rfl, skip_print, hread]
  match rest with
  | [] => simp [printMembers, skip, isSpace]
  | (name', w) :: rest =>
    rw [printMembers, List.length_cons] at hf
    have hrest := ih.members name' w rest hv.2 (by omega) s
    obtain ⟨body', hname'⟩ := exists_printText_eq_cons name'
    simp only [printMembers, List.cons_append, List.append_assoc, skip_cons (c := ',') rfl]
    rw [hname', List.cons_append] at hrest ⊢
    rw [skip_cons rfl, hrest]
    rfl

end ReadsBack

theorem readsBack : ∀ fuel, ReadsBack fuel
  | 0 => by
    constructor
    · intro v _ hf
      exact absurd hf (Nat.not_le.mpr (length_print_pos v))
    · intro v rest _ hf
      have hpos := length_print_pos v
      rw [List.length_append] at hf
      omega
    · intro name v rest _ hf
      simp at hf
  | fuel + 1 =>
    have ih := readsBack fuel
    ⟨ih.value_succ, ih.items_succ, ih.members_succ⟩

/-- **Reading undoes writing.** -/
theorem parse_print {v : Json} (hv : v.isSound = true) : parse v.print = some v := by
  have hread := (readsBack (2 * v.print.length + 2)).value v hv (by omega) [] (by simp [EndsNumber])
  have hskip := skip_print v []
  rw [List.append_nil] at hread hskip
  rw [parse, hskip, hread]
  rfl

theorem decode?_render {α : Type} (read : Json → Option α) {v : Json} (hv : v.isSound = true) :
    decode? read v.render = read v := by
  rw [decode?, render, String.toList_ofList, parse_print hv]
  rfl

end Provision.Json
