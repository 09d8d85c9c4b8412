import Provision.Proofs.Text.Digits
import Provision.Proofs.Text.Ends
import Provision.Proofs.Time.Calendar
import Provision.Time.Rfc3339

/-!
# Reading back times

* `read?_write`: the text of a time is read as this time, to the nanosecond and with its leap second.
* `isUtc_of_read?`: whatever is read is such a time, in whichever form and zone it was given.
-/

namespace Provision

/-- Whether times are kept for an instant: its year has a date, and only the last second of a minute
may be followed by a leap second. -/
structure Instant.IsUtc (t : Instant) : Prop where
  year : Rfc3339.hasYear (Date.ofDay (t.second / 86400)).year = true
  nano : t.nano < 1000000000 ∨ t.second % 60 = 59 ∧ t.nano < 2000000000

namespace Rfc3339

open Provision.Text

/-! ## Parts -/

theorem digitsUpTo_append {width : ℕ} {ds s : List Char} (hds : ∀ c ∈ ds, c.isDigit = true)
    (hne : ds ≠ []) (hle : ds.length ≤ width)
    (hs : ds.length = width ∨ ∀ c, s.head? = some c → c.isDigit = false) :
    digitsUpTo width (ds ++ s) = (digitsFrom 0 ds).map fun n => (n, ds.length, s) := by
  have hall : ∀ c ∈ ds, (digit? c).isSome = true := fun c hc => by rw [isSome_digit?, hds c hc]
  have hspan : ((ds ++ s).take width).takeWhile (fun c => (digit? c).isSome) = ds := by
    rw [List.take_append, List.take_of_length_le hle, List.takeWhile_append_of_pos hall]
    rcases hs with hfull | hs
    · simp [hfull]
    · cases h : s.take (width - ds.length) with
      | nil => simp
      | cons c rest =>
        have hhead : s.head? = some c := by
          cases s with
          | nil => simp at h
          | cons d s => cases hw : width - ds.length <;> simp_all
        simp [isSome_digit?, hs c hhead]
  simp [digitsUpTo, hspan, hne]

theorem digitsUpTo_padded {width bound n : ℕ} {s : List Char} (hle : (padded width n).length ≤ bound)
    (hs : (padded width n).length = bound ∨ ∀ c, s.head? = some c → c.isDigit = false) :
    digitsUpTo bound (padded width n ++ s) = some (n, (padded width n).length, s) := by
  rw [digitsUpTo_append (fun _ => isDigit_of_mem_padded) (padded_ne_nil width n) hle hs,
    digitsFrom_padded, Option.map_some]

theorem isDigit_of_head?_padded {width n : ℕ} {s : List Char} {c : Char}
    (h : (padded width n ++ s).head? = some c) : c.isDigit = true := by
  rw [List.head?_append_of_ne_nil _ (padded_ne_nil width n)] at h
  exact isDigit_of_mem_padded (List.mem_of_mem_head? h)

theorem trimStart_padded (width n : ℕ) (s : List Char) :
    trimStart (padded width n ++ s) = padded width n ++ s := by
  cases h : padded width n ++ s with
  | nil => rfl
  | cons c rest =>
    exact trimStart_cons (isBlank_of_isDigit (isDigit_of_head?_padded (by rw [h, List.head?_cons]))) rest

theorem part_padded {n : ℕ} (h : n < 100) (s : List Char) : part (padded 2 n ++ s) = some (n, s) := by
  have hlen : (padded 2 n).length = 2 := length_padded (by decide) h
  rw [part, trimStart_padded, digitsUpTo_padded hlen.le (.inl hlen), Option.map_some]

theorem mark_cons {c : Char} (h : isBlank c = false) (s : List Char) : mark c (c :: s) = some s := by
  simp [mark, trimStart_cons h]

/-! ## Years and fractions -/

theorem year_writeYear (y : ℤ) (s : List Char) :
    year (writeYear y ++ '-' :: s) = some (y, '-' :: s) := by
  have hend : ∀ c, ('-' :: s).head? = some c → c.isDigit = false := fun c hc => by cases hc; rfl
  unfold writeYear
  split_ifs with hshort hneg
  · have hlen : (padded 4 y.toNat).length = 4 := length_padded (by decide) (by omega)
    have hdigits : digitsUpTo 4 (padded 4 y.toNat ++ '-' :: s) = some (y.toNat, 4, '-' :: s) := by
      rw [digitsUpTo_padded hlen.le (.inl hlen), hlen]
    rw [year, trimStart_padded]
    split
    case h_1 hminus => cases isDigit_of_head?_padded (by rw [hminus, List.head?_cons])
    case h_2 hplus => cases isDigit_of_head?_padded (by rw [hplus, List.head?_cons])
    case h_3 => simp [hdigits, hshort.1]
  all_goals
    have hread : digitsUpTo (padded 4 y.natAbs ++ '-' :: s).length (padded 4 y.natAbs ++ '-' :: s) = _ :=
      digitsUpTo_padded (by simp) (.inr hend)
    rw [year, List.cons_append, trimStart_cons (by decide)]
    simp only [hread, Option.map_some, Option.some.injEq, Prod.mk.injEq, and_true]
    omega

theorem fraction_writeFraction {nano : ℕ} (h : nano < 1000000000) :
    fraction (writeFraction nano ++ ['Z']) = some (nano, ['Z']) := by
  have hgroup (width n : ℕ) (hw : 0 < width ∧ width ≤ 9) (hn : n < 10 ^ width)
      (hnano : n * 10 ^ (9 - width) = nano) :
      fraction ('.' :: padded width n ++ ['Z']) = some (nano, ['Z']) := by
    have hlen := length_padded hw.1 hn
    have hread := digitsUpTo_padded (s := ['Z']) (hlen.le.trans hw.2)
      (.inr fun c hc => by cases hc; rfl)
    rw [List.cons_append, fraction, hread, hlen]
    simp [hnano, digit?]
  unfold writeFraction
  split_ifs with hzero hmilli hmicro
  · simp [fraction, hzero]
  · exact hgroup 3 _ (by decide) (by omega) (by omega)
  · exact hgroup 6 _ (by decide) (by omega) (by omega)
  · exact hgroup 9 _ (by decide) h (by omega)

/-! ## Whole times -/

theorem bind_of_eq_some {α β : Type} {x : Option α} {a : α} (h : x = some a) (f : α → Option β) :
    x >>= f = f a := by
  rw [h]
  rfl

theorem read?_parts (y : ℤ) {month day hour minute second nano : ℕ} (hmonth : month < 100)
    (hday : day < 100) (hhour : hour < 100) (hminute : minute < 100) (hsecond : second < 100)
    (hnano : nano < 1000000000) :
    read? (writeYear y ++ '-' :: padded 2 month ++ '-' :: padded 2 day ++ 'T' :: padded 2 hour ++
        ':' :: padded 2 minute ++ ':' :: padded 2 second ++ writeFraction nano ++ ['Z']) =
      instant? ⟨y, month, day⟩ hour minute second nano 0 := by
  have hdash : isBlank '-' = false := by decide
  have hcolon : isBlank ':' = false := by decide
  have htee (s : List Char) : separator ('T' :: s) = some s := by simp [separator]
  have hplace : offset (trimStart ['Z']) = some (0, []) := by decide
  simp only [List.append_assoc, List.cons_append]
  refine (bind_of_eq_some (year_writeYear y _) _).trans ?_
  refine (bind_of_eq_some (mark_cons hdash _) _).trans ?_
  refine (bind_of_eq_some (part_padded hmonth _) _).trans ?_
  refine (bind_of_eq_some (mark_cons hdash _) _).trans ?_
  refine (bind_of_eq_some (part_padded hday _) _).trans ?_
  refine (bind_of_eq_some (htee _) _).trans ?_
  refine (bind_of_eq_some (part_padded hhour _) _).trans ?_
  refine (bind_of_eq_some (mark_cons hcolon _) _).trans ?_
  refine (bind_of_eq_some (part_padded hminute _) _).trans ?_
  refine (bind_of_eq_some (mark_cons hcolon _) _).trans ?_
  refine (bind_of_eq_some (part_padded hsecond _) _).trans ?_
  refine (bind_of_eq_some (fraction_writeFraction hnano) _).trans ?_
  exact (bind_of_eq_some hplace _).trans rfl

theorem instant?_ofDay {t : Instant} (ht : t.IsUtc) {hour minute second nano : ℕ}
    (hhour : hour < 24) (hminute : minute < 60)
    (hclock : t.second % 86400 = hour * 3600 + minute * 60 + min second 59)
    (hnano : second < 60 ∧ nano = t.nano ∨ second = 60 ∧ nano + 1000000000 = t.nano) :
    instant? (Date.ofDay (t.second / 86400)) hour minute second nano 0 = some t := by
  have hsecond : second ≤ 60 := by omega
  have htime : (Date.ofDay (t.second / 86400)).toDay * 86400 +
      (hour * 3600 + minute * 60 + min second 59) - 0 = t.second := by
    rw [Date.toDay_ofDay]
    omega
  have hfraction : (if second = 60 then nano + 1000000000 else nano) = t.nano := by
    split_ifs <;> omega
  simp only [instant?, Date.exists?_ofDay, ht.year, hhour, hminute, hsecond, htime, hfraction]
  rfl

/-- **Reading undoes writing.** -/
theorem read?_write {t : Instant} (ht : t.IsUtc) : read? (write t) = some t := by
  have hbounds := Date.ofDay_bounds (t.second / 86400)
  have hnano := ht.nano
  by_cases hleap : 1000000000 ≤ t.nano
  · simp only [write, decide_eq_true hleap, if_true]
    rw [read?_parts _ (by omega) (by omega) (by omega) (by omega) (by omega) (by omega)]
    exact instant?_ofDay ht (by omega) (by omega) (by omega) (by omega)
  · simp only [write, decide_eq_false hleap, Bool.false_eq_true, if_false]
    rw [read?_parts _ (by omega) (by omega) (by omega) (by omega) (by omega) (by omega)]
    exact instant?_ofDay ht (by omega) (by omega) (by omega) (by omega)

/-! ## What can be read -/

theorem digitsFrom_lt {acc n : ℕ} {ds : List Char} (h : digitsFrom acc ds = some n) :
    n < (acc + 1) * 10 ^ ds.length := by
  induction ds generalizing acc with
  | nil =>
    cases h
    simp
  | cons c rest ih =>
    obtain ⟨d, hd, hrest⟩ := Option.bind_eq_some_iff.mp h
    have hdigit : d < 10 := by
      unfold digit? at hd
      split_ifs at hd with hc
      have hle : c.toNat ≤ 57 := hc.2
      cases hd
      omega
    calc n < (acc * 10 + d + 1) * 10 ^ rest.length := ih hrest
      _ ≤ ((acc + 1) * 10) * 10 ^ rest.length := Nat.mul_le_mul_right _ (by omega)
      _ = (acc + 1) * 10 ^ (rest.length + 1) := by rw [Nat.pow_succ']; ac_rfl

theorem digitsUpTo_bounds {width n len : ℕ} {s r : List Char}
    (h : digitsUpTo width s = some (n, len, r)) : n < 10 ^ len ∧ len ≤ width := by
  simp only [digitsUpTo, Option.ite_none_left_eq_some] at h
  obtain ⟨m, hm, heq⟩ := Option.map_eq_some_iff.mp h.2
  cases heq
  refine ⟨by simpa using digitsFrom_lt hm, ?_⟩
  exact (List.takeWhile_sublist _).length_le.trans (List.length_take_le width s)

theorem fraction_lt {s r : List Char} {nano : ℕ} (h : fraction s = some (nano, r)) :
    nano < 1000000000 := by
  unfold fraction at h
  split at h
  case h_1 rest =>
    obtain ⟨⟨n, len, t⟩, hread, hnano⟩ := Option.map_eq_some_iff.mp h
    cases hnano
    obtain ⟨hn, hlen⟩ := digitsUpTo_bounds hread
    calc n * 10 ^ (9 - len) < 10 ^ len * 10 ^ (9 - len) :=
          Nat.mul_lt_mul_of_pos_right hn (Nat.pow_pos (by decide))
      _ = 10 ^ 9 := by rw [← Nat.pow_add, Nat.add_sub_cancel' hlen]
  case h_2 =>
    cases h
    decide

theorem offsetSeconds_emod {s r : List Char} {o : ℤ} (h : offsetSeconds s = some (o, r)) :
    o % 60 = 0 := by
  unfold offsetSeconds at h
  split at h
  · cases h
  · split at h
    · cases h
    · split_ifs at h
      cases h
      omega

theorem offset_emod {s r : List Char} {o : ℤ} (h : offset s = some (o, r)) : o % 60 = 0 := by
  have hsigned {s : List Char} (h : offset.signed s = some (o, r)) : o % 60 = 0 := by
    unfold offset.signed at h
    split at h
    case h_1 | h_2 => cases h; rfl
    case h_3 => exact offsetSeconds_emod h
    case h_4 | h_5 =>
      obtain ⟨⟨o', r'⟩, hread, heq⟩ := Option.map_eq_some_iff.mp h
      cases heq
      have := offsetSeconds_emod hread
      omega
    case h_6 => cases h
  unfold offset at h
  split at h
  · split_ifs at h
    · cases h
      rfl
    · exact hsigned h
  · exact hsigned h

theorem isUtc_of_instant? {date : Date} {hour minute second nano : ℕ} {o : ℤ} {t : Instant}
    (h : instant? date hour minute second nano o = some t) (hnano : nano < 1000000000)
    (ho : o % 60 = 0) : t.IsUtc := by
  simp only [instant?, Option.ite_none_right_eq_some, Option.some.injEq] at h
  obtain ⟨-, hyear, rfl⟩ := h
  refine ⟨hyear, ?_⟩
  dsimp only
  split_ifs with hleap
  · -- an offset has no seconds, so a second of 60 ends a minute of UTC too
    right
    omega
  · exact .inl hnano

theorem isUtc_of_read? {s : List Char} {t : Instant} (h : read? s = some t) : t.IsUtc := by
  -- year, month, day, hour, minute and second, with the marks between them
  iterate 11 obtain ⟨_, -, h⟩ := Option.bind_eq_some_iff.mp h
  obtain ⟨⟨nano, _⟩, hnano, h⟩ := Option.bind_eq_some_iff.mp h
  obtain ⟨⟨o, _⟩, ho, h⟩ := Option.bind_eq_some_iff.mp h
  exact isUtc_of_instant? (Option.ite_none_right_eq_some.mp h).2 (fraction_lt hnano) (offset_emod ho)

end Rfc3339

end Provision
