import Mathlib.Data.Int.Notation
import Mathlib.Tactic.Common
import Provision.Time.Date

/-!
# Days and dates

`Date.toDay_ofDay`: a day is the day of its date, so every day has a date that the calendar knows.
The proof follows the three steps of the conversion, the year within its cycle of 400, the day within
the year, and the month within the year.
-/

namespace Provision.Date

/-- The year within its cycle, from the day within the cycle. -/
def yearOfCycle (doe : ℤ) : ℤ :=
  (doe - doe / 1460 + doe / 36524 - doe / 146096) / 365

/-- The day within its year, from the day within the cycle. -/
def dayOfYear (doe : ℤ) : ℤ :=
  doe - (365 * yearOfCycle doe + yearOfCycle doe / 4 - yearOfCycle doe / 100)

/-- The month within the year, counted from March, from the day within the year. -/
def monthOfYear (doy : ℤ) : ℤ :=
  (5 * doy + 2) / 153

/-- The date with a cycle, a year within it, a month counted from March and a day of the month. -/
def ofParts (era yoe mp day : ℤ) : Date :=
  let month := (if mp < 10 then mp + 3 else mp - 9).toNat
  ⟨yoe + era * 400 + (if month ≤ 2 then 1 else 0), month, day.toNat⟩

theorem ofDay_eq (n : ℤ) : ofDay n =
    let doy := dayOfYear ((n + epoch) % cycle)
    ofParts ((n + epoch) / cycle) (yearOfCycle ((n + epoch) % cycle)) (monthOfYear doy)
      (doy - (153 * monthOfYear doy + 2) / 5 + 1) :=
  rfl

theorem yearOfCycle_bounds {doe : ℤ} (h0 : 0 ≤ doe) (h1 : doe < 146097) :
    0 ≤ yearOfCycle doe ∧ yearOfCycle doe < 400 ∧ 0 ≤ dayOfYear doe ∧ dayOfYear doe ≤ 365 := by
  unfold dayOfYear
  have hy : yearOfCycle doe = (doe - doe / 1460 + doe / 36524 - doe / 146096) / 365 := rfl
  by_cases hlast : doe = 146096
  · subst hlast
    decide
  · -- but for the last day, centuries of days and centuries of years begin together
    have hlate : doe / 146096 = 0 := by omega
    have hcentury : yearOfCycle doe / 100 = doe / 36524 := by
      have hd : doe / 36524 = 0 ∨ doe / 36524 = 1 ∨ doe / 36524 = 2 ∨ doe / 36524 = 3 := by omega
      rcases hd with hd | hd | hd | hd <;> rw [hd, hlate] at hy <;> omega
    have hleap : yearOfCycle doe / 4 ≤ doe / 1460 ∧ doe / 1460 ≤ yearOfCycle doe / 4 + 1 := by
      omega
    omega

theorem monthOfYear_bounds {doy : ℤ} (h0 : 0 ≤ doy) (h1 : doy ≤ 365) :
    0 ≤ monthOfYear doy ∧ monthOfYear doy < 12 ∧
      1 ≤ doy - (153 * monthOfYear doy + 2) / 5 + 1 ∧
      doy - (153 * monthOfYear doy + 2) / 5 + 1 ≤ 31 := by
  unfold monthOfYear
  omega

theorem toDay_ofParts (era : ℤ) {yoe mp day : ℤ} (hy : 0 ≤ yoe ∧ yoe < 400)
    (hm : 0 ≤ mp ∧ mp < 12) (hd : 1 ≤ day) :
    (ofParts era yoe mp day).toDay =
      era * cycle + (yoe * 365 + yoe / 4 - yoe / 100 + ((153 * mp + 2) / 5 + day - 1)) - epoch := by
  by_cases hmp : mp < 10
  · have hmonth : ¬ (mp + 3).toNat ≤ 2 := by omega
    have hyear : (yoe + era * 400) / 400 = era ∧ (yoe + era * 400) % 400 = yoe := by omega
    simp only [toDay, ofParts, hmp, hmonth, if_true, if_false, Int.add_zero, Int.sub_zero, hyear]
    rw [if_pos (by omega)]
    omega
  · have hmonth : (mp - 9).toNat ≤ 2 := by omega
    have hyear : (yoe + era * 400) / 400 = era ∧ (yoe + era * 400) % 400 = yoe := by omega
    simp only [toDay, ofParts, hmp, hmonth, if_true, if_false, Int.add_sub_cancel, hyear]
    rw [if_neg (by omega)]
    omega

/-- **A day is the day of its date.** -/
theorem toDay_ofDay (n : ℤ) : (ofDay n).toDay = n := by
  have hsplit := Int.ediv_mul_add_emod (n + epoch) cycle
  obtain ⟨hy0, hy1, hd0, hd1⟩ := yearOfCycle_bounds
    (Int.emod_nonneg (n + epoch) (show cycle ≠ 0 by decide))
    (Int.emod_lt_of_pos (n + epoch) (show 0 < cycle by decide))
  obtain ⟨hm0, hm1, hday, -⟩ := monthOfYear_bounds hd0 hd1
  rw [ofDay_eq, toDay_ofParts _ ⟨hy0, hy1⟩ ⟨hm0, hm1⟩ hday]
  simp only [dayOfYear] at *
  omega

theorem ofDay_bounds (n : ℤ) :
    (1 ≤ (ofDay n).month ∧ (ofDay n).month ≤ 12) ∧ (1 ≤ (ofDay n).day ∧ (ofDay n).day ≤ 31) := by
  obtain ⟨-, -, hd0, hd1⟩ := yearOfCycle_bounds
    (Int.emod_nonneg (n + epoch) (show cycle ≠ 0 by decide))
    (Int.emod_lt_of_pos (n + epoch) (show 0 < cycle by decide))
  obtain ⟨hm0, hm1, hday⟩ := monthOfYear_bounds hd0 hd1
  simp only [ofDay_eq, ofParts]
  split <;> omega

theorem exists?_ofDay (n : ℤ) : (ofDay n).exists? = true := by
  have hbounds := (ofDay_bounds n).1
  simp [exists?, hbounds, toDay_ofDay]

end Provision.Date
