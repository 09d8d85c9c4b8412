import Mathlib.Algebra.Order.Group.Nat
import Mathlib.Tactic.Ring
import Provision.Backoff

/-!
# Delays in closed form

The span that doubles stops at `Backoff.longest`, and what is waited for is cut to the limit. Both cuts
together are the one at the limit, as long as the limit is a span itself.

* `Backoff.after_eq`: the state after any steps, by the number of attempts since the last success.
* **`Backoff.closed_form`**: the delays, with their jitter and without.
-/

namespace Provision.Backoff

variable {b : Backoff} {base limit : ℕ}

/-- What is done with a backoff. -/
inductive Step
  /-- Ask for a delay, where `chance` picks the jitter. -/
  | next (chance : ℕ)
  /-- Start over. -/
  | reset
  deriving DecidableEq

/-- The state after a step. -/
def step (b : Backoff) : Step → Backoff
  | .next chance => (b.next chance).2
  | .reset => b.reset

/-- The state after some steps. -/
def after (b : Backoff) (steps : List Step) : Backoff :=
  steps.foldl step b

/-- The number of delays since the last success, when there were `k` of them before. -/
def Step.count (k : ℕ) : Step → ℕ
  | .next _ => k + 1
  | .reset => 0

/-- The number of delays since the last success, or since the beginning. -/
def attempts (steps : List Step) : ℕ :=
  steps.foldl Step.count 0

/-- The longest span that 64 bits of microseconds tell. -/
def widest : ℕ :=
  (2 ^ 64 - 1) * 1000

/-- Nothing that a step computes leaves its range: no sum of spans exceeds the longest one, and the
whole milliseconds of a jitter fit into 64 bits. -/
structure IsInRange (b : Backoff) (chance : ℕ) : Prop where
  sum : (b.next chance).1 ≤ longest
  whole : b.delay / 10 / millisecond < 2 ^ 64
  doubled : (b.next chance).2.current ≤ longest

/-! ## What doubles -/

theorem widest_le_longest : widest ≤ longest := by
  decide

/-- A span that has been doubled `k` times, in a sequence that starts at `base`. -/
def doubled (base limit k : ℕ) : Backoff :=
  ⟨base, limit, min (base * 2 ^ k) longest⟩

theorem doubled_zero (h : base ≤ longest) : doubled base limit 0 = new base limit := by
  simp [doubled, new, h]

/-- The cut at the longest span makes no difference to what comes after it. -/
theorem step_doubled (h : base ≤ longest) (k : ℕ) (s : Step) :
    (doubled base limit k).step s = doubled base limit (s.count k) := by
  cases s with
  | next chance =>
    have htwice : base * 2 ^ (k + 1) = 2 * (base * 2 ^ k) := by ring
    have hcut : min (2 * min (base * 2 ^ k) longest) longest =
        min (base * 2 ^ (k + 1)) longest := by
      omega
    simp only [step, next, doubled, Step.count, hcut]
  | reset =>
    simp only [step, reset, Step.count, doubled_zero h]
    rfl

theorem after_doubled (h : base ≤ longest) (k : ℕ) (steps : List Step) :
    (doubled base limit k).after steps = doubled base limit (steps.foldl Step.count k) := by
  induction steps generalizing k with
  | nil => rfl
  | cons s steps ih =>
    rw [after, List.foldl_cons, List.foldl_cons, step_doubled h]
    exact ih (s.count k)

theorem after_eq (h : base ≤ longest) (steps : List Step) :
    (new base limit).after steps = doubled base limit (attempts steps) := by
  rw [← doubled_zero h, after_doubled h, attempts]

theorem delay_doubled (h : limit ≤ longest) (k : ℕ) :
    (doubled base limit k).delay = min (base * 2 ^ k) limit := by
  simp only [delay, doubled]
  omega

theorem le_count_foldl {steps : List Step} (h : .reset ∉ steps) (k : ℕ) :
    k ≤ steps.foldl Step.count k := by
  induction steps generalizing k with
  | nil => exact Nat.le_refl k
  | cons s steps ih =>
    obtain ⟨hs, hsteps⟩ := List.ne_and_not_mem_of_not_mem_cons h
    cases s with
    | next chance => exact Nat.le_of_succ_le (ih hsteps (k + 1))
    | reset => exact absurd rfl hs

/-! ## Jitter -/

theorem jitterRange_eq (h : b.delay ≤ widest) : b.jitterRange = b.delay / 10 / millisecond := by
  refine Nat.mod_eq_of_lt ?_
  simp only [widest] at h
  simp only [millisecond, show Nat.pow 2 64 = 2 ^ 64 from rfl]
  omega

/-- The jitter is a whole number of milliseconds below a tenth of the delay, and none if the tenth is
less than one. -/
theorem exists_next_eq (h : b.delay ≤ widest) (chance : ℕ) :
    ∃ j, (b.next chance).1 = b.delay + j * millisecond ∧
      (b.delay / 10 < millisecond → j = 0) ∧
      (millisecond ≤ b.delay / 10 → j < b.delay / 10 / millisecond) := by
  have hpos : 0 < millisecond := by decide
  rw [next, jitterRange_eq h]
  split_ifs with hr
  · refine ⟨0, by rw [Nat.zero_mul], fun _ => rfl, fun hm => ?_⟩
    exact absurd (Nat.div_pos hm hpos) (by omega)
  · refine ⟨chance % (b.delay / 10 / millisecond), rfl, fun hm => ?_, fun _ => ?_⟩
    · exact absurd (Nat.div_eq_of_lt hm) hr
    · exact Nat.mod_lt _ (Nat.pos_of_ne_zero hr)

/-- Every number below `r` is left by a number of 64 bits that begin with a one and a zero. -/
theorem exists_mod_eq {r j : ℕ} (hr : r ≤ 2 ^ 62) (hj : j < r) :
    ∃ chance, 2 ^ 63 ≤ chance ∧ chance < 2 ^ 63 + 2 ^ 62 ∧ chance % r = j := by
  have hx : (j + (r - 2 ^ 63 % r)) % r < r := Nat.mod_lt _ (by omega)
  refine ⟨2 ^ 63 + (j + (r - 2 ^ 63 % r)) % r, Nat.le_add_right _ _, by omega, ?_⟩
  have hsum : 2 ^ 63 + (j + (r - 2 ^ 63 % r)) = j + r * (2 ^ 63 / r + 1) := by
    have hdiv := Nat.div_add_mod (2 ^ 63) r
    have hmod : 2 ^ 63 % r < r := Nat.mod_lt _ (by omega)
    rw [Nat.mul_add, Nat.mul_one]
    omega
  rw [Nat.add_mod_mod, hsum, Nat.add_mul_mod_self_left, Nat.mod_eq_of_lt hj]

theorem exists_chance (h : b.delay ≤ widest) {j : ℕ} (hj : j < b.delay / 10 / millisecond) :
    ∃ chance, 2 ^ 63 ≤ chance ∧ chance < 2 ^ 63 + 2 ^ 62 ∧
      (b.next chance).1 = b.delay + j * millisecond := by
  have hr := jitterRange_eq h
  have hsmall : b.jitterRange ≤ 2 ^ 62 := by
    rw [hr]
    simp only [widest] at h
    simp only [millisecond]
    omega
  obtain ⟨chance, hlow, hhigh, hmod⟩ := exists_mod_eq hsmall (hr ▸ hj)
  exact ⟨chance, hlow, hhigh, by rw [next, if_neg (by omega), hmod]⟩

theorem isInRange (h : b.delay ≤ widest) (chance : ℕ) : b.IsInRange chance where
  sum := by
    obtain ⟨j, hj, hnone, hsome⟩ := exists_next_eq h chance
    rw [hj]
    simp only [widest, millisecond, longest, show Nat.pow 2 64 = 2 ^ 64 from rfl] at *
    omega
  whole := by
    simp only [widest] at h
    simp only [millisecond]
    omega
  doubled := Nat.min_le_right _ _

/-! ## Delays -/

/-- **Delays in closed form.** A delay that `k` others precede since the last success, or since the
beginning, is `base * 2 ^ k` cut to the limit, with a jitter on top: a whole number of milliseconds below
a tenth of it, and none if the tenth is less than a millisecond. Any of them comes up for some chance, be
it one of a random identifier, whose last 64 bits begin with a one and a zero. Nothing overflows however
many there are. So delays without jitter do not decrease until a success, and do not exceed the limit. -/
theorem closed_form (hb : base ≤ widest) (hl : limit ≤ widest) (steps : List Step) (chance : ℕ) :
    let b := (new base limit).after steps
    let m := min (base * 2 ^ attempts steps) limit
    (∃ j, (b.next chance).1 = m + j * millisecond ∧ (m / 10 < millisecond → j = 0) ∧
        (millisecond ≤ m / 10 → j < m / 10 / millisecond)) ∧
      (∀ j < m / 10 / millisecond, ∃ chance, 2 ^ 63 ≤ chance ∧ chance < 2 ^ 63 + 2 ^ 62 ∧
        (b.next chance).1 = m + j * millisecond) ∧
      b.IsInRange chance ∧
      b.delay = m ∧ b.delay ≤ limit ∧
      ∀ more, .reset ∉ more → b.delay ≤ (b.after more).delay := by
  intro b m
  have hb : base ≤ longest := hb.trans widest_le_longest
  have hlimit : limit ≤ longest := hl.trans widest_le_longest
  have hafter : b = doubled base limit (attempts steps) := after_eq hb steps
  have hdelay : b.delay = m := by rw [hafter, delay_doubled hlimit]
  have hm : m ≤ limit := Nat.min_le_right _ _
  have hwide : b.delay ≤ widest := hdelay ▸ hm.trans hl
  refine ⟨?_, ?_, isInRange hwide chance, hdelay, hdelay ▸ hm, fun more hmore => ?_⟩
  · rw [← hdelay]
    exact exists_next_eq hwide chance
  · rw [← hdelay]
    exact fun j hj => exists_chance hwide hj
  · have hgrows : base * 2 ^ attempts steps ≤ base * 2 ^ more.foldl Step.count (attempts steps) :=
      Nat.mul_le_mul_left _ (Nat.pow_le_pow_right (by decide) (le_count_foldl hmore _))
    rw [hafter, after_doubled hb, delay_doubled hlimit, delay_doubled hlimit]
    omega

/-- A success among the attempts, then so many attempts that the span that doubles is cut off. -/
theorem closed_form_saturated :
    let steps := .next 7 :: .reset :: List.replicate 25 (.next 0)
    let b := (new widest widest).after steps
    widest ≤ widest ∧ b.current = longest ∧ widest * 2 ^ attempts steps > longest ∧ b.delay = widest ∧
      (∃ j < 1844674407370955, (b.next (2 ^ 63)).1 = widest + j * millisecond) ∧
      (b.next (2 ^ 63)).1 ≤ longest := by
  intro steps b
  obtain ⟨⟨j, hj, -, hlt⟩, -, hrange, hdelay, -, -⟩ :=
    closed_form (Nat.le_refl widest) (Nat.le_refl widest) steps (2 ^ 63)
  have hm : min (widest * 2 ^ attempts steps) widest = widest := by decide +kernel
  rw [hm] at hj hlt hdelay
  exact ⟨Nat.le_refl widest, by decide +kernel, by decide +kernel, hdelay,
    ⟨j, hlt (by decide +kernel), hj⟩, hrange.sum⟩

end Provision.Backoff
