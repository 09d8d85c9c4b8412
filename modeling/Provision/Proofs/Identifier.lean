import Mathlib.Data.List.Basic
import Mathlib.Tactic.Ring
import Mathlib.Tactic.NormNum
import Provision.Identifier

/-!
# Identifiers do not repeat

* `Identifier.fresh_injective`: two numbers never make the same identifier of one kind.
-/

namespace Provision.Identifier

theorem hexDigit_inj : ∀ a b : Fin 16, Json.hexDigit a = Json.hexDigit b → a = b := by decide

theorem mod_eq_of_digit_eq {a b : ℕ} (places : ℕ)
    (h : ∀ place < places, a / 16 ^ place % 16 = b / 16 ^ place % 16) :
    a % 16 ^ places = b % 16 ^ places := by
  induction places with
  | zero => simp [Nat.mod_one]
  | succ places ih =>
    have hlow := ih fun place hp => h place (by omega)
    rw [Nat.mod_pow_succ, Nat.mod_pow_succ, hlow, h places (by omega)]

theorem lt_pow_places (number : ℕ) : number < 16 ^ max 32 (number.log2 / 4 + 1) := by
  have h₁ : number < 2 ^ (number.log2 + 1) := Nat.lt_log2_self
  have h₂ : number.log2 + 1 ≤ 4 * max 32 (number.log2 / 4 + 1) := by omega
  calc number < 2 ^ (number.log2 + 1) := h₁
    _ ≤ 2 ^ (4 * max 32 (number.log2 / 4 + 1)) := Nat.pow_le_pow_right (by norm_num) h₂
    _ = 16 ^ max 32 (number.log2 / 4 + 1) := by rw [pow_mul]; norm_num

theorem digits_injective : Function.Injective digits := by
  intro a b h
  have hl : max 32 (a.log2 / 4 + 1) = max 32 (b.log2 / 4 + 1) := by
    simpa [digits] using congrArg List.length h
  have ha := lt_pow_places a
  have hb := lt_pow_places b
  unfold digits at h
  rw [hl] at h ha
  have hd : ∀ place < max 32 (b.log2 / 4 + 1), a / 16 ^ place % 16 = b / 16 ^ place % 16 := by
    intro place hp
    have he := List.map_inj_left.mp h place (by simpa using hp)
    exact congrArg Fin.val (hexDigit_inj ⟨_, Nat.mod_lt _ (by norm_num)⟩
      ⟨_, Nat.mod_lt _ (by norm_num)⟩ he)
  have hm := mod_eq_of_digit_eq _ hd
  rwa [Nat.mod_eq_of_lt ha, Nat.mod_eq_of_lt hb] at hm

/-- **Identifiers do not repeat.** -/
theorem fresh_injective (stem : String) : Function.Injective (fresh stem) := by
  intro a b h
  have hl := congrArg String.toList h
  simp only [fresh, String.toList_append, String.toList_ofList, List.append_cancel_left_eq] at hl
  exact digits_injective hl

end Provision.Identifier
