import Mathlib.Data.List.Basic
import Mathlib.Data.List.Nodup

/-!
# Records with identifiers

The workspaces of a store, and its runs, are lists in which every record has an identifier of its own.

* `Keyed.find?_eq_some_iff`: a record is found by its identifier if and only if it is there.
* `Keyed.replace` puts a record in the place of the one with its identifier.
-/

namespace Provision

namespace Keyed

variable {α : Type} (key : α → String)

/-- The list with a record in the place of the one with its identifier. -/
def replace (l : List α) (a : α) : List α :=
  l.map fun v => if key v = key a then a else v

variable {key} {l : List α} {a b : α}

theorem find?_eq_some_iff (hn : (l.map key).Nodup) {id : String} :
    l.find? (fun v => key v == id) = some a ↔ a ∈ l ∧ key a = id := by
  constructor
  · intro h
    exact ⟨List.mem_of_find?_eq_some h, by simpa using List.find?_some h⟩
  · rintro ⟨hm, rfl⟩
    induction l with
    | nil => cases hm
    | cons v l ih =>
      rw [List.map_cons, List.nodup_cons] at hn
      by_cases hv : key v = key a
      · rcases List.mem_cons.mp hm with rfl | hm
        · simp
        · exact absurd (hv ▸ List.mem_map_of_mem hm) hn.1
      · rw [List.find?_cons_of_neg (by simpa using hv)]
        exact ih hn.2 ((List.mem_cons.mp hm).resolve_left fun he => hv (he ▸ rfl))

theorem nodup_concat {β : Type} {f : α → β} (h : (l.map f).Nodup) (ha : ∀ v ∈ l, f v ≠ f a) :
    ((l ++ [a]).map f).Nodup := by
  rw [List.map_append]
  refine List.nodup_append.mpr ⟨h, List.nodup_singleton _, fun x hx y hy => ?_⟩
  obtain ⟨v, hv, rfl⟩ := List.mem_map.mp hx
  rw [List.mem_singleton.mp hy]
  exact ha v hv

theorem find?_eq_none_iff {id : String} :
    l.find? (fun v => key v == id) = none ↔ ∀ v ∈ l, key v ≠ id := by
  simp

theorem isSome_find?_iff {id : String} :
    (l.find? fun v => key v == id).isSome = true ↔ id ∈ l.map key := by
  simp

theorem eq_of_key (hn : (l.map key).Nodup) (ha : a ∈ l) (hb : b ∈ l) (h : key a = key b) : a = b := by
  have h₁ := (find?_eq_some_iff hn).mpr ⟨ha, h⟩
  rw [(find?_eq_some_iff hn).mpr ⟨hb, rfl⟩] at h₁
  exact (Option.some.inj h₁).symm

theorem filter_eq_filterMap (hn : (l.map key).Nodup) (p : α → Bool) :
    l.filter p = (l.map key).filterMap fun id => (l.find? fun v => key v == id).filter p := by
  rw [List.filterMap_map, ← List.filterMap_eq_filter]
  refine List.filterMap_congr fun v hv => ?_
  rw [Function.comp_apply, (find?_eq_some_iff hn).mpr ⟨hv, rfl⟩]
  rfl

theorem map_eq_filterMap (hn : (l.map key).Nodup) {β : Type} (f : α → β) :
    l.map f = (l.map key).filterMap fun id => (l.find? fun v => key v == id).map f := by
  rw [List.filterMap_map, ← List.filterMap_eq_map]
  refine List.filterMap_congr fun v hv => ?_
  rw [Function.comp_apply, Function.comp_apply, (find?_eq_some_iff hn).mpr ⟨hv, rfl⟩]
  rfl

/-- Two lists with the same identifiers are compared record by record. -/
theorem map_eq_of_find? {l' : List α} (hn : (l.map key).Nodup) (hk : l'.map key = l.map key) {β : Type}
    {f : α → β} (h : ∀ id, (l'.find? fun v => key v == id).map f =
      (l.find? fun v => key v == id).map f) : l'.map f = l.map f := by
  rw [map_eq_filterMap (hk ▸ hn), map_eq_filterMap hn, hk]
  exact List.filterMap_congr fun id _ => h id

theorem mem_replace : b ∈ replace key l a ↔
    (b = a ∧ ∃ v ∈ l, key v = key a) ∨ (b ∈ l ∧ key b ≠ key a) := by
  unfold replace
  rw [List.mem_map]
  constructor
  · rintro ⟨v, hv, rfl⟩
    by_cases hk : key v = key a
    · rw [if_pos hk]
      exact .inl ⟨rfl, v, hv, hk⟩
    · rw [if_neg hk]
      exact .inr ⟨hv, hk⟩
  · rintro (⟨rfl, v, hv, hk⟩ | ⟨hb, hk⟩)
    · exact ⟨v, hv, if_pos hk⟩
    · exact ⟨b, hb, if_neg hk⟩

theorem map_replace {β : Type} {f : α → β} (hf : ∀ v ∈ l, key v = key a → f v = f a) :
    (replace key l a).map f = l.map f := by
  unfold replace
  rw [List.map_map]
  refine List.map_congr_left fun v hv => ?_
  by_cases hk : key v = key a
  · simp [hk, hf v hv hk]
  · simp [hk]

theorem map_key_replace : (replace key l a).map key = l.map key :=
  map_replace fun _ _ h => h

theorem find?_replace_self (h : ∃ v ∈ l, key v = key a) :
    (replace key l a).find? (fun v => key v == key a) = some a := by
  unfold replace
  induction l with
  | nil => simp at h
  | cons v l ih =>
    by_cases hv : key v = key a
    · simp [hv]
    · rw [List.map_cons, if_neg hv, List.find?_cons_of_neg (by simpa using hv)]
      refine ih ?_
      obtain ⟨u, hu, hk⟩ := h
      rcases List.mem_cons.mp hu with rfl | hu
      · exact absurd hk hv
      · exact ⟨u, hu, hk⟩

theorem find?_replace_of_ne {id : String} (h : id ≠ key a) :
    (replace key l a).find? (fun v => key v == id) = l.find? fun v => key v == id := by
  unfold replace
  induction l with
  | nil => rfl
  | cons v l ih =>
    rw [List.map_cons, List.find?_cons, List.find?_cons, ih]
    by_cases hv : key v = key a
    · have hn : (key a == id) = false := by simpa using h.symm
      rw [if_pos hv, hv, hn]
    · rw [if_neg hv]

theorem filter_replace {p : α → Bool} (hp : ∀ v ∈ l, key v = key a → p v = p a) :
    (replace key l a).filter p = replace key (l.filter p) a := by
  unfold replace
  rw [List.filter_map]
  congr 1
  refine List.filter_congr fun v hv => ?_
  by_cases hk : key v = key a
  · simp [hk, hp v hv hk]
  · simp [hk]

theorem filter_replace_of_neg {p : α → Bool} (hp : p a = false) :
    (replace key l a).filter p = (l.filter p).filter fun v => key v != key a := by
  unfold replace
  induction l with
  | nil => rfl
  | cons v l ih =>
    rw [List.map_cons]
    by_cases hk : key v = key a
    · rw [if_pos hk, List.filter_cons_of_neg (by simp [hp]), ih]
      by_cases hv : p v = true
      · rw [List.filter_cons_of_pos hv, List.filter_cons_of_neg (by simp [hk])]
      · rw [List.filter_cons_of_neg hv]
    · rw [if_neg hk]
      by_cases hv : p v = true
      · rw [List.filter_cons_of_pos hv, List.filter_cons_of_pos hv,
          List.filter_cons_of_pos (by simp [hk]), ih]
      · rw [List.filter_cons_of_neg hv, List.filter_cons_of_neg hv, ih]

theorem replace_of_forall_ne (h : ∀ v ∈ l, key v ≠ key a) : replace key l a = l := by
  unfold replace
  conv_rhs => rw [← List.map_id l]
  exact List.map_congr_left fun v hv => if_neg (h v hv)

end Keyed

end Provision
