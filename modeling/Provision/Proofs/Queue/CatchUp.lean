import Mathlib.Data.List.Perm.Subperm
import Provision.Proofs.Queue.Refresh

/-!
# Catching up with events

* `Queue.catchUp`: the runs that a queue tracks after it heard a backlog of events.
* `Queue.catchUp_eq`: a queue that tracks other runs comes to the same end, if it lacks none that the
  backlog does not tell of. `Queue.catchUp_self`: a queue that tracks what it will come to stays as it is.
-/

namespace Provision.Queue

variable {v id : String} {e : Event} {S T U : List String} {backlog : List Event}

/-- The runs that the queue of a workspace tracks after it heard a backlog of events. -/
def catchUp (v : String) (tracked : List String) (backlog : List Event) : List String :=
  backlog.foldl (hear v) tracked

theorem catchUp_cons (v : String) (T : List String) (e : Event) (backlog : List Event) :
    catchUp v T (e :: backlog) = catchUp v (hear v T e) backlog := rfl

theorem catchUp_append (v : String) (T : List String) (backlog news : List Event) :
    catchUp v T (backlog ++ news) = catchUp v (catchUp v T backlog) news :=
  List.foldl_append

theorem hear_of_not_concerns (h : ¬ e.Concerns v) (T : List String) : hear v T e = T := by
  unfold hear
  split
  · next x hx =>
    rw [Event.Concerns, hx] at h
    exact if_neg h
  · rfl

/-- What an event tells the queue of a workspace. -/
inductive Telling (v : String) (e : Event) : Prop
  /-- Nothing that matters. -/
  | nothing : (∀ T, hear v T e = T) → Telling v e
  | done (x : Run) : e.payload = .run x → x.isDone = true → (∀ T, hear v T e = T.erase x.id) →
      Telling v e
  /-- A run is not done. -/
  | undone (id : String) : (∀ T, hear v T e = if id ∈ T then T else T ++ [id]) → Telling v e

theorem telling (v : String) (e : Event) : Telling v e := by
  by_cases hc : e.Concerns v
  swap
  · exact .nothing (hear_of_not_concerns hc)
  rcases hp : e.payload with org | ws | x | c | ⟨relation, name⟩
  case run =>
    rw [Event.Concerns, hp] at hc
    have hh : ∀ T, hear v T e = tell T x := fun T => by
      rw [hear, hp]
      exact if_pos hc
    by_cases hs : x.speculative = true
    · exact .nothing fun T => by rw [hh, tell, if_pos hs]
    have hns : x.speculative = false := by simpa using hs
    by_cases hd : x.isDone = true
    · exact .done x hp hd fun T => by rw [hh, tell_of_not_speculative hns, if_pos hd]
    · exact .undone x.id fun T => by rw [hh, tell_of_not_speculative hns, if_neg hd]
  all_goals exact .nothing fun T => by rw [hear, hp]

theorem nodup_hear (h : T.Nodup) : (hear v T e).Nodup := by
  rcases telling v e with hT | ⟨x, -, -, hT⟩ | ⟨id, hT⟩
  · rw [hT]
    exact h
  · rw [hT]
    exact h.erase _
  · rw [hT]
    split_ifs with hm
    · exact h
    · exact List.nodup_append.mpr ⟨h, List.nodup_singleton _, fun a ha b hb hab =>
        hm (List.mem_singleton.mp hb ▸ hab ▸ ha)⟩

theorem nodup_catchUp (h : T.Nodup) : (catchUp v T backlog).Nodup := by
  induction backlog generalizing T with
  | nil => exact h
  | cons e backlog ih => exact ih (nodup_hear h)

/-- What is tracked by one queue and not by another stays so only if the backlog does not tell of it. -/
theorem mem_catchUp_of_imp (hS : S.Nodup) (h : id ∈ S → id ∈ T) :
    id ∈ catchUp v S backlog → id ∈ catchUp v T backlog := by
  induction backlog generalizing S T with
  | nil => exact h
  | cons e backlog ih =>
    rw [catchUp_cons, catchUp_cons]
    refine ih (nodup_hear hS) ?_
    rcases telling v e with hT | ⟨x, -, -, hT⟩ | ⟨y, hT⟩
    · rw [hT, hT]
      exact h
    · rw [hT, hT, hS.mem_erase_iff]
      exact fun ⟨hne, hm⟩ => (List.mem_erase_of_ne hne).mpr (h hm)
    · rw [hT, hT]
      intro hm
      by_cases hy : id = y
      · subst hy
        split_ifs with hiT
        · exact hiT
        · exact List.mem_append_right _ (List.mem_singleton_self _)
      · have hm : id ∈ S := by
          split_ifs at hm
          · exact hm
          · simpa [hy] using hm
        split_ifs
        · exact h hm
        · exact List.mem_append_left _ (h hm)

section Lasting

variable {p : String → Bool} (hp : ∀ e ∈ backlog, ∀ x : Run, e.payload = .run x → x.isDone = true →
  p x.id = false)

theorem filter_erase_of_neg (h : p id = false) (T : List String) :
    (T.erase id).filter p = T.filter p := by
  rw [← List.erase_filter]
  exact List.erase_of_not_mem fun hm => by simp [h] at hm

include hp

theorem filter_catchUp_congr (h : S.filter p = T.filter p) :
    (catchUp v S backlog).filter p = (catchUp v T backlog).filter p := by
  induction backlog generalizing S T with
  | nil => exact h
  | cons e backlog ih =>
    refine ih (fun e he => hp e (List.mem_cons_of_mem _ he)) ?_
    rcases telling v e with hT | ⟨x, hx, hd, hT⟩ | ⟨y, hT⟩
    · rw [hT, hT, h]
    · have hpx := hp e List.mem_cons_self x hx hd
      rw [hT, hT, filter_erase_of_neg hpx, filter_erase_of_neg hpx, h]
    · rw [hT, hT]
      by_cases hy : p y = true
      · have hST : y ∈ S ↔ y ∈ T := by
          have hm : ∀ L : List String, y ∈ L ↔ y ∈ L.filter p := fun L => by simp [hy]
          rw [hm S, hm T, h]
        by_cases hyS : y ∈ S
        · rw [if_pos hyS, if_pos (hST.mp hyS), h]
        · rw [if_neg hyS, if_neg (mt hST.mpr hyS), List.filter_append, List.filter_append, h]
      · have happ : ∀ L : List String, (if y ∈ L then L else L ++ [y]).filter p = L.filter p := by
          intro L
          split_ifs
          · rfl
          · rw [List.filter_append, List.filter_cons_of_neg hy, List.filter_nil, List.append_nil]
        rw [happ, happ, h]

theorem filter_prefix_catchUp : T.filter p <+: (catchUp v T backlog).filter p := by
  induction backlog generalizing T with
  | nil => exact List.prefix_rfl
  | cons e backlog ih =>
    refine List.IsPrefix.trans ?_ (ih fun e he => hp e (List.mem_cons_of_mem _ he))
    rcases telling v e with hT | ⟨x, hx, hd, hT⟩ | ⟨y, hT⟩
    · have hf : (hear v T e).filter p = T.filter p := by rw [hT]
      exact hf ▸ List.prefix_rfl
    · have hf : (hear v T e).filter p = T.filter p := by
        rw [hT, filter_erase_of_neg (hp e List.mem_cons_self x hx hd)]
      exact hf ▸ List.prefix_rfl
    · rw [hT]
      split_ifs
      · exact List.prefix_rfl
      · rw [List.filter_append]
        exact List.prefix_append _ _

end Lasting

section Same

variable (hU : catchUp v T backlog = U)
  (hd : ∀ e ∈ backlog, ∀ x : Run, e.payload = .run x → x.isDone = true → x.id ∉ U)

theorem filter_mem_eq_self (h : ∀ id ∈ S, id ∈ U) : S.filter (· ∈ U) = S :=
  List.filter_eq_self.mpr fun id hid => by simpa using h id hid

include hU

theorem mem_of_mem_catchUp (hS : S.Nodup) (hST : ∀ id ∈ S, id ∈ T ∨ id ∈ U) :
    ∀ id ∈ catchUp v S backlog, id ∈ U := by
  intro id hid
  by_contra hn
  have hT : id ∈ catchUp v T backlog :=
    mem_catchUp_of_imp hS (fun hm => (hST id hm).resolve_right hn) hid
  exact hn (hU ▸ hT)

include hd

/-- **Whoever has heard less of what has ended comes to the same end.** -/
theorem catchUp_eq (hS : S.Nodup) (hST : ∀ id ∈ S, id ∈ T ∨ id ∈ U)
    (h : S.filter (· ∈ U) = T.filter (· ∈ U)) : catchUp v S backlog = U := by
  have hf : (catchUp v S backlog).filter (· ∈ U) = (catchUp v T backlog).filter (· ∈ U) :=
    filter_catchUp_congr (fun e he x hx hdx => by simpa using hd e he x hx hdx) h
  rwa [hU, filter_mem_eq_self fun _ h => h,
    filter_mem_eq_self (mem_of_mem_catchUp hU hS hST)] at hf

theorem filter_prefix : T.filter (· ∈ U) <+: U := by
  have hpre : T.filter (· ∈ U) <+: (catchUp v T backlog).filter (· ∈ U) :=
    filter_prefix_catchUp fun e he x hx hdx => by simpa using hd e he x hx hdx
  rwa [hU, filter_mem_eq_self (S := U) fun _ h => h] at hpre

/-- **A queue that tracks what it will come to stays as it is.** -/
theorem catchUp_self (hn : U.Nodup) : catchUp v U backlog = U := by
  have hsub := mem_of_mem_catchUp hU hn fun _ h => .inr h
  have hpre : U.filter (· ∈ U) <+: (catchUp v U backlog).filter (· ∈ U) :=
    filter_prefix_catchUp fun e he x hx hdx => by simpa using hd e he x hx hdx
  rw [filter_mem_eq_self (S := U) fun _ h => h, filter_mem_eq_self hsub] at hpre
  exact (hpre.eq_of_length_le (List.subperm_of_subset (nodup_catchUp hn) hsub).length_le).symm

end Same

end Provision.Queue
