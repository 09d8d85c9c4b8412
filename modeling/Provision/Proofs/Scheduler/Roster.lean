import Provision.Proofs.Keyed
import Provision.Scheduler

/-!
# Finding queues in a roster

Every change of a roster, by what it does to the queue of a workspace in an organization.

* `Roster.queue?_ensure`, `Roster.queue?_put`: a bucket or a queue is added.
* `Roster.queue?_filter`, `Roster.queue?_drop`, `Roster.queue?_keep`: queues are removed.
-/

namespace Provision

namespace Bucket

variable {b : Bucket} {u v : String} {q : Queue}

theorem queue?_put (b : Bucket) (v : String) (q : Queue) (u : String) :
    (b.put v q).queue? u = if u = v then some q else b.queue? u := by
  unfold put queue?
  split_ifs with ha hu hu
  · subst hu
    have hm : ∃ e ∈ b.queues, e.1 = u := by simpa using ha
    exact congrArg (Option.map Prod.snd) (Keyed.find?_replace_self (a := (u, q)) hm)
  · exact congrArg (Option.map Prod.snd) (Keyed.find?_replace_of_ne (a := (v, q)) hu)
  · subst hu
    have hn : b.queues.find? (fun e => e.1 == u) = none :=
      List.find?_eq_none.mpr fun e he hu => ha (List.any_eq_true.mpr ⟨e, he, hu⟩)
    simp [List.find?_append, hn]
  · have hvu : (v == u) = false := by simpa using fun h => hu h.symm
    simp [List.find?_append, hvu]

theorem queue?_filter (b : Bucket) (keep : String → Bool) (u : String) :
    ({ b with queues := b.queues.filter fun e => keep e.1 } : Bucket).queue? u =
      if keep u then b.queue? u else none := by
  unfold queue?
  induction b.queues with
  | nil => simp
  | cons e l ih =>
    by_cases hu : e.1 = u
    · subst hu
      by_cases hk : keep e.1 = true
      · simp [hk]
      · rw [if_neg hk] at ih
        rw [List.filter_cons_of_neg (by simpa using hk), if_neg hk, ih]
    · have heu : (e.1 == u) = false := by simpa using hu
      rw [List.find?_cons, heu, ← ih]
      by_cases hk : keep e.1 = true
      · simp [hk, heu]
      · rw [List.filter_cons_of_neg (by simpa using hk)]

end Bucket

namespace Roster

variable {r : Roster} {o p u v : String} {q : Queue} {f : Bucket → Bucket}

/-- The runs that the queue of a workspace tracks; none if there is no queue. -/
def tracked (r : Roster) (o v : String) : List String :=
  ((r.queue? o v).map Queue.tracked).getD []

theorem tracked_of_queue? (h : r.queue? o v = some q) : r.tracked o v = q.tracked := by
  rw [tracked, h]
  rfl

/-- Whether there is a bucket for an organization. -/
def Has (r : Roster) (o : String) : Prop :=
  ∃ b, r.find? (fun b => b.organization == o) = some b

theorem has_of_queue? (h : r.queue? o v = some q) : r.Has o := by
  obtain ⟨b, hb, -⟩ := Option.bind_eq_some_iff.mp h
  exact ⟨b, hb⟩

theorem has_ensure (r : Roster) (o : String) : (r.ensure o).Has o := by
  unfold ensure Has
  split_ifs with h
  · obtain ⟨b, hb⟩ := Option.isSome_iff_exists.mp (List.find?_isSome.mpr (List.any_eq_true.mp h))
    exact ⟨b, hb⟩
  · have hn : r.find? (fun b => b.organization == o) = none := by simpa using h
    exact ⟨⟨o, []⟩, by simp [List.find?_append, hn]⟩

theorem has_iff : r.Has o ↔ o ∈ r.map (·.organization) := by
  rw [Has, ← Option.isSome_iff_exists]
  simp

theorem has_ensure_iff : (r.ensure p).Has o ↔ r.Has o ∨ o = p := by
  rw [has_iff, has_iff]
  unfold ensure
  split_ifs with h
  · refine ⟨.inl, fun ho => ho.elim (fun ho => ho) fun ho => ?_⟩
    obtain ⟨b, hb, hp⟩ := List.any_eq_true.mp h
    exact List.mem_map.mpr ⟨b, hb, (beq_iff_eq.mp hp).trans ho.symm⟩
  · simp

theorem queue?_ensure (r : Roster) (p o v : String) :
    (r.ensure p).queue? o v = r.queue? o v := by
  unfold ensure queue?
  split_ifs with h
  · rfl
  · by_cases hp : p = o
    · subst hp
      have hn : r.find? (fun b => b.organization == p) = none := by simpa using h
      simp [List.find?_append, hn, Bucket.queue?]
    · have hpo : (p == o) = false := by simpa using hp
      simp [List.find?_append, hpo]

theorem find?_revise (hf : ∀ b : Bucket, (f b).organization = b.organization) :
    (r.revise p f).find? (fun b => b.organization == o) =
      if o = p then (r.find? fun b => b.organization == o).map f
      else r.find? fun b => b.organization == o := by
  unfold revise
  induction r with
  | nil => simp
  | cons b r ih =>
    rw [List.map_cons, List.find?_cons, List.find?_cons, ih]
    by_cases hb : b.organization = p
    · rw [if_pos hb, hf]
      by_cases ho : o = p
      · rw [if_pos ho, if_pos ho, hb, ho]
        simp
      · have hbo : (b.organization == o) = false := by
          rw [hb]
          simpa using fun h => ho h.symm
        rw [if_neg ho, if_neg ho, hbo]
    · rw [if_neg hb]
      by_cases ho : o = p
      · have hbo : (b.organization == o) = false := by
          rw [ho]
          simpa using hb
        rw [if_pos ho, if_pos ho, hbo]
      · rw [if_neg ho, if_neg ho]

theorem put_organization (v : String) (q : Queue) (b : Bucket) :
    (b.put v q).organization = b.organization := by
  unfold Bucket.put
  split_ifs <;> rfl

theorem has_put (r : Roster) (v : String) (q : Queue) : (r.revise p (·.put v q)).Has o ↔ r.Has o := by
  rw [has_iff, has_iff, revise, List.map_map]
  refine iff_of_eq (congrArg (o ∈ ·) (List.map_congr_left fun b _ => ?_))
  rw [Function.comp_apply]
  split_ifs
  · exact put_organization v q b
  · rfl

/-- **A queue is put in its place.** -/
theorem queue?_put (h : r.Has p) (v : String) (q : Queue) (o u : String) :
    (r.revise p (·.put v q)).queue? o u = if o = p ∧ u = v then some q else r.queue? o u := by
  obtain ⟨b, hb⟩ := h
  unfold queue?
  rw [find?_revise (put_organization v q)]
  by_cases ho : o = p
  · subst ho
    rw [if_pos rfl, hb]
    simp [Bucket.queue?_put]
  · rw [if_neg ho, if_neg fun h => ho h.1]

theorem queue?_filter (r : Roster) (keep : String → Bool) (o u : String) :
    Roster.queue? (r.filter fun b => keep b.organization) o u =
      if keep o then r.queue? o u else none := by
  unfold queue?
  induction r with
  | nil => simp
  | cons b r ih =>
    by_cases hb : b.organization = o
    · subst hb
      by_cases hk : keep b.organization = true
      · simp [hk]
      · rw [if_neg hk] at ih
        rw [List.filter_cons_of_neg (by simpa using hk), if_neg hk, ih]
    · have hbo : (b.organization == o) = false := by simpa using hb
      rw [List.find?_cons, hbo, ← ih]
      by_cases hk : keep b.organization = true
      · simp [hk, hbo]
      · rw [List.filter_cons_of_neg (by simpa using hk)]

theorem queue?_drop (r : Roster) (v o u : String) :
    Roster.queue? (r.map (·.drop v)) o u = if u = v then none else r.queue? o u := by
  unfold queue?
  have hd : (r.map (·.drop v)).find? (fun b => b.organization == o) =
      (r.find? fun b => b.organization == o).map (·.drop v) := by
    rw [List.find?_map]
    rfl
  rw [hd]
  rcases List.find? (fun b : Bucket => b.organization == o) r with _ | b
  · simp
  · have hq : (b.drop v).queue? u = if (u != v) = true then b.queue? u else none :=
      b.queue?_filter (fun x => x != v) u
    by_cases hu : u = v
    · simpa [hu] using hq
    · simpa [hu] using hq

theorem queue?_keep (r : Roster) (p : String) (ids : List String) (o u : String) :
    (r.revise p (·.keep ids)).queue? o u =
      if o = p ∧ u ∉ ids then none else r.queue? o u := by
  unfold queue?
  rw [find?_revise (f := (·.keep ids)) fun b => rfl]
  by_cases ho : o = p
  · subst ho
    rw [if_pos rfl]
    rcases List.find? (fun b : Bucket => b.organization == o) r with _ | b
    · simp
    · have hq : (b.keep ids).queue? u = if ids.contains u = true then b.queue? u else none :=
        b.queue?_filter (fun x => ids.contains x) u
      by_cases hu : u ∈ ids
      · simpa [hu] using hq
      · simpa [hu] using hq
  · rw [if_neg ho, if_neg fun h => ho h.1]

/-! Whatever was removed, a queue that is there was there. -/

theorem queue?_of_filter (keep : String → Bool)
    (h : Roster.queue? (r.filter fun b => keep b.organization) o u = some q) :
    r.queue? o u = some q := by
  rw [queue?_filter] at h
  split_ifs at h
  exact h

theorem queue?_of_drop (h : Roster.queue? (r.map (·.drop v)) o u = some q) :
    r.queue? o u = some q := by
  rw [queue?_drop] at h
  split_ifs at h
  exact h

theorem queue?_of_keep {ids : List String}
    (h : (r.revise p (·.keep ids)).queue? o u = some q) : r.queue? o u = some q := by
  rw [queue?_keep] at h
  split_ifs at h
  exact h

end Roster

end Provision
