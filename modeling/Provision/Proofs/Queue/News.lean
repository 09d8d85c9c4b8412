import Provision.Proofs.Queue.CatchUp

/-!
# What the news tell

A queue that hears every event in its order knows, in the end, what it needs to know.

* `Ledger.Carries v l l' news`: the news that are announced while one ledger becomes another tell all
  that changes for the queue of the workspace `v`: the runs that it should track, the locks of users, and
  speculative runs that are pending.
* `Queue.Changes.carries`: the changes that queues make are carried by their news.
-/

namespace Provision

open Queue (catchUp hear)

namespace Ledger

variable {l l' l'' : Ledger} {v : String} {e : Event} {backlog news news' : List Event}

/-- What a run may wait for: a user holds the lock, or the news that it is open are on their way. -/
def Excuse (l : Ledger) (v : String) (backlog : List Event) : Prop :=
  l.UserLocked v ∨ ∃ e ∈ backlog, e.Unlocks v

/-- Every news of a user's lock is true, or followed by the news that the lock is open. -/
def Opened (l : Ledger) (v : String) : List Event → Prop
  | [] => True
  | e :: backlog => (e.ShowsUserLock v → l.Excuse v backlog) ∧ l.Opened v backlog

theorem Excuse.skip (h : l.Excuse v (e :: backlog)) (he : ¬ e.Unlocks v) : l.Excuse v backlog := by
  refine h.imp_right fun ⟨x, hx, hu⟩ => ⟨x, (List.mem_cons.mp hx).resolve_left ?_, hu⟩
  rintro rfl
  exact he hu

/-- An excuse holds on while the locks of users are opened with notice. -/
theorem Excuse.carry (h : l.Excuse v backlog) (hc : l.UserLocked v → l'.Excuse v news) :
    l'.Excuse v (backlog ++ news) := by
  rcases h with hu | ⟨e, he, hu⟩
  · exact (hc hu).imp_right fun ⟨e, he, hu⟩ => ⟨e, List.mem_append_right _ he, hu⟩
  · exact .inr ⟨e, List.mem_append_left _ he, hu⟩

theorem Opened.carry (h : l.Opened v backlog) (hc : l.UserLocked v → l'.Excuse v news)
    (hn : l'.Opened v news) : l'.Opened v (backlog ++ news) := by
  induction backlog with
  | nil => exact hn
  | cons e backlog ih => exact ⟨fun he => (h.1 he).carry hc, ih h.2⟩

theorem opened_of_forall (h : ∀ e ∈ backlog, ¬ e.ShowsUserLock v) : l.Opened v backlog := by
  induction backlog with
  | nil => trivial
  | cons e backlog ih =>
    exact ⟨fun he => absurd he (h e List.mem_cons_self), ih fun x hx => h x (List.mem_cons_of_mem e hx)⟩

/-- The news tell all that changes for the queue of a workspace. -/
structure Carries (v : String) (l l' : Ledger) (news : List Event) : Prop where
  announced : l'.announced = l.announced ++ news
  /-- They tell what should be tracked. -/
  told : catchUp v (l.store.unfinishedOf v) news = l'.store.unfinishedOf v
  /-- They tell that a user's lock was opened. -/
  excuse : l.UserLocked v → l'.Excuse v news
  /-- They do not tell of a user's lock that was opened without telling so. -/
  opened : l'.Opened v news
  /-- They tell of speculative runs. -/
  awaited : ∀ r' ∈ l'.store.runsOf v, r'.speculative = true → r'.status = .pending →
    (∃ r ∈ l.store.runsOf v, r.id = r'.id ∧ r.speculative = true ∧ r.status = .pending) ∨
      ∃ e ∈ news, e.Starts v r'.id

theorem Carries.refl (v : String) (l : Ledger) : l.Carries v l [] where
  announced := (List.append_nil _).symm
  told := rfl
  excuse := .inl
  opened := trivial
  awaited r hr hs hp := .inl ⟨r, hr, rfl, hs, hp⟩

theorem Carries.trans (h : l.Carries v l' news) (h' : l'.Carries v l'' news') :
    l.Carries v l'' (news ++ news') where
  announced := by rw [h'.announced, h.announced, List.append_assoc]
  told := by rw [Queue.catchUp_append, h.told, h'.told]
  excuse hu := (h.excuse hu).carry h'.excuse
  opened := h.opened.carry h'.excuse h'.opened
  awaited r'' hr hs hp := by
    rcases h'.awaited r'' hr hs hp with ⟨r', hr', hid', hs', hp'⟩ | ⟨e, he, hst⟩
    · rcases h.awaited r' hr' hs' hp' with ⟨r, hr, hid, hs, hp⟩ | ⟨e, he, hst⟩
      · exact .inl ⟨r, hr, hid.trans hid', hs, hp⟩
      · exact .inr ⟨e, List.mem_append_left _ he, hid' ▸ hst⟩
    · exact .inr ⟨e, List.mem_append_right _ he, hst⟩

theorem catchUp_of_forall {T : List String} (h : ∀ e ∈ news, hear v T e = T) :
    catchUp v T news = T := by
  induction news with
  | nil => rfl
  | cons e news ih =>
    rw [Queue.catchUp_cons, h e List.mem_cons_self]
    exact ih fun x hx => h x (List.mem_cons_of_mem e hx)

theorem Apart.carries (h : l.Apart v l') :
    ∃ news, l.Carries v l' news ∧ ∀ e ∈ news, ¬ e.Concerns v := by
  obtain ⟨news, hn, hc⟩ := h.announced
  refine ⟨news, ⟨hn, ?_, fun hu => .inl ?_, ?_, fun r hr hs hp => .inl ⟨r, ?_, rfl, hs, hp⟩⟩, hc⟩
  · rw [catchUp_of_forall fun e he => Queue.hear_of_not_concerns (hc e he) _, Store.unfinishedOf,
      Store.unfinishedOf, h.runs]
  · rwa [UserLocked, h.workspace]
  · exact opened_of_forall fun e he hs => hc e he hs.concerns
  · rwa [h.runs] at hr

theorem carries_of_unfinishedOf (ha : l'.announced = l.announced ++ [e])
    (hun : l'.store.unfinishedOf v = l.store.unfinishedOf v)
    (hr : l'.store.runsOf v ⊆ l.store.runsOf v) (hn : ∀ x, e.payload ≠ .run x)
    (hu : l.UserLocked v → l'.Excuse v [e]) (hs : e.ShowsUserLock v → l'.UserLocked v) :
    l.Carries v l' [e] where
  announced := ha
  told := by
    rw [hun]
    refine catchUp_of_forall fun x hx => ?_
    obtain rfl := List.mem_singleton.mp hx
    unfold hear
    split
    · next y hy => exact absurd hy (hn y)
    · rfl
  excuse := hu
  opened := ⟨fun h => .inl (hs h), trivial⟩
  awaited r hm hsp hp := .inl ⟨r, hr hm, rfl, hsp, hp⟩

/-- **The news of a workspace**, the lock of which is not opened without telling so. -/
theorem carries_putWorkspace {w : Workspace} (type : EventType) (w' : Workspace)
    (hw : l.store.workspace? w.id = some w) (hid : w'.id = w.id)
    (hu : w.isUserLocked = true → w'.isUserLocked = true ∨ type = .workspaceUnlocked) :
    l.Carries w.id (l.putWorkspace type w') [Event.ofWorkspace type w'] := by
  have hw' := workspace?_putWorkspace hw type w' hid
  refine carries_of_unfinishedOf rfl rfl (List.Subset.refl _) (fun x hx => by cases hx) ?_ ?_
  · intro h
    rcases hu ((userLocked_iff hw).mp h) with h | rfl
    · exact .inl ((userLocked_iff hw').mpr h)
    · exact .inr ⟨_, List.mem_singleton_self _, rfl, w', rfl, hid⟩
  · rintro ⟨ws, hws, -, h⟩
    obtain rfl : w' = ws := Payload.workspace.inj hws
    exact (userLocked_iff hw').mpr h

/-- **The news of a run** that moved on. -/
theorem carries_putRun {r r' : Run} (hs : l.Sound) (hr : l.store.run? r.id = some r)
    (hp : r.Precedes r') : l.Carries r.workspace (l.putRun r') [Event.runStatus r'] where
  announced := rfl
  told := by
    have hh : catchUp r.workspace (l.store.unfinishedOf r.workspace) [Event.runStatus r'] =
        Queue.tell (l.store.unfinishedOf r.workspace) r' := if_pos hp.workspace
    rw [hh]
    by_cases hsp : r.speculative = true
    · rw [unfinishedOf_putRun hs hr hp (.inl hsp), Queue.tell, if_pos (hp.speculative.trans hsp)]
    have hns : r'.speculative = false := hp.speculative.trans (by simpa using hsp)
    rw [Queue.tell_of_not_speculative hns]
    by_cases hd : r'.isDone = true
    · rw [unfinishedOf_putRun_done hs hr hp hd, if_pos hd, hp.id]
    · have hnd : r.isDone = false := by simpa using mt hp.done hd
      have hm : r'.id ∈ l.store.unfinishedOf r.workspace := Store.mem_unfinishedOf.mpr
        ⟨r, Store.run?_mem hr, hp.id.symm, rfl, hp.speculative.symm.trans hns, hnd⟩
      rw [unfinishedOf_putRun hs hr hp (.inr (by rw [hnd]; simpa using hd)), if_neg hd, if_pos hm]
  excuse := .inl
  opened := opened_of_forall fun e he => by
    rw [List.mem_singleton.mp he]
    rintro ⟨ws, hws, -⟩
    cases hws
  awaited x hx hxs hxp := by
    obtain ⟨hx, hxv⟩ := Store.mem_runsOf.mp hx
    rcases (mem_runs_putRun hr hp.id).mp hx with rfl | ⟨hx, -⟩
    · refine .inl ⟨r, Store.mem_runsOf.mpr ⟨Store.run?_mem hr, rfl⟩, hp.id.symm,
        hp.speculative.symm.trans hxs, ?_⟩
      by_contra hn
      exact hp.begun hn hxp
    · exact .inl ⟨x, Store.mem_runsOf.mpr ⟨hx, hxv⟩, rfl, hxs, hxp⟩

end Ledger

namespace Queue

open Ledger (Carries)

variable {o v : String} {s s' : Queue × Ledger}

/-- **The news of a change carry it.** -/
theorem Change.carries (h : Change o v s s') (hs : s.2.Sound) (hq : s.1.Fits o v s.2) :
    ∃ news, s.2.Carries v s'.2 news := by
  cases h with
  | join | leave | next => exact ⟨[], .refl v _⟩
  | release q l w run hc he hw hl =>
    obtain rfl := Store.workspace?_id hw
    exact ⟨_, Ledger.carries_putWorkspace _ _ hw rfl fun _ => .inr rfl⟩
  | accept q l w r hc hr hp hw hl =>
    obtain rfl := Store.workspace?_id hw
    obtain ⟨hv, -, -⟩ := (hq.eligible r.id (mem_tracked_of_current hc)).2 r (Store.run?_mem hr) rfl
    have hnu := Workspace.isUserLocked_eq_false hl
    -- The lock is taken first, and then the plan is queued.
    have h₁ := Ledger.carries_putWorkspace .workspaceLocked { w with lock := some (.run r.id) } hw rfl
      fun hu => by cases hnu.symm.trans hu
    obtain ⟨hs₁, -⟩ := hs.putWorkspace .workspaceLocked { w with lock := some (.run r.id) } hw rfl rfl
      fun ht => by cases ht
    have h₂ := Ledger.carries_putRun hs₁ hr (r.queued_precedes hp l.clock)
    rw [hv] at h₂
    unfold Ledger.accept
    dsimp only
    split_ifs
    · exact ⟨_, h₁.trans h₂⟩
    · have hw₁ := Ledger.workspace?_putWorkspace hw .workspaceLocked
        { w with lock := some (.run r.id) } rfl
      exact ⟨_, (h₁.trans h₂).trans
        (Ledger.carries_putWorkspace (w := { w with lock := some (.run r.id) }) .workspaceUpdated
          (w.admitted r.id) hw₁ rfl .inl)⟩
  | launch q l r hr hv hsp hp =>
    subst hv
    exact ⟨_, Ledger.carries_putRun hs hr (r.queued_precedes hp l.clock)⟩

/-- **The news of changes carry them.** -/
theorem Changes.carries (h : Changes o v s s') (hs : s.2.Sound) (hq : s.1.Fits o v s.2) :
    ∃ news, s.2.Carries v s'.2 news := by
  refine h.induction (P := fun t => ∃ news, s.2.Carries v t.2 news) hs hq ⟨[], .refl v _⟩ ?_
  rintro t t' ht hf hc ⟨news, hn⟩
  obtain ⟨news', hn'⟩ := hc.carries ht hf
  exact ⟨news ++ news', hn.trans hn'⟩

end Queue

end Provision
