import Provision.Proofs.Ledger.Sound

/-!
# What belongs to a workspace

A workspace, its runs and the events about them are all that the queue of the workspace deals with.

* `Event.Concerns`: the events about a workspace or one of its runs. `Event.Unlocks`,
  `Event.ShowsUserLock` and `Event.Starts` are about its lock and its speculative runs.
* `Ledger.Apart u l l'`: nothing of the workspace `u` changed.
* `Store.runsOf_putRun`, `Store.unfinishedOf`: the runs of a workspace after one of them changed.
-/

namespace Provision

/-- The event is about a workspace or one of its runs. -/
def Event.Concerns (e : Event) (v : String) : Prop :=
  match e.payload with
  | .run x => x.workspace = v
  | .workspace x => x.id = v
  | _ => False

/-- The event tells that the lock of a workspace is open. -/
def Event.Unlocks (e : Event) (v : String) : Prop :=
  e.type = .workspaceUnlocked ∧ ∃ ws, e.payload = .workspace ws ∧ ws.id = v

/-- The event tells that a user holds the lock of a workspace. -/
def Event.ShowsUserLock (e : Event) (v : String) : Prop :=
  ∃ ws, e.payload = .workspace ws ∧ ws.id = v ∧ ws.isUserLocked = true

/-- The event tells that a speculative run of a workspace is pending. -/
def Event.Starts (e : Event) (v run : String) : Prop :=
  ∃ x, e.payload = .run x ∧ x.workspace = v ∧ x.id = run ∧ x.speculative = true ∧ x.status = .pending

section Concerns

variable {e : Event} {v run : String}

theorem Event.concerns_of_workspace {ws : Workspace} (he : e.payload = .workspace ws) (hid : ws.id = v) :
    e.Concerns v := by
  rw [Event.Concerns, he]
  exact hid

theorem Event.concerns_of_run {x : Run} (he : e.payload = .run x) (hv : x.workspace = v) :
    e.Concerns v := by
  rw [Event.Concerns, he]
  exact hv

theorem Event.Concerns.unique {u : String} (h : e.Concerns u) (h' : e.Concerns v) : u = v := by
  unfold Event.Concerns at h h'
  split at h
  · next x hx =>
    rw [hx] at h'
    exact h.symm.trans h'
  · next x hx =>
    rw [hx] at h'
    exact h.symm.trans h'
  · exact h.elim

theorem Event.Unlocks.concerns (h : e.Unlocks v) : e.Concerns v := by
  obtain ⟨-, ws, he, hid⟩ := h
  exact Event.concerns_of_workspace he hid

theorem Event.ShowsUserLock.concerns (h : e.ShowsUserLock v) : e.Concerns v := by
  obtain ⟨ws, he, hid, -⟩ := h
  exact Event.concerns_of_workspace he hid

theorem Event.Starts.concerns (h : e.Starts v run) : e.Concerns v := by
  obtain ⟨x, he, hv, -⟩ := h
  exact Event.concerns_of_run he hv

end Concerns

namespace Store

/-- The runs of a workspace. -/
def runsOf (s : Store) (v : String) : List Run :=
  s.runs.filter fun r => r.workspace == v

@[simp] theorem mem_runsOf {s : Store} {v : String} {r : Run} :
    r ∈ s.runsOf v ↔ r ∈ s.runs ∧ r.workspace = v := by
  simp [runsOf]

/-- The runs that a workspace's queue should track, oldest first. -/
def unfinishedOf (s : Store) (v : String) : List String :=
  ((s.runsOf v).filter fun r => !r.speculative && !r.isDone).map (·.id)

theorem mem_unfinishedOf {s : Store} {v run : String} : run ∈ s.unfinishedOf v ↔
    ∃ r ∈ s.runs, r.id = run ∧ r.workspace = v ∧ r.speculative = false ∧ r.isDone = false := by
  simp only [unfinishedOf, List.mem_map, List.mem_filter, mem_runsOf, Bool.and_eq_true,
    Bool.not_eq_true']
  constructor
  · rintro ⟨r, ⟨⟨hr, hw⟩, hs, hd⟩, hid⟩
    exact ⟨r, hr, hid, hw, hs, hd⟩
  · rintro ⟨r, hr, hid, hw, hs, hd⟩
    exact ⟨r, ⟨⟨hr, hw⟩, hs, hd⟩, hid⟩

theorem Ordered.nodup_unfinishedOf {s : Store} {supply : ℕ} (h : s.Ordered supply) (v : String) :
    (s.unfinishedOf v).Nodup :=
  h.runs.sublist ((List.filter_sublist.trans List.filter_sublist).map _)

end Store

namespace Ledger

variable {l l' l'' : Ledger} {u : String} {w : Workspace} {r r' : Run}

/-- The run belongs to a workspace, as far as it is stored. -/
def Within (l : Ledger) (v run : String) : Prop :=
  ∀ r ∈ l.store.runs, r.id = run → r.workspace = v

/-- Nothing of a workspace changed. -/
structure Apart (u : String) (l l' : Ledger) : Prop where
  workspace : l'.store.workspace? u = l.store.workspace? u
  runs : l'.store.runsOf u = l.store.runsOf u
  /-- The events announced are not about it. -/
  announced : ∃ news, l'.announced = l.announced ++ news ∧ ∀ e ∈ news, ¬ e.Concerns u

namespace Apart

theorem refl (u : String) (l : Ledger) : l.Apart u l :=
  ⟨rfl, rfl, [], (List.append_nil _).symm, by simp⟩

theorem trans (h : l.Apart u l') (h' : l'.Apart u l'') : l.Apart u l'' := by
  obtain ⟨news, hn, hc⟩ := h.announced
  obtain ⟨news', hn', hc'⟩ := h'.announced
  refine ⟨h'.workspace.trans h.workspace, h'.runs.trans h.runs, news ++ news', ?_, ?_⟩
  · rw [hn', hn, List.append_assoc]
  · intro e he
    exact (List.mem_append.mp he).elim (hc e) (hc' e)

end Apart

/-! ## A change of a workspace -/

theorem workspace?_putWorkspace (h : l.store.workspace? w.id = some w) (type : EventType)
    (w' : Workspace) (hid : w'.id = w.id) :
    (l.putWorkspace type w').store.workspace? w.id = some w' := by
  rw [← hid]
  exact Keyed.find?_replace_self ⟨w, Store.workspace?_mem h, hid.symm⟩

theorem workspace?_putWorkspace_of_ne (hu : u ≠ w.id) (type : EventType) (l : Ledger) :
    (l.putWorkspace type w).store.workspace? u = l.store.workspace? u :=
  Keyed.find?_replace_of_ne hu

theorem apart_putWorkspace (hu : u ≠ w.id) (type : EventType) (l : Ledger) :
    l.Apart u (l.putWorkspace type w) where
  workspace := workspace?_putWorkspace_of_ne hu type l
  runs := rfl
  announced := ⟨[_], rfl, fun e he => by
    rw [List.mem_singleton.mp he]
    exact fun h => hu h.symm⟩

/-! ## A change of a run -/

theorem run?_putRun (h : l.store.run? r.id = some r) (r' : Run) (hid : r'.id = r.id) :
    (l.putRun r').store.run? r.id = some r' := by
  rw [← hid]
  exact Keyed.find?_replace_self ⟨r, Store.run?_mem h, hid.symm⟩

theorem run?_putRun_of_ne {run : String} (h : run ≠ r.id) (l : Ledger) :
    (l.putRun r).store.run? run = l.store.run? run :=
  Keyed.find?_replace_of_ne h

theorem runsOf_putRun (h : l.Sound) (hr : l.store.run? r.id = some r) (hp : r.Precedes r')
    (u : String) : (l.putRun r').store.runsOf u = Keyed.replace Run.id (l.store.runsOf u) r' := by
  refine Keyed.filter_replace fun x hx hid => ?_
  rw [h.ordered.run_eq hx (Store.run?_mem hr) (hid.trans hp.id), hp.workspace]

theorem apart_putRun (h : l.Sound) (hr : l.store.run? r.id = some r) (hp : r.Precedes r')
    (hu : u ≠ r.workspace) : l.Apart u (l.putRun r') where
  workspace := rfl
  runs := by
    rw [runsOf_putRun h hr hp]
    refine Keyed.replace_of_forall_ne fun x hx hid => hu ?_
    obtain ⟨hm, rfl⟩ := Store.mem_runsOf.mp hx
    rw [h.ordered.run_eq hm (Store.run?_mem hr) (hid.trans hp.id)]
  announced := ⟨[_], rfl, fun e he => by
    rw [List.mem_singleton.mp he]
    exact fun hw => hu (hw.symm.trans hp.workspace)⟩

theorem unfinishedOf_putRun (h : l.Sound) (hr : l.store.run? r.id = some r) (hp : r.Precedes r')
    (hd : r.speculative = true ∨ r'.isDone = r.isDone) (u : String) :
    (l.putRun r').store.unfinishedOf u = l.store.unfinishedOf u := by
  unfold Store.unfinishedOf
  rw [runsOf_putRun h hr hp, Keyed.filter_replace, Keyed.map_key_replace]
  intro x hx hid
  obtain rfl := h.ordered.run_eq (Store.mem_runsOf.mp hx).1 (Store.run?_mem hr) (hid.trans hp.id)
  rw [hp.speculative]
  rcases hd with hs | hd
  · simp [hs]
  · rw [hd]

theorem unfinishedOf_putRun_done (h : l.Sound) (hr : l.store.run? r.id = some r)
    (hp : r.Precedes r') (hd : r'.isDone = true) (u : String) :
    (l.putRun r').store.unfinishedOf u = (l.store.unfinishedOf u).erase r.id := by
  rw [(h.ordered.nodup_unfinishedOf u).erase_eq_filter]
  unfold Store.unfinishedOf
  rw [runsOf_putRun h hr hp, Keyed.filter_replace_of_neg (by simp [hd]), List.filter_map, hp.id]
  rfl

theorem mem_runs_putRun {x : Run} (hr : l.store.run? r.id = some r) (hid : r'.id = r.id) :
    x ∈ (l.putRun r').store.runs ↔ x = r' ∨ (x ∈ l.store.runs ∧ x.id ≠ r.id) := by
  refine Keyed.mem_replace.trans ?_
  rw [hid]
  refine or_congr_left (and_iff_left ⟨r, Store.run?_mem hr, rfl⟩)

end Ledger

end Provision
