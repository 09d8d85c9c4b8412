import Provision.Proofs.Ledger.Apart

/-!
# The ledger after an admission

* `Ledger.admit`: the workspace is locked for a run, its plan is queued and it is recorded.
* `Ledger.release`: the lock of a workspace is opened.

Both keep a ledger sound and touch nothing of other workspaces.
-/

namespace Provision

/-- The run after its plan was queued. -/
def Run.queued (r : Run) (now : Instant) : Run :=
  (r.enter .planQueued now).enterPlan .queued now

theorem Run.queued_precedes {r : Run} (h : r.status = .pending) (now : Instant) :
    r.Precedes (r.queued now) :=
  (Outcome.enqueuePlan h : Outcome r now now .enqueuePlan _).precedes

/-- The workspace while a run is admitted to it. -/
def Workspace.admitted (w : Workspace) (run : String) : Workspace :=
  { w with lock := some (.run run), currentRun := some run }

theorem Workspace.isUserLocked_eq_false {w : Workspace} {run : String}
    (h : w.lock = none ∨ w.lock = some (.run run)) : w.isUserLocked = false := by
  rcases h with h | h <;> rw [isUserLocked, h] <;> rfl

namespace Ledger

/-- A user holds the lock of a workspace. -/
def UserLocked (l : Ledger) (v : String) : Prop :=
  ∃ w, l.store.workspace? v = some w ∧ w.isUserLocked = true

/-- The ledger after a run was admitted to a workspace. The current run of the workspace is recorded
only if it is another one. -/
def accept (l : Ledger) (w : Workspace) (r : Run) : Ledger :=
  let l₁ := l.putWorkspace .workspaceLocked { w with lock := some (.run r.id) }
  let l₂ := l₁.putRun (r.queued l.clock)
  if w.currentRun = some r.id then l₂ else l₂.putWorkspace .workspaceUpdated (w.admitted r.id)

/-- The ledger after the lock of a workspace was opened. -/
def release (l : Ledger) (w : Workspace) : Ledger :=
  l.putWorkspace .workspaceUnlocked { w with lock := none }

variable {l : Ledger} {u : String} {w : Workspace} {r : Run}
  (hr : l.store.run? r.id = some r) (hp : r.status = .pending)
  (hw : l.store.workspace? w.id = some w)

theorem accept_runs (l : Ledger) (w : Workspace) (r : Run) :
    (l.accept w r).store.runs = (l.putRun (r.queued l.clock)).store.runs := by
  unfold accept
  dsimp only
  split_ifs <;> rfl

theorem runsOf_accept (l : Ledger) (w : Workspace) (r : Run) (u : String) :
    (l.accept w r).store.runsOf u = (l.putRun (r.queued l.clock)).store.runsOf u :=
  congrArg (List.filter _) (accept_runs l w r)

include hw in
theorem workspace?_accept (r : Run) :
    (l.accept w r).store.workspace? w.id = some (w.admitted r.id) := by
  have h₁ := workspace?_putWorkspace hw .workspaceLocked { w with lock := some (.run r.id) } rfl
  unfold accept
  dsimp only
  split_ifs with hc
  · rw [Workspace.admitted, ← hc]
    exact h₁
  · exact workspace?_putWorkspace (w := { w with lock := some (.run r.id) }) h₁ .workspaceUpdated _ rfl

theorem userLocked_iff {v : String} (hv : l.store.workspace? v = some w) :
    l.UserLocked v ↔ w.isUserLocked = true := by
  rw [UserLocked, hv]
  exact ⟨fun ⟨x, hx, hu⟩ => Option.some.inj hx ▸ hu, fun hu => ⟨w, rfl, hu⟩⟩

include hr hp hw in
theorem sound_accept (h : l.Sound) : (l.accept w r).Sound ∧ l.Grows (l.accept w r) := by
  obtain ⟨h₁, hg₁⟩ := h.putWorkspace .workspaceLocked { w with lock := some (.run r.id) } hw rfl rfl
    fun ht => by cases ht
  obtain ⟨h₂, hg₂⟩ := h₁.putRun (r := r) hr (r.queued_precedes hp l.clock)
  unfold accept
  dsimp only
  split_ifs with hc
  · exact ⟨h₂, hg₁.trans hg₂⟩
  · obtain ⟨h₃, hg₃⟩ := h₂.putWorkspace (w := { w with lock := some (.run r.id) })
      .workspaceUpdated (w.admitted r.id) (workspace?_putWorkspace hw .workspaceLocked _ rfl) rfl rfl
      fun ht => by cases ht
    exact ⟨h₃, (hg₁.trans hg₂).trans hg₃⟩

include hr hp in
theorem apart_accept (h : l.Sound) (hw : l.store.workspace? w.id = some w) (hu : u ≠ w.id)
    (hur : u ≠ r.workspace) : l.Apart u (l.accept w r) := by
  obtain ⟨h₁, -⟩ := h.putWorkspace .workspaceLocked { w with lock := some (.run r.id) } hw rfl rfl
    fun ht => by cases ht
  have ha := (apart_putWorkspace (w := { w with lock := some (.run r.id) }) hu .workspaceLocked l).trans
    (apart_putRun h₁ hr (r.queued_precedes hp l.clock) hur)
  unfold accept
  dsimp only
  split_ifs with hc
  · exact ha
  · exact ha.trans (apart_putWorkspace (w := w.admitted r.id) hu .workspaceUpdated _)

include hw in
theorem sound_release (h : l.Sound) : (l.release w).Sound ∧ l.Grows (l.release w) :=
  h.putWorkspace _ _ hw rfl rfl fun _ => rfl

include hw in
theorem workspace?_release : (l.release w).store.workspace? w.id = some { w with lock := none } :=
  workspace?_putWorkspace hw .workspaceUnlocked _ rfl

end Ledger

end Provision
