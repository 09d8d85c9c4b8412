import Provision.Proofs.Ledger.Call
import Provision.Proofs.Store.Rooted

/-!
# Changes of a store

An `Operation` is a change of a store as data. Workspaces and runs are changed by several revisions in
one step, and the first that is refused refuses all.

* `Store.Operation.Outcome` lists what a store can look like after an operation that was not refused.
* `Store.Operation.outcome`: the list is complete.
* `Store.Rooted.outcome`, `Store.Logged.outcome`: every outcome keeps the referential integrity.
-/

namespace Provision

/-! ## What a change takes, and what comes of it -/

namespace Store

variable {s s' : Store} {name id : String}

theorem createOrganization_ok {org : Organization} (h : s.createOrganization org = .ok s') :
    (∀ o ∈ s.organizations, o.name ≠ org.name) ∧
      s' = { s with organizations := s.organizations ++ [org] } := by
  unfold createOrganization at h
  split_ifs at h with ho
  cases h
  exact ⟨by simpa using ho, rfl⟩

theorem deleteOrganization_ok (h : s.deleteOrganization name = .ok s') :
    (∃ o ∈ s.organizations, o.name = name) ∧ s' = s.dropOrganization name := by
  unfold deleteOrganization at h
  split_ifs at h with ho
  cases h
  exact ⟨by simpa using ho, rfl⟩

theorem createWorkspace_ok {ws : Workspace} (h : s.createWorkspace ws = .ok s') :
    (∃ o ∈ s.organizations, o.name = ws.organization) ∧
      (∀ w ∈ s.workspaces, w.id ≠ ws.id ∧
        (w.organization, w.name) ≠ (ws.organization, ws.name)) ∧
      s' = { s with workspaces := s.workspaces ++ [ws] } := by
  unfold createWorkspace at h
  split_ifs at h with ho hw
  cases h
  simp only [List.any_eq_true, Bool.or_eq_true, Bool.and_eq_true, beq_iff_eq, not_exists, not_and,
    not_or] at hw
  refine ⟨by simpa using ho, fun w hm => ⟨(hw w hm).1, fun he => ?_⟩, rfl⟩
  exact (hw w hm).2 (Prod.mk.inj he).1 (Prod.mk.inj he).2

theorem updateWorkspace_ok {change : Workspace → Except Error Workspace} {w' : Workspace}
    (hid : ∀ w w', change w = .ok w' → w'.id = w.id)
    (h : s.updateWorkspace id change = .ok (w', s')) :
    ∃ w, s.workspace? id = some w ∧ change w = .ok w' ∧ s' = s.setWorkspace w' := by
  unfold updateWorkspace at h
  split at h
  · cases h
  · next w hw =>
    split at h
    · cases h
    · next x hx =>
      cases h
      refine ⟨w, hw, hx, ?_⟩
      rw [setWorkspace, Keyed.replace, (hid w _ hx).trans (workspace?_id hw)]

theorem deleteWorkspace_ok (h : s.deleteWorkspace id = .ok s') :
    (∃ w ∈ s.workspaces, w.id = id) ∧ s' = s.dropWorkspace id := by
  unfold deleteWorkspace at h
  split_ifs at h with hw
  cases h
  exact ⟨by simpa using hw, rfl⟩

theorem createRun_ok {run : Run} (h : s.createRun run = .ok s') :
    (∃ w ∈ s.workspaces, w.id = run.workspace) ∧ (∀ r ∈ s.runs, r.id ≠ run.id) ∧
      s' = { s with runs := s.runs ++ [run] } := by
  unfold createRun at h
  split_ifs at h with hw hr
  cases h
  exact ⟨by simpa using hw, by simpa using hr, rfl⟩

theorem updateRun_ok {change : Run → Except Error Run} {r' : Run}
    (hid : ∀ r r', change r = .ok r' → r'.id = r.id) (h : s.updateRun id change = .ok (r', s')) :
    ∃ r, s.run? id = some r ∧ change r = .ok r' ∧ s' = s.setRun r' := by
  unfold updateRun at h
  split at h
  · cases h
  · next r hr =>
    split at h
    · cases h
    · next x hx =>
      cases h
      refine ⟨r, hr, hx, ?_⟩
      rw [setRun, Keyed.replace, (hid r _ hx).trans (run?_id hr)]

theorem deleteRun_ok (h : s.deleteRun id = .ok s') :
    (∃ r ∈ s.runs, r.id = id) ∧ s' = s.keepRuns fun r => r.id != id := by
  unfold deleteRun at h
  split_ifs at h with hr
  cases h
  exact ⟨by simpa using hr, rfl⟩

end Store

/-! ## Several revisions in one step -/

theorem foldlM_ok {ε α β : Type} {f : α → β → Except ε α} {P : α → Prop}
    (hf : ∀ a b a', P a → f a b = .ok a' → P a') {l : List β} {a a' : α} (ha : P a)
    (h : l.foldlM f a = .ok a') : P a' := by
  induction l generalizing a with
  | nil =>
    obtain rfl := Except.ok.inj h
    exact ha
  | cons b l ih =>
    rw [List.foldlM_cons] at h
    rcases hb : f a b with e | x
    · rw [hb] at h
      cases h
    · rw [hb] at h
      exact ih (hf a b x ha hb) h

namespace Workspace

/-- A change of a workspace. -/
inductive Revision
  | acquire (holder : Holder)
  | release (requester : Holder) (force : Bool)
  | setCurrentRun (run : Option String)
  | setAutoApply (value : Bool)
  deriving DecidableEq, Repr

/-- The workspace after a change. -/
def Revision.on (v : Revision) (w : Workspace) : Except Error Workspace :=
  match v with
  | .acquire holder => w.acquire holder
  | .release requester force => w.release requester force
  | .setCurrentRun run => .ok { w with currentRun := run }
  | .setAutoApply value => .ok { w with autoApply := value }

/-- The workspace after several changes. -/
def revise (w : Workspace) (revisions : List Revision) : Except Error Workspace :=
  revisions.foldlM (fun w v => v.on w) w

/-- The same workspace, perhaps in another state. -/
structure Alike (w w' : Workspace) : Prop where
  id : w'.id = w.id
  organization : w'.organization = w.organization
  name : w'.name = w.name

theorem Alike.trans {w w' w'' : Workspace} (h : w.Alike w') (h' : w'.Alike w'') : w.Alike w'' :=
  ⟨h'.id.trans h.id, h'.organization.trans h.organization, h'.name.trans h.name⟩

theorem Revision.alike {v : Revision} {w w' : Workspace} (h : v.on w = .ok w') : w.Alike w' := by
  cases v with
  | acquire holder => exact acquire_eq h ▸ ⟨rfl, rfl, rfl⟩
  | release requester force => exact release_eq h ▸ ⟨rfl, rfl, rfl⟩
  | setCurrentRun run =>
    cases h
    exact ⟨rfl, rfl, rfl⟩
  | setAutoApply value =>
    cases h
    exact ⟨rfl, rfl, rfl⟩

theorem alike_of_revise {revisions : List Revision} {w w' : Workspace}
    (h : w.revise revisions = .ok w') : w.Alike w' :=
  foldlM_ok (fun _ _ _ ha hv => ha.trans (Revision.alike hv)) ⟨rfl, rfl, rfl⟩ h

end Workspace

namespace Run

/-- The run after several actions. -/
def revise (r : Run) (attempts : List Attempt) : Except Error Run :=
  attempts.foldlM (fun r a => (r.perform a.action a.now a.later).map (·.1)) r

theorem precedes_of_revise {attempts : List Attempt} {r r' : Run}
    (h : r.revise attempts = .ok r') : r.Precedes r' := by
  refine foldlM_ok (fun x a x' hx h => ?_) (Precedes.refl r) h
  obtain ⟨⟨r₁, flag⟩, h₁, rfl⟩ := ok_of_map h
  exact hx.trans (outcome_of_perform h₁).precedes

end Run

/-! ## All changes -/

namespace Store

/-- A change of a store. -/
inductive Operation
  | createOrganization (org : Organization)
  | deleteOrganization (name : String)
  | createWorkspace (ws : Workspace)
  | updateWorkspace (id : String) (revisions : List Workspace.Revision)
  | deleteWorkspace (id : String)
  | createRun (run : Run)
  | updateRun (id : String) (attempts : List Run.Attempt)
  | deleteRun (id : String)
  | putChunk (chunk : Chunk)

namespace Operation

/-- Make the change, and return what is stored then, or a reference to what is gone. -/
def perform (op : Operation) (s : Store) : Except Error (Payload × Store) :=
  match op with
  | createOrganization org => (s.createOrganization org).map (.organization org, ·)
  | deleteOrganization name => (s.deleteOrganization name).map (.deleted "organization" name, ·)
  | createWorkspace ws => (s.createWorkspace ws).map (.workspace ws, ·)
  | updateWorkspace id revisions =>
    (s.updateWorkspace id (·.revise revisions)).map fun u => (.workspace u.1, u.2)
  | deleteWorkspace id => (s.deleteWorkspace id).map (.deleted "workspace" id, ·)
  | createRun run => (s.createRun run).map (.run run, ·)
  | updateRun id attempts => (s.updateRun id (·.revise attempts)).map fun u => (.run u.1, u.2)
  | deleteRun id => (s.deleteRun id).map (.deleted "run" id, ·)
  | putChunk chunk => (s.putChunk chunk).map fun u => (.chunk u.1, u.2)

/-- A run is created in the organization of its workspace. -/
def Fits (op : Operation) (s : Store) : Prop :=
  match op with
  | createRun run =>
    ∀ w ∈ s.workspaces, w.id = run.workspace → w.organization = run.organization
  | _ => True

instance (op : Operation) (s : Store) : Decidable (op.Fits s) :=
  match op with
  | createRun run => inferInstanceAs (Decidable (∀ w ∈ s.workspaces,
      w.id = run.workspace → w.organization = run.organization))
  | createOrganization _ | deleteOrganization _ | createWorkspace _ | updateWorkspace _ _
  | deleteWorkspace _ | updateRun _ _ | deleteRun _ | putChunk _ => isTrue trivial

/-- What a store looks like after an operation that was not refused. -/
inductive Outcome (s : Store) : Operation → Payload → Store → Prop
  | organizationCreated (org : Organization) : (∀ o ∈ s.organizations, o.name ≠ org.name) →
      Outcome s (createOrganization org) (.organization org)
        { s with organizations := s.organizations ++ [org] }
  | organizationDeleted (name : String) : (∃ o ∈ s.organizations, o.name = name) →
      Outcome s (deleteOrganization name) (.deleted "organization" name) (s.dropOrganization name)
  | workspaceCreated (ws : Workspace) : (∃ o ∈ s.organizations, o.name = ws.organization) →
      (∀ w ∈ s.workspaces, w.id ≠ ws.id ∧
        (w.organization, w.name) ≠ (ws.organization, ws.name)) →
      Outcome s (createWorkspace ws) (.workspace ws) { s with workspaces := s.workspaces ++ [ws] }
  | workspaceUpdated (revisions : List Workspace.Revision) (w w' : Workspace) :
      s.workspace? w.id = some w → w.Alike w' →
      Outcome s (updateWorkspace w.id revisions) (.workspace w') (s.setWorkspace w')
  | workspaceDeleted (id : String) : (∃ w ∈ s.workspaces, w.id = id) →
      Outcome s (deleteWorkspace id) (.deleted "workspace" id) (s.dropWorkspace id)
  | runCreated (run : Run) : (∃ w ∈ s.workspaces, w.id = run.workspace) →
      (∀ r ∈ s.runs, r.id ≠ run.id) →
      Outcome s (createRun run) (.run run) { s with runs := s.runs ++ [run] }
  | runUpdated (attempts : List Run.Attempt) (r r' : Run) :
      s.run? r.id = some r → r.Precedes r' →
      Outcome s (updateRun r.id attempts) (.run r') (s.setRun r')
  | runDeleted (id : String) : (∃ r ∈ s.runs, r.id = id) →
      Outcome s (deleteRun id) (.deleted "run" id) (s.keepRuns fun r => r.id != id)
  | chunkStored (chunk : Chunk) : (∃ r ∈ s.runs, r.id = chunk.run) →
      (∀ c ∈ s.chunks, c.chunk.place ≠ chunk.place) →
      Outcome s (putChunk chunk) (.chunk (s.numbered chunk)) (s.addChunk chunk)

variable {s s' : Store} {op : Operation} {p : Payload}

theorem outcome_update {id : String} {revisions : List Workspace.Revision} {w' : Workspace}
    (h : s.updateWorkspace id (·.revise revisions) = .ok (w', s')) :
    Outcome s (updateWorkspace id revisions) (.workspace w') s' := by
  obtain ⟨w, hw, hr, rfl⟩ :=
    updateWorkspace_ok (fun _ _ hr => (Workspace.alike_of_revise hr).id) h
  obtain rfl := workspace?_id hw
  exact .workspaceUpdated revisions w w' hw (Workspace.alike_of_revise hr)

theorem outcome_updateRun {id : String} {attempts : List Run.Attempt} {r' : Run}
    (h : s.updateRun id (·.revise attempts) = .ok (r', s')) :
    Outcome s (updateRun id attempts) (.run r') s' := by
  obtain ⟨r, hr, ha, rfl⟩ := updateRun_ok (fun _ _ ha => (Run.precedes_of_revise ha).id) h
  obtain rfl := run?_id hr
  exact .runUpdated attempts r r' hr (Run.precedes_of_revise ha)

/-- **The list of outcomes is complete.** -/
theorem outcome (h : op.perform s = .ok (p, s')) : op.Outcome s p s' := by
  cases op with
  | createOrganization org =>
    obtain ⟨s₁, h, ⟨⟩⟩ := Run.ok_of_map h
    obtain ⟨ho, rfl⟩ := createOrganization_ok h
    exact .organizationCreated org ho
  | deleteOrganization name =>
    obtain ⟨s₁, h, ⟨⟩⟩ := Run.ok_of_map h
    obtain ⟨ho, rfl⟩ := deleteOrganization_ok h
    exact .organizationDeleted name ho
  | createWorkspace ws =>
    obtain ⟨s₁, h, ⟨⟩⟩ := Run.ok_of_map h
    obtain ⟨ho, hw, rfl⟩ := createWorkspace_ok h
    exact .workspaceCreated ws ho hw
  | updateWorkspace id revisions =>
    obtain ⟨⟨w', s₁⟩, h₁, h₂⟩ := Run.ok_of_map h
    cases h₂
    exact outcome_update h₁
  | deleteWorkspace id =>
    obtain ⟨s₁, h, ⟨⟩⟩ := Run.ok_of_map h
    obtain ⟨hw, rfl⟩ := deleteWorkspace_ok h
    exact .workspaceDeleted id hw
  | createRun run =>
    obtain ⟨s₁, h, ⟨⟩⟩ := Run.ok_of_map h
    obtain ⟨hw, hr, rfl⟩ := createRun_ok h
    exact .runCreated run hw hr
  | updateRun id attempts =>
    obtain ⟨⟨r', s₁⟩, h₁, h₂⟩ := Run.ok_of_map h
    cases h₂
    exact outcome_updateRun h₁
  | deleteRun id =>
    obtain ⟨s₁, h, ⟨⟩⟩ := Run.ok_of_map h
    obtain ⟨hr, rfl⟩ := deleteRun_ok h
    exact .runDeleted id hr
  | putChunk chunk =>
    obtain ⟨⟨c, s₁⟩, h₁, h₂⟩ := Run.ok_of_map h
    cases h₂
    obtain ⟨rfl, rfl, hr, hp⟩ := putChunk_ok h₁
    exact .chunkStored chunk hr hp

end Operation

variable {s s' : Store} {op : Operation} {p : Payload}

/-- **Every operation keeps records unique and together**, as long as a run is created in the
organization of its workspace. -/
theorem Rooted.outcome (h : s.Rooted) (hf : op.Fits s) (ho : op.Outcome s p s') : s'.Rooted := by
  cases ho with
  | organizationCreated org ho => exact h.addOrganization ho
  | organizationDeleted name _ => exact h.dropOrganization name
  | workspaceCreated ws ho hw =>
    exact h.addWorkspace ho (fun w hm => (hw w hm).1) fun w hm => (hw w hm).2
  | workspaceUpdated revisions w w' hw ha =>
    exact h.setWorkspace (workspace?_mem hw) ha.id ha.organization ha.name
  | workspaceDeleted id _ => exact h.dropWorkspace id
  | runCreated run hw hr =>
    obtain ⟨w, hm, hid⟩ := hw
    exact h.addRun hr ⟨w, hm, hid, hf w hm hid⟩
  | runUpdated attempts r r' hr hp => exact h.setRun (run?_mem hr) hp
  | runDeleted id _ => exact h.keepRuns _
  | chunkStored chunk hr hp => exact h.addChunk chunk

/-- **Every operation keeps the log chunks unique and with their runs.** -/
theorem Logged.outcome (h : s.Logged) (ho : op.Outcome s p s') : s'.Logged := by
  cases ho with
  | organizationCreated | workspaceCreated | workspaceUpdated =>
    exact h.of_runs rfl rfl fun _ hid => hid
  | organizationDeleted name _ => exact h.dropOrganization name
  | workspaceDeleted id _ => exact h.dropWorkspace id
  | runCreated run hw hr =>
    refine h.of_runs rfl rfl fun id hid => ?_
    rw [List.map_append]
    exact List.mem_append_left _ hid
  | runUpdated attempts r r' hr hp =>
    exact h.of_runs rfl rfl fun id hid =>
      (Keyed.map_key_replace : _ = s.runs.map Run.id).symm ▸ hid
  | runDeleted id _ => exact h.keepRuns _
  | chunkStored chunk hr hp => exact h.addChunk hr hp

end Store

end Provision
