import Provision.Proofs.Identifier
import Provision.Proofs.Ledger.Call

/-!
# What holds of every store

* `Identifier.Issued`: the identifiers given out so far.
* `Store.Ordered`: no two records share an identifier, all of them were given out, and what belongs to
  something belongs to something stored. Every change of a store that a request makes keeps this.
-/

namespace Provision

namespace Identifier

/-- An identifier of a kind that was given out before the supply came to a number. -/
def Issued (stem : String) (supply : ℕ) (id : String) : Prop :=
  ∃ n < supply, id = fresh stem n

variable {stem id : String} {m n : ℕ}

theorem Issued.mono (h : Issued stem m id) (hmn : m ≤ n) : Issued stem n id := by
  obtain ⟨k, hk, rfl⟩ := h
  exact ⟨k, hk.trans_le hmn, rfl⟩

theorem issued_fresh : Issued stem (n + 1) (fresh stem n) :=
  ⟨n, n.lt_succ_self, rfl⟩

theorem not_issued_fresh : ¬ Issued stem n (fresh stem n) := by
  rintro ⟨k, hk, he⟩
  exact hk.ne (fresh_injective stem he).symm

end Identifier

open Identifier (Issued issued_fresh not_issued_fresh)

namespace Store

/-- What holds of every store, when the supply has come to a number. -/
structure Ordered (s : Store) (supply : ℕ) : Prop where
  organizations : (s.organizations.map Organization.name).Nodup
  workspaces : (s.workspaces.map Workspace.id).Nodup
  runs : (s.runs.map Run.id).Nodup
  /-- The identifiers of workspaces were given out. -/
  issuedWorkspaces : ∀ w ∈ s.workspaces, Issued Workspace.stem supply w.id
  /-- The identifiers of runs were given out. -/
  issuedRuns : ∀ r ∈ s.runs, Issued Run.stem supply r.id
  /-- Every workspace is in an organization. -/
  seat : ∀ w ∈ s.workspaces, ∃ o ∈ s.organizations, o.name = w.organization
  /-- Every run is in a workspace of its organization. -/
  home : ∀ r ∈ s.runs, ∃ w ∈ s.workspaces, w.id = r.workspace ∧ w.organization = r.organization

namespace Ordered

variable {s : Store} {supply : ℕ}

theorem workspace?_eq_some_iff (h : s.Ordered supply) {id : String} {w : Workspace} :
    s.workspace? id = some w ↔ w ∈ s.workspaces ∧ w.id = id :=
  Keyed.find?_eq_some_iff h.workspaces

theorem run?_eq_some_iff (h : s.Ordered supply) {id : String} {r : Run} :
    s.run? id = some r ↔ r ∈ s.runs ∧ r.id = id :=
  Keyed.find?_eq_some_iff h.runs

theorem run_eq (h : s.Ordered supply) {r r' : Run} (hr : r ∈ s.runs) (hr' : r' ∈ s.runs)
    (he : r.id = r'.id) : r = r' :=
  Keyed.eq_of_key h.runs hr hr' he

theorem workspace_eq (h : s.Ordered supply) {w w' : Workspace} (hw : w ∈ s.workspaces)
    (hw' : w' ∈ s.workspaces) (he : w.id = w'.id) : w = w' :=
  Keyed.eq_of_key h.workspaces hw hw' he

theorem empty : ({} : Store).Ordered 0 where
  organizations := List.nodup_nil
  workspaces := List.nodup_nil
  runs := List.nodup_nil
  issuedWorkspaces _ h := by cases h
  issuedRuns _ h := by cases h
  seat _ h := by cases h
  home _ h := by cases h

theorem mono (h : s.Ordered supply) {s' : Store} {supply' : ℕ} (hs : supply ≤ supply')
    (ho : s'.organizations = s.organizations) (hw : s'.workspaces = s.workspaces)
    (hr : s'.runs = s.runs) : s'.Ordered supply' where
  organizations := ho ▸ h.organizations
  workspaces := hw ▸ h.workspaces
  runs := hr ▸ h.runs
  issuedWorkspaces w hm := (h.issuedWorkspaces w (hw ▸ hm)).mono hs
  issuedRuns r hm := (h.issuedRuns r (hr ▸ hm)).mono hs
  seat w hm := ho ▸ h.seat w (hw ▸ hm)
  home r hm := hw ▸ h.home r (hr ▸ hm)

theorem addOrganization (h : s.Ordered supply) (o : Organization)
    (ho : ∀ p ∈ s.organizations, p.name ≠ o.name) :
    ({ s with organizations := s.organizations ++ [o] } : Store).Ordered supply where
  organizations := Keyed.nodup_concat h.organizations ho
  workspaces := h.workspaces
  runs := h.runs
  issuedWorkspaces := h.issuedWorkspaces
  issuedRuns := h.issuedRuns
  seat w hw := by
    obtain ⟨p, hp, he⟩ := h.seat w hw
    exact ⟨p, List.mem_append_left _ hp, he⟩
  home := h.home

theorem dropOrganization (h : s.Ordered supply) (name : String) :
    (s.dropOrganization name).Ordered supply where
  organizations := h.organizations.sublist (List.filter_sublist.map _)
  workspaces := h.workspaces.sublist (List.filter_sublist.map _)
  runs := h.runs.sublist (List.filter_sublist.map _)
  issuedWorkspaces w hw := h.issuedWorkspaces w (List.mem_of_mem_filter hw)
  issuedRuns r hr := h.issuedRuns r (List.mem_of_mem_filter hr)
  seat w hw := by
    obtain ⟨hw, hne⟩ := List.mem_filter.mp hw
    obtain ⟨o, ho, he⟩ := h.seat w hw
    exact ⟨o, List.mem_filter.mpr ⟨ho, he ▸ hne⟩, he⟩
  home r hr := by
    obtain ⟨hr, hne⟩ := List.mem_filter.mp hr
    obtain ⟨w, hw, hid, he⟩ := h.home r hr
    exact ⟨w, List.mem_filter.mpr ⟨hw, he ▸ hne⟩, hid, he⟩

theorem addWorkspace (h : s.Ordered supply) (opts : NewWorkspace) (now : Instant)
    {o : Organization} (ho : o ∈ s.organizations) (hn : o.name = opts.organization) :
    ({ s with workspaces := s.workspaces ++ [Workspace.new supply opts now] } : Store).Ordered
      (supply + 1) where
  organizations := h.organizations
  workspaces := Keyed.nodup_concat h.workspaces fun v hv hid =>
    not_issued_fresh (hid ▸ h.issuedWorkspaces v hv)
  runs := h.runs
  issuedWorkspaces w hw := by
    rcases List.mem_append.mp hw with hw | hw
    · exact (h.issuedWorkspaces w hw).mono (Nat.le_succ _)
    · rw [List.mem_singleton.mp hw]
      exact issued_fresh
  issuedRuns r hr := (h.issuedRuns r hr).mono (Nat.le_succ _)
  seat w hw := by
    rcases List.mem_append.mp hw with hw | hw
    · exact h.seat w hw
    · rw [List.mem_singleton.mp hw]
      exact ⟨o, ho, hn⟩
  home r hr := by
    obtain ⟨w, hw, he⟩ := h.home r hr
    exact ⟨w, List.mem_append_left _ hw, he⟩

theorem dropWorkspace (h : s.Ordered supply) (id : String) :
    (s.dropWorkspace id).Ordered supply where
  organizations := h.organizations
  workspaces := h.workspaces.sublist (List.filter_sublist.map _)
  runs := h.runs.sublist (List.filter_sublist.map _)
  issuedWorkspaces w hw := h.issuedWorkspaces w (List.mem_of_mem_filter hw)
  issuedRuns r hr := h.issuedRuns r (List.mem_of_mem_filter hr)
  seat w hw := h.seat w (List.mem_of_mem_filter hw)
  home r hr := by
    obtain ⟨hr, hne⟩ := List.mem_filter.mp hr
    obtain ⟨w, hw, he, ho⟩ := h.home r hr
    exact ⟨w, List.mem_filter.mpr ⟨hw, he ▸ hne⟩, he, ho⟩

theorem setWorkspace (h : s.Ordered supply) {w w' : Workspace} (hw : w ∈ s.workspaces)
    (hid : w'.id = w.id) (ho : w'.organization = w.organization) :
    (s.setWorkspace w').Ordered supply := by
  have hmem : ∀ v ∈ s.workspaces, ∃ v' ∈ (s.setWorkspace w').workspaces,
      v'.id = v.id ∧ v'.organization = v.organization := by
    intro v hv
    by_cases he : v.id = w'.id
    · obtain rfl := h.workspace_eq hv hw (he.trans hid)
      exact ⟨w', Keyed.mem_replace.mpr (.inl ⟨rfl, v, hv, he⟩), hid, ho⟩
    · exact ⟨v, Keyed.mem_replace.mpr (.inr ⟨hv, he⟩), rfl, rfl⟩
  have hback : ∀ v' ∈ (s.setWorkspace w').workspaces, ∃ v ∈ s.workspaces,
      v'.id = v.id ∧ v'.organization = v.organization := by
    intro v' hv'
    rcases Keyed.mem_replace.mp hv' with ⟨rfl, -⟩ | ⟨hv, -⟩
    · exact ⟨w, hw, hid, ho⟩
    · exact ⟨v', hv, rfl, rfl⟩
  refine ⟨h.organizations, ?_, h.runs, fun v' hv' => ?_, h.issuedRuns, fun v' hv' => ?_, fun r hr => ?_⟩
  · exact (Keyed.map_key_replace : _ = s.workspaces.map Workspace.id).symm ▸ h.workspaces
  · obtain ⟨v, hv, he, -⟩ := hback v' hv'
    exact he ▸ h.issuedWorkspaces v hv
  · obtain ⟨v, hv, -, he⟩ := hback v' hv'
    exact he ▸ h.seat v hv
  · obtain ⟨v, hv, he, ho⟩ := h.home r hr
    obtain ⟨v', hv', he', ho'⟩ := hmem v hv
    exact ⟨v', hv', he'.trans he, ho'.trans ho⟩

theorem addRun (h : s.Ordered supply) {r : Run} (hid : r.id = Identifier.fresh Run.stem supply)
    {w : Workspace} (hw : w ∈ s.workspaces) (hr : w.id = r.workspace)
    (ho : w.organization = r.organization) :
    ({ s with runs := s.runs ++ [r] } : Store).Ordered (supply + 1) where
  organizations := h.organizations
  workspaces := h.workspaces
  runs := Keyed.nodup_concat h.runs fun v hv he =>
    not_issued_fresh (he.trans hid ▸ h.issuedRuns v hv)
  issuedWorkspaces w hw := (h.issuedWorkspaces w hw).mono (Nat.le_succ _)
  issuedRuns v hv := by
    rcases List.mem_append.mp hv with hv | hv
    · exact (h.issuedRuns v hv).mono (Nat.le_succ _)
    · rw [List.mem_singleton.mp hv, hid]
      exact issued_fresh
  seat := h.seat
  home v hv := by
    rcases List.mem_append.mp hv with hv | hv
    · exact h.home v hv
    · rw [List.mem_singleton.mp hv]
      exact ⟨w, hw, hr, ho⟩

theorem setRun (h : s.Ordered supply) {r r' : Run} (hr : r ∈ s.runs) (hp : r.Precedes r') :
    (s.setRun r').Ordered supply where
  organizations := h.organizations
  workspaces := h.workspaces
  runs := (Keyed.map_key_replace : _ = s.runs.map Run.id).symm ▸ h.runs
  issuedWorkspaces := h.issuedWorkspaces
  issuedRuns v hv := by
    rcases Keyed.mem_replace.mp hv with ⟨rfl, -⟩ | ⟨hv, -⟩
    · exact hp.id ▸ h.issuedRuns r hr
    · exact h.issuedRuns v hv
  seat := h.seat
  home v hv := by
    rcases Keyed.mem_replace.mp hv with ⟨rfl, -⟩ | ⟨hv, -⟩
    · exact hp.workspace ▸ hp.organization ▸ h.home r hr
    · exact h.home v hv

theorem keepRuns (h : s.Ordered supply) (keep : Run → Bool) : (s.keepRuns keep).Ordered supply where
  organizations := h.organizations
  workspaces := h.workspaces
  runs := h.runs.sublist (List.filter_sublist.map _)
  issuedWorkspaces := h.issuedWorkspaces
  issuedRuns r hr := h.issuedRuns r (List.mem_of_mem_filter hr)
  seat := h.seat
  home r hr := h.home r (List.mem_of_mem_filter hr)

end Ordered

end Store

end Provision
