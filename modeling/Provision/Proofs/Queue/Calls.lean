import Provision.Proofs.Ledger.Move
import Provision.Proofs.Queue.News

/-!
# What users and agents tell

* `Ledger.Move.carries`: whatever users and agents change for the queue of a workspace, the news tell.
* `Ledger.Move.created`: a workspace that was not stored before is announced, open and without runs.
-/

namespace Provision

open Identifier (Issued not_issued_fresh)

theorem Store.runsOf_keepRuns {s : Store} {v : String} {keep : Run → Bool}
    (h : ∀ r ∈ s.runs, r.workspace = v → keep r = true) :
    (s.keepRuns keep).runsOf v = s.runsOf v := by
  refine (List.filter_filter ..).trans (List.filter_congr fun r hr => ?_)
  by_cases hv : r.workspace = v
  · rw [h r hr hv, Bool.and_true]
  · have hrv : (r.workspace == v) = false := by simpa using hv
    rw [hrv, Bool.false_and]

namespace Ledger

variable {l l' : Ledger} {v : String} {w w' : Workspace} {r r' : Run}

theorem Apart.exists_carries (h : l.Apart v l') : ∃ news, l.Carries v l' news := by
  obtain ⟨news, hn, -⟩ := h.carries
  exact ⟨news, hn⟩

theorem exists_carries_putWorkspace (v : String) (type : EventType) (w' : Workspace)
    (hw : l.store.workspace? w.id = some w) (hid : w'.id = w.id)
    (hu : w.isUserLocked = true → w'.isUserLocked = true ∨ type = .workspaceUnlocked) :
    ∃ news, l.Carries v (l.putWorkspace type w') news := by
  by_cases hv : v = w.id
  · subst hv
    exact ⟨_, carries_putWorkspace type w' hw hid hu⟩
  · exact (apart_putWorkspace (hid ▸ hv) type l).exists_carries

theorem exists_carries_putRun (v : String) (hs : l.Sound) (hr : l.store.run? r.id = some r)
    (hp : r.Precedes r') : ∃ news, l.Carries v (l.putRun r') news := by
  by_cases hv : v = r.workspace
  · subst hv
    exact ⟨_, carries_putRun hs hr hp⟩
  · exact (apart_putRun hs hr hp hv).exists_carries

theorem exists_carries_addRun (v : String) (hs : l.Sound)
    (hid : r.id = Identifier.fresh Run.stem l.supply) (hp : r.status = .pending) :
    ∃ news, l.Carries v (l.spend.post { l.store with runs := l.store.runs ++ [r] }
      { type := .runCreated, payload := .run r }) news := by
  have hruns : ∀ u, ({ l.store with runs := l.store.runs ++ [r] } : Store).runsOf u =
      l.store.runsOf u ++ [r].filter fun x => x.workspace == u := fun u => List.filter_append _ _
  by_cases hv : r.workspace = v
  swap
  · refine Apart.exists_carries ⟨rfl, ?_, [_], rfl, fun e he => ?_⟩
    · have hrv : (r.workspace == v) = false := by simpa using hv
      exact (hruns v).trans (by simp [hrv])
    · rw [List.mem_singleton.mp he]
      exact hv
  subst hv
  have hd : r.isDone = false := by rw [Run.isDone, hp]; rfl
  have hmem : ∀ x ∈ ({ l.store with runs := l.store.runs ++ [r] } : Store).runsOf r.workspace,
      x ∈ l.store.runsOf r.workspace ∨ x = r := by
    intro x hx
    rw [hruns] at hx
    exact (List.mem_append.mp hx).imp_right fun h => by simpa using h
  refine ⟨[_], rfl, ?_, .inl, ?_, fun x hx hxs hxp => ?_⟩
  · have hh : Queue.catchUp r.workspace (l.store.unfinishedOf r.workspace)
        [{ type := .runCreated, payload := .run r }] =
          Queue.tell (l.store.unfinishedOf r.workspace) r := if_pos rfl
    -- The run was not tracked before, since its identifier was not given out.
    have hn : r.id ∉ l.store.unfinishedOf r.workspace := by
      intro hm
      obtain ⟨x, hx, hxid, -⟩ := Store.mem_unfinishedOf.mp hm
      exact not_issued_fresh (hid ▸ hxid ▸ hs.ordered.issuedRuns x hx)
    have hun : ({ l.store with runs := l.store.runs ++ [r] } : Store).unfinishedOf r.workspace =
        l.store.unfinishedOf r.workspace ++ if r.speculative then [] else [r.id] := by
      rw [Store.unfinishedOf, hruns, List.filter_append, List.map_append, ← Store.unfinishedOf]
      rcases hsp : r.speculative <;> simp [hsp, hd]
    refine hh.trans (Eq.trans ?_ hun.symm)
    rcases hsp : r.speculative
    · rw [Queue.tell_of_not_speculative hsp, if_neg (by simp [hd]), if_neg hn]
      rfl
    · rw [Queue.tell, if_pos hsp]
      exact (List.append_nil _).symm
  · refine opened_of_forall fun e he => ?_
    rw [List.mem_singleton.mp he]
    rintro ⟨ws, hws, -⟩
    cases hws
  · rcases hmem x hx with hx | rfl
    · exact .inl ⟨x, hx, rfl, hxs, hxp⟩
    · exact .inr ⟨_, List.mem_singleton_self _, x, rfl, rfl, rfl, hxs, hxp⟩

theorem carries_deleteRun (v : String) (hs : l.Sound) (hr : l.store.run? r.id = some r)
    (hd : r.isDone = true) :
    l.Carries v (l.post (l.store.keepRuns fun x => x.id != r.id)
      (Event.deleted .runDeleted r.id)) [Event.deleted .runDeleted r.id] := by
  have hruns : (l.post (l.store.keepRuns fun x => x.id != r.id)
      (Event.deleted .runDeleted r.id)).store.runsOf v =
        (l.store.runsOf v).filter fun x => x.id != r.id := by
    rw [Store.runsOf, Store.runsOf, List.filter_filter]
    exact (List.filter_filter ..).trans (List.filter_congr fun x _ => Bool.and_comm _ _)
  refine carries_of_unfinishedOf rfl ?_ ?_ (fun x hx => by cases hx) .inl ?_
  · rw [Store.unfinishedOf, Store.unfinishedOf, hruns, List.filter_filter]
    refine congrArg _ (List.filter_congr fun x hx => ?_)
    by_cases hid : x.id = r.id
    · rw [hs.ordered.run_eq (Store.mem_runsOf.mp hx).1 (Store.run?_mem hr) hid]
      simp [hd]
    · simp [hid]
  · rw [hruns]
    exact List.filter_subset_self _
  · rintro ⟨ws, hws, -⟩
    cases hws

end Ledger

namespace Request.Effect

variable {l l' : Ledger} {c : Request} {w : Workspace}

/-- **The news of a call of a user or an agent** tell all that it changes for the queue of a workspace
that stays. -/
theorem carries (he : c.Effect l l') (hs : l.Sound) (hc : c.IsOutside) (hw : w ∈ l.store.workspaces)
    (hw' : ∃ w' ∈ l'.store.workspaces, w'.id = w.id) : ∃ news, l.Carries w.id l' news := by
  have hws := hs.ordered.workspace?_eq_some_iff.mpr ⟨hw, rfl⟩
  obtain ⟨w', hw', hid⟩ := hw'
  cases he with
  | refused | refusedLate | refusedRun =>
    exact Ledger.Apart.exists_carries ⟨rfl, rfl, [], (List.append_nil _).symm, by simp⟩
  | organizationCreated org ho =>
    exact Ledger.Apart.exists_carries ⟨rfl, rfl, [_], rfl, by simp [Event.Concerns]⟩
  | organizationDeleted name =>
    obtain ⟨hw', hne⟩ := List.mem_filter.mp hw'
    obtain rfl := hs.ordered.workspace_eq hw' hw hid
    refine Ledger.Apart.exists_carries ⟨?_, ?_, [_], rfl, by simp [Event.Concerns, Event.deleted]⟩
    · exact ((hs.ordered.dropOrganization name).workspace?_eq_some_iff.mpr
        ⟨List.mem_filter.mpr ⟨hw, hne⟩, rfl⟩).trans hws.symm
    · refine Store.runsOf_keepRuns (s := l.store) fun r hr hv => ?_
      obtain ⟨x, hx, hxid, hxo⟩ := hs.ordered.home r hr
      rw [hs.ordered.workspace_eq hx hw (hxid.trans hv)] at hxo
      exact hxo ▸ hne
  | workspaceCreated opts o ho hn =>
    have hne : (Workspace.new l.supply opts l.clock).id ≠ w.id := fun h =>
      not_issued_fresh (h ▸ hs.ordered.issuedWorkspaces w hw)
    refine Ledger.Apart.exists_carries ⟨?_, rfl, [_], rfl, fun e he => ?_⟩
    · have hfind : l.store.workspaces.find? (fun x => x.id == w.id) = some w := hws
      exact List.find?_append.trans (by rw [hfind, hws, Option.some_or])
    · rw [List.mem_singleton.mp he]
      exact hne
  | workspaceDeleted id hx =>
    obtain ⟨hw', hne⟩ := List.mem_filter.mp hw'
    obtain rfl := hs.ordered.workspace_eq hw' hw hid
    refine Ledger.Apart.exists_carries ⟨?_, ?_, [_], rfl, by simp [Event.Concerns, Event.deleted]⟩
    · exact ((hs.ordered.dropWorkspace id).workspace?_eq_some_iff.mpr
        ⟨List.mem_filter.mpr ⟨hw, hne⟩, rfl⟩).trans hws.symm
    · exact Store.runsOf_keepRuns (s := l.store) fun r _ hv => hv ▸ hne
  | locked x x' holder hx ha =>
    refine Ledger.exists_carries_putWorkspace _ _ _ hx (Workspace.acquire_eq ha ▸ rfl) fun _ => .inl ?_
    rw [Workspace.acquire_eq ha]
    exact hc
  | unlocked x x' requester force hx ha =>
    exact Ledger.exists_carries_putWorkspace _ _ _ hx (Workspace.release_eq ha ▸ rfl) fun _ => .inr rfl
  | currentRunSet x run hx =>
    exact Ledger.exists_carries_putWorkspace _ _ { x with currentRun := some run } hx rfl .inl
  | autoApplySet x value hx =>
    exact Ledger.exists_carries_putWorkspace _ _ { x with autoApply := value } hx rfl .inl
  | runCreated request x r hx hr =>
    exact Ledger.exists_carries_addRun _ hs (hr ▸ rfl) (hr ▸ rfl)
  | acted c action r r' hact hr ho => exact Ledger.exists_carries_putRun _ hs hr ho.precedes
  | runDeleted r hr hd => exact ⟨_, Ledger.carries_deleteRun _ hs hr hd⟩
  | chunkStored chunk s stored h =>
    obtain ⟨-, hsw, hsr⟩ := Store.putChunk_eq h
    refine Ledger.Apart.exists_carries ⟨?_, ?_, [_], rfl, by simp [Event.Concerns]⟩
    · exact congrArg (List.find? fun x => x.id == w.id) hsw
    · exact congrArg (List.filter fun r => r.workspace == w.id) hsr

theorem created (he : c.Effect l l') {w' : Workspace} (hw' : w' ∈ l'.store.workspaces)
    (hn : ∀ w ∈ l.store.workspaces, w.id ≠ w'.id) :
    l'.announced = l.announced ++ [Event.ofWorkspace .workspaceCreated w'] ∧ w'.lock = none ∧
      l'.store.runs = l.store.runs := by
  have hput : ∀ {x : Workspace} (y : Workspace), l.store.workspace? x.id = some x → y.id = x.id →
      w' ∉ (l.store.setWorkspace y).workspaces := by
    intro x y hx hid hm
    rcases Keyed.mem_replace.mp hm with ⟨rfl, -⟩ | ⟨hm, -⟩
    · exact hn x (Store.workspace?_mem hx) hid.symm
    · exact hn w' hm rfl
  cases he with
  | refused | refusedLate | refusedRun | organizationCreated | runCreated | acted | runDeleted =>
    exact absurd rfl (hn w' hw')
  | organizationDeleted | workspaceDeleted => exact absurd rfl (hn w' (List.mem_of_mem_filter hw'))
  | workspaceCreated opts o ho hno =>
    obtain rfl := List.mem_singleton.mp
      ((List.mem_append.mp hw').resolve_left fun hm => hn w' hm rfl)
    exact ⟨rfl, rfl, rfl⟩
  | locked x x' holder hx ha => exact absurd hw' (hput _ hx (Workspace.acquire_eq ha ▸ rfl))
  | unlocked x x' requester force hx ha =>
    exact absurd hw' (hput _ hx (Workspace.release_eq ha ▸ rfl))
  | currentRunSet x run hx => exact absurd hw' (hput { x with currentRun := some run } hx rfl)
  | autoApplySet x value hx => exact absurd hw' (hput { x with autoApply := value } hx rfl)
  | chunkStored chunk s stored h =>
    obtain ⟨-, hsw, -⟩ := Store.putChunk_eq h
    have hw' : w' ∈ s.workspaces := hw'
    exact absurd rfl (hn w' (hsw ▸ hw'))

end Request.Effect

namespace Ledger

variable {l l' : Ledger} {permits : Request → Prop} {w w' : Workspace}

/-- **The news of what users and agents do** tell all that changes for the queue of a workspace. -/
theorem Move.carries (hm : l.Move Request.IsOutside l') (hs : l.Sound) (hw : w ∈ l.store.workspaces)
    (hw' : ∃ w' ∈ l'.store.workspaces, w'.id = w.id) : ∃ news, l.Carries w.id l' news := by
  cases hm with
  | tick now => exact Apart.exists_carries ⟨rfl, rfl, [], (List.append_nil _).symm, by simp⟩
  | request c hc _ => exact (c.effect l).carries hs hc hw hw'

/-- **A workspace that was not stored before** is announced, open and without runs. -/
theorem Move.created (hm : l.Move permits l') (hs : l.Sound) (hw' : w' ∈ l'.store.workspaces)
    (hn : ∀ w ∈ l.store.workspaces, w.id ≠ w'.id) :
    l'.announced = l.announced ++ [Event.ofWorkspace .workspaceCreated w'] ∧ w'.lock = none ∧
      l'.store.runsOf w'.id = [] := by
  cases hm with
  | tick now => exact absurd rfl (hn w' hw')
  | request c _ _ =>
    obtain ⟨ha, hl, hr⟩ := (c.effect l).created hw' hn
    refine ⟨ha, hl, List.filter_eq_nil_iff.mpr fun r hm => ?_⟩
    obtain ⟨x, hx, hxid, -⟩ := hs.ordered.home r (hr ▸ hm)
    have hne := hn x hx
    rw [hxid] at hne
    simpa using hne

end Ledger

end Provision
