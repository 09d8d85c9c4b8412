import Provision.Proofs.Ledger.Deed

/-!
# Who holds a lock

* `Request.Ousts`: the calls by which a holder loses the lock of a workspace. There are no others
  (`Request.Effect.holder?_kept`).
* `Request.Effect.lock_cases`: a holder was there before, or has just asked for the lock.
-/

namespace Provision

/-- Who holds the lock of a workspace, if anybody. -/
def Ledger.holder? (l : Ledger) (v : String) : Option Holder :=
  (l.store.workspace? v).bind (·.lock)

/-- The calls by which a holder loses the lock of a workspace. -/
inductive Request.Ousts (l : Ledger) (v : String) (holder : Holder) : Request → Prop
  | forced (requester : Holder) : Ousts l v holder (.unlock v requester true)
  | released (force : Bool) : Ousts l v holder (.unlock v holder force)
  /-- A user takes the lock from a run. -/
  | replaced (user : String) : holder.isUser = false → Ousts l v holder (.lock v (.user user))
  | deleted : Ousts l v holder (.deleteWorkspace v)
  | organizationDeleted (w : Workspace) : w ∈ l.store.workspaces → w.id = v →
      Ousts l v holder (.deleteOrganization w.organization)

namespace Workspace

variable {w w' : Workspace} {holder requester : Holder}

theorem acquire_ousts (h : w.acquire requester = .ok w') (hl : w.lock = some holder) :
    w'.lock = some holder ∨ holder.isUser = false ∧ requester.isUser = true := by
  unfold acquire at h
  rw [hl] at h
  dsimp only at h
  split_ifs at h with hc hu
  · cases h
    exact .inl hl
  · obtain ⟨hr, hu⟩ := Bool.and_eq_true_iff.mp hu
    exact .inr ⟨by simpa using hu, hr⟩

theorem release_ousts {force : Bool} (h : w.release requester force = .ok w')
    (hl : w.lock = some holder) : force = true ∨ requester = holder := by
  unfold release at h
  rw [hl] at h
  dsimp only at h
  split_ifs at h with hc
  exact (Bool.or_eq_true_iff.mp hc).imp_right fun hd => (of_decide_eq_true hd).symm

end Workspace

namespace Ledger

variable {l : Ledger} {v : String} {holder : Holder}

theorem holder?_eq_some_iff (h : l.store.Ordered l.supply) :
    l.holder? v = some holder ↔ ∃ w ∈ l.store.workspaces, w.id = v ∧ w.lock = some holder := by
  unfold holder?
  rw [Option.bind_eq_some_iff]
  simp only [h.workspace?_eq_some_iff, and_assoc]

end Ledger

namespace Request.Effect

variable {c : Request} {l l' : Ledger} {v : String} {holder : Holder} (he : c.Effect l l')

include he

/-- **A holder keeps the lock** unless a call ousts it. -/
theorem holder?_kept (h : l.store.Ordered l.supply) (hl : l.holder? v = some holder) :
    l'.holder? v = some holder ∨ c.Ousts l v holder := by
  obtain ⟨w, hw, hid, hlock⟩ := (Ledger.holder?_eq_some_iff h).mp hl
  have hkept : ∀ {l' : Ledger}, l'.store.Ordered l'.supply → w ∈ l'.store.workspaces →
      l'.holder? v = some holder := fun ho hm =>
    (Ledger.holder?_eq_some_iff ho).mpr ⟨w, hm, hid, hlock⟩
  have ho := he.ordered h
  -- A workspace is replaced: it may be the one that is locked.
  have hset : ∀ {type : EventType} {x x' : Workspace}, (l.putWorkspace type x').store.Ordered l.supply →
      l.store.workspace? x.id = some x → x'.id = x.id →
      (x = w → x'.lock = some holder ∨ c.Ousts l v holder) →
      (l.putWorkspace type x').holder? v = some holder ∨ c.Ousts l v holder := by
    intro type x x' ho hx hid' hx'
    by_cases hwx : w.id = x'.id
    · have hxw : x = w := h.workspace_eq (Store.workspace?_mem hx) hw (hid'.symm.trans hwx.symm)
      refine (hx' hxw).imp_left fun hlock' => ?_
      exact (Ledger.holder?_eq_some_iff ho).mpr
        ⟨x', Keyed.mem_replace.mpr (.inl ⟨rfl, w, hw, hwx⟩), hwx.symm.trans hid, hlock'⟩
    · exact .inl (hkept ho (Keyed.mem_replace.mpr (.inr ⟨hw, hwx⟩)))
  cases he with
  | refused | refusedLate | refusedRun | organizationCreated | runCreated | runDeleted | acted =>
    exact .inl hl
  | workspaceCreated => exact .inl (hkept ho (List.mem_append_left _ hw))
  | organizationDeleted name =>
    by_cases hn : w.organization = name
    · exact .inr (hn ▸ .organizationDeleted w hw hid)
    · exact .inl (hkept ho (List.mem_filter.mpr ⟨hw, by simpa using hn⟩))
  | workspaceDeleted id =>
    by_cases hv : w.id = id
    · obtain rfl := hv.symm.trans hid
      exact .inr .deleted
    · exact .inl (hkept ho (List.mem_filter.mpr ⟨hw, by simpa using hv⟩))
  | locked x x' requester hx ha =>
    refine hset ho hx (Workspace.acquire_eq ha ▸ rfl) fun hxw => ?_
    subst hxw hid
    refine (Workspace.acquire_ousts ha hlock).imp_right fun ⟨hr, hu⟩ => ?_
    cases requester with
    | run id => cases hu
    | user name => exact .replaced name hr
  | unlocked x x' requester force hx ha =>
    refine hset ho hx (Workspace.release_eq ha ▸ rfl) fun hxw => .inr ?_
    subst hxw hid
    rcases Workspace.release_ousts ha hlock with rfl | rfl
    · exact .forced requester
    · exact .released force
  | currentRunSet x run hx | autoApplySet x value hx =>
    exact hset ho hx rfl fun hxw => .inl (hxw ▸ hlock)
  | chunkStored chunk s stored hs =>
    obtain ⟨-, hws, -⟩ := Store.putChunk_eq hs
    exact .inl (hkept ho (by change w ∈ s.workspaces; exact hws ▸ hw))

/-- **Where a holder comes from.** -/
theorem lock_cases {w' : Workspace} (hw : w' ∈ l'.store.workspaces) (hl : w'.lock = some holder) :
    (∃ w ∈ l.store.workspaces, w.id = w'.id ∧ w.lock = some holder) ∨ c = .lock w'.id holder := by
  cases he with
  | refused | refusedLate | refusedRun | organizationCreated | runCreated | runDeleted | acted =>
    exact .inl ⟨w', hw, rfl, hl⟩
  | organizationDeleted | workspaceDeleted => exact .inl ⟨w', List.mem_of_mem_filter hw, rfl, hl⟩
  | workspaceCreated =>
    rcases List.mem_append.mp hw with hw | hw
    · exact .inl ⟨w', hw, rfl, hl⟩
    · rw [List.mem_singleton.mp hw] at hl
      cases hl
  | locked w x requester hx ha =>
    rcases Keyed.mem_replace.mp hw with ⟨rfl, -⟩ | ⟨hw, -⟩
    · rw [Workspace.acquire_eq ha] at hl ⊢
      exact .inr (Option.some.inj hl ▸ rfl)
    · exact .inl ⟨w', hw, rfl, hl⟩
  | unlocked w x requester force hx ha =>
    rcases Keyed.mem_replace.mp hw with ⟨rfl, -⟩ | ⟨hw, -⟩
    · rw [Workspace.release_eq ha] at hl
      cases hl
    · exact .inl ⟨w', hw, rfl, hl⟩
  | currentRunSet w run hx | autoApplySet w value hx =>
    rcases Keyed.mem_replace.mp hw with ⟨rfl, -⟩ | ⟨hw, -⟩
    · exact .inl ⟨w, Store.workspace?_mem hx, rfl, hl⟩
    · exact .inl ⟨w', hw, rfl, hl⟩
  | chunkStored chunk s stored hs =>
    obtain ⟨-, hws, -⟩ := Store.putChunk_eq hs
    have hw : w' ∈ s.workspaces := hw
    exact .inl ⟨w', hws ▸ hw, rfl, hl⟩

end Request.Effect

end Provision
