import Provision.Proofs.Ledger.Later

/-!
# What events recall

An event may come late, again, or after all that it tells of is gone. What it carries was stored once, and
that is enough to place it.

* `Ledger.Recalls`: an event was announced, or it carries a workspace or a run as it was stored once.
* `Ledger.quiet`: the ledger as if nothing had been announced. A quiet ledger is sound whatever names are
  used again, and it grows (`Ledger.Later.grows`).
* `Ledger.Recalls.run`, `Ledger.Recalls.workspace`: a quiet ledger vouches for what an event recalls.
-/

namespace Provision

open Identifier (Issued not_issued_fresh)

namespace Request.Effect

variable {c : Request} {l l' : Ledger} (he : c.Effect l l')

include he

/-- **Where a workspace comes from.** -/
theorem workspace_cases {w' : Workspace} (hw : w' ∈ l'.store.workspaces) :
    (∃ w ∈ l.store.workspaces, w'.id = w.id ∧ w'.organization = w.organization) ∨
      w'.id = Identifier.fresh Workspace.stem l.supply := by
  have hset : ∀ {x : Workspace} (x' : Workspace), l.store.workspace? x.id = some x → x'.id = x.id →
      x'.organization = x.organization → w' ∈ (l.store.setWorkspace x').workspaces →
      (∃ w ∈ l.store.workspaces, w'.id = w.id ∧ w'.organization = w.organization) ∨
        w'.id = Identifier.fresh Workspace.stem l.supply := by
    intro x x' hx hid ho hm
    rcases Keyed.mem_replace.mp hm with ⟨rfl, -⟩ | ⟨hm, -⟩
    · exact .inl ⟨x, Store.workspace?_mem hx, hid, ho⟩
    · exact .inl ⟨w', hm, rfl, rfl⟩
  cases he with
  | refused | refusedLate | refusedRun | organizationCreated | runCreated | acted | runDeleted =>
    exact .inl ⟨w', hw, rfl, rfl⟩
  | organizationDeleted | workspaceDeleted =>
    exact .inl ⟨w', List.mem_of_mem_filter hw, rfl, rfl⟩
  | workspaceCreated =>
    rcases List.mem_append.mp hw with hw | hw
    · exact .inl ⟨w', hw, rfl, rfl⟩
    · rw [List.mem_singleton.mp hw]
      exact .inr rfl
  | locked w x holder hx ha =>
    have he := Workspace.acquire_eq ha
    exact hset _ hx (he ▸ rfl) (he ▸ rfl) hw
  | unlocked w x requester force hx ha =>
    have he := Workspace.release_eq ha
    exact hset _ hx (he ▸ rfl) (he ▸ rfl) hw
  | currentRunSet w run hx => exact hset { w with currentRun := some run } hx rfl rfl hw
  | autoApplySet w value hx => exact hset { w with autoApply := value } hx rfl rfl hw
  | chunkStored chunk s stored hs =>
    obtain ⟨-, hws, -⟩ := Store.putChunk_eq hs
    have hw : w' ∈ s.workspaces := hw
    exact .inl ⟨w', hws ▸ hw, rfl, rfl⟩

theorem announced_workspace {e : Event} (hm : e ∈ l'.announced) {ws : Workspace}
    (hp : e.payload = .workspace ws) : e ∈ l.announced ∨ ws ∈ l'.store.workspaces := by
  have hpost : ∀ {s : Store} {x : Event} {l₁ : Ledger}, l₁.announced = l.announced →
      (∀ ws, x.payload = .workspace ws → ws ∈ s.workspaces) → e ∈ (l₁.post s x).announced →
      e ∈ l.announced ∨ ws ∈ s.workspaces := by
    intro s x l₁ ha hx hm
    refine (List.mem_append.mp hm).imp (fun hm => ha ▸ hm) fun hm => ?_
    exact hx ws (List.mem_singleton.mp hm ▸ hp)
  have hset : ∀ {type : EventType} {x : Workspace} (x' : Workspace), l.store.workspace? x.id = some x →
      x'.id = x.id → e ∈ (l.putWorkspace type x').announced →
      e ∈ l.announced ∨ ws ∈ (l.store.setWorkspace x').workspaces := by
    intro type x x' hx hid hm
    refine hpost rfl (fun y hy => ?_) hm
    obtain rfl := Payload.workspace.inj hy
    exact Keyed.mem_replace.mpr (.inl ⟨rfl, x, Store.workspace?_mem hx, hid.symm⟩)
  cases he with
  | refused | refusedLate | refusedRun => exact .inl hm
  | organizationCreated | organizationDeleted | workspaceDeleted | runCreated | acted | runDeleted
  | chunkStored => exact hpost rfl (fun _ h => by cases h) hm
  | workspaceCreated =>
    refine hpost rfl (fun y hy => ?_) hm
    obtain rfl := Payload.workspace.inj hy
    exact List.mem_append_right _ (List.mem_singleton_self _)
  | locked w x holder hx ha => exact hset _ hx (Workspace.acquire_eq ha ▸ rfl) hm
  | unlocked w x requester force hx ha => exact hset _ hx (Workspace.release_eq ha ▸ rfl) hm
  | currentRunSet w run hx => exact hset { w with currentRun := some run } hx rfl hm
  | autoApplySet w value hx => exact hset { w with autoApply := value } hx rfl hm

end Request.Effect

namespace Ledger

variable {l l' l₀ : Ledger} {e : Event}

/-- The ledger as if nothing had been announced. -/
def quiet (l : Ledger) : Ledger :=
  { l with announced := [] }

theorem store_of_quiet (h : l'.quiet = l.quiet) : l'.store = l.store :=
  (Ledger.mk.inj h).1

theorem clock_of_quiet (h : l'.quiet = l.quiet) : l'.clock = l.clock :=
  (Ledger.mk.inj h).2.1

theorem quiet_sound (h : l.store.Ordered l.supply) : l.quiet.Sound :=
  ⟨h, fun _ he => nomatch he⟩

theorem Later.ordered (h : l.Later l') (ho : l.store.Ordered l.supply) :
    l'.store.Ordered l'.supply := by
  induction h with
  | refl => exact ho
  | tail _ hd ih =>
    obtain ⟨d, rfl⟩ := hd
    exact d.ordered ih

/-- Whatever is done, workspaces stay where they are and runs move on. -/
theorem Later.grows (h : l.Later l') : l.quiet.Grows l'.quiet := by
  induction h with
  | refl => exact .refl _
  | @tail l₁ _ _ hd ih =>
    obtain ⟨d, rfl⟩ := hd
    refine ih.trans ⟨d.supply l₁, fun _ _ => .inr List.not_mem_nil, fun w hw => ?_,
      fun r hr => ?_, List.prefix_rfl⟩
    · cases d with
      | tick now => exact .inl ⟨w, hw, rfl, rfl⟩
      | request c =>
        refine ((c.effect _).workspace_cases hw).imp_right fun hid => ?_
        exact hid ▸ not_issued_fresh
    · refine (d.run_of hr).imp_right fun hid => ?_
      exact hid.2 ▸ not_issued_fresh

/-- The event was announced, or it carries a workspace or a run as it was stored once. -/
inductive Recalls (l : Ledger) (e : Event) : Prop
  | announced : e ∈ l.announced → Recalls l e
  | ofWorkspace (l₀ : Ledger) (ws : Workspace) : Later {} l₀ → Later l₀ l → ws ∈ l₀.store.workspaces →
      e.payload = .workspace ws → Recalls l e
  | ofRun (l₀ : Ledger) (x : Run) : Later {} l₀ → Later l₀ l → x ∈ l₀.store.runs →
      e.payload = .run x → Recalls l e

theorem Recalls.later (h : l.Recalls e) (hl : l.Later l') : l'.Recalls e := by
  cases h with
  | announced he => exact .announced (hl.announced.subset he)
  | ofWorkspace l₀ ws h₀ h₁ hm hp => exact .ofWorkspace l₀ ws h₀ (h₁.trans hl) hm hp
  | ofRun l₀ x h₀ h₁ hm hp => exact .ofRun l₀ x h₀ (h₁.trans hl) hm hp

theorem Recalls.tick (h : l.Recalls e) (now : Instant) : Recalls { l with clock := now } e :=
  h.later (.deed (.tick now) l)

theorem Later.stored_workspace (h : Later {} l) (he : e ∈ l.announced) {ws : Workspace}
    (hp : e.payload = .workspace ws) : ∃ l₀, Later {} l₀ ∧ Later l₀ l ∧ ws ∈ l₀.store.workspaces := by
  induction h with
  | refl => cases he
  | @tail l₁ l₂ hl hd ih =>
    have hd' : l₁.Later l₂ := .single hd
    obtain ⟨d, rfl⟩ := hd
    have hcases : e ∈ l₁.announced ∨ ws ∈ (d.on l₁).store.workspaces := by
      cases d with
      | tick now => exact .inl he
      | request c => exact (c.effect l₁).announced_workspace he hp
    rcases hcases with he | hm
    · obtain ⟨l₀, h₀, h₁, hm⟩ := ih he
      exact ⟨l₀, h₀, h₁.trans hd', hm⟩
    · exact ⟨_, Relation.ReflTransGen.trans hl hd', .refl, hm⟩

theorem Later.stored_run (h : Later {} l) (he : e ∈ l.announced) {x : Run} (hp : e.payload = .run x) :
    ∃ l₀, Later {} l₀ ∧ Later l₀ l ∧ x ∈ l₀.store.runs := by
  induction h with
  | refl => cases he
  | @tail l₁ l₂ hl hd ih =>
    have hd' : l₁.Later l₂ := .single hd
    obtain ⟨d, rfl⟩ := hd
    rcases d.announced_run he hp with he | hm
    · obtain ⟨l₀, h₀, h₁, hm⟩ := ih he
      exact ⟨l₀, h₀, h₁.trans hd', hm⟩
    · exact ⟨_, Relation.ReflTransGen.trans hl hd', .refl, hm⟩

/-- **A workspace that is recalled** belongs where it is said to. -/
theorem Recalls.workspace (h : l.Recalls e) (hl : Later {} l) {ws : Workspace}
    (hp : e.payload = .workspace ws) :
    l.quiet.Vouches (Event.ofWorkspace .workspaceUpdated ws) := by
  obtain ⟨l₀, h₀, h₁, hm⟩ : ∃ l₀, Later {} l₀ ∧ Later l₀ l ∧ ws ∈ l₀.store.workspaces := by
    cases h with
    | announced he => exact hl.stored_workspace he hp
    | ofWorkspace l₀ ws' h₀ h₁ hm hp' =>
      obtain rfl := Payload.workspace.inj (hp.symm.trans hp')
      exact ⟨l₀, h₀, h₁, hm⟩
    | ofRun l₀ x h₀ h₁ hm hp' => cases hp.symm.trans hp'
  have ho := h₀.ordered Store.Ordered.empty
  refine h₁.grows.vouches (fun ht => by cases ht) ⟨ho.issuedWorkspaces ws hm, (fun ht => by cases ht), ?_⟩
  exact fun w hw hid => congrArg Workspace.organization (ho.workspace_eq hw hm hid)

/-- **A run that is recalled** belongs where it is said to, and has moved on since. -/
theorem Recalls.run (h : l.Recalls e) (hl : Later {} l) {x : Run} (hp : e.payload = .run x) :
    l.quiet.Vouches (Event.runStatus x) := by
  obtain ⟨l₀, h₀, h₁, hm⟩ : ∃ l₀, Later {} l₀ ∧ Later l₀ l ∧ x ∈ l₀.store.runs := by
    cases h with
    | announced he => exact hl.stored_run he hp
    | ofWorkspace l₀ ws h₀ h₁ hm hp' => cases hp.symm.trans hp'
    | ofRun l₀ x' h₀ h₁ hm hp' =>
      obtain rfl := Payload.run.inj (hp.symm.trans hp')
      exact ⟨l₀, h₀, h₁, hm⟩
  exact h₁.grows.vouches (fun ht => by cases ht)
    (vouches_stored (l := l₀.quiet) (h₀.ordered Store.Ordered.empty) hm)

end Ledger

end Provision
