import Provision.Proofs.Ledger.Spares

/-!
# What befalls the runs

* `Deed`: the clock is read anew, or somebody makes a call.
* `Request.Effect.run_cases`: a run that is stored after a call was stored before, or came about by an
  action, or is new. This needs nothing of the ledger.
* `Ledger.Knows`: the ledger holds at most a later state of a run. What was stored once is known for
  ever (`Ledger.Knows.deed`).
-/

namespace Provision

open Identifier (Issued issued_fresh not_issued_fresh)

/-- What somebody does to a ledger. -/
inductive Deed
  /-- The clock is read anew. -/
  | tick (now : Instant)
  | request (c : Request)
  deriving DecidableEq, Repr

/-- The ledger after a deed. -/
def Deed.on (d : Deed) (l : Ledger) : Ledger :=
  match d with
  | .tick now => { l with clock := now }
  | .request c => (c.perform l).2

/-- The events that are announced while one ledger becomes another. -/
structure Ledger.Reports (l l' : Ledger) (news : List Event) : Prop where
  announced : l'.announced = l.announced ++ news
  /-- The runs that are announced are stored. -/
  stored : ∀ e ∈ news, ∀ x : Run, e.payload = .run x → x ∈ l'.store.runs
  /-- The runs that change are announced. -/
  told : ∀ r ∈ l'.store.runs, r ∈ l.store.runs ∨ ∃ e ∈ news, e.payload = .run r
  /-- What is deleted is referred to. -/
  referred : ∀ e ∈ news, e.type.isDeletion = true → e = Event.deleted e.type e.payload.id

theorem Ledger.Reports.single {l l' : Ledger} {e : Event} (ha : l'.announced = l.announced ++ [e])
    (hs : ∀ x : Run, e.payload = .run x → x ∈ l'.store.runs)
    (ht : ∀ r ∈ l'.store.runs, r ∈ l.store.runs ∨ e.payload = .run r)
    (hd : e.type.isDeletion = false ∨ e = Event.deleted e.type e.payload.id) : l.Reports l' [e] where
  announced := ha
  stored _ he := List.mem_singleton.mp he ▸ hs
  told r hr := (ht r hr).imp_right fun h => ⟨e, List.mem_singleton_self e, h⟩
  referred _ he h := by
    obtain rfl := List.mem_singleton.mp he
    exact hd.resolve_left fun hf => by simp [hf] at h

namespace Request.Effect

variable {c : Request} {l l' : Ledger} (he : c.Effect l l')

include he

theorem supply : l.supply ≤ l'.supply := by
  cases he with
  | refusedLate | refusedRun | workspaceCreated | runCreated => exact Nat.le_succ _
  | _ => exact le_rfl

/-- **Where a run comes from.** -/
theorem run_cases {r' : Run} (hr : r' ∈ l'.store.runs) :
    r' ∈ l.store.runs ∨
      (∃ r action, c.action? = some (r.id, action) ∧ l.store.run? r.id = some r ∧
        r.Outcome l.clock l.clock action r') ∨
      ((∃ request, c = .createRun request) ∧ r'.id = Identifier.fresh Run.stem l.supply ∧
        l'.supply = l.supply + 1 ∧ r'.status = .pending) := by
  cases he with
  | refused | refusedLate | refusedRun | organizationCreated | workspaceCreated | locked | unlocked
  | currentRunSet | autoApplySet => exact .inl hr
  | organizationDeleted | workspaceDeleted | runDeleted => exact .inl (List.mem_of_mem_filter hr)
  | runCreated request w r hw hr' =>
    rcases List.mem_append.mp hr with hr | hr
    · exact .inl hr
    · rw [List.mem_singleton.mp hr, hr']
      exact .inr (.inr ⟨⟨request, rfl⟩, rfl, rfl, rfl⟩)
  | acted c action r x hact hrun ho =>
    rcases Keyed.mem_replace.mp hr with ⟨rfl, -⟩ | ⟨hr, -⟩
    · exact .inr (.inl ⟨r, action, hact, hrun, ho⟩)
    · exact .inl hr
  | chunkStored chunk s stored hs =>
    obtain ⟨-, -, hruns⟩ := Store.putChunk_eq hs
    have hr : r' ∈ s.runs := hr
    exact .inl (hruns ▸ hr)

/-- **Every call keeps a store ordered.** -/
theorem ordered (h : l.store.Ordered l.supply) : l'.store.Ordered l'.supply := by
  cases he with
  | refused => exact h
  | refusedLate | refusedRun => exact h.mono (Nat.le_succ _) rfl rfl rfl
  | organizationCreated org ho => exact h.addOrganization org ho
  | organizationDeleted name => exact h.dropOrganization name
  | workspaceCreated opts o ho hn => exact h.addWorkspace opts l.clock ho hn
  | workspaceDeleted id hw => exact h.dropWorkspace id
  | locked w w' holder hw ha =>
    rw [Workspace.acquire_eq ha]
    exact h.setWorkspace (Store.workspace?_mem hw) rfl rfl
  | unlocked w w' requester force hw ha =>
    rw [Workspace.release_eq ha]
    exact h.setWorkspace (Store.workspace?_mem hw) rfl rfl
  | currentRunSet w run hw => exact h.setWorkspace (Store.workspace?_mem hw) rfl rfl
  | autoApplySet w value hw => exact h.setWorkspace (Store.workspace?_mem hw) rfl rfl
  | runCreated request w r hw hr =>
    subst hr
    exact h.addRun rfl (Store.workspace?_mem hw) rfl rfl
  | acted c action r r' hc hr ho => exact h.setRun (Store.run?_mem hr) ho.precedes
  | runDeleted r hr hd => exact h.keepRuns _
  | chunkStored chunk s stored hs =>
    obtain ⟨ho, hw, hr⟩ := Store.putChunk_eq hs
    exact h.mono le_rfl ho hw hr

/-- **Calls report what they do.** -/
theorem news : ∃ news, l.Reports l' news := by
  cases he with
  | refused | refusedLate | refusedRun =>
    exact ⟨[], (List.append_nil _).symm, (fun _ h => by cases h), fun _ h => .inl h, fun _ h => by cases h⟩
  | organizationCreated | workspaceCreated | locked | unlocked | currentRunSet | autoApplySet =>
    exact ⟨_, .single rfl (fun x hx => by cases hx) (fun r hr => .inl hr) (.inl rfl)⟩
  | organizationDeleted | workspaceDeleted | runDeleted =>
    exact ⟨_, .single rfl (fun x hx => by cases hx) (fun r hr => .inl (List.mem_of_mem_filter hr))
      (.inr rfl)⟩
  | runCreated request w r hw hr =>
    refine ⟨_, .single rfl (fun x hx => ?_) (fun x hx => ?_) (.inl rfl)⟩
    · cases hx
      exact List.mem_append_right _ (List.mem_singleton_self _)
    · refine (List.mem_append.mp hx).imp_right fun hx => ?_
      exact congrArg Payload.run (List.mem_singleton.mp hx).symm
  | acted c action r r' hact hr ho =>
    refine ⟨_, .single rfl (fun x hx => ?_) (fun x hx => ?_) (.inl rfl)⟩
    · cases hx
      exact Keyed.mem_replace.mpr (.inl ⟨rfl, r, Store.run?_mem hr, ho.precedes.id.symm⟩)
    · rcases Keyed.mem_replace.mp hx with ⟨rfl, -⟩ | ⟨hx, -⟩
      · exact .inr rfl
      · exact .inl hx
  | chunkStored chunk s stored hs =>
    obtain ⟨-, -, hruns⟩ := Store.putChunk_eq hs
    refine ⟨_, .single rfl (fun x hx => by cases hx) (fun r hr => ?_) (.inl rfl)⟩
    have hr : r ∈ s.runs := hr
    exact .inl (hruns ▸ hr)

end Request.Effect

namespace Deed

variable {l : Ledger}

theorem supply (d : Deed) (l : Ledger) : l.supply ≤ (d.on l).supply := by
  cases d with
  | tick now => exact le_rfl
  | request c => exact (c.effect l).supply

theorem ordered (d : Deed) (h : l.store.Ordered l.supply) :
    (d.on l).store.Ordered (d.on l).supply := by
  cases d with
  | tick now => exact h
  | request c => exact (c.effect l).ordered h

/-- A run that is stored is a later state of one that was, or it was created under the next number. -/
theorem run_of (d : Deed) {r' : Run} (hr : r' ∈ (d.on l).store.runs) :
    (∃ r ∈ l.store.runs, r.Precedes r') ∨
      ((∃ request, d = .request (.createRun request)) ∧
        r'.id = Identifier.fresh Run.stem l.supply) := by
  cases d with
  | tick now => exact .inl ⟨r', hr, .refl r'⟩
  | request c =>
    rcases (c.effect l).run_cases hr with hr | ⟨r, action, -, hr, ho⟩ | ⟨⟨request, rfl⟩, hid, -⟩
    · exact .inl ⟨r', hr, .refl r'⟩
    · exact .inl ⟨r, Store.run?_mem hr, ho.precedes⟩
    · exact .inr ⟨⟨request, rfl⟩, hid⟩

/-- **Everything that is done to runs is announced.** -/
theorem news (d : Deed) (l : Ledger) : ∃ news, l.Reports (d.on l) news := by
  cases d with
  | tick now =>
    exact ⟨[], (List.append_nil _).symm, (fun _ h => by cases h), fun _ h => .inl h, fun _ h => by cases h⟩
  | request c => exact (c.effect l).news

theorem announced_run (d : Deed) {e : Event} (hm : e ∈ (d.on l).announced) {x : Run}
    (hx : e.payload = .run x) : e ∈ l.announced ∨ x ∈ (d.on l).store.runs := by
  obtain ⟨news, hn⟩ := d.news l
  rw [hn.announced] at hm
  exact (List.mem_append.mp hm).imp_right fun h => hn.stored e h x hx

end Deed

namespace Ledger

variable {l : Ledger} {x : Run}

/-- The run was stored once: its identifier was given out, and what is stored under it is a later state
of the run. -/
structure Knows (l : Ledger) (x : Run) : Prop where
  issued : Issued Run.stem l.supply x.id
  later : ∀ r ∈ l.store.runs, r.id = x.id → x.Precedes r

theorem knows_of_mem (h : l.store.Ordered l.supply) (hx : x ∈ l.store.runs) : l.Knows x where
  issued := h.issuedRuns x hx
  later r hr hid := by
    rw [h.run_eq hr hx hid]
    exact .refl x

theorem Knows.deed (h : l.Knows x) (d : Deed) : (d.on l).Knows x where
  issued := h.issued.mono (d.supply l)
  later r' hr' hid := by
    rcases d.run_of hr' with ⟨r, hr, hp⟩ | ⟨-, hf⟩
    · exact (h.later r hr (hp.id.symm.trans hid)).trans hp
    · exact absurd (hf ▸ hid ▸ h.issued) not_issued_fresh

theorem Knows.ended (h : l.Knows x) (hd : x.isDone = true) : l.Ended x.id :=
  fun r hr hid => (h.later r hr hid).done hd

end Ledger

end Provision
