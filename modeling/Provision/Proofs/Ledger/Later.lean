import Provision.Proofs.Ledger.Deed
import Provision.Proofs.Ledger.Move

/-!
# What is announced of runs

* `Ledger.Later`: a ledger becomes another one by what people do to it. Runs move on, and what was
  announced stays announced.
* `Ledger.Truthful`: the states of a run are announced as they are stored, in their order, and stay
  known (`Ledger.Truthful.later`).
* `Ledger.Later.status_told`: a run whose status is new was announced since.
* `Ledger.Tells`: what is announced tells where a run belongs (`Ledger.Truthful.place`).
-/

namespace Provision

open Identifier (Issued not_issued_fresh)

/-- If both events are about one run, the second one tells of a later state. -/
def Event.Follows (e e' : Event) : Prop :=
  ∀ x x' : Run, e.payload = .run x → e'.payload = .run x' → x'.id = x.id → x.Precedes x'

/-- Where a run belongs: its organization and its workspace, and whether it is speculative. -/
def Run.place (x : Run) : String × String × Bool :=
  (x.organization, x.workspace, x.speculative)

theorem Run.Precedes.place {x r : Run} (h : x.Precedes r) : r.place = x.place := by
  rw [Run.place, Run.place, h.organization, h.workspace, h.speculative]

/-- A run with a new status is announced with it. -/
theorem Request.Effect.status_told {c : Request} {l l' : Ledger} (he : c.Effect l l') {r : Run}
    (hr : r ∈ l'.store.runs) (hp : r.status ≠ .pending) :
    r ∈ l.store.runs ∨ l'.announced = l.announced ++ [Event.runStatus r] := by
  cases he with
  | refused | refusedLate | refusedRun | organizationCreated | workspaceCreated | locked | unlocked
  | currentRunSet | autoApplySet => exact .inl hr
  | organizationDeleted | workspaceDeleted | runDeleted => exact .inl (List.mem_of_mem_filter hr)
  | runCreated request w x hw hx =>
    rcases List.mem_append.mp hr with hr | hr
    · exact .inl hr
    · rw [List.mem_singleton.mp hr, hx] at hp
      exact absurd rfl hp
  | acted c action x x' hact hrun ho =>
    rcases Keyed.mem_replace.mp hr with ⟨rfl, -⟩ | ⟨hr, -⟩
    · exact .inr rfl
    · exact .inl hr
  | chunkStored chunk s stored hs =>
    obtain ⟨-, -, hruns⟩ := Store.putChunk_eq hs
    have hr : r ∈ s.runs := hr
    exact .inl (hruns ▸ hr)

namespace Ledger

variable {l l' : Ledger}

/-- A ledger becomes another one by what people do to it. -/
def Later : Ledger → Ledger → Prop :=
  Relation.ReflTransGen fun l l' => ∃ d : Deed, l' = d.on l

theorem Later.deed (d : Deed) (l : Ledger) : l.Later (d.on l) :=
  .single ⟨d, rfl⟩

theorem Later.of_moves {permits : Request → Prop} (h : Relation.ReflTransGen (Move permits) l l') :
    l.Later l' := by
  refine Relation.ReflTransGen.mono (fun a b hm => ?_) _ _ h
  cases hm with
  | tick now => exact ⟨.tick now, rfl⟩
  | request c _ _ => exact ⟨.request c, rfl⟩

theorem Later.supply (h : l.Later l') : l.supply ≤ l'.supply := by
  induction h with
  | refl => exact le_rfl
  | tail _ hd ih =>
    obtain ⟨d, rfl⟩ := hd
    exact ih.trans (d.supply _)

theorem Later.announced (h : l.Later l') : l.announced <+: l'.announced := by
  induction h with
  | refl => exact List.prefix_rfl
  | tail _ hd ih =>
    obtain ⟨d, rfl⟩ := hd
    obtain ⟨news, hn⟩ := d.news _
    exact ih.trans ⟨news, hn.announced.symm⟩

/-- **Runs move on**: a run that is stored under an identifier that was given out was stored before. -/
theorem Later.run (h : l.Later l') {r' : Run} (hr : r' ∈ l'.store.runs)
    (hi : Issued Run.stem l.supply r'.id) : ∃ r ∈ l.store.runs, r.Precedes r' := by
  induction h generalizing r' with
  | refl => exact ⟨r', hr, .refl r'⟩
  | tail hl hd ih =>
    obtain ⟨d, rfl⟩ := hd
    rcases d.run_of hr with ⟨y, hy, hp⟩ | ⟨-, hf⟩
    · obtain ⟨z, hz, hzy⟩ := ih hy (hp.id ▸ hi)
      exact ⟨z, hz, hzy.trans hp⟩
    · exact absurd (hf ▸ hi.mono (Later.supply hl)) not_issued_fresh

theorem Later.ended {run : String} (h : l.Later l') (hi : Issued Run.stem l.supply run) (he : l.Ended run) :
    l'.Ended run := by
  rintro r' hr' rfl
  obtain ⟨r, hr, hp⟩ := h.run hr' hi
  exact hp.done (he r hr hp.id.symm)

/-- What the announced events tell is true, and told in order. -/
structure Truthful (l : Ledger) : Prop where
  ordered : l.store.Ordered l.supply
  /-- A run was stored as it was announced. -/
  known : ∀ e ∈ l.announced, ∀ x : Run, e.payload = .run x → l.Knows x
  /-- A run was announced as it is stored. -/
  told : ∀ r ∈ l.store.runs, ∃ e ∈ l.announced, e.payload = .run r
  /-- The states of a run are announced in their order. -/
  inOrder : l.announced.Pairwise Event.Follows
  /-- What is deleted is referred to. -/
  referred : ∀ e ∈ l.announced, e.type.isDeletion = true → e = Event.deleted e.type e.payload.id

theorem Truthful.empty : ({} : Ledger).Truthful :=
  ⟨.empty, fun _ h => (by cases h), fun _ h => (by cases h), .nil, fun _ h => by cases h⟩

theorem Truthful.deed (h : l.Truthful) (d : Deed) : (d.on l).Truthful := by
  obtain ⟨news, hn⟩ := d.news l
  have ho := d.ordered h.ordered
  have hknown : ∀ e ∈ (d.on l).announced, ∀ x : Run, e.payload = .run x → (d.on l).Knows x := by
    intro e he x hx
    rw [hn.announced] at he
    rcases List.mem_append.mp he with he | he
    · exact (h.known e he x hx).deed d
    · exact knows_of_mem ho (hn.stored e he x hx)
  -- What is announced now is stored, so it comes after all that is known.
  have hnew : ∀ e ∈ (d.on l).announced, ∀ e' ∈ news, e.Follows e' := fun e he e' he' x x' hx hx' hid =>
    (hknown e he x hx).later x' (hn.stored e' he' x' hx') hid
  refine ⟨ho, hknown, fun r hr => ?_, ?_, fun e he => ?_⟩
  · rw [hn.announced]
    rcases hn.told r hr with hr | ⟨e, he, hx⟩
    · obtain ⟨e, he, hx⟩ := h.told r hr
      exact ⟨e, List.mem_append_left _ he, hx⟩
    · exact ⟨e, List.mem_append_right _ he, hx⟩
  · rw [hn.announced] at hnew ⊢
    refine List.pairwise_append.mpr ⟨h.inOrder, ?_, fun e he => hnew e (List.mem_append_left _ he)⟩
    exact List.pairwise_of_forall_mem_list fun e he => hnew e (List.mem_append_right _ he)
  · rw [hn.announced] at he
    exact (List.mem_append.mp he).elim (h.referred e) (hn.referred e)

/-- **What is announced stays true**, whatever people do. -/
theorem Truthful.later (h : l.Truthful) (hl : l.Later l') : l'.Truthful := by
  induction hl with
  | refl => exact h
  | tail _ hd ih =>
    obtain ⟨d, rfl⟩ := hd
    exact ih.deed d

/-! ## What is told of a status -/

theorem getElem?_of_prefix (h : l.announced <+: l'.announced) {k : ℕ} {e : Event}
    (he : l.announced[k]? = some e) : l'.announced[k]? = some e := by
  obtain ⟨hlt, rfl⟩ := List.getElem?_eq_some_iff.mp he
  exact List.prefix_iff_getElem?.mp h k hlt

/-- **A run with a new status was announced** with it. -/
theorem Later.status_told (h : l.Later l') {r : Run} (hr : r ∈ l'.store.runs)
    (hp : r.status ≠ .pending) : r ∈ l.store.runs ∨
      ∃ k, l.announced.length ≤ k ∧ l'.announced[k]? = some (Event.runStatus r) := by
  induction h with
  | refl => exact .inl hr
  | @tail l₁ _ hl hd ih =>
    have hlater : l₁.Later _ := .single hd
    obtain ⟨d, rfl⟩ := hd
    have hcases : r ∈ l₁.store.runs ∨ (d.on l₁).announced = l₁.announced ++ [Event.runStatus r] := by
      cases d with
      | tick now => exact .inl hr
      | request c => exact (c.effect l₁).status_told hr hp
    rcases hcases with hr | ha
    · refine (ih hr).imp_right fun ⟨k, hk, he⟩ => ⟨k, hk, ?_⟩
      exact getElem?_of_prefix hlater.announced he
    · refine .inr ⟨l₁.announced.length, (Later.announced hl).length_le, ?_⟩
      rw [ha, List.getElem?_concat_length]

/-! ## Where runs belong -/

/-- The run is one that was announced, or a later state of it. -/
def Tells (l : Ledger) (x : Run) : Prop :=
  ∃ e ∈ l.announced, ∃ y : Run, e.payload = .run y ∧ y.Precedes x

theorem tells_of_mem {e : Event} {x : Run} (he : e ∈ l.announced) (hx : e.payload = .run x) : l.Tells x :=
  ⟨e, he, x, hx, .refl x⟩

theorem Truthful.tells (h : l.Truthful) {r : Run} (hr : r ∈ l.store.runs) : l.Tells r := by
  obtain ⟨e, he, hx⟩ := h.told r hr
  exact tells_of_mem he hx

theorem Tells.mono {x : Run} (h : l.Tells x) (ha : l.announced <+: l'.announced) : l'.Tells x := by
  obtain ⟨e, he, y, hy, hp⟩ := h
  exact ⟨e, ha.subset he, y, hy, hp⟩

/-- If both events are about one run, they tell that it belongs to the same place. -/
def Agree (e e' : Event) : Prop :=
  ∀ x x' : Run, e.payload = .run x → e'.payload = .run x' → x.id = x'.id → x.place = x'.place

instance : Std.Symm Agree :=
  ⟨fun _ _ h x x' hx hx' hid => (h x' x hx' hx hid.symm).symm⟩

/-- **A run belongs to one place**, whether it is still stored or not. -/
theorem Truthful.place (h : l.Truthful) {x x' : Run} (hx : l.Tells x) (hx' : l.Tells x')
    (hid : x.id = x'.id) : x.place = x'.place := by
  obtain ⟨e, he, y, hy, hyx⟩ := hx
  obtain ⟨e', he', y', hy', hyx'⟩ := hx'
  have hagree : Agree e e' := by
    refine List.Pairwise.forall_of_forall (fun a _ z z' hz hz' _ => ?_)
      (h.inOrder.imp fun {a b} hab z z' hz hz' hid => ?_) he he'
    · rw [Payload.run.inj (hz.symm.trans hz')]
    · exact (hab z z' hz hz' hid.symm).place.symm
  rw [hyx.place, hyx'.place]
  exact hagree y y' hy hy' (hyx.id.symm.trans (hid.trans hyx'.id))

end Ledger

end Provision
