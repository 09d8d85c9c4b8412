import Provision.Proofs.Ledger.Request
import Provision.Proofs.Run.Course
import Provision.Proofs.Store.Chunks

/-!
# Referential integrity

* `Store.Rooted`: no two organizations, workspaces or runs share an identity, and each belongs to
  something that is stored.
* `Store.Logged`: no two log chunks share a number or a place, and each belongs to a stored run.

Both are kept by every change of a store; what is deleted takes with it all that belongs to it.
-/

namespace Provision

namespace Store

/-- Organizations, workspaces and runs are unique and hang together. -/
structure Rooted (s : Store) : Prop where
  organizations : (s.organizations.map Organization.name).Nodup
  workspaces : (s.workspaces.map Workspace.id).Nodup
  /-- Names are unique in an organization. -/
  names : (s.workspaces.map fun w => (w.organization, w.name)).Nodup
  runs : (s.runs.map Run.id).Nodup
  /-- Every workspace is in an organization. -/
  seat : ∀ w ∈ s.workspaces, ∃ o ∈ s.organizations, o.name = w.organization
  /-- Every run is in a workspace of its organization. -/
  home : ∀ r ∈ s.runs, ∃ w ∈ s.workspaces, w.id = r.workspace ∧ w.organization = r.organization

/-- Log chunks are unique and belong to runs. -/
structure Logged (s : Store) : Prop where
  numbers : (s.chunks.map StoredChunk.id).Pairwise (· < ·)
  /-- No number is beyond the last one given out. -/
  last : ∀ c ∈ s.chunks, c.id ≤ s.lastChunk
  places : (s.chunks.map fun c => c.chunk.place).Nodup
  origin : ∀ c ∈ s.chunks, ∃ r ∈ s.runs, r.id = c.chunk.run

namespace Rooted

variable {s : Store}

theorem empty : ({} : Store).Rooted where
  organizations := List.nodup_nil
  workspaces := List.nodup_nil
  names := List.nodup_nil
  runs := List.nodup_nil
  seat _ h := by cases h
  home _ h := by cases h

theorem addOrganization (h : s.Rooted) {o : Organization}
    (ho : ∀ p ∈ s.organizations, p.name ≠ o.name) :
    ({ s with organizations := s.organizations ++ [o] } : Store).Rooted :=
  { h with
    organizations := Keyed.nodup_concat h.organizations ho
    seat := by
      intro w hw
      obtain ⟨p, hp, he⟩ := h.seat w hw
      exact ⟨p, List.mem_append_left _ hp, he⟩ }

theorem dropOrganization (h : s.Rooted) (name : String) : (s.dropOrganization name).Rooted where
  organizations := h.organizations.sublist (List.filter_sublist.map _)
  workspaces := h.workspaces.sublist (List.filter_sublist.map _)
  names := h.names.sublist (List.filter_sublist.map _)
  runs := h.runs.sublist (List.filter_sublist.map _)
  seat w hw := by
    obtain ⟨hw, hne⟩ := List.mem_filter.mp hw
    obtain ⟨o, ho, he⟩ := h.seat w hw
    exact ⟨o, List.mem_filter.mpr ⟨ho, he ▸ hne⟩, he⟩
  home r hr := by
    obtain ⟨hr, hne⟩ := List.mem_filter.mp hr
    obtain ⟨w, hw, hid, he⟩ := h.home r hr
    exact ⟨w, List.mem_filter.mpr ⟨hw, he ▸ hne⟩, hid, he⟩

theorem addWorkspace (h : s.Rooted) {w : Workspace}
    (ho : ∃ o ∈ s.organizations, o.name = w.organization) (hid : ∀ v ∈ s.workspaces, v.id ≠ w.id)
    (hn : ∀ v ∈ s.workspaces, (v.organization, v.name) ≠ (w.organization, w.name)) :
    ({ s with workspaces := s.workspaces ++ [w] } : Store).Rooted :=
  { h with
    workspaces := Keyed.nodup_concat h.workspaces hid
    names := Keyed.nodup_concat h.names hn
    seat := by
      intro v hv
      rcases List.mem_append.mp hv with hv | hv
      · exact h.seat v hv
      · rw [List.mem_singleton.mp hv]
        exact ho
    home := by
      intro r hr
      obtain ⟨v, hv, he⟩ := h.home r hr
      exact ⟨v, List.mem_append_left _ hv, he⟩ }

theorem dropWorkspace (h : s.Rooted) (id : String) : (s.dropWorkspace id).Rooted where
  organizations := h.organizations
  workspaces := h.workspaces.sublist (List.filter_sublist.map _)
  names := h.names.sublist (List.filter_sublist.map _)
  runs := h.runs.sublist (List.filter_sublist.map _)
  seat w hw := h.seat w (List.mem_of_mem_filter hw)
  home r hr := by
    obtain ⟨hr, hne⟩ := List.mem_filter.mp hr
    obtain ⟨w, hw, he, ho⟩ := h.home r hr
    exact ⟨w, List.mem_filter.mpr ⟨hw, he ▸ hne⟩, he, ho⟩

/-- **A workspace is replaced** by one with the same identity. -/
theorem setWorkspace (h : s.Rooted) {w w' : Workspace} (hw : w ∈ s.workspaces) (hid : w'.id = w.id)
    (ho : w'.organization = w.organization) (hn : w'.name = w.name) :
    (s.setWorkspace w').Rooted := by
  have hold : ∀ v ∈ s.workspaces, v.id = w'.id → v = w := fun v hv he =>
    Keyed.eq_of_key h.workspaces hv hw (he.trans hid)
  have hnames : ((s.setWorkspace w').workspaces.map fun v => (v.organization, v.name)) =
      s.workspaces.map fun v => (v.organization, v.name) :=
    Keyed.map_replace fun v hv he => by rw [hold v hv he, ho, hn]
  refine ⟨h.organizations, ?_, hnames ▸ h.names, h.runs, fun v hv => ?_, fun r hr => ?_⟩
  · exact (Keyed.map_key_replace : _ = s.workspaces.map Workspace.id).symm ▸ h.workspaces
  · rcases Keyed.mem_replace.mp hv with ⟨rfl, -⟩ | ⟨hv, -⟩
    · exact ho ▸ h.seat w hw
    · exact h.seat v hv
  · obtain ⟨v, hv, he, hvo⟩ := h.home r hr
    by_cases hvw : v.id = w'.id
    · obtain rfl := hold v hv hvw
      exact ⟨w', Keyed.mem_replace.mpr (.inl ⟨rfl, v, hv, hvw⟩), hid.trans he, ho.trans hvo⟩
    · exact ⟨v, Keyed.mem_replace.mpr (.inr ⟨hv, hvw⟩), he, hvo⟩

theorem addRun (h : s.Rooted) {r : Run} (hid : ∀ v ∈ s.runs, v.id ≠ r.id)
    (hh : ∃ w ∈ s.workspaces, w.id = r.workspace ∧ w.organization = r.organization) :
    ({ s with runs := s.runs ++ [r] } : Store).Rooted :=
  { h with
    runs := Keyed.nodup_concat h.runs hid
    home := by
      intro v hv
      rcases List.mem_append.mp hv with hv | hv
      · exact h.home v hv
      · rw [List.mem_singleton.mp hv]
        exact hh }

/-- **A run is replaced** by a later state of it. -/
theorem setRun (h : s.Rooted) {r r' : Run} (hr : r ∈ s.runs) (hp : r.Precedes r') :
    (s.setRun r').Rooted :=
  { h with
    runs := (Keyed.map_key_replace : _ = s.runs.map Run.id).symm ▸ h.runs
    home := by
      intro v hv
      rcases Keyed.mem_replace.mp hv with ⟨rfl, -⟩ | ⟨hv, -⟩
      · exact hp.workspace ▸ hp.organization ▸ h.home r hr
      · exact h.home v hv }

theorem keepRuns (h : s.Rooted) (keep : Run → Bool) : (s.keepRuns keep).Rooted :=
  { h with
    runs := h.runs.sublist (List.filter_sublist.map _)
    home := fun r hr => h.home r (List.mem_of_mem_filter hr) }

theorem addChunk (h : s.Rooted) (chunk : Chunk) : (s.addChunk chunk).Rooted :=
  { h with }

end Rooted

namespace Logged

variable {s s' : Store}

theorem empty : ({} : Store).Logged where
  numbers := List.Pairwise.nil
  last _ h := by cases h
  places := List.nodup_nil
  origin _ h := by cases h

/-- **Nothing happens to the log** as long as no run is removed. -/
theorem of_runs (h : s.Logged) (hc : s'.chunks = s.chunks) (hl : s'.lastChunk = s.lastChunk)
    (hr : ∀ id ∈ s.runs.map Run.id, id ∈ s'.runs.map Run.id) : s'.Logged where
  numbers := hc ▸ h.numbers
  last c hm := hl ▸ h.last c (hc ▸ hm)
  places := hc ▸ h.places
  origin c hm := by
    obtain ⟨r, hr', he⟩ := h.origin c (hc ▸ hm)
    exact List.mem_map.mp (hr _ (List.mem_map.mpr ⟨r, hr', he⟩))

/-- **The chunks of removed runs go** with them. -/
theorem keepRuns (h : s.Logged) (keep : Run → Bool) : (s.keepRuns keep).Logged where
  numbers := h.numbers.sublist (List.filter_sublist.map _)
  last c hc := h.last c (List.mem_of_mem_filter hc)
  places := h.places.sublist (List.filter_sublist.map _)
  origin c hc := by
    obtain ⟨hc, hkept⟩ := List.mem_filter.mp hc
    obtain ⟨r, hr, he⟩ := h.origin c hc
    refine ⟨r, List.mem_filter.mpr ⟨hr, ?_⟩, he⟩
    by_contra hk
    simp only [Bool.not_eq_true', List.contains_eq_mem, decide_eq_false_iff_not] at hkept
    exact hkept (List.mem_map.mpr ⟨r, List.mem_filter.mpr ⟨hr, by simpa using hk⟩, he⟩)

theorem dropOrganization (h : s.Logged) (name : String) : (s.dropOrganization name).Logged := by
  refine keepRuns ?_ _
  exact h.of_runs rfl rfl fun _ hid => hid

theorem dropWorkspace (h : s.Logged) (id : String) : (s.dropWorkspace id).Logged := by
  refine keepRuns ?_ _
  exact h.of_runs rfl rfl fun _ hid => hid

theorem addChunk (h : s.Logged) {chunk : Chunk} (hr : ∃ r ∈ s.runs, r.id = chunk.run)
    (hp : ∀ c ∈ s.chunks, c.chunk.place ≠ chunk.place) : (s.addChunk chunk).Logged where
  numbers := by
    change ((s.chunks ++ [s.numbered chunk]).map StoredChunk.id).Pairwise (· < ·)
    rw [List.map_append]
    refine List.pairwise_append.mpr ⟨h.numbers, List.pairwise_singleton _ _, fun x hx y hy => ?_⟩
    obtain ⟨c, hc, rfl⟩ := List.mem_map.mp hx
    rw [List.mem_singleton.mp hy]
    exact Int.lt_of_le_of_lt (h.last c hc) (Int.ofNat_lt.mpr (Nat.lt_succ_self _))
  last c hc := by
    rcases List.mem_append.mp hc with hc | hc
    · exact Int.le_trans (h.last c hc) (Int.ofNat_le.mpr (Nat.le_succ _))
    · rw [List.mem_singleton.mp hc]
      exact Int.le_refl _
  places := Keyed.nodup_concat h.places hp
  origin c hc := by
    rcases List.mem_append.mp hc with hc | hc
    · exact h.origin c hc
    · rw [List.mem_singleton.mp hc]
      exact hr

/-- **The chunks of a phase are in the order of their offsets**, of which none comes twice. -/
theorem chunksOf_pairwise (h : s.Logged) (run : String) (phase : PhaseKind) :
    (s.chunksOf run phase).Pairwise fun a b => a.chunk.offset < b.chunk.offset := by
  have hn : (s.chunksOf run phase).Pairwise fun a b => a.chunk.place ≠ b.chunk.place := by
    have hp : ((s.chunksOf run phase).map fun c => c.chunk.place).Nodup :=
      (chunksOf_perm.map _).nodup_iff.mpr (h.places.sublist (List.filter_sublist.map _))
    exact List.pairwise_map.mp hp
  refine ((chunksOf_pairwise_le s run phase).and hn).imp_of_mem fun {a b} ha hb hab => ?_
  obtain ⟨-, hra, hpa⟩ := mem_chunksOf.mp ha
  obtain ⟨-, hrb, hpb⟩ := mem_chunksOf.mp hb
  refine Int.lt_iff_le_and_ne.mpr ⟨hab.1, fun he => hab.2 ?_⟩
  simp [Chunk.place, hra, hrb, hpa, hpb, he]

end Logged

end Store

end Provision
