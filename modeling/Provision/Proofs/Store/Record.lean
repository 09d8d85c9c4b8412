import Provision.Proofs.Store.Operation

/-!
# Records by their keys

* `Store.record?` finds what is stored under a `Key`, and `Store.lineage` lists the keys of a record and
  of all that it belongs to.
* `Store.Puts`: one record was added or replaced. `Store.Removes`: one record was removed with all
  below it. Nothing else happened, and the order of the others is as it was.
* `Store.Operation.Outcome.turns`: every operation does one of these.
-/

namespace Provision

/-- What a record is known by. -/
inductive Key
  | organization (name : String)
  | workspace (id : String)
  | run (id : String)
  | chunk (number : Int)
  deriving DecidableEq, Repr

/-- The kind of record. -/
def Key.relation : Key → String
  | .organization _ => "organization"
  | .workspace _ => "workspace"
  | .run _ => "run"
  | .chunk _ => "chunk"

/-- The identifier in words. -/
def Key.id : Key → String
  | .organization name => name
  | .workspace id => id
  | .run id => id
  | .chunk number => toString number

/-- The key of a record; a reference to what is gone has none. -/
def Payload.key? : Payload → Option Key
  | .organization org => some (.organization org.name)
  | .workspace ws => some (.workspace ws.id)
  | .run r => some (.run r.id)
  | .chunk c => some (.chunk c.id)
  | .deleted _ _ => none

namespace Store

/-- Everything that is stored. -/
def records (s : Store) : List Payload :=
  s.organizations.map .organization ++ (s.workspaces.map .workspace ++
    (s.runs.map .run ++ s.chunks.map .chunk))

/-- The record with a key. -/
def record? (s : Store) (k : Key) : Option Payload :=
  s.records.find? fun p => decide (p.key? = some k)

section Lookup

variable (s : Store)

theorem find?_kind {α β : Type} [BEq β] [LawfulBEq β] {f : α → Payload} {g : α → β} {k : Key} {x : β}
    (h : ∀ a, (f a).key? = some k ↔ g a = x) (l : List α) :
    (l.map f).find? (fun p => decide (p.key? = some k)) = (l.find? fun a => g a == x).map f := by
  have hp : (fun p : Payload => decide (p.key? = some k)) ∘ f = fun a => g a == x :=
    funext fun a => by rw [Bool.eq_iff_iff, Function.comp_apply, decide_eq_true_iff, h, beq_iff_eq]
  rw [List.find?_map, hp]

theorem find?_other {α : Type} {f : α → Payload} {k : Key} (h : ∀ a, (f a).key? ≠ some k)
    (l : List α) : (l.map f).find? (fun p => decide (p.key? = some k)) = none := by
  refine List.find?_eq_none.mpr fun p hp => ?_
  obtain ⟨a, -, rfl⟩ := List.mem_map.mp hp
  simp [h a]

theorem record?_organization (name : String) :
    s.record? (.organization name) = (s.organization? name).map .organization := by
  simp only [record?, records, List.find?_append]
  rw [find?_kind (g := Organization.name) (x := name) fun _ => by simp [Payload.key?],
    find?_other fun _ => by simp [Payload.key?], find?_other fun _ => by simp [Payload.key?],
    find?_other fun _ => by simp [Payload.key?]]
  exact Option.or_none

theorem record?_workspace (id : String) :
    s.record? (.workspace id) = (s.workspace? id).map .workspace := by
  simp only [record?, records, List.find?_append]
  rw [find?_other fun _ => by simp [Payload.key?],
    find?_kind (g := Workspace.id) (x := id) fun _ => by simp [Payload.key?],
    find?_other fun _ => by simp [Payload.key?], find?_other fun _ => by simp [Payload.key?]]
  exact Option.or_none

theorem record?_run (id : String) : s.record? (.run id) = (s.run? id).map .run := by
  simp only [record?, records, List.find?_append]
  rw [find?_other fun _ => by simp [Payload.key?], find?_other fun _ => by simp [Payload.key?],
    find?_kind (g := Run.id) (x := id) fun _ => by simp [Payload.key?],
    find?_other fun _ => by simp [Payload.key?]]
  exact Option.or_none

theorem record?_chunk (number : Int) : s.record? (.chunk number) = (s.chunk? number).map .chunk := by
  simp only [record?, records, List.find?_append]
  rw [find?_other fun _ => by simp [Payload.key?], find?_other fun _ => by simp [Payload.key?],
    find?_other fun _ => by simp [Payload.key?],
    find?_kind (g := StoredChunk.id) (x := number) fun _ => by simp [Payload.key?]]
  rfl

variable {s}

theorem record?_organization_eq_none {name : String} :
    s.record? (.organization name) = none ↔ ∀ o ∈ s.organizations, o.name ≠ name := by
  rw [record?_organization, Option.map_eq_none_iff]
  exact Keyed.find?_eq_none_iff

theorem record?_workspace_eq_none {id : String} :
    s.record? (.workspace id) = none ↔ ∀ w ∈ s.workspaces, w.id ≠ id := by
  rw [record?_workspace, Option.map_eq_none_iff]
  exact Keyed.find?_eq_none_iff

theorem record?_run_eq_none {id : String} :
    s.record? (.run id) = none ↔ ∀ r ∈ s.runs, r.id ≠ id := by
  rw [record?_run, Option.map_eq_none_iff]
  exact Keyed.find?_eq_none_iff

end Lookup

/-! ## Where a record belongs -/

/-- The keys of a workspace and its organization. -/
def workspaceLine (w : Workspace) : List Key :=
  [.workspace w.id, .organization w.organization]

/-- The keys of a run and all above it. -/
def runLine (s : Store) (r : Run) : List Key :=
  .run r.id :: (s.workspace? r.workspace).elim [] workspaceLine

/-- The keys of a record and all that it belongs to. -/
def lineage (s : Store) : Payload → List Key
  | .organization org => [.organization org.name]
  | .workspace w => workspaceLine w
  | .run r => s.runLine r
  | .chunk c => .chunk c.id :: (s.run? c.chunk.run).elim [] s.runLine
  | .deleted _ _ => []

section Lineage

variable {s : Store}

theorem Rooted.runLine_eq (h : s.Rooted) {r : Run} (hr : r ∈ s.runs) :
    s.runLine r = [.run r.id, .workspace r.workspace, .organization r.organization] := by
  obtain ⟨w, hw, hid, ho⟩ := h.home r hr
  have hf : s.workspace? r.workspace = some w :=
    (Keyed.find?_eq_some_iff h.workspaces).mpr ⟨hw, hid⟩
  rw [runLine, hf, Option.elim_some, workspaceLine, hid, ho]

theorem Rooted.lineage_chunk (h : s.Rooted) {c : StoredChunk} {r : Run} (hr : r ∈ s.runs)
    (hid : r.id = c.chunk.run) : s.lineage (.chunk c) = .chunk c.id :: s.runLine r := by
  have hf : s.run? c.chunk.run = some r := (Keyed.find?_eq_some_iff h.runs).mpr ⟨hr, hid⟩
  rw [lineage, hf, Option.elim_some]

end Lineage

/-! ## Changes of single records -/

/-- A record was added or replaced, and nothing else happened. -/
structure Puts (s : Store) (k : Key) (p : Payload) (s' : Store) : Prop where
  key : p.key? = some k
  stored : s'.record? k = some p
  others : s'.records.filter (fun q => q.key? ≠ some k) = s.records.filter fun q => q.key? ≠ some k
  /-- Chunks are counted as they come. -/
  counter : s'.lastChunk = s.lastChunk + if k.relation = "chunk" then 1 else 0

/-- A record was removed with all below it, and nothing else happened. -/
structure Removes (s : Store) (k : Key) (p : Payload) (s' : Store) : Prop where
  reference : p = .deleted k.relation k.id
  others : s'.records = s.records.filter fun q => k ∉ s.lineage q
  counter : s'.lastChunk = s.lastChunk

/-- What an event of a type says about a store before and after it: a new record was added, one that
was there was replaced, or one that was there was removed. -/
def Turns (s : Store) (type : EventType) (k : Key) (p : Payload) (s' : Store) : Prop :=
  k.relation = type.relation ∧
    if type.isDeletion then s.record? k ≠ none ∧ s.Removes k p s'
    else (s.record? k = none ↔ type.action = "created") ∧ s.Puts k p s'

section Put

variable {α : Type} {key : α → String} {f : α → Payload} {P : Payload → Bool} {l : List α} {a : α}

theorem filter_map_concat (ha : P (f a) = false) : ((l ++ [a]).map f).filter P = (l.map f).filter P := by
  simp [ha]

theorem filter_map_replace (hP : ∀ v, key v = key a → P (f v) = false) :
    ((Keyed.replace key l a).map f).filter P = (l.map f).filter P := by
  unfold Keyed.replace
  induction l with
  | nil => rfl
  | cons v l ih =>
    rw [List.map_cons, List.map_cons, List.map_cons]
    by_cases hv : key v = key a
    · rw [if_pos hv, List.filter_cons_of_neg (by simp [hP a rfl]),
        List.filter_cons_of_neg (by simp [hP v hv]), ih]
    · rw [if_neg hv, List.filter_cons, List.filter_cons, ih]

variable {s : Store} {org : Organization} {w w' : Workspace} {r r' : Run} {chunk : Chunk}

theorem puts_addOrganization (h : s.Rooted) (ho : ∀ o ∈ s.organizations, o.name ≠ org.name) :
    s.Puts (.organization org.name) (.organization org)
      { s with organizations := s.organizations ++ [org] } where
  key := rfl
  stored := by
    rw [record?_organization]
    refine Option.map_eq_some_iff.mpr ⟨org, ?_, rfl⟩
    exact (Keyed.find?_eq_some_iff (Keyed.nodup_concat h.organizations ho)).mpr
      ⟨List.mem_append_right _ (List.mem_singleton_self _), rfl⟩
  others := by
    simp only [records, List.filter_append]
    rw [filter_map_concat (by simp [Payload.key?])]
  counter := rfl

theorem puts_addWorkspace (h : s.Rooted) (hw : ∀ v ∈ s.workspaces, v.id ≠ w.id) :
    s.Puts (.workspace w.id) (.workspace w) { s with workspaces := s.workspaces ++ [w] } where
  key := rfl
  stored := by
    rw [record?_workspace]
    refine Option.map_eq_some_iff.mpr ⟨w, ?_, rfl⟩
    exact (Keyed.find?_eq_some_iff (Keyed.nodup_concat h.workspaces hw)).mpr
      ⟨List.mem_append_right _ (List.mem_singleton_self _), rfl⟩
  others := by
    simp only [records, List.filter_append]
    rw [filter_map_concat (by simp [Payload.key?])]
  counter := rfl

theorem puts_setWorkspace (hw : w ∈ s.workspaces) (hid : w'.id = w.id) :
    s.Puts (.workspace w.id) (.workspace w') (s.setWorkspace w') where
  key := congrArg (fun id => some (Key.workspace id)) hid
  stored := by
    rw [record?_workspace, ← hid]
    exact congrArg (Option.map Payload.workspace) (Keyed.find?_replace_self ⟨w, hw, hid.symm⟩)
  others := by
    simp only [records, setWorkspace, List.filter_append]
    rw [filter_map_replace fun v hv => by simp [Payload.key?, hv, hid]]
  counter := rfl

theorem puts_addRun (h : s.Rooted) (hr : ∀ v ∈ s.runs, v.id ≠ r.id) :
    s.Puts (.run r.id) (.run r) { s with runs := s.runs ++ [r] } where
  key := rfl
  stored := by
    rw [record?_run]
    refine Option.map_eq_some_iff.mpr ⟨r, ?_, rfl⟩
    exact (Keyed.find?_eq_some_iff (Keyed.nodup_concat h.runs hr)).mpr
      ⟨List.mem_append_right _ (List.mem_singleton_self _), rfl⟩
  others := by
    simp only [records, List.filter_append]
    rw [filter_map_concat (by simp [Payload.key?])]
  counter := rfl

theorem puts_setRun (hr : r ∈ s.runs) (hid : r'.id = r.id) :
    s.Puts (.run r.id) (.run r') (s.setRun r') where
  key := congrArg (fun id => some (Key.run id)) hid
  stored := by
    rw [record?_run, ← hid]
    exact congrArg (Option.map Payload.run) (Keyed.find?_replace_self ⟨r, hr, hid.symm⟩)
  others := by
    simp only [records, setRun, List.filter_append]
    rw [filter_map_replace fun v hv => by simp [Payload.key?, hv, hid]]
  counter := rfl

theorem chunk?_numbered (h : s.Logged) : s.chunk? (s.numbered chunk).id = none := by
  refine List.find?_eq_none.mpr fun c hc he => ?_
  have hlt : c.id < (s.numbered chunk).id :=
    Int.lt_of_le_of_lt (h.last c hc) (Int.ofNat_lt.mpr (Nat.lt_succ_self _))
  exact Int.ne_of_lt hlt (by simpa using he)

theorem puts_addChunk (h : s.Logged) :
    s.Puts (.chunk (s.numbered chunk).id) (.chunk (s.numbered chunk)) (s.addChunk chunk) where
  key := rfl
  stored := by
    have hn : s.chunks.find? (fun c => c.id == (s.numbered chunk).id) = none := chunk?_numbered h
    rw [record?_chunk, chunk?, addChunk, List.find?_append, hn]
    simp
  others := by
    simp only [records, addChunk, List.filter_append]
    rw [filter_map_concat (by simp [Payload.key?])]
  counter := rfl

end Put

/-! ## Removing -/

section Remove

variable {s s' : Store} {k : Key} {keep : Run → Bool}

theorem records_eq_filter {P : Payload → Bool}
    (ho : s'.organizations = s.organizations.filter fun o => P (.organization o))
    (hw : s'.workspaces = s.workspaces.filter fun w => P (.workspace w))
    (hr : s'.runs = s.runs.filter fun r => P (.run r))
    (hc : s'.chunks = s.chunks.filter fun c => P (.chunk c)) :
    s'.records = s.records.filter P := by
  simp only [records, ho, hw, hr, hc, List.filter_append, List.filter_map, Function.comp_def]

/-- **The chunks that go** are those that belong to what goes. -/
theorem chunks_keepRuns (h : s.Rooted) (hl : s.Logged) (hk : ∀ number, k ≠ .chunk number)
    (hr : ∀ r ∈ s.runs, keep r = true ↔ k ∉ s.runLine r) :
    (s.keepRuns keep).chunks = s.chunks.filter fun c => k ∉ s.lineage (.chunk c) := by
  refine List.filter_congr fun c hc => ?_
  obtain ⟨r, hrun, hid⟩ := hl.origin c hc
  have hmem : c.chunk.run ∈ (s.runs.filter fun r => !keep r).map Run.id ↔ k ∈ s.runLine r := by
    constructor
    · intro hm
      obtain ⟨v, hv, hvid⟩ := List.mem_map.mp hm
      obtain ⟨hv, hnot⟩ := List.mem_filter.mp hv
      obtain rfl := Keyed.eq_of_key h.runs hv hrun (hvid.trans hid.symm)
      by_contra hn
      simp [(hr v hv).mpr hn] at hnot
    · intro hm
      refine List.mem_map.mpr ⟨r, List.mem_filter.mpr ⟨hrun, ?_⟩, hid⟩
      cases hkeep : keep r with
      | false => rfl
      | true => exact absurd hm ((hr r hrun).mp hkeep)
  rw [h.lineage_chunk hrun hid]
  simp [hmem, hk c.id]

theorem runs_keepRuns (hr : ∀ r ∈ s.runs, keep r = true ↔ k ∉ s.runLine r) :
    (s.keepRuns keep).runs = s.runs.filter fun r => k ∉ s.lineage (.run r) :=
  List.filter_congr fun r hm => by
    rw [Bool.eq_iff_iff, hr r hm, decide_eq_true_iff]
    rfl

theorem removes_dropOrganization (h : s.Rooted) (hl : s.Logged) (name : String) :
    s.Removes (.organization name) (.deleted "organization" name) (s.dropOrganization name) where
  reference := rfl
  others := by
    have hr : ∀ r ∈ s.runs, (r.organization != name) = true ↔
        Key.organization name ∉ s.runLine r := fun r hm => by
      simpa [h.runLine_eq hm] using ne_comm
    refine records_eq_filter ?_ ?_ (runs_keepRuns hr) (chunks_keepRuns h hl nofun hr)
    · exact List.filter_congr fun o _ => by simp [lineage, bne, beq_eq_decide, eq_comm]
    · exact List.filter_congr fun w _ => by simp [lineage, workspaceLine, bne, beq_eq_decide, eq_comm]
  counter := rfl

theorem removes_dropWorkspace (h : s.Rooted) (hl : s.Logged) (id : String) :
    s.Removes (.workspace id) (.deleted "workspace" id) (s.dropWorkspace id) where
  reference := rfl
  others := by
    have hr : ∀ r ∈ s.runs, (r.workspace != id) = true ↔ Key.workspace id ∉ s.runLine r :=
      fun r hm => by simpa [h.runLine_eq hm] using ne_comm
    refine records_eq_filter ?_ ?_ (runs_keepRuns hr) (chunks_keepRuns h hl nofun hr)
    · exact (List.filter_eq_self.mpr fun o _ => by simp [lineage]).symm
    · exact List.filter_congr fun w _ => by simp [lineage, workspaceLine, bne, beq_eq_decide, eq_comm]
  counter := rfl

theorem removes_keepRuns (h : s.Rooted) (hl : s.Logged) (id : String) :
    s.Removes (.run id) (.deleted "run" id) (s.keepRuns fun r => r.id != id) where
  reference := rfl
  others := by
    have hr : ∀ r ∈ s.runs, (r.id != id) = true ↔ Key.run id ∉ s.runLine r :=
      fun r hm => by simpa [h.runLine_eq hm] using ne_comm
    refine records_eq_filter ?_ ?_ (runs_keepRuns hr) (chunks_keepRuns h hl nofun hr)
    · exact (List.filter_eq_self.mpr fun o _ => by simp [lineage]).symm
    · exact (List.filter_eq_self.mpr fun w _ => by simp [lineage, workspaceLine]).symm
  counter := rfl

end Remove

/-! ## What operations do -/

namespace Operation

/-- The key of the record that an operation is about; a chunk has none before it is stored. -/
def key? : Operation → Option Key
  | createOrganization org => some (.organization org.name)
  | deleteOrganization name => some (.organization name)
  | createWorkspace ws => some (.workspace ws.id)
  | updateWorkspace id _ => some (.workspace id)
  | deleteWorkspace id => some (.workspace id)
  | createRun run => some (.run run.id)
  | updateRun id _ => some (.run id)
  | deleteRun id => some (.run id)
  | putChunk _ => none

/-- The types of the events that may announce an operation. -/
def types : Operation → List EventType
  | createOrganization _ => [.organizationCreated]
  | deleteOrganization _ => [.organizationDeleted]
  | createWorkspace _ => [.workspaceCreated]
  | updateWorkspace _ _ => [.workspaceUpdated, .workspaceLocked, .workspaceUnlocked]
  | deleteWorkspace _ => [.workspaceDeleted]
  | createRun _ => [.runCreated]
  | updateRun _ _ => [.runStatusUpdate]
  | deleteRun _ => [.runDeleted]
  | putChunk _ => [.chunkCreated]

variable {s s' : Store} {op : Operation} {p : Payload}

/-- **What an operation does to single records**, as an event that announces it says. -/
theorem Outcome.turns (h : op.Outcome s p s') (hr : s.Rooted) (hl : s.Logged) :
    ∃ k, (∀ t ∈ op.key?, k = t) ∧ ∀ type ∈ op.types, s.Turns type k p s' := by
  cases h with
  | organizationCreated org ho =>
    refine ⟨.organization org.name, fun t => Option.some.inj, fun type ht => ?_⟩
    obtain rfl := List.mem_singleton.mp ht
    exact ⟨rfl, iff_of_true (record?_organization_eq_none.mpr ho) rfl, puts_addOrganization hr ho⟩
  | organizationDeleted name ho =>
    obtain ⟨o, hm, rfl⟩ := ho
    refine ⟨.organization o.name, fun t => Option.some.inj, fun type ht => ?_⟩
    obtain rfl := List.mem_singleton.mp ht
    exact ⟨rfl, fun hn => record?_organization_eq_none.mp hn o hm rfl,
      removes_dropOrganization hr hl o.name⟩
  | workspaceCreated ws ho hw =>
    have hid : ∀ w ∈ s.workspaces, w.id ≠ ws.id := fun w hm => (hw w hm).1
    refine ⟨.workspace ws.id, fun t => Option.some.inj, fun type ht => ?_⟩
    obtain rfl := List.mem_singleton.mp ht
    exact ⟨rfl, iff_of_true (record?_workspace_eq_none.mpr hid) rfl, puts_addWorkspace hr hid⟩
  | workspaceUpdated revisions w w' hw ha =>
    have hm := workspace?_mem hw
    have hs : s.record? (.workspace w.id) ≠ none := fun hn =>
      record?_workspace_eq_none.mp hn w hm rfl
    refine ⟨.workspace w.id, fun t => Option.some.inj, fun type ht => ?_⟩
    simp only [types, List.mem_cons, List.not_mem_nil, or_false] at ht
    rcases ht with rfl | rfl | rfl
    · exact ⟨rfl, iff_of_false hs (by decide), puts_setWorkspace hm ha.id⟩
    · exact ⟨rfl, iff_of_false hs (by decide), puts_setWorkspace hm ha.id⟩
    · exact ⟨rfl, iff_of_false hs (by decide), puts_setWorkspace hm ha.id⟩
  | workspaceDeleted id hw =>
    obtain ⟨w, hm, rfl⟩ := hw
    refine ⟨.workspace w.id, fun t => Option.some.inj, fun type ht => ?_⟩
    obtain rfl := List.mem_singleton.mp ht
    exact ⟨rfl, fun hn => record?_workspace_eq_none.mp hn w hm rfl,
      removes_dropWorkspace hr hl w.id⟩
  | runCreated run hw hid =>
    refine ⟨.run run.id, fun t => Option.some.inj, fun type ht => ?_⟩
    obtain rfl := List.mem_singleton.mp ht
    exact ⟨rfl, iff_of_true (record?_run_eq_none.mpr hid) rfl, puts_addRun hr hid⟩
  | runUpdated attempts r r' hrun hp =>
    have hm := run?_mem hrun
    refine ⟨.run r.id, fun t => Option.some.inj, fun type ht => ?_⟩
    obtain rfl := List.mem_singleton.mp ht
    exact ⟨rfl, iff_of_false (fun hn => record?_run_eq_none.mp hn r hm rfl) (by decide),
      puts_setRun hm hp.id⟩
  | runDeleted id hrun =>
    obtain ⟨r, hm, rfl⟩ := hrun
    refine ⟨.run r.id, fun t => Option.some.inj, fun type ht => ?_⟩
    obtain rfl := List.mem_singleton.mp ht
    exact ⟨rfl, fun hn => record?_run_eq_none.mp hn r hm rfl, removes_keepRuns hr hl r.id⟩
  | chunkStored chunk hrun hp =>
    have hn : s.record? (.chunk (s.numbered chunk).id) = none := by
      rw [record?_chunk, chunk?_numbered hl]
      rfl
    refine ⟨.chunk (s.numbered chunk).id, nofun, fun type ht => ?_⟩
    obtain rfl := List.mem_singleton.mp ht
    exact ⟨rfl, iff_of_true hn rfl, puts_addChunk hl⟩

end Operation

end Store

end Provision
