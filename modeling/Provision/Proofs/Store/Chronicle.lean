import Mathlib.Data.List.Dedup
import Provision.Proofs.Store.Operation

/-!
# The history of a store

`Store.Chronicle` lists the operations that were not refused since the store was empty, with what
they returned. Identifiers may come twice in it: what was deleted may be created again, and
then the last time counts (`List.dedup` keeps the last of equal entries).

* `Store.Chronicle.integrity`: at every time records are unique and hang together, they are listed in
  the order of their creation, and no number of a chunk was ever given out twice.
-/

namespace Provision

/-- The log chunk that is the payload. -/
def Payload.chunk? : Payload → Option StoredChunk
  | .chunk c => some c
  | _ => none

namespace Store

/-! ## Identifiers in the order of creation -/

/-- The identifiers of one kind of record after an operation: one is added behind the others, or some
are removed. -/
inductive Succeeds : Option String → List String → List String → Prop
  | kept {ids ids' : List String} : ids'.Sublist ids → Succeeds none ids ids'
  | added {ids : List String} {id : String} : id ∉ ids → Succeeds (some id) ids (ids ++ [id])

theorem Succeeds.refl (ids : List String) : Succeeds none ids ids :=
  .kept (.refl ids)

/-- An identifier that is not in use goes behind all others, be it new or used before. -/
theorem sublist_dedup_concat {ids births : List String} {id : String}
    (h : ids.Sublist births.dedup) (hid : id ∉ ids) :
    (ids ++ [id]).Sublist (births ++ [id]).dedup := by
  induction births generalizing ids with
  | nil =>
    obtain rfl := List.eq_nil_of_sublist_nil h
    exact .refl _
  | cons b births ih =>
    rw [List.cons_append]
    by_cases hb : b ∈ births
    · rw [List.dedup_cons_of_mem (List.mem_append_left _ hb)]
      rw [List.dedup_cons_of_mem hb] at h
      exact ih h hid
    rw [List.dedup_cons_of_notMem hb] at h
    by_cases hbid : b = id
    · -- The earlier use of the identifier does not count any more.
      rw [List.dedup_cons_of_mem (List.mem_append_right _ (List.mem_singleton.mpr hbid))]
      cases h with
      | cons _ h => exact ih h hid
      | cons_cons _ h => exact absurd (hbid ▸ List.mem_cons_self) hid
    · rw [List.dedup_cons_of_notMem fun hm => by simp [hb, hbid] at hm]
      cases h with
      | cons _ h => exact .cons _ (ih h hid)
      | cons_cons _ h =>
        exact .cons_cons _ (ih h fun hm => hid (List.mem_cons_of_mem _ hm))

theorem Succeeds.sublist_dedup {created : Option String} {ids ids' births : List String}
    (h : Succeeds created ids ids') (hids : ids.Sublist births.dedup) :
    ids'.Sublist (births ++ created.toList).dedup := by
  cases h with
  | kept h =>
    rw [Option.toList_none, List.append_nil]
    exact h.trans hids
  | added hid => exact sublist_dedup_concat hids hid

namespace Operation

/-- The organization that an operation creates. -/
def organization? : Operation → Option String
  | createOrganization org => some org.name
  | _ => none

/-- The workspace that an operation creates. -/
def workspace? : Operation → Option String
  | createWorkspace ws => some ws.id
  | _ => none

/-- The run that an operation creates. -/
def run? : Operation → Option String
  | createRun run => some run.id
  | _ => none

namespace Outcome

variable {s s' : Store} {op : Operation} {p : Payload}

theorem organizations (h : op.Outcome s p s') : Succeeds op.organization?
    (s.organizations.map Organization.name) (s'.organizations.map Organization.name) := by
  cases h with
  | organizationCreated org ho =>
    rw [List.map_append]
    refine .added fun hm => ?_
    obtain ⟨o, hmem, he⟩ := List.mem_map.mp hm
    exact ho o hmem he
  | organizationDeleted name _ => exact .kept (List.filter_sublist.map _)
  | _ => exact .refl _

theorem workspaces (h : op.Outcome s p s') : Succeeds op.workspace?
    (s.workspaces.map Workspace.id) (s'.workspaces.map Workspace.id) := by
  cases h with
  | workspaceCreated ws ho hw =>
    rw [List.map_append]
    refine .added fun hm => ?_
    obtain ⟨w, hmem, he⟩ := List.mem_map.mp hm
    exact (hw w hmem).1 he
  | workspaceUpdated revisions w w' hw ha =>
    have he : (s.setWorkspace w').workspaces.map Workspace.id = s.workspaces.map Workspace.id :=
      Keyed.map_key_replace
    exact he ▸ .refl _
  | organizationDeleted name _ => exact .kept (List.filter_sublist.map _)
  | workspaceDeleted id _ => exact .kept (List.filter_sublist.map _)
  | _ => exact .refl _

theorem runs (h : op.Outcome s p s') : Succeeds op.run?
    (s.runs.map Run.id) (s'.runs.map Run.id) := by
  cases h with
  | runCreated run hw hr =>
    rw [List.map_append]
    refine .added fun hm => ?_
    obtain ⟨r, hmem, he⟩ := List.mem_map.mp hm
    exact hr r hmem he
  | runUpdated attempts r r' hr hp =>
    have he : (s.setRun r').runs.map Run.id = s.runs.map Run.id := Keyed.map_key_replace
    exact he ▸ .refl _
  | organizationDeleted name _ => exact .kept (List.filter_sublist.map _)
  | workspaceDeleted id _ => exact .kept (List.filter_sublist.map _)
  | runDeleted id _ => exact .kept (List.filter_sublist.map _)
  | _ => exact .refl _

/-- **A chunk that is returned** has the next number and goes behind all others; otherwise chunks are
at most removed. -/
theorem chunks (h : op.Outcome s p s') : s'.lastChunk = s.lastChunk + p.chunk?.toList.length ∧
    s'.chunks.Sublist (s.chunks ++ p.chunk?.toList) ∧ ∀ c ∈ p.chunk?, c.id = s'.lastChunk := by
  cases h with
  | chunkStored chunk hr hp =>
    refine ⟨rfl, .refl _, fun c hc => ?_⟩
    obtain rfl := Option.some.inj hc
    rfl
  | organizationDeleted | workspaceDeleted | runDeleted =>
    exact ⟨rfl, List.filter_sublist.trans (List.sublist_append_left _ _), nofun⟩
  | _ => exact ⟨rfl, List.sublist_append_left _ _, nofun⟩

end Outcome

end Operation

/-! ## Histories -/

/-- An operation that was not refused, with what it returned. -/
structure Entry where
  operation : Operation
  payload : Payload

/-- The operations since the store was empty, oldest first. Runs are created in the organizations of
their workspaces; what is refused leaves the store as it was. -/
inductive Chronicle : List Entry → Store → Prop
  | start : Chronicle [] empty
  | accepted {log : List Entry} {s s' : Store} {p : Payload} (op : Operation) :
      Chronicle log s → op.Fits s → op.perform s = .ok (p, s') →
      Chronicle (log ++ [⟨op, p⟩]) s'
  | refused {log : List Entry} {s : Store} {e : Error} (op : Operation) :
      Chronicle log s → op.perform s = .error e → Chronicle log s

/-- The operations and the store after one more operation. -/
def carryOut (op : Operation) (c : List Entry × Store) : List Entry × Store :=
  match op.perform c.2 with
  | .ok (p, s) => (c.1 ++ [⟨op, p⟩], s)
  | .error _ => c

theorem Chronicle.carryOut {c : List Entry × Store} (h : Chronicle c.1 c.2) (op : Operation)
    (hf : op.Fits c.2) : Chronicle (carryOut op c).1 (carryOut op c).2 := by
  unfold Store.carryOut
  split
  · next p s hp => exact h.accepted op hf hp
  · next e hp => exact h

/-- The organizations that were created. -/
def organizationsIn (log : List Entry) : List String :=
  log.filterMap fun e => e.operation.organization?

/-- The workspaces that were created. -/
def workspacesIn (log : List Entry) : List String :=
  log.filterMap fun e => e.operation.workspace?

/-- The runs that were created. -/
def runsIn (log : List Entry) : List String :=
  log.filterMap fun e => e.operation.run?

/-- The chunks that were returned. -/
def chunksIn (log : List Entry) : List StoredChunk :=
  log.filterMap fun e => e.payload.chunk?

theorem filterMap_concat {α β : Type} (f : α → Option β) (l : List α) (a : α) :
    (l ++ [a]).filterMap f = l.filterMap f ++ (f a).toList := by
  rw [List.filterMap_append]
  cases h : f a with
  | none => simp [h]
  | some b => simp [h]

/-- How a store agrees with its history. -/
structure Recorded (log : List Entry) (s : Store) : Prop where
  organizations : (s.organizations.map Organization.name).Sublist (organizationsIn log).dedup
  workspaces : (s.workspaces.map Workspace.id).Sublist (workspacesIn log).dedup
  runs : (s.runs.map Run.id).Sublist (runsIn log).dedup
  chunks : s.chunks.Sublist (chunksIn log)
  numbers : ((chunksIn log).map StoredChunk.id).Pairwise (· < ·)
  last : ∀ c ∈ chunksIn log, c.id ≤ s.lastChunk

namespace Recorded

variable {log : List Entry} {s s' : Store} {op : Operation} {p : Payload}

theorem start : Recorded [] empty where
  organizations := .refl _
  workspaces := .refl _
  runs := .refl _
  chunks := .refl _
  numbers := .nil
  last _ h := by cases h

theorem accepted (h : Recorded log s) (ho : op.Outcome s p s') :
    Recorded (log ++ [⟨op, p⟩]) s' := by
  obtain ⟨hlast, hchunks, hnumber⟩ := ho.chunks
  have hin : chunksIn (log ++ [⟨op, p⟩]) = chunksIn log ++ p.chunk?.toList :=
    filterMap_concat _ _ _
  have hold : ∀ c ∈ chunksIn log, c.id ≤ s'.lastChunk := fun c hc =>
    Int.le_trans (h.last c hc) (Int.ofNat_le.mpr (hlast ▸ Nat.le_add_right _ _))
  refine ⟨?_, ?_, ?_, ?_, ?_, fun c hc => ?_⟩
  · rw [organizationsIn, filterMap_concat]
    exact ho.organizations.sublist_dedup h.organizations
  · rw [workspacesIn, filterMap_concat]
    exact ho.workspaces.sublist_dedup h.workspaces
  · rw [runsIn, filterMap_concat]
    exact ho.runs.sublist_dedup h.runs
  · rw [hin]
    exact hchunks.trans (h.chunks.append_right _)
  · rw [hin, List.map_append]
    cases hp : p.chunk? with
    | none => simpa using h.numbers
    | some c =>
      refine List.pairwise_append.mpr ⟨h.numbers, List.pairwise_singleton _ _, ?_⟩
      intro x hx y hy
      obtain ⟨d, hd, rfl⟩ := List.mem_map.mp hx
      rw [List.mem_singleton.mp hy, hnumber c hp, hlast, hp]
      exact Int.lt_of_le_of_lt (h.last d hd) (Int.ofNat_lt.mpr (Nat.lt_succ_self _))
  · rw [hin] at hc
    rcases List.mem_append.mp hc with hc | hc
    · exact hold c hc
    · exact Int.le_of_eq (hnumber c (Option.mem_toList.mp hc))

end Recorded

namespace Chronicle

variable {log : List Entry} {s : Store}

theorem rooted (h : Chronicle log s) : s.Rooted := by
  induction h with
  | start => exact .empty
  | accepted op _ hf hp ih => exact ih.outcome hf (Operation.outcome hp)
  | refused op _ _ ih => exact ih

theorem logged (h : Chronicle log s) : s.Logged := by
  induction h with
  | start => exact .empty
  | accepted op _ _ hp ih => exact ih.outcome (Operation.outcome hp)
  | refused op _ _ ih => exact ih

theorem recorded (h : Chronicle log s) : Recorded log s := by
  induction h with
  | start => exact .start
  | accepted op _ _ hp ih => exact ih.accepted (Operation.outcome hp)
  | refused op _ _ ih => exact ih

/-- **Integrity of a store**, whatever was done to it. -/
theorem integrity (h : Chronicle log s) :
    s.Rooted ∧ s.Logged ∧
      (∀ run phase, (s.chunksOf run phase).Pairwise fun a b => a.chunk.offset < b.chunk.offset) ∧
      ((chunksIn log).map StoredChunk.id).Pairwise (· < ·) ∧ s.chunks.Sublist (chunksIn log) ∧
      (s.organizations.map Organization.name).Sublist (organizationsIn log).dedup ∧
      (∀ name, ((s.workspacesOf name).map Workspace.id).Sublist (workspacesIn log).dedup) ∧
      ∀ f, ((s.listRuns f).map Run.id).Sublist (runsIn log).dedup := by
  have hr := h.recorded
  refine ⟨h.rooted, h.logged, h.logged.chunksOf_pairwise, hr.numbers, hr.chunks, hr.organizations,
    fun name => ?_, fun f => ?_⟩
  · exact (List.filter_sublist.map _).trans hr.workspaces
  · exact (List.filter_sublist.map _).trans hr.runs

end Chronicle

/-- An organization that is deleted with its run and log, and created again behind another. -/
theorem integrity_recreated : ∃ log s, Chronicle log s ∧
    organizationsIn log = ["acme", "beta", "acme"] ∧
    s.organizations.map Organization.name = ["beta", "acme"] ∧
    (s.organizations.map Organization.name).Sublist (organizationsIn log).dedup ∧
    (chunksIn log).map StoredChunk.id = [1, 2] ∧ s.chunks.map StoredChunk.id = [2] ∧
    s.Rooted ∧ s.Logged := by
  let w : Workspace := ⟨"ws-1", "prod", "acme", false, ⟨0, 0⟩, none, none⟩
  let r : Run := Run.new 1 { organization := "acme", workspace := "ws-1" } ⟨0, 0⟩
  let c : Chunk := ⟨r.id, .plan, 0, [7]⟩
  have h₀ : Chronicle (([], empty) : List Entry × Store).1 _ := .start
  have h₁ := h₀.carryOut (.createOrganization ⟨"acme", ⟨0, 0⟩⟩) trivial
  have h₂ := h₁.carryOut (.createOrganization ⟨"beta", ⟨1, 0⟩⟩) trivial
  have h₃ := (h₂.carryOut (.createWorkspace w) trivial).carryOut (.createRun r) (by decide +kernel)
  have h₄ := (h₃.carryOut (.putChunk c) trivial).carryOut (.deleteOrganization "acme") trivial
  have h₅ := h₄.carryOut (.createOrganization ⟨"acme", ⟨2, 0⟩⟩) trivial
  have h₆ := (h₅.carryOut (.createWorkspace w) trivial).carryOut (.createRun r) (by decide +kernel)
  have h := h₆.carryOut (.putChunk c) trivial
  obtain ⟨hr, hl, -, -, -, ho, -⟩ := h.integrity
  exact ⟨_, _, h, by decide +kernel, by decide +kernel, ho, by decide +kernel, by decide +kernel,
    hr, hl⟩

end Store

end Provision
