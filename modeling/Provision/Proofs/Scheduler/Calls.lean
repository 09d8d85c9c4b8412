import Provision.Proofs.Ledger.Move
import Provision.Proofs.Scheduler.World

/-!
# The calls of a scheduler

* `Request.IsScheduling`: the calls that a scheduler makes to change the store.
* `Scheduler.handle_moves`, `Scheduler.dispatch_moves`, `Scheduler.seed_moves`: it makes no others, and
  neither do its queues.
* `Ledger.Frame`: what these calls leave alone.
-/

namespace Provision

/-- The calls by which a scheduler changes the store. -/
def Request.IsScheduling : Request → Prop
  | .enqueuePlan _ | .setCurrentRun .. => True
  | .lock _ holder => holder.isUser = false
  | .unlock _ requester force => requester.isUser = false ∧ force = false
  | _ => False

/-- The calls of a scheduler that admits none but certain runs. -/
def Request.Schedules (admissible : String → Prop) (c : Request) : Prop :=
  c.IsScheduling ∧ ∀ run, c = .enqueuePlan run → admissible run

namespace Ledger

variable {l l' l'' : Ledger}

/-- Nothing is created or removed, and runs keep their flags. -/
structure Frame (l l' : Ledger) : Prop where
  organizations : l'.store.organizations = l.store.organizations
  workspaces : l'.store.workspaces.map Workspace.id = l.store.workspaces.map Workspace.id
  runs : l'.store.runs.map Run.id = l.store.runs.map Run.id
  chunks : l'.store.chunks = l.store.chunks
  lastChunk : l'.store.lastChunk = l.store.lastChunk
  speculative : ∀ run,
    (l'.store.run? run).map Run.speculative = (l.store.run? run).map Run.speculative

namespace Frame

theorem refl (l : Ledger) : l.Frame l :=
  ⟨rfl, rfl, rfl, rfl, rfl, fun _ => rfl⟩

theorem trans (h : l.Frame l') (h' : l'.Frame l'') : l.Frame l'' :=
  ⟨h'.organizations.trans h.organizations, h'.workspaces.trans h.workspaces, h'.runs.trans h.runs,
    h'.chunks.trans h.chunks, h'.lastChunk.trans h.lastChunk,
    fun run => (h'.speculative run).trans (h.speculative run)⟩

theorem tick (l : Ledger) (now : Instant) : l.Frame { l with clock := now } :=
  ⟨rfl, rfl, rfl, rfl, rfl, fun _ => rfl⟩

theorem putWorkspace (type : EventType) (w : Workspace) : l.Frame (l.putWorkspace type w) :=
  ⟨rfl, Keyed.map_key_replace, rfl, rfl, rfl, fun _ => rfl⟩

theorem putRun {r r' : Run} (hr : l.store.run? r.id = some r) (hp : r.Precedes r') :
    l.Frame (l.putRun r') := by
  refine ⟨rfl, rfl, Keyed.map_key_replace, rfl, rfl, fun run => ?_⟩
  by_cases hrun : run = r.id
  · rw [hrun, run?_putRun hr _ hp.id, hr, Option.map_some, Option.map_some, hp.speculative]
  · rw [run?_putRun_of_ne (hp.id ▸ hrun)]

end Frame

end Ledger

theorem Request.Effect.frame {c : Request} {l l' : Ledger} (he : c.Effect l l') (hc : c.IsScheduling) :
    l.Frame l' := by
  cases he with
  | refused => exact .refl l
  | locked | unlocked | currentRunSet => exact .putWorkspace _ _
  | acted c action r r' hact hr ho => exact .putRun hr ho.precedes
  | _ => exact hc.elim

/-- **What a scheduler leaves alone.** -/
theorem Ledger.Frame.of_moves {l l' : Ledger}
    (h : Relation.ReflTransGen (Ledger.Move Request.IsScheduling) l l') : l.Frame l' := by
  induction h with
  | refl => exact .refl l
  | @tail l₁ l₂ _ hm ih =>
    cases hm with
    | tick now => exact ih.trans (.tick l₁ now)
    | request c hc _ => exact ih.trans ((c.effect l₁).frame hc)

namespace Scheduler

/-- **The services as a backend**, in which a queue that uses some runs only makes no calls but those of a
scheduler, and admits no others. -/
theorem backend_laws (used : String → Prop) : Backend.services.Laws
    (Relation.ReflTransGen (Ledger.Move (Request.Schedules used))) (fun run _ => used run)
      fun _ _ => True where
  refl _ := .refl
  trans h h' := h.trans h'
  used _ hu := hu
  ended _ _ := trivial
  getRun id l := (Service.getRun_snd id l).symm ▸ .refl
  found {id l l' r} h _ := ⟨Store.run?_id (Service.run?_of_getRun (congrArg Prod.fst h)), fun _ => trivial⟩
  gone _ _ _ := trivial
  enqueuePlan {run l} hu :=
    Ledger.moves_call (c := .enqueuePlan run) rfl ⟨trivial, fun _ h => Request.enqueuePlan.inj h ▸ hu⟩
      fun _ h => by cases h
  lockWorkspace v run l _ :=
    Ledger.moves_call (c := .lock v (.run run)) rfl ⟨rfl, nofun⟩ fun _ h => by cases h
  unlockWorkspace v run l _ :=
    Ledger.moves_call (c := .unlock v (.run run) false) rfl ⟨⟨rfl, rfl⟩, nofun⟩ fun _ h => by cases h
  setCurrentRun v run l :=
    Ledger.moves_call (c := .setCurrentRun v run) rfl ⟨trivial, nofun⟩ fun _ h => by cases h

/-- **The services are a world** in which a scheduler makes no calls but its own. -/
theorem services_laws : World.services.Laws
    (Relation.ReflTransGen (Ledger.Move (Request.Schedules fun _ => True))) (fun _ _ => True)
      fun _ _ => True where
  toLaws := backend_laws fun _ => True
  getWorkspace id l := (Service.getWorkspace_snd id l).symm ▸ .refl
  listOrganizations _ := .refl
  listWorkspaces _ _ := .refl
  holders _ _ _ _ _ := trivial
  listRuns _ _ := .refl
  listed {f l l' runs} h r hr := by
    have hm : r ∈ l.store.listRuns f := Except.ok.inj (congrArg Prod.fst h) ▸ hr
    exact ⟨(List.mem_filter.mp hm).2, trivial⟩

theorem moves_of_schedules {used : String → Prop} {l l' : Ledger}
    (h : Relation.ReflTransGen (Ledger.Move (Request.Schedules used)) l l') :
    Relation.ReflTransGen (Ledger.Move Request.IsScheduling) l l' :=
  Relation.ReflTransGen.mono (fun _ _ hm => hm.mono fun _ hc => hc.1) _ _ h

/-- **What a queue does with an event.** -/
theorem handle_moves (e : Event) (t : Queue × Ledger) :
    Relation.ReflTransGen (Ledger.Move Request.IsScheduling) t.2
      (Queue.handle Backend.services e t).2.2 :=
  moves_of_schedules
    (services_laws.handle (fun _ _ => ⟨trivial, fun _ => trivial⟩) fun _ _ => trivial).1

/-- **What a scheduler does with an event.** -/
theorem dispatch_moves (e : Event) (σ : Roster × Ledger) :
    Relation.ReflTransGen (Ledger.Move Request.IsScheduling) σ.2 (dispatch e σ).2.2 := by
  rw [← World.dispatch_services]
  exact moves_of_schedules (services_laws.dispatch (fun _ _ => ⟨trivial, fun _ => trivial⟩)
    fun _ _ _ _ _ _ => trivial).1

/-- **What a scheduler does when it seeds.** -/
theorem seed_moves (σ : Roster × Ledger) :
    Relation.ReflTransGen (Ledger.Move Request.IsScheduling) σ.2 (seed σ).2.2 := by
  rw [← World.seed_services]
  exact moves_of_schedules (services_laws.seed σ fun _ _ _ _ _ _ => trivial).1

end Scheduler

end Provision
