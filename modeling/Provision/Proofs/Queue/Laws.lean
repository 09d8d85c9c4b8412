import Mathlib.Data.List.Basic
import Provision.Proofs.Effect

/-!
# A queue in any world

A queue makes calls, and other parties act between them. What it relies on is stated as laws of its
backend, and what it does then follows from what its calls do, one by one.

* `Backend.Laws b R Used Ended`: every call of a queue is a step of `R`, provided that it asks for what it
  may: only a run that is used is admitted, and only an ended run gives back a lock.
* `Backend.Laws.handle`, `Backend.Laws.forget`, `Backend.Laws.retry`: a queue in such a world only ever
  makes steps of `R`, and goes on to track used runs only.
-/

namespace Provision

namespace Backend

variable {σ : Type} {b : Backend σ} {R : σ → σ → Prop} {Used Ended : String → σ → Prop}

/-- The laws of a backend: whatever happens in it is a step of `R`, and a run that has ended stays so. Of
a run that is `Used` it can be told whether it has ended. -/
structure Laws (b : Backend σ) (R : σ → σ → Prop) (Used Ended : String → σ → Prop) : Prop where
  refl (s : σ) : R s s
  trans {s s' s'' : σ} : R s s' → R s' s'' → R s s''
  used {run : String} {s s' : σ} : R s s' → Used run s → Used run s'
  ended {run : String} {s s' : σ} : R s s' → Ended run s → Ended run s'
  getRun (id : String) (s : σ) : R s (b.getRun id s).2
  found {id : String} {s s' : σ} {r : Run} : b.getRun id s = (.ok r, s') → Used id s' →
    r.id = id ∧ (r.isDone = true → Ended id s')
  gone {id : String} {s s' : σ} {e : Error} : b.getRun id s = (.error e, s') → Used id s' →
    e.isNotFound = true → Ended id s'
  enqueuePlan {run : String} {s : σ} : Used run s → R s (b.enqueuePlan run s).2
  lockWorkspace (id : String) {run : String} {s : σ} : Used run s →
    R s (b.lockWorkspace id (.run run) s).2
  /-- Only an ended run gives back a lock. -/
  unlockWorkspace (id : String) {run : String} {s : σ} : Ended run s →
    R s (b.unlockWorkspace id (.run run) false s).2
  setCurrentRun (id run : String) (s : σ) : R s (b.setCurrentRun id run s).2

namespace Laws

variable (h : b.Laws R Used Ended)

include h

section Steps

variable {κ α β : Type} {I : κ × σ → Prop} {t t' : κ × σ}

/-- Where `I` holds, this is a step of `R` that keeps `I`. -/
def Keeps (R : σ → σ → Prop) (I : κ × σ → Prop) (t t' : κ × σ) : Prop :=
  I t → R t.2 t'.2 ∧ I t'

theorem keeps_refl (I : κ × σ → Prop) (t : κ × σ) : Keeps R I t t :=
  fun hi => ⟨h.refl _, hi⟩

theorem keeps_bind {x : ExceptT Error (StateM (κ × σ)) α} {f : α → ExceptT Error (StateM (κ × σ)) β}
    (hx : Keeps R I t (x t).2)
    (hf : ∀ a t', x t = (.ok a, t') → R t.2 t'.2 → I t' → Keeps R I t' (f a t').2) :
    Keeps R I t ((x >>= f) t).2 := by
  intro hi
  obtain ⟨hR, hi'⟩ := hx hi
  obtain ⟨e, -, hb⟩ | ⟨a, ha, hb⟩ := Effect.bind_cases x f t
  · rw [hb]
    exact ⟨hR, hi'⟩
  · rw [hb]
    obtain ⟨hR', hi''⟩ := hf a _ ha hR hi' hi'
    exact ⟨h.trans hR hR', hi''⟩

omit h in
theorem keeps_ite {c : Prop} [Decidable c] {x y : ExceptT Error (StateM (κ × σ)) α}
    (hx : c → Keeps R I t (x t).2) (hy : ¬ c → Keeps R I t (y t).2) :
    Keeps R I t ((if c then x else y) t).2 := by
  split_ifs with hc
  · exact hx hc
  · exact hy hc

theorem keeps_forM {f : α → ExceptT Error (StateM (κ × σ)) Unit} {l : List α}
    (hf : ∀ a ∈ l, ∀ t', R t.2 t'.2 → Keeps R I t' (f a t').2) : Keeps R I t (l.forM f t).2 := by
  induction l generalizing t with
  | nil => exact h.keeps_refl I t
  | cons a l ih =>
    refine h.keeps_bind (x := f a) (hf a List.mem_cons_self t (h.refl _)) fun _ t' _ hR _ => ?_
    exact ih fun x hx t'' hR' => hf x (List.mem_cons_of_mem a hx) t'' (h.trans hR hR')

end Steps

/-- What an event tells of a run: it is used, and has ended if it is done there. -/
def Told (Used Ended : String → σ → Prop) (e : Event) (s : σ) : Prop :=
  ∀ run, e.payload = .run run → Used run.id s ∧ (run.isDone = true → Ended run.id s)

theorem told {e : Event} {s s' : σ} (hR : R s s') (he : Told Used Ended e s) :
    Told Used Ended e s' :=
  fun run hp => ⟨h.used hR (he run hp).1, fun hd => h.ended hR ((he run hp).2 hd)⟩

/-! ## Queues -/

section Queues

variable {t : Queue × σ} {run : String} {α : Type}

omit h in
/-- All runs that the queue tracks are used. -/
def Tracks (Used : String → σ → Prop) (t : Queue × σ) : Prop :=
  ∀ run ∈ t.1.tracked, Used run t.2

theorem keeps_call {x : ExceptT Error (StateM σ) α} (hx : R t.2 (x t.2).2) :
    Keeps R (Tracks Used) t (Queue.call x t).2 :=
  fun hi => ⟨hx, fun run hm => h.used hx (hi run hm)⟩

theorem keeps_revise {f : Queue → Queue}
    (hf : Tracks Used t → ∀ run ∈ (f t.1).tracked, Used run t.2) :
    Keeps R (Tracks Used) t (Queue.revise f t).2 :=
  fun hi => ⟨h.refl _, hf hi⟩

theorem launch (hu : Used run t.2) : Keeps R (Tracks Used) t (Queue.launch b run t).2 := by
  unfold Queue.launch
  refine h.keeps_bind (h.keeps_call (h.enqueuePlan hu)) fun _ t₁ _ _ _ => ?_
  refine h.keeps_bind (h.keeps_refl _ t₁) fun q t₂ _ _ _ => ?_
  refine keeps_ite (fun _ => h.keeps_refl _ t₂) fun _ => ?_
  refine h.keeps_bind (h.keeps_call (h.setCurrentRun _ run _)) fun _ t₃ _ _ _ => ?_
  exact h.keeps_revise fun hi => hi

theorem schedule (hu : Used run t.2) :
    Keeps R (Tracks Used) t (Queue.schedule b run t).2 := by
  unfold Queue.schedule
  refine h.keeps_bind (h.keeps_call (h.getRun run _)) fun stored t₁ _ hR _ => ?_
  refine keeps_ite (fun _ => h.keeps_refl _ t₁) fun _ => ?_
  refine h.keeps_bind (h.keeps_refl _ t₁) fun q t₂ ht _ _ => ?_
  obtain rfl : t₁ = t₂ := congrArg Prod.snd ht
  refine keeps_ite (fun _ => h.keeps_refl _ t₁) fun _ => ?_
  refine h.keeps_bind (x := Queue.attempt _) (h.keeps_call (h.lockWorkspace _ (h.used hR hu)))
    fun a t₃ _ hR₃ _ => ?_
  split
  · exact h.keeps_bind (h.keeps_revise fun hi => hi) fun _ t₄ _ hR₄ _ =>
      h.launch (h.used (h.trans hR (h.trans hR₃ hR₄)) hu)
  · exact h.keeps_refl _ t₃
  · exact h.keeps_refl _ t₃

theorem promote (t : Queue × σ) : Keeps R (Tracks Used) t (Queue.promote b t).2 := by
  unfold Queue.promote
  refine h.keeps_bind (h.keeps_refl _ t) fun q t₁ ht _ hi => ?_
  obtain ⟨rfl, rfl⟩ : t.1 = q ∧ t = t₁ :=
    ⟨Except.ok.inj (congrArg Prod.fst ht), congrArg Prod.snd ht⟩
  rcases hp : t.1.pending with _ | ⟨next, rest⟩
  · exact h.keeps_revise fun hi run hm => hi run (List.mem_append_right _ hm)
  · have hu : ∀ run ∈ next :: rest, Used run t.2 := fun run hm =>
      hi run (List.mem_append_right _ (hp ▸ hm))
    refine h.keeps_bind (h.keeps_revise fun _ => hu) fun _ t₂ _ hR _ => ?_
    exact h.schedule (h.used hR (hu next List.mem_cons_self))

theorem unlock (he : Ended run t.2) :
    Keeps R (Tracks Used) t (Queue.unlock b run t).2 := by
  unfold Queue.unlock
  refine h.keeps_bind (h.keeps_refl _ t) fun q t₁ ht _ _ => ?_
  obtain rfl : t = t₁ := congrArg Prod.snd ht
  refine h.keeps_bind (x := Queue.attempt _) (h.keeps_call (h.unlockWorkspace _ he))
    fun a t₂ _ _ _ => ?_
  split
  · exact h.keeps_revise fun hi => hi
  · exact h.keeps_refl _ t₂
  · exact keeps_ite (fun _ => h.keeps_refl _ t₂) fun _ => h.keeps_refl _ t₂

theorem leave (he : Ended run t.2) : Keeps R (Tracks Used) t
    ((do Queue.unlock b run; Queue.promote b : Queue.Step σ Unit) t).2 :=
  h.keeps_bind (h.unlock he) fun _ t₁ _ _ _ => h.promote t₁

theorem enlist {run : Run} (hu : Used run.id t.2) :
    Keeps R (Tracks Used) t (Queue.enlist run t).2 := by
  refine h.keeps_revise fun hi => ?_
  split_ifs
  · refine fun x hx => hi x ?_
    rcases List.mem_append.mp hx with hx | hx
    · exact List.mem_append_left _ hx
    · exact List.mem_append_right _ (List.mem_of_mem_erase hx)
  · exact hi
  · exact hi
  · intro x hx
    rcases List.mem_append.mp hx with hx | hx
    · exact hi x (List.mem_append_left _ hx)
    rcases List.mem_append.mp hx with hx | hx
    · exact hi x (List.mem_append_right _ hx)
    · exact List.mem_singleton.mp hx ▸ hu

theorem handleRun {run : Run} (hu : Used run.id t.2) (he : run.isDone = true → Ended run.id t.2) :
    Keeps R (Tracks Used) t (Queue.handleRun b run t).2 := by
  unfold Queue.handleRun
  refine keeps_ite (fun _ => ?_) fun _ => ?_
  · refine keeps_ite (fun _ => ?_) fun _ => h.keeps_refl _ t
    unfold Queue.launchSpeculative
    refine h.keeps_bind (x := Queue.attempt _) (h.keeps_call (h.enqueuePlan hu))
      fun a t₁ _ _ _ => ?_
    split <;> exact h.keeps_refl _ t₁
  refine h.keeps_bind (h.keeps_refl _ t) fun q t₁ ht _ _ => ?_
  obtain rfl : t = t₁ := congrArg Prod.snd ht
  rcases q.current with _ | current
  · refine keeps_ite (fun _ => h.keeps_refl _ t) fun _ => ?_
    refine h.keeps_bind (h.keeps_revise fun hi x hx => ?_) fun _ t₁ _ hR _ => ?_
    · rcases List.mem_cons.mp hx with rfl | hx
      · exact hu
      · exact hi x (List.mem_append_right _ hx)
    · exact h.schedule (h.used hR hu)
  · refine keeps_ite (fun _ => ?_) fun _ => h.enlist hu
    exact keeps_ite (fun hd => h.leave (he hd)) fun _ => h.keeps_refl _ t

theorem retry (t : Queue × σ) : Keeps R (Tracks Used) t (Queue.retry b t).2 := by
  unfold Queue.retry
  refine h.keeps_bind (h.keeps_refl _ t) fun q t₁ ht _ hi => ?_
  obtain ⟨rfl, rfl⟩ : t.1 = q ∧ t = t₁ :=
    ⟨Except.ok.inj (congrArg Prod.fst ht), congrArg Prod.snd ht⟩
  rcases hc : t.1.current with _ | current
  · exact h.keeps_refl _ t
  · refine h.schedule (hi current (List.mem_append_left _ ?_))
    rw [hc]
    exact List.mem_singleton_self current

theorem handle {e : Event} (he : Told Used Ended e t.2) :
    Keeps R (Tracks Used) t (Queue.handle b e t).2 := by
  unfold Queue.handle
  refine h.keeps_bind (h.keeps_refl _ t) fun q t₁ ht _ _ => ?_
  obtain rfl : t = t₁ := congrArg Prod.snd ht
  rcases hp : e.payload with org | ws | run | chunk | ⟨relation, id⟩
  · exact h.keeps_refl _ t
  · refine keeps_ite (fun _ => ?_) fun _ => h.keeps_refl _ t
    refine h.keeps_bind (h.keeps_revise fun hi => hi) fun _ t₁ _ _ _ => ?_
    exact keeps_ite (fun _ => h.retry t₁) fun _ => h.keeps_refl _ t₁
  · exact keeps_ite (fun _ => h.handleRun (he run hp).1 (he run hp).2) fun _ => h.keeps_refl _ t
  · exact h.keeps_refl _ t
  · exact h.keeps_refl _ t

theorem forget (he : Ended run t.2) :
    Keeps R (Tracks Used) t (Queue.forget b run t).2 := by
  unfold Queue.forget
  refine h.keeps_bind (h.keeps_refl _ t) fun q t₁ ht _ _ => ?_
  obtain rfl : t = t₁ := congrArg Prod.snd ht
  refine keeps_ite (fun _ => h.leave he) fun _ => h.keeps_revise fun hi x hx => hi x ?_
  rcases List.mem_append.mp hx with hx | hx
  · exact List.mem_append_left _ hx
  · exact List.mem_append_right _ (List.mem_of_mem_filter hx)

end Queues

end Laws

end Backend

end Provision
