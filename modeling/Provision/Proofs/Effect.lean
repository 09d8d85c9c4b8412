import Provision.Scheduler

/-!
# Steps that may be refused

Operations on a ledger, steps of a queue and steps of the scheduler are functions from a state to an
outcome and the state after it. A refusal keeps what was changed before it.

* `Effect.bind_ok`, `Effect.bind_error`: how a sequence runs, by the outcome of its first step.
* `Effect.tryCatch_ok`, `Effect.tryCatch_error`: how a step runs that is followed by another only if it
  is refused.
* `Effect.bind_cases`, `Effect.snd_discard`: what it leaves behind.
* `Effect.forM_error`: where a loop was refused.
-/

namespace Provision

namespace Effect

variable {ε σ α β : Type} {x : ExceptT ε (StateM σ) α} {f : α → ExceptT ε (StateM σ) β} {s s' : σ}

theorem bind_ok {a : α} (h : x s = (.ok a, s')) : (x >>= f) s = f a s' := by
  change (match x s with | (r, s₁) => ExceptT.bindCont f r s₁) = f a s'
  rw [h]
  rfl

theorem bind_error {e : ε} (h : x s = (.error e, s')) : (x >>= f) s = (.error e, s') := by
  change (match x s with | (r, s₁) => ExceptT.bindCont f r s₁) = (.error e, s')
  rw [h]
  rfl

theorem tryCatch_apply (x : ExceptT ε (StateM σ) α) (f : ε → ExceptT ε (StateM σ) α) (s : σ) :
    tryCatch x f s = match (x s).1 with
      | .ok a => (.ok a, (x s).2)
      | .error e => f e (x s).2 := by
  change (match (x s).1 with
    | .ok a => pure (.ok a)
    | .error e => f e : StateM σ (Except ε α)) (x s).2 = _
  cases (x s).1 <;> rfl

theorem tryCatch_ok {f : ε → ExceptT ε (StateM σ) α} {a : α} (h : x s = (.ok a, s')) :
    tryCatch x f s = (.ok a, s') := by
  rw [tryCatch_apply, h]

theorem tryCatch_error {f : ε → ExceptT ε (StateM σ) α} {e : ε} (h : x s = (.error e, s')) :
    tryCatch x f s = f e s' := by
  rw [tryCatch_apply, h]

/-- What a step leaves behind: its first part alone, or its second part after it. -/
theorem bind_cases (x : ExceptT ε (StateM σ) α) (f : α → ExceptT ε (StateM σ) β) (s : σ) :
    (∃ e, x s = (.error e, (x s).2) ∧ (x >>= f) s = (.error e, (x s).2)) ∨
      ∃ a, x s = (.ok a, (x s).2) ∧ (x >>= f) s = f a (x s).2 := by
  rcases h : x s with ⟨e | a, s'⟩
  · exact .inl ⟨e, rfl, bind_error h⟩
  · exact .inr ⟨a, rfl, bind_ok h⟩

theorem snd_discard (x : ExceptT ε (StateM σ) α) (s : σ) :
    ((do let _ ← x : ExceptT ε (StateM σ) Unit) s).2 = (x s).2 := by
  obtain ⟨e, -, h⟩ | ⟨a, -, h⟩ := bind_cases x (fun _ => pure ()) s
  · exact congrArg Prod.snd h
  · exact congrArg Prod.snd h

/-- **A loop that is refused** did what it does to the items before one of them, and was refused there. -/
theorem forM_error {f : α → ExceptT ε (StateM σ) Unit} {as : List α} {e : ε}
    (h : as.forM f s = (.error e, s')) : ∃ before a after s₁, as = before ++ a :: after ∧
      before.forM f s = (.ok (), s₁) ∧ f a s₁ = (.error e, s') := by
  induction as generalizing s with
  | nil => cases h
  | cons a as ih =>
    obtain ⟨e', ha, hb⟩ | ⟨_, ha, hb⟩ := bind_cases (f a) (fun _ => as.forM f) s
    · exact ⟨[], a, as, s, rfl, rfl, ha.trans (hb.symm.trans h)⟩
    · obtain ⟨before, x, after, s₁, rfl, hok, hx⟩ := ih (hb.symm.trans h)
      exact ⟨a :: before, x, after, s₁, rfl, (bind_ok ha).trans hok, hx⟩

end Effect

end Provision
