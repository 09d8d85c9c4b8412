import Provision.Proofs.Queue.Tracking

/-!
# First come, first served

Runs join a queue at its end, and leave it from anywhere. The head is the current run, so no run becomes
current while one that stands before it is still there, whatever is refused.

* `Queue.Leads x y`: the run `x` is tracked, and `y` is not, or stands behind it.
* `Queue.Turn.order`, `Queue.Turn.leads`: what one call does to the line, and to two runs of it.
* `Queue.answer_admits`: whoever arrives is in the line.
* **`Queue.Past.fifo`**: a call removes at most the run that it dismisses, or adds one at the end; of two
  runs, the second becomes current after the first was removed.
-/

namespace Provision.Queue

variable {σ : Type} {b : Backend σ} {q q' : Queue} {p : Prompt} {x y : String}

/-- The first run is tracked, and the second one is not, or stands behind it. -/
def Leads (q : Queue) (x y : String) : Prop :=
  ∃ front back, q.tracked = front ++ x :: back ∧ y ∉ front ∧ y ≠ x

theorem leads_of_not_mem (hx : x ∈ q.tracked) (hy : y ∉ q.tracked) : q.Leads x y := by
  obtain ⟨front, back, ht⟩ := List.append_of_mem hx
  exact ⟨front, back, ht, fun h => hy (ht ▸ List.mem_append_left _ h), fun h => hy (h ▸ hx)⟩

theorem Leads.mem (h : q.Leads x y) : x ∈ q.tracked := by
  obtain ⟨front, back, ht, -⟩ := h
  simp [ht]

theorem Leads.current_ne (h : q.Leads x y) : q.current ≠ some y := by
  obtain ⟨front, back, ht, hy, hne⟩ := h
  intro hc
  rw [tracked_eq_cons hc] at ht
  rcases front with _ | ⟨a, front⟩
  · exact hne (List.cons.inj ht).1
  · exact hy ((List.cons.inj ht).1 ▸ List.mem_cons_self)

theorem Leads.append (h : q.Leads x y) {z : String} (ht : q'.tracked = q.tracked ++ [z]) :
    q'.Leads x y := by
  obtain ⟨front, back, hf, hy⟩ := h
  exact ⟨front, back ++ [z], by rw [ht, hf, List.append_assoc, List.cons_append], hy⟩

theorem Leads.erase (h : q.Leads x y) {z : String} (hz : z ≠ x)
    (ht : q'.tracked = q.tracked.erase z) : q'.Leads x y := by
  obtain ⟨front, back, hf, hy, hne⟩ := h
  by_cases hm : z ∈ front
  · refine ⟨front.erase z, back, ?_, fun h => hy (List.mem_of_mem_erase h), hne⟩
    rw [ht, hf, List.erase_append_left _ hm]
  · refine ⟨front, back.erase z, ?_, hy, hne⟩
    rw [ht, hf, List.erase_append_right _ hm, List.erase_cons_tail (by simpa using hz.symm)]

/-! ## One call -/

section Turn

variable (h : Turn b q p q') (hh : q.current = none → q.pending = []) (hn : q.tracked.Nodup)

include h hh hn

/-- **What one call does to the line.** -/
theorem Turn.order : q'.tracked = q.tracked ∨
    (∃ run ∈ q.tracked, q.Dismisses p run ∧ q'.tracked = q.tracked.erase run) ∨
      ∃ x, q.Admits p x ∧ x.id ∉ q.tracked ∧ q'.tracked = q.tracked ++ [x.id] := by
  cases h with
  | stayed h =>
    left
    rw [Queue.tracked, Queue.tracked, h.current, h.pending]
  | dropped run hd h =>
    by_cases hm : run ∈ q.pending
    · have hc : run ∉ q.current.toList := fun hc =>
        (List.nodup_append.mp hn).2.2 run hc run hm rfl
      refine .inr (.inl ⟨run, List.mem_append_right _ hm, hd, ?_⟩)
      rw [Queue.tracked, Queue.tracked, h.current, h.pending, List.erase_append_right _ hc]
    · left
      rw [Queue.tracked, Queue.tracked, h.current, h.pending, List.erase_of_not_mem hm]
  | advanced run hd hc h =>
    refine .inr (.inl ⟨run, mem_tracked_of_current hc, hd, ?_⟩)
    rw [tracked_next hc, List.erase_cons_head, Queue.tracked, h.current, h.pending]
    rfl
  | added x hx hm h =>
    rcases (Turn.added (b := b) x hx hm h).tracked hh with hs | hs
    · refine absurd (hs.subset ?_) hm
      rw [Queue.tracked, h.current, h.pending, join]
      split <;> simp
    · exact .inr (.inr hs)

theorem Turn.leads (hl : q.Leads x y) :
    q'.Leads x y ∨ x ∉ q'.tracked ∧ q.Dismisses p x := by
  rcases h.order hh hn with ht | ⟨run, -, hd, ht⟩ | ⟨z, -, -, ht⟩
  · left
    rwa [Leads, ht]
  · by_cases hr : run = x
    · subst hr
      exact .inr ⟨ht ▸ hn.not_mem_erase, hd⟩
    · exact .inl (hl.erase hr ht)
  · exact .inl (hl.append ht)

end Turn

section Admission

variable {s : Queue × σ} {r : Run} (hs : r.speculative = false) (hd : r.isDone = false)

include hd

theorem enlist_mem : r.id ∈ (enlist r s : Except Error Unit × Queue × σ).2.1.tracked := by
  change r.id ∈ Queue.tracked (if s.1.pending.contains r.id then _ else _)
  by_cases hin : s.1.pending.contains r.id = true
  · rw [if_pos hin, if_neg (by simp [hd])]
    exact List.mem_append_right _ (List.contains_iff_mem.mp hin)
  · rw [if_neg hin, if_neg (by simp [hd])]
    exact List.mem_append_right _ (List.mem_append_right _ List.mem_cons_self)

include hs

/-- An unfinished run is tracked once it was heard of, even if the attempt to admit it is refused. -/
theorem handleRun_mem (b : Backend σ) : r.id ∈ (handleRun b r s).2.1.tracked := by
  unfold handleRun
  rw [if_neg (by simp [hs]), bind_self]
  rcases hc : s.1.current with _ | a
  · dsimp only
    rw [if_neg (by simp [hd])]
    suffices h : Has b s.1.workspace.id (some r.id) s.1.pending _ from
      mem_tracked_of_current h.current
    refine has_bind ?_ fun _ s₁ _ h₁ => schedule_has h₁ r.id
    exact ⟨rfl, rfl, fun _ => rfl⟩
  · dsimp only
    by_cases ha : a = r.id
    · rw [if_pos ha, if_neg (by simp [hd])]
      exact mem_tracked_of_current (hc.trans (congrArg some ha))
    · rw [if_neg ha]
      exact enlist_mem hd

end Admission

/-- **Whoever arrives is in the line**, whatever is refused. -/
theorem answer_admits (b : Backend σ) {s : Queue × σ} {r : Run} (h : s.1.Admits p r) :
    r.id ∈ (answer b p s).2.1.tracked := by
  obtain ⟨⟨type, payload, isLocal⟩, rfl, rfl, hw, hs, hd⟩ := h
  change r.id ∈ (handle b _ s).2.1.tracked
  unfold handle
  rw [bind_self]
  dsimp only
  rw [if_pos hw]
  exact handleRun_mem hs hd b

/-! ## All calls -/

namespace Past

variable {ws : Workspace} {log : List Call}

/-- A run has kept its place before another one ever since, or was dismissed; until then it kept it. -/
theorem leads (h : Past b ws log q) {before after : List Call} {c : Call}
    (hlog : log = before ++ c :: after) (hl : c.before.Leads x y) :
    q.Leads x y ∨ ∃ mid d rest, c :: after = mid ++ d :: rest ∧
      (∀ e ∈ mid ++ [d], e.before.Leads x y) ∧ x ∉ d.after.tracked ∧
        d.before.Dismisses d.prompt x := by
  -- As long as nothing happened, the place was kept at each call, which the induction needs as well.
  suffices hs : (q.Leads x y ∧ ∀ e ∈ c :: after, e.before.Leads x y) ∨ _ from hs.imp_left And.left
  induction h generalizing before c after with
  | new => simp at hlog
  | @answer log q p s h ih =>
    have hstep (hq : q.Leads x y) := (h.turn p s).leads h.headed h.nodup hq
    rcases List.eq_nil_or_concat after with rfl | ⟨after, z, rfl⟩
    · -- The place was first taken at the last call.
      obtain ⟨rfl, hc⟩ := List.append_inj' hlog rfl
      obtain rfl := (List.cons.inj hc).1
      rcases hstep hl with hq | ⟨hx, hd⟩
      · exact .inl ⟨hq, by simpa using hl⟩
      · exact .inr ⟨[], _, [], rfl, by simpa using hl, hx, hd⟩
    · rw [List.concat_eq_append, ← List.cons_append, ← List.append_assoc] at hlog
      obtain ⟨rfl, hz⟩ := List.append_inj' hlog rfl
      obtain rfl := (List.cons.inj hz).1
      rw [List.concat_eq_append, ← List.cons_append]
      rcases ih rfl hl with ⟨hq, hall⟩ | ⟨mid, d, rest, hsplit, hd⟩
      · have hall' : ∀ e ∈ c :: after ++ [⟨q, p, (Queue.answer b p (q, s)).2.1⟩],
            e.before.Leads x y := by
          intro e he
          rcases List.mem_append.mp he with he | he
          · exact hall e he
          · exact List.mem_singleton.mp he ▸ hq
        rcases hstep hq with hq' | ⟨hx, hdis⟩
        · exact .inl ⟨hq', hall'⟩
        · exact .inr ⟨_, _, [], rfl, hall', hx, hdis⟩
      · exact .inr ⟨mid, d, rest ++ [_], by rw [hsplit, List.append_assoc, List.cons_append], hd⟩

/-- **Runs are admitted in the order of their arrival, and none is lost.** Whatever a queue is told and
whatever is refused, the call leaves the line as it is, removes the one run of it that the call dismisses,
or adds a run at its end; and an unfinished run that the queue is told of is in the line then. So of two
runs of which the first is tracked and the second is not, or stands behind it, the second has become
current only after the first was removed: as the current run, or while it waited. -/
theorem fifo (h : Past b ws log q) :
    (∀ p s, let q' := (Queue.answer b p (q, s)).2.1
      (q'.tracked = q.tracked ∨
        (∃ run ∈ q.tracked, q.Dismisses p run ∧ q'.tracked = q.tracked.erase run) ∨
        ∃ x, q.Admits p x ∧ x.id ∉ q.tracked ∧ q'.tracked = q.tracked ++ [x.id]) ∧
      ∀ x, q.Admits p x → x.id ∈ q'.tracked) ∧
      (b.IsFaithful → q.workspace.id = ws.id) ∧
      ∀ before c after x y, log = before ++ c :: after → c.before.Leads x y →
        q.current = some y →
        ∃ mid d rest, c :: after = mid ++ d :: rest ∧
          (∀ e ∈ mid ++ [d], e.before.current ≠ some y) ∧
          (d.before.current = some x ∨ x ∈ d.before.pending) ∧ x ∉ d.after.tracked ∧
          d.before.Dismisses d.prompt x := by
  refine ⟨fun p s => ⟨(h.turn p s).order h.headed h.nodup, fun x hx => answer_admits b hx⟩, h.id, ?_⟩
  intro before c after x y hlog hl hy
  rcases h.leads hlog hl with hq | ⟨mid, d, rest, hsplit, hlead, hx, hd⟩
  · exact absurd hy hq.current_ne
  have hm : x ∈ d.before.tracked := (hlead d (by simp)).mem
  refine ⟨mid, d, rest, hsplit, fun e he => (hlead e he).current_ne, ?_, hx, hd⟩
  rcases List.mem_append.mp hm with hc | hp
  · exact .inl (by simpa using hc)
  · exact .inr hp

/-- Two runs arrive, of which the first ends before the second becomes current; none is stored, so each
attempt to admit one is refused. -/
theorem fifo_refused : ∃ ws log q before c after, Past Backend.services ws log q ∧
    log = before ++ c :: after ∧ c.before.Leads "run-1" "run-2" ∧ q.current = some "run-2" ∧
    q.workspace.id = ws.id ∧ (Queue.answer Backend.services .retry (q, {})).2.1.tracked ≠ [] ∧
    (∃ z, "run-3" ∈ (Queue.answer Backend.services (.event z) (q, {})).2.1.tracked) ∧
    ∃ d ∈ c :: after, d.before.current ≠ some "run-2" ∧ d.before.Dismisses d.prompt "run-1" ∧
      "run-1" ∉ d.after.tracked := by
  let ws : Workspace := ⟨"ws-1", "prod", "acme", false, ⟨0, 0⟩, none, none⟩
  let x : Run := { Run.new 1 { workspace := "ws-1" } ⟨0, 0⟩ with id := "run-1" }
  let y : Run := { x with id := "run-2" }
  have h₀ : Past Backend.services ws [] _ := .new
  have h₁ := h₀.answer (.event (.runStatus x)) {}
  have h₂ := h₁.answer (.event (.runStatus y)) {}
  have h := h₂.answer (.event (.runStatus { x with status := .canceled })) {}
  have hl := leads_of_not_mem (q := (Queue.answer Backend.services (.event (.runStatus x))
    ({ workspace := ws }, {})).2.1) (x := "run-1") (y := "run-2") (by decide +kernel)
    (by decide +kernel)
  obtain ⟨hstep, hid, hfifo⟩ := h.fifo
  obtain ⟨mid, d, rest, hsplit, hmid, -, hgone, hd⟩ := hfifo [_] _ [_] "run-1" "run-2" rfl hl
    (by decide +kernel)
  let z : Run := { x with id := "run-3" }
  refine ⟨ws, _, _, [_], _, [_], h, rfl, hl, by decide +kernel, hid Backend.services_isFaithful, ?_,
    ⟨.runStatus z, (hstep _ {}).2 z ⟨_, rfl, rfl, by decide +kernel, rfl, rfl⟩⟩, d,
    by rw [hsplit]; simp, hmid d (by simp), hd, hgone⟩
  rcases (hstep .retry {}).1 with ht | ⟨run, -, hr | ⟨e, z, he, -⟩, -⟩ | ⟨z, ⟨e, he, -⟩, -⟩
  · intro h
    exact absurd (ht.symm.trans h) (by decide +kernel)
  · cases hr
  · cases he
  · cases he

end Past

end Provision.Queue
