import Mathlib.Data.List.Chain
import Mathlib.Data.List.Nodup
import Mathlib.Order.Basic
import Provision.Run.Phase

/-!
# Logs that are paths

A log of statuses is a path of a chart if it begins with the first status, ends with the present one,
and each status may directly follow the one before it.

* `Entered.IsPath`: the log is a path; `IsPath.enter` extends it by a step of the chart.
* `IsPath.nodup`: where every step of the chart goes up in rank, no status is entered twice.
-/

namespace Provision.Entered

variable {σ : Type} {next : σ → σ → Bool} {start current : σ} {log : List (Entered σ)}

/-- The statuses of a log, oldest first. -/
def statuses (log : List (Entered σ)) : List σ :=
  log.map (·.status)

@[simp] theorem statuses_append (log log' : List (Entered σ)) :
    statuses (log ++ log') = statuses log ++ statuses log' := List.map_append

@[simp] theorem statuses_singleton (s : σ) (t : Instant) : statuses [⟨s, t⟩] = [s] := rfl

/-- The log is a path of the chart `next` from `start` to `current`. -/
structure IsPath (next : σ → σ → Bool) (start current : σ) (log : List (Entered σ)) : Prop where
  head : (statuses log).head? = some start
  last : (statuses log).getLast? = some current
  chain : (statuses log).IsChain fun a b => next a b = true

theorem IsPath.single (next : σ → σ → Bool) (s : σ) (t : Instant) : IsPath next s s [⟨s, t⟩] :=
  ⟨rfl, rfl, List.isChain_singleton s⟩

/-- **A path goes on** with a status that may follow the present one. -/
theorem IsPath.enter (h : IsPath next start current log) {s : σ} (hs : next current s = true)
    (t : Instant) : IsPath next start s (log ++ [⟨s, t⟩]) where
  head := by
    rw [statuses_append, List.head?_append, h.head]
    rfl
  last := by rw [statuses_append, statuses_singleton, List.getLast?_concat]
  chain := by
    rw [statuses_append, statuses_singleton]
    refine h.chain.append (List.isChain_singleton s) fun a ha b hb => ?_
    rw [h.last, Option.mem_some_iff] at ha
    rw [List.head?_cons, Option.mem_some_iff] at hb
    rw [← ha, ← hb]
    exact hs

/-- **No status is entered twice** where each step goes up in rank. -/
theorem IsPath.nodup (h : IsPath next start current log) (rank : σ → ℕ)
    (up : ∀ a b, next a b = true → rank a < rank b) : (statuses log).Nodup := by
  have hr : ((statuses log).map rank).IsChain (· < ·) := by
    rw [List.isChain_map]
    exact h.chain.imp fun a b hab => up a b hab
  have hn : ((statuses log).map rank).Nodup :=
    (List.isChain_iff_pairwise.mp hr).imp fun hab => ne_of_lt hab
  exact hn.of_map rank

end Provision.Entered
