import Provision.Proofs.Ledger.Spares
import Provision.Queue.Basic

/-!
# Queues that fit a ledger

What a queue knows is out of date more often than not, but never wrong altogether.

* `Queue.Fits`: the queue belongs to its workspace, tracks no run twice, and tracks nothing but runs of
  the workspace that are not speculative. A ledger that grows keeps this (`Queue.Fits.mono`).
* `Queue.join`, `Queue.leave`, `Queue.next`: how the runs of a queue change.
-/

namespace Provision

open Identifier (Issued)

namespace Queue

variable {q : Queue} {l l' : Ledger} {o v run a : String}

/-- The queue with another copy of its workspace. -/
def seeing (q : Queue) (w : Workspace) : Queue :=
  { q with workspace := w }

theorem seeing_workspace (q : Queue) (w : Workspace) : (q.seeing w).workspace = w := rfl

/-- What holds of the queue of a workspace. -/
structure Fits (q : Queue) (o v : String) (l : Ledger) : Prop where
  /-- The copy is one of the workspace. -/
  id : q.workspace.id = v
  issued : Issued Workspace.stem l.supply v
  /-- The workspace, as long as it is stored, is in the organization. -/
  place : ∀ w ∈ l.store.workspaces, w.id = v → w.organization = o
  nodup : q.tracked.Nodup
  /-- Runs wait behind a current one only. -/
  headed : q.current = none → q.pending = []
  /-- The queue admits what it tracks. -/
  eligible : ∀ run ∈ q.tracked, l.Eligible o v run

theorem Fits.mono (h : q.Fits o v l) (hg : l.Grows l') : q.Fits o v l' where
  id := h.id
  issued := h.issued.mono hg.supply
  place w hw hid := by
    obtain ⟨u, hu, hwu, ho⟩ := hg.workspace hw (hid ▸ h.issued)
    exact ho.trans (h.place u hu (hwu.symm.trans hid))
  nodup := h.nodup
  headed := h.headed
  eligible run hr := (h.eligible run hr).mono hg

theorem Fits.see (h : q.Fits o v l) {w : Workspace} (hw : w.id = v) :
    (q.seeing w).Fits o v l :=
  { h with id := hw }

theorem fits_new {w : Workspace} (hw : w.id = v) (hi : Issued Workspace.stem l.supply v)
    (hp : ∀ w ∈ l.store.workspaces, w.id = v → w.organization = o) :
    ({ workspace := w } : Queue).Fits o v l where
  id := hw
  issued := hi
  place := hp
  nodup := List.nodup_nil
  headed _ := rfl
  eligible _ h := by cases h

/-! ## The runs of a queue -/

/-- The queue with a run at its end, which is the current one if there is none. -/
def join (q : Queue) (run : String) : Queue :=
  match q.current with
  | none => { q with current := some run }
  | some _ => { q with pending := q.pending ++ [run] }

/-- The queue without a run that waits. -/
def leave (q : Queue) (run : String) : Queue :=
  { q with pending := q.pending.erase run }

/-- The queue with the oldest pending run as the current one. -/
def next (q : Queue) : Queue :=
  { q with current := q.pending.head?, pending := q.pending.tail }

theorem tracked_eq_cons (h : q.current = some a) : q.tracked = a :: q.pending := by
  rw [tracked, h]
  rfl

theorem mem_tracked_of_current (h : q.current = some a) : a ∈ q.tracked := by
  rw [tracked_eq_cons h]
  exact List.mem_cons_self

section Headed

variable (hh : q.current = none → q.pending = [])

include hh

theorem tracked_eq_nil : q.tracked = [] ↔ q.current = none := by
  rcases hc : q.current with _ | a
  · simp [tracked, hc, hh hc]
  · simp [tracked_eq_cons hc]

theorem head?_tracked : q.tracked.head? = q.current := by
  rcases hc : q.current with _ | a
  · rw [(tracked_eq_nil hh).mpr hc, List.head?_nil]
  · rw [tracked_eq_cons hc, List.head?_cons]

theorem tail_tracked : q.tracked.tail = q.pending := by
  rcases hc : q.current with _ | a
  · rw [(tracked_eq_nil hh).mpr hc, hh hc, List.tail_nil]
  · rw [tracked_eq_cons hc, List.tail_cons]

end Headed

@[simp] theorem join_workspace (q : Queue) (run : String) :
    (q.join run).workspace = q.workspace := by
  unfold join
  split <;> rfl

theorem join_current (h : q.current = some a) (run : String) :
    (q.join run).current = some a := by
  rw [join, h]

theorem tracked_join (hh : q.current = none → q.pending = []) (run : String) :
    (q.join run).tracked = q.tracked ++ [run] := by
  rcases hc : q.current with _ | a
  · simp [join, hc, tracked, hh hc]
  · rw [tracked_eq_cons (join_current hc run), tracked_eq_cons hc, join, hc]
    rfl

theorem tracked_leave (hc : q.current = some a) (ha : a ≠ run) :
    (q.leave run).tracked = q.tracked.erase run := by
  rw [tracked_eq_cons hc, List.erase_cons_tail (by simpa using ha)]
  exact tracked_eq_cons hc

theorem tracked_next (hc : q.current = some a) : q.tracked = a :: q.next.tracked := by
  rw [tracked_eq_cons hc, tracked, next]
  rcases q.pending with _ | ⟨b, rest⟩ <;> rfl

theorem Fits.join (h : q.Fits o v l) (he : l.Eligible o v run) (hn : run ∉ q.tracked) :
    (q.join run).Fits o v l where
  id := (join_workspace q run).symm ▸ h.id
  issued := h.issued
  place := h.place
  nodup := by
    rw [tracked_join h.headed]
    exact List.nodup_append.mpr ⟨h.nodup, List.nodup_singleton _, fun a ha b hb hab =>
      hn (List.mem_singleton.mp hb ▸ hab ▸ ha)⟩
  headed hc := by
    rcases hq : q.current with _ | a
    · simp [Queue.join, hq] at hc
    · rw [join_current hq] at hc
      cases hc
  eligible a ha := by
    rw [tracked_join h.headed] at ha
    rcases List.mem_append.mp ha with ha | ha
    · exact h.eligible a ha
    · exact List.mem_singleton.mp ha ▸ he

theorem Fits.of_sublist (h : q.Fits o v l) {q' : Queue} (hw : q'.workspace.id = v)
    (ht : q'.tracked.Sublist q.tracked) (hc : q'.current = none → q'.pending = []) :
    q'.Fits o v l where
  id := hw
  issued := h.issued
  place := h.place
  nodup := h.nodup.sublist ht
  headed := hc
  eligible run hr := h.eligible run (ht.subset hr)

theorem Fits.leave (h : q.Fits o v l) (hc : q.current = some a) (ha : a ≠ run) :
    (q.leave run).Fits o v l := by
  refine h.of_sublist h.id ?_ fun hn => absurd (hc.symm.trans hn) (by simp)
  rw [tracked_leave hc ha]
  exact List.erase_sublist

theorem Fits.next (h : q.Fits o v l) (hc : q.current = some a) : q.next.Fits o v l := by
  refine h.of_sublist h.id ?_ fun hn => ?_
  · rw [tracked_next hc]
    exact List.sublist_cons_self _ _
  · have hp : q.pending = [] := by simpa [Queue.next] using hn
    simp [Queue.next, hp]

end Queue

end Provision
