import Mathlib.Data.List.Basic
import Provision.Transport

/-!
# What a stream finds

A stream that has not fallen behind finds the next message of its channel, or nothing if there is none.
It makes no difference whether it looks for a message or was woken by one.

* `Transport.scan_split`: what a scan passes over.
* `Transport.onChannel`: the messages of a channel from a place on.
* `Transport.receive_cases`: what a stream finds is the first of them.
-/

namespace Provision.Transport

variable {t : Transport} {s : Stream} {channel : String} {place : ℕ} {m : Message}

/-- The messages of a channel from a place on. -/
def onChannel (t : Transport) (channel : String) (place : ℕ) : List Message :=
  (t.sent.toList.drop place).filter fun m => m.channel = channel

theorem onChannel_eq_nil (h : t.sent.size ≤ place) : t.onChannel channel place = [] := by
  rw [onChannel, List.drop_eq_nil_of_le (by simpa using h), List.filter_nil]

theorem onChannel_broadcast (h : place ≤ t.sent.size) : (t.broadcast m).onChannel channel place =
    t.onChannel channel place ++ if m.channel = channel then [m] else [] := by
  rw [onChannel, broadcast, Array.toList_push, List.drop_append_of_le_length (by simpa using h),
    List.filter_append]
  by_cases hm : m.channel = channel <;> simp [onChannel, hm]

/-- The scan passes over what is not of the channel, and stops behind the first message that is, or at
the end. -/
theorem scan_split (t : Transport) (channel : String) (place : ℕ) :
    (∃ passed text next, scan t.sent channel place = (some text, next) ∧ next ≤ t.sent.size ∧
      (∀ m ∈ passed, m.channel ≠ channel) ∧
      t.sent.toList.drop place = passed ++ ⟨channel, text⟩ :: t.sent.toList.drop next) ∨
    (scan t.sent channel place = (none, max place t.sent.size) ∧
      ∀ m ∈ t.sent.toList.drop place, m.channel ≠ channel) := by
  induction hn : t.sent.size - place generalizing place with
  | zero =>
    right
    rw [scan, dif_neg (by omega), Nat.max_eq_left (by omega),
      List.drop_eq_nil_of_le (by simp; omega)]
    exact ⟨rfl, fun m hm => by cases hm⟩
  | succ n ih =>
    have hlt : place < t.sent.size := by omega
    rw [scan, dif_pos hlt, List.drop_eq_getElem_cons (by simpa using hlt), Array.getElem_toList]
    split_ifs with hc
    · exact .inl ⟨[], _, _, rfl, hlt, by simp, by rw [← hc]; rfl⟩
    · rcases ih (place + 1) (by omega) with
        ⟨passed, text, next, hscan, hnext, hpassed, hdrop⟩ | ⟨hscan, hnone⟩
      · refine .inl ⟨t.sent[place] :: passed, text, next, hscan, hnext, ?_, by rw [hdrop]; rfl⟩
        exact List.forall_mem_cons.mpr ⟨hc, hpassed⟩
      · refine .inr ⟨?_, List.forall_mem_cons.mpr ⟨hc, hnone⟩⟩
        rw [hscan, show max (place + 1) t.sent.size = max place t.sent.size by omega]

theorem scan_cases (t : Transport) (channel : String) (place : ℕ) :
    (∃ text next, scan t.sent channel place = (some text, next) ∧ next ≤ t.sent.size ∧
      t.onChannel channel place = ⟨channel, text⟩ :: t.onChannel channel next) ∨
    (scan t.sent channel place = (none, max place t.sent.size) ∧
      t.onChannel channel place = []) := by
  rcases scan_split t channel place with
    ⟨passed, text, next, hscan, hnext, hpassed, hdrop⟩ | ⟨hscan, hnone⟩
  · refine .inl ⟨text, next, hscan, hnext, ?_⟩
    have hfilter : passed.filter (fun m => m.channel = channel) = [] :=
      List.filter_eq_nil_iff.mpr fun m hm => by simpa using hpassed m hm
    rw [onChannel, hdrop, List.filter_append, hfilter, List.nil_append,
      List.filter_cons_of_pos (by simp), onChannel]
  · exact .inr ⟨hscan, List.filter_eq_nil_iff.mpr fun m hm => by simpa using hnone m hm⟩

theorem receive_cases (ht : t.isOffline = false) (hlag : t.oldest ≤ s.next)
    (hs : s.next ≤ t.sent.size) :
    (∃ text next, t.receive s = (.payload text, { s with next }) ∧ next ≤ t.sent.size ∧
      t.onChannel s.channel s.next = ⟨s.channel, text⟩ :: t.onChannel s.channel next) ∨
    (t.receive s = (.waiting, { s with next := t.sent.size }) ∧
      t.onChannel s.channel s.next = []) := by
  simp only [receive, ht, Bool.false_eq_true, if_false, Nat.max_eq_left hlag]
  rcases scan_cases t s.channel s.next with ⟨text, next, hscan, hnext, hahead⟩ | ⟨hscan, hahead⟩
  · exact .inl ⟨text, next, by rw [hscan], hnext, hahead⟩
  · refine .inr ⟨?_, hahead⟩
    rw [hscan, Nat.max_eq_right hs]

theorem resume_eq_receive (ht : t.isOffline = false) (hlag : t.oldest ≤ s.next) :
    t.resume s = t.receive s := by
  have hlag' : ¬ s.next < t.oldest := Nat.not_lt.mpr hlag
  have hmax : max (s.next + 1) t.oldest = s.next + 1 := by omega
  rw [resume, if_neg hlag']
  by_cases hlt : s.next < t.sent.size
  · simp only [receive, ht, Bool.false_eq_true, if_false, Nat.max_eq_left hlag, hmax,
      Array.getElem?_eq_getElem hlt]
    conv_rhs => rw [scan, dif_pos hlt]
    split_ifs <;> rfl
  · simp only [receive, ht, Bool.false_eq_true, if_false, Nat.max_eq_left hlag,
      Array.getElem?_eq_none (Nat.not_lt.mp hlt)]
    rw [scan, dif_neg hlt]

theorem notify_of_online (ht : t.isOffline = false) (payload : String) :
    t.notify channel payload = .ok (t.broadcast ⟨channel, payload⟩) := by
  simp [notify, ht]

end Provision.Transport
