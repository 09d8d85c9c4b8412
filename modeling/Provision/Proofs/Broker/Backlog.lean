import Provision.Proofs.Broker.Stream

/-!
# What a stream has yet to read

What a stream has not read is all that was sent since it was opened, behind the last message it returned.
That may be more than what lies ahead of it: a stream that fell behind goes on with the oldest message that
is kept.

* `Stream.Reads`: what a stream finds among the messages it has not read. A message of its channel is
  passed over only if so many came behind it that it is not kept any more.
* `Stream.Owes.receive`, `Stream.Owes.resume`: so it does, whether it looks for a message or has waited for
  one.
-/

namespace Provision.Stream

open Transport (depth)

variable {t : Transport} {s : Stream} {sent : Array Message} {channel text : String} {k : ℕ}
  {ms ms' rest unread : List Message} {m : Message}

/-- Those of a channel are not kept any more, when `k` messages come behind all of these. -/
def AreGone (channel : String) (ms : List Message) (k : ℕ) : Prop :=
  ∀ j m, ms[j]? = some m → m.channel = channel → depth ≤ ms.length - (j + 1) + k

/-- What a stream finds among the messages it has not read, and which it has not read then. -/
inductive Reads (channel : String) (unread : List Message) : Received → List Message → Prop
  /-- The first one of its channel that is kept. -/
  | payload {passed rest : List Message} {text : String} :
      unread = passed ++ ⟨channel, text⟩ :: rest → rest.length < depth →
      AreGone channel passed (rest.length + 1) → Reads channel unread (.payload text) rest
  /-- None of its channel is kept. -/
  | waiting : AreGone channel unread 0 → Reads channel unread .waiting unread
  | lost : Reads channel unread .lost unread

/-- What comes behind the first message of a channel that is kept. -/
def behind (channel : String) : List Message → List Message
  | [] => []
  | m :: rest => if m.channel = channel ∧ rest.length < depth then rest else behind channel rest

/-- What a stream has not read, by its place in what was sent: what it passed over, which is gone, and
what lies ahead of it. -/
structure Owes (s : Stream) (sent : Array Message) (channel : String) (unread : List Message) :
    Prop where
  channel_eq : s.channel = channel
  place : s.next ≤ sent.size
  ahead : ∃ passed, unread = passed ++ sent.toList.drop s.next ∧
    AreGone channel passed (sent.size - s.next)

/-! ## Messages that are gone -/

theorem areGone_nil : AreGone channel [] k := by
  intro j m hm
  cases hm

theorem areGone_of_forall_ne (h : ∀ m ∈ ms, m.channel ≠ channel) : AreGone channel ms k :=
  fun _ m hm hc => absurd hc (h m (List.mem_of_getElem? hm))

theorem areGone_of_le (h : depth ≤ k) : AreGone channel ms k :=
  fun _ _ _ _ => Nat.le_trans h (Nat.le_add_left _ _)

theorem AreGone.mono {k' : ℕ} (h : AreGone channel ms k) (hk : k ≤ k') : AreGone channel ms k' :=
  fun j m hm hc => Nat.le_trans (h j m hm hc) (Nat.add_le_add_left hk _)

theorem AreGone.append (h : AreGone channel ms (ms'.length + k)) (h' : AreGone channel ms' k) :
    AreGone channel (ms ++ ms') k := by
  intro j m hm hc
  rw [List.length_append]
  by_cases hj : j < ms.length
  · rw [List.getElem?_append_left hj] at hm
    have := h j m hm hc
    omega
  · rw [List.getElem?_append_right (by omega)] at hm
    have := h' _ m hm hc
    omega

theorem AreGone.tail (h : AreGone channel (m :: ms) k) : AreGone channel ms k := by
  intro j n hn hc
  have := h (j + 1) n (by simpa using hn) hc
  simp only [List.length_cons] at this
  omega

theorem behind_of_areGone (h : AreGone channel ms (rest.length + 1)) (hm : m.channel = channel)
    (hrest : rest.length < depth) : behind channel (ms ++ m :: rest) = rest := by
  induction ms with
  | nil => simp [behind, hm, hrest]
  | cons n ms ih =>
    have hgone : ¬ (n.channel = channel ∧ (ms ++ m :: rest).length < depth) := by
      rintro ⟨hn, hlt⟩
      have := h 0 n rfl hn
      simp only [List.length_append, List.length_cons] at this hlt
      omega
    rw [List.cons_append, behind, if_neg hgone, ih h.tail]

theorem Reads.behind_eq (h : Reads channel unread (.payload text) rest) :
    behind channel unread = rest := by
  cases h with
  | payload hu hrest hgone => rw [hu, behind_of_areGone hgone rfl hrest]

/-! ## A stream and what was sent -/

theorem owes_new (sent : Array Message) (channel : String) :
    Owes ⟨channel, sent.size⟩ sent channel [] where
  channel_eq := rfl
  place := Nat.le_refl _
  ahead := ⟨[], by simp, areGone_nil⟩

theorem Owes.push (h : s.Owes sent channel unread) (m : Message) :
    s.Owes (sent.push m) channel (unread ++ [m]) where
  channel_eq := h.channel_eq
  place := by
    have := h.place
    rw [Array.size_push]
    omega
  ahead := by
    obtain ⟨passed, hu, hgone⟩ := h.ahead
    refine ⟨passed, ?_, hgone.mono (by rw [Array.size_push]; omega)⟩
    rw [Array.toList_push, List.drop_append_of_le_length (by simpa using h.place), hu,
      List.append_assoc]

theorem Owes.goOn (h : s.Owes sent channel unread) (passed : List Message) {next : ℕ}
    (hnext : next ≤ sent.size)
    (hdrop : sent.toList.drop s.next = passed ++ sent.toList.drop next)
    (hgone : AreGone channel passed (sent.size - next)) :
    Owes { s with next } sent channel unread where
  channel_eq := h.channel_eq
  place := hnext
  ahead := by
    obtain ⟨before, hu, hbefore⟩ := h.ahead
    have hlength : sent.size - s.next = passed.length + (sent.size - next) := by
      simpa using congrArg List.length hdrop
    refine ⟨before ++ passed, by rw [hu, hdrop, List.append_assoc], ?_⟩
    exact AreGone.append (hlength ▸ hbefore) hgone

theorem Owes.catchUp (h : s.Owes t.sent channel unread) :
    Owes { s with next := max s.next t.oldest } t.sent channel unread := by
  have hplace := h.place
  have hold : t.oldest = t.sent.size - depth := rfl
  obtain ⟨k, hk⟩ := Nat.exists_eq_add_of_le (Nat.le_max_left s.next t.oldest)
  rw [hk]
  refine h.goOn ((t.sent.toList.drop s.next).take k) (by omega) ?_ ?_
  · rw [← List.drop_drop, List.take_append_drop]
  · rcases Nat.eq_zero_or_pos k with rfl | hpos
    · exact areGone_nil
    · exact areGone_of_le (by omega)

/-! ## What it finds -/

theorem Owes.returns (h : s.Owes sent channel unread) (passed : List Message) {next : ℕ}
    (hkept : sent.size - s.next ≤ depth) (hnext : next ≤ sent.size)
    (hpassed : ∀ m ∈ passed, m.channel ≠ channel)
    (hdrop : sent.toList.drop s.next = passed ++ ⟨channel, text⟩ :: sent.toList.drop next) :
    Reads channel unread (.payload text) (sent.toList.drop next) ∧
      Owes { s with next } sent channel (sent.toList.drop next) := by
  obtain ⟨before, hu, hbefore⟩ := h.ahead
  have hrest : (sent.toList.drop next).length = sent.size - next := by simp
  have hlength : sent.size - s.next = passed.length + ((sent.toList.drop next).length + 1) := by
    simpa using congrArg List.length hdrop
  have hsplit : unread = (before ++ passed) ++ ⟨channel, text⟩ :: sent.toList.drop next := by
    rw [hu, hdrop, List.append_assoc]
  have hgone : AreGone channel (before ++ passed) ((sent.toList.drop next).length + 1) :=
    AreGone.append (hlength ▸ hbefore) (areGone_of_forall_ne hpassed)
  exact ⟨.payload hsplit (by omega) hgone, h.channel_eq, hnext, [], rfl, areGone_nil⟩

theorem Owes.waits (h : s.Owes sent channel unread)
    (hnone : ∀ m ∈ sent.toList.drop s.next, m.channel ≠ channel) :
    Reads channel unread .waiting unread ∧
      Owes { s with next := sent.size } sent channel unread := by
  obtain ⟨before, hu, hbefore⟩ := h.ahead
  have hgone : AreGone channel unread 0 := by
    rw [hu]
    exact AreGone.append (by simpa using hbefore) (areGone_of_forall_ne hnone)
  exact ⟨.waiting hgone, h.goOn _ (Nat.le_refl _) (by simp) (areGone_of_forall_ne hnone)⟩

/-- **A stream that looks for a message** finds the first one of its channel that is kept. It finds the
connection lost exactly when it is. -/
theorem Owes.receive (h : s.Owes t.sent channel unread) :
    ∃ left, Reads channel unread (t.receive s).1 left ∧ (t.receive s).2.Owes t.sent channel left ∧
      ((t.receive s).1 = .lost ↔ t.isOffline = true) := by
  by_cases ht : t.isOffline = true
  · rw [Transport.receive, if_pos ht]
    exact ⟨unread, .lost, h, iff_of_true rfl ht⟩
  obtain rfl := h.channel_eq
  rw [Transport.receive, if_neg ht]
  have hup := h.catchUp
  have hkept : t.sent.size - max s.next t.oldest ≤ depth := by
    have : t.oldest = t.sent.size - depth := rfl
    omega
  rcases Transport.scan_split t s.channel (max s.next t.oldest) with
    ⟨passed, text, next, hscan, hnext, hpassed, hdrop⟩ | ⟨hscan, hnone⟩
  · obtain ⟨hreads, howes⟩ := hup.returns passed hkept hnext hpassed hdrop
    rw [hscan]
    exact ⟨_, hreads, howes, by simp [ht]⟩
  · obtain ⟨hreads, howes⟩ := hup.waits hnone
    rw [hscan, Nat.max_eq_right hup.place]
    exact ⟨_, hreads, howes, by simp [ht]⟩

theorem receive_of_offline (ht : t.isOffline = true) (s : Stream) : t.receive s = (.lost, s) := by
  rw [Transport.receive, if_pos ht]

/-- **A stream that has waited for a message** finds what it would find otherwise, or the connection
lost. -/
theorem Owes.resume (h : s.Owes t.sent channel unread) :
    ∃ left, Reads channel unread (t.resume s).1 left ∧ (t.resume s).2.Owes t.sent channel left ∧
      ((t.resume s).1 = .lost → t.isOffline = true) := by
  obtain rfl := h.channel_eq
  rw [Transport.resume]
  split_ifs with hlag
  · have hup : Owes { s with next := t.oldest } t.sent s.channel unread := by
      simpa [Nat.max_eq_right (Nat.le_of_lt hlag)] using h.catchUp
    obtain ⟨left, hreads, howes, hlost⟩ := hup.receive
    exact ⟨left, hreads, howes, hlost.mp⟩
  by_cases hlt : s.next < t.sent.size
  · have hdrop : t.sent.toList.drop s.next = t.sent[s.next] :: t.sent.toList.drop (s.next + 1) := by
      rw [List.drop_eq_getElem_cons (by simpa using hlt), Array.getElem_toList]
    rw [Array.getElem?_eq_getElem hlt]
    dsimp only
    split_ifs with hc
    · have hkept : t.sent.size - s.next ≤ depth := by
        have : t.oldest = t.sent.size - depth := rfl
        omega
      obtain ⟨hreads, howes⟩ := h.returns [] hkept hlt (by simp) (by rw [hdrop, ← hc]; rfl)
      exact ⟨_, hreads, howes, fun hl => by cases hl⟩
    · have hnext : Owes { s with next := s.next + 1 } t.sent s.channel unread :=
        h.goOn [t.sent[s.next]] hlt (by rw [hdrop]; rfl) (areGone_of_forall_ne (by simpa using hc))
      obtain ⟨left, hreads, howes, hlost⟩ := hnext.receive
      exact ⟨left, hreads, howes, hlost.mp⟩
  · have hnil : t.sent.toList.drop s.next = [] := List.drop_eq_nil_of_le (by simpa using hlt)
    obtain ⟨hreads, -⟩ := h.waits (by simp [hnil])
    rw [Array.getElem?_eq_none (by omega)]
    exact ⟨unread, hreads, h, fun hl => by cases hl⟩

end Provision.Stream
