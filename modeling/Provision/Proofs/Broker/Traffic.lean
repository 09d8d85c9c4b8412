import Mathlib.Data.List.Induction
import Provision.Proofs.Broker.Backlog

/-!
# What streams return

A `Traffic` is a transport with the streams that were opened on it. Anybody notifies, listens and receives,
and the connection is lost and regained, in any order. What comes of it is kept in a log, from which can be
told what a stream returned and what it has yet to read.

* `Traffic.Follows.perform`: whatever is done keeps a stream in step with the log.
* **`Traffic.delivers`**: a stream returns messages of its channel in order, invents none, and finds the
  connection lost exactly when it is.
-/

namespace Provision

/-- A transport, with its streams in the order in which they were opened. -/
structure Traffic where
  transport : Transport := {}
  streams : List Stream := []

namespace Traffic

open Provision.Stream (Owes Reads behind)

/-- What is done. A stream goes by its number. -/
inductive Call
  | notify (channel payload : String)
  | listen (channel : String)
  /-- A stream looks for a message. -/
  | receive (i : ℕ)
  /-- A stream that has waited for a message goes on. -/
  | resume (i : ℕ)
  | setOffline (value : Bool)
  deriving DecidableEq

/-- What comes of it. -/
inductive Deed
  | notified (m : Message)
  | opened (channel : String)
  | found (i : ℕ) (r : Received)
  | switched (isOffline : Bool)
  /-- There is no connection, or no such stream. -/
  | refused
  deriving DecidableEq

/-- A stream found something and went on. -/
def read (w : Traffic) (i : ℕ) (found : Received × Stream) : Deed × Traffic :=
  (.found i found.1, { w with streams := w.streams.set i found.2 })

/-- Do something. -/
def perform (w : Traffic) : Call → Deed × Traffic
  | .notify channel payload =>
    match w.transport.notify channel payload with
    | .ok t => (.notified ⟨channel, payload⟩, { w with transport := t })
    | .error _ => (.refused, w)
  | .listen channel =>
    match w.transport.listen channel with
    | .ok s => (.opened channel, { w with streams := w.streams ++ [s] })
    | .error _ => (.refused, w)
  | .receive i =>
    match w.streams[i]? with
    | some s => w.read i (w.transport.receive s)
    | none => (.refused, w)
  | .resume i =>
    match w.streams[i]? with
    | some s => w.read i (w.transport.resume s)
    | none => (.refused, w)
  | .setOffline value =>
    (.switched value, { w with transport := w.transport.setOffline value })

/-- Do one thing after the other: the log, and what there is in the end. -/
def run (w : Traffic) (calls : List Call) : List Deed × Traffic :=
  calls.foldl (fun h call => (h.1 ++ [(h.2.perform call).1], (h.2.perform call).2)) ([], w)

/-! ## Reading a log -/

/-- The message that is sent. Losing the connection sends one too. -/
def Deed.message? : Deed → Option Message
  | .notified m => some m
  | .switched true => some ⟨"", ""⟩
  | _ => none

/-- The payload that was notified on a channel. -/
def Deed.notified? (channel : String) : Deed → Option String
  | .notified m => if m.channel = channel then some m.payload else none
  | _ => none

/-- The payload that a stream returned. -/
def Deed.returned? (i : ℕ) : Deed → Option String
  | .found j (.payload text) => if j = i then some text else none
  | _ => none

/-- The messages that were sent. -/
def messages (log : List Deed) : List Message :=
  log.filterMap Deed.message?

/-- The payloads that were notified on a channel. -/
def notified (channel : String) (log : List Deed) : List String :=
  log.filterMap (Deed.notified? channel)

/-- The payloads that a stream returned. -/
def returned (i : ℕ) (log : List Deed) : List String :=
  log.filterMap (Deed.returned? i)

/-- What a stream has not read after something was done. -/
def unreadAfter (channel : String) (i : ℕ) (unread : List Message) (d : Deed) : List Message :=
  if (d.returned? i).isSome then behind channel unread else unread ++ d.message?.toList

/-- What a stream has not read since the log began: all that was sent behind the last message that it
returned. -/
def unread (channel : String) (i : ℕ) (log : List Deed) : List Message :=
  log.foldl (unreadAfter channel i) []

variable {w w' : Traffic} {channel text : String} {i : ℕ} {m : Message} {r : Received}
  {log : List Deed} {d : Deed}

theorem run_concat (w : Traffic) (calls : List Call) (call : Call) :
    w.run (calls ++ [call]) =
      ((w.run calls).1 ++ [((w.run calls).2.perform call).1], ((w.run calls).2.perform call).2) := by
  rw [run, List.foldl_concat, run]

theorem notified_concat (channel : String) (log : List Deed) (d : Deed) :
    notified channel (log ++ [d]) = notified channel log ++ (d.notified? channel).toList := by
  rw [notified, List.filterMap_append, notified]
  cases h : d.notified? channel <;> simp [h]

theorem returned_concat (i : ℕ) (log : List Deed) (d : Deed) :
    returned i (log ++ [d]) = returned i log ++ (d.returned? i).toList := by
  rw [returned, List.filterMap_append, returned]
  cases h : d.returned? i <;> simp [h]

theorem unread_concat (channel : String) (i : ℕ) (log : List Deed) (d : Deed) :
    unread channel i (log ++ [d]) = unreadAfter channel i (unread channel i log) d := by
  rw [unread, List.foldl_concat, unread]

theorem unread_append {more : List Deed} (h : returned i more = []) (channel : String)
    (log : List Deed) : unread channel i (log ++ more) = unread channel i log ++ messages more := by
  induction more using List.reverseRecOn with
  | nil => simp [messages]
  | append_singleton more d ih =>
    rw [returned_concat, List.append_eq_nil_iff] at h
    have hd : d.returned? i = none := by simpa using h.2
    rw [← List.append_assoc, unread_concat, ih h.1, unreadAfter, hd, messages, messages,
      List.filterMap_append, if_neg (by simp), List.append_assoc]
    cases hm : d.message? <;> simp [hm]

/-! ## Streams and the log -/

/-- The payloads of a channel. -/
def payloads (channel : String) (ms : List Message) : List String :=
  (ms.filter fun m => m.channel = channel).map Message.payload

/-- A stream is in step with the log. -/
structure Follows (w : Traffic) (i : ℕ) (channel : String) (log : List Deed) : Prop where
  stream : ∃ s, w.streams[i]? = some s ∧ s.Owes w.transport.sent channel (unread channel i log)
  /-- What was returned, and what is still to come, was notified in this order. -/
  inOrder : channel ≠ "" →
    (returned i log ++ payloads channel (unread channel i log)).Sublist (notified channel log)

theorem Follows.send (h : w.Follows i channel log) {t : Transport}
    (hm : d.message? = some m) (hr : d.returned? i = none)
    (hn : channel ≠ "" → d.notified? channel = if m.channel = channel then some m.payload else none)
    (ht : t.sent = w.transport.sent.push m) :
    Follows { w with transport := t } i channel (log ++ [d]) := by
  have hunread : unread channel i (log ++ [d]) = unread channel i log ++ [m] := by
    simp [unread_concat, unreadAfter, hr, hm]
  refine ⟨?_, fun hc => ?_⟩
  · obtain ⟨s, hs, howes⟩ := h.stream
    refine ⟨s, hs, ?_⟩
    rw [hunread]
    exact ht ▸ howes.push m
  · have hpayloads : payloads channel (unread channel i log ++ [m]) =
        payloads channel (unread channel i log) ++ (d.notified? channel).toList := by
      rw [hn hc]
      by_cases hmc : m.channel = channel <;> simp [payloads, hmc]
    rw [hunread, hpayloads, returned_concat, hr, notified_concat, Option.toList_none,
      List.append_nil, ← List.append_assoc]
    exact (h.inOrder hc).append_right _

theorem Follows.pass (h : w.Follows i channel log) (hm : d.message? = none)
    (hr : d.returned? i = none) (hn : d.notified? channel = none)
    (ht : w'.transport.sent = w.transport.sent) (hs : w'.streams[i]? = w.streams[i]?) :
    w'.Follows i channel (log ++ [d]) := by
  have hunread : unread channel i (log ++ [d]) = unread channel i log := by
    simp [unread_concat, unreadAfter, hr, hm]
  refine ⟨?_, fun hc => ?_⟩
  · rw [ht, hs, hunread]
    exact h.stream
  · rw [hunread, returned_concat, hr, notified_concat, hn]
    simpa using h.inOrder hc

theorem Follows.read (h : w.Follows i channel log) {s s' : Stream} {left : List Message}
    (hs : w.streams[i]? = some s) (hreads : Reads channel (unread channel i log) r left)
    (howes : s'.Owes w.transport.sent channel left) :
    (w.read i (r, s')).2.Follows i channel (log ++ [(w.read i (r, s')).1]) ∧
      unread channel i (log ++ [.found i r]) = left := by
  have hlt : i < w.streams.length := (List.getElem?_eq_some_iff.mp hs).1
  have hstream : (w.streams.set i s')[i]? = some s' := List.getElem?_set_self hlt
  have hunread : unread channel i (log ++ [.found i r]) = left := by
    rw [unread_concat, unreadAfter]
    cases hreads with
    | payload hu hrest hgone =>
      rw [if_pos (by simp [Deed.returned?])]
      exact (Reads.payload hu hrest hgone).behind_eq
    | waiting hgone => simp [Deed.returned?, Deed.message?]
    | lost => simp [Deed.returned?, Deed.message?]
  refine ⟨⟨⟨s', hstream, hunread.symm ▸ howes⟩, fun hc => ?_⟩, hunread⟩
  have horder := h.inOrder hc
  rw [show (w.read i (r, s')).1 = .found i r from rfl, hunread, returned_concat, notified_concat]
  cases hreads with
  | @payload passed rest text hu hrest hgone =>
    refine List.Sublist.trans ?_ (horder.trans (List.sublist_append_left _ _))
    have hpayloads : payloads channel (unread channel i log) =
        payloads channel passed ++ text :: payloads channel left := by
      simp [hu, payloads]
    rw [hpayloads]
    simp [Deed.returned?]
  | waiting hgone => simpa [Deed.returned?, Deed.notified?] using horder
  | lost => simpa [Deed.returned?, Deed.notified?] using horder

theorem Follows.look (h : w.Follows i channel log) {look : Stream → Received × Stream}
    (hlook : ∀ {s unread}, s.Owes w.transport.sent channel unread →
      ∃ left, Reads channel unread (look s).1 left ∧ (look s).2.Owes w.transport.sent channel left)
    {j : ℕ} {s : Stream} (hs : w.streams[j]? = some s) :
    (w.read j (look s)).2.Follows i channel (log ++ [(w.read j (look s)).1]) := by
  by_cases hj : j = i
  · subst hj
    obtain ⟨s', hs', howes⟩ := h.stream
    obtain rfl : s = s' := Option.some.inj (hs.symm.trans hs')
    obtain ⟨left, hreads, hleft⟩ := hlook howes
    exact (h.read hs hreads hleft).1
  · have hr : (Deed.found j (look s).1).returned? i = none := by
      cases (look s).1 <;> simp [Deed.returned?, hj]
    exact h.pass rfl hr rfl rfl (List.getElem?_set_ne hj)

/-- **Whatever is done**, a stream stays in step with the log. -/
theorem Follows.perform (h : w.Follows i channel log) (call : Call) :
    (w.perform call).2.Follows i channel (log ++ [(w.perform call).1]) := by
  have hlt : i < w.streams.length := by
    obtain ⟨s, hs, -⟩ := h.stream
    exact (List.getElem?_eq_some_iff.mp hs).1
  cases call with
  | notify c p =>
    by_cases ht : w.transport.isOffline = true
    · simp only [Traffic.perform, Transport.notify, if_pos ht]
      exact h.pass rfl rfl rfl rfl rfl
    · simp only [Traffic.perform, Transport.notify, if_neg ht]
      exact h.send rfl rfl (fun _ => rfl) rfl
  | listen c =>
    by_cases ht : w.transport.isOffline = true
    · simp only [Traffic.perform, Transport.listen, if_pos ht]
      exact h.pass rfl rfl rfl rfl rfl
    · simp only [Traffic.perform, Transport.listen, if_neg ht]
      exact h.pass rfl rfl rfl rfl (List.getElem?_append_left hlt)
  | receive j =>
    rw [Traffic.perform]
    split
    · next s hs =>
      exact h.look (fun howes => (howes.receive).imp fun _ hr => ⟨hr.1, hr.2.1⟩) hs
    · exact h.pass rfl rfl rfl rfl rfl
  | resume j =>
    rw [Traffic.perform]
    split
    · next s hs =>
      exact h.look (fun howes => (howes.resume).imp fun _ hr => ⟨hr.1, hr.2.1⟩) hs
    · exact h.pass rfl rfl rfl rfl rfl
  | setOffline value =>
    cases value with
    | true =>
      -- What wakes the streams is on the channel without a name, which is not this one.
      refine h.send rfl rfl (fun hc => ?_) rfl
      rw [if_neg (Ne.symm hc)]
      rfl
    | false => exact h.pass rfl rfl rfl rfl rfl

theorem follows_listen (hw : w.transport.isOffline = false) (channel : String) :
    (w.perform (.listen channel)).2.Follows w.streams.length channel
      [(w.perform (.listen channel)).1] := by
  simp only [Traffic.perform, Transport.listen, hw, Bool.false_eq_true, if_false]
  exact ⟨⟨_, by simp, Stream.owes_new _ _⟩, fun _ => List.nil_sublist _⟩

/-- A run keeps a stream in step with its log. -/
theorem follows_run (hw : w.transport.isOffline = false) (channel : String) (calls : List Call) :
    (w.run (.listen channel :: calls)).2.Follows w.streams.length channel
      (w.run (.listen channel :: calls)).1 := by
  induction calls using List.reverseRecOn with
  | nil => exact follows_listen hw channel
  | append_singleton calls call ih =>
    rw [← List.cons_append, run_concat]
    exact ih.perform call

theorem run_append (w : Traffic) (calls more : List Call) :
    w.run (calls ++ more) =
      ((w.run calls).1 ++ ((w.run calls).2.run more).1, ((w.run calls).2.run more).2) := by
  induction more using List.reverseRecOn with
  | nil => simp [run]
  | append_singleton more call ih =>
    rw [← List.append_assoc, run_concat, ih, run_concat, List.append_assoc]

/-! ## Receiving -/

theorem Follows.finds (h : w.Follows i channel log) (look : Stream → Received × Stream)
    (P : Received → Prop)
    (hlook : ∀ {s unread}, s.Owes w.transport.sent channel unread →
      ∃ left, Reads channel unread (look s).1 left ∧ (look s).2.Owes w.transport.sent channel left ∧
        P (look s).1) :
    ∃ s, w.streams[i]? = some s ∧ P (look s).1 ∧
      Reads channel (unread channel i log) (look s).1
        (unread channel i (log ++ [.found i (look s).1])) := by
  obtain ⟨s, hs, howes⟩ := h.stream
  obtain ⟨left, hreads, hleft, hP⟩ := hlook howes
  refine ⟨s, hs, hP, ?_⟩
  rwa [(h.read hs hreads hleft).2]

theorem Follows.receive (h : w.Follows i channel log) :
    ∃ r, (w.perform (.receive i)).1 = .found i r ∧ (r = .lost ↔ w.transport.isOffline = true) ∧
      Reads channel (unread channel i log) r (unread channel i (log ++ [.found i r])) := by
  obtain ⟨s, hs, hfound⟩ := h.finds w.transport.receive
    (fun r => r = .lost ↔ w.transport.isOffline = true) fun howes => howes.receive
  exact ⟨(w.transport.receive s).1, by simp only [Traffic.perform, hs]; rfl, hfound⟩

theorem Follows.resume (h : w.Follows i channel log) :
    ∃ r, (w.perform (.resume i)).1 = .found i r ∧ (r = .lost → w.transport.isOffline = true) ∧
      Reads channel (unread channel i log) r (unread channel i (log ++ [.found i r])) := by
  obtain ⟨s, hs, hfound⟩ := h.finds w.transport.resume
    (fun r => r = .lost → w.transport.isOffline = true) fun howes => howes.resume
  exact ⟨(w.transport.resume s).1, by simp only [Traffic.perform, hs]; rfl, hfound⟩

theorem Follows.offline (h : w.Follows i channel log) (ht : w.transport.isOffline = true) :
    w.perform (.receive i) = (.found i .lost, w) ∧
      ∀ c p, w.perform (.notify c p) = (.refused, w) := by
  obtain ⟨s, hs, -⟩ := h.stream
  obtain ⟨hlt, rfl⟩ := List.getElem?_eq_some_iff.mp hs
  refine ⟨?_, fun c p => by simp only [Traffic.perform, Transport.notify, if_pos ht]⟩
  simp only [Traffic.perform, hs, Traffic.read, Stream.receive_of_offline ht, List.set_getElem_self]

/-- **A stream delivers in order and invents nothing.** After a stream was opened on a channel and
whatever was done since:

* it returned payloads of messages that were notified on the channel since then, each at most once and in
  the order in which they were, unless the channel is the one without a name;
* the next it returns is the first message it has not read that is kept, so it passes over one only if
  `Transport.depth` came behind it, on any channel, by the time it looks;
* it finds the connection lost exactly when it is, and then reads nothing; one that waited for a message
  finds it lost only if it is, and reads nothing then either;
* what is notified without a connection is not sent;
* what it has not read stays so until it returns something, through any outage, and is read then. -/
theorem delivers (hw : w.transport.isOffline = false) (channel : String) (calls : List Call) :
    let i := w.streams.length
    let log := (w.run (.listen channel :: calls)).1
    let v := (w.run (.listen channel :: calls)).2
    (channel ≠ "" → (returned i log).Sublist (notified channel log)) ∧
      (∃ r, (v.perform (.receive i)).1 = .found i r ∧ (r = .lost ↔ v.transport.isOffline = true) ∧
        Reads channel (unread channel i log) r (unread channel i (log ++ [.found i r]))) ∧
      (∃ r, (v.perform (.resume i)).1 = .found i r ∧ (r = .lost → v.transport.isOffline = true) ∧
        Reads channel (unread channel i log) r (unread channel i (log ++ [.found i r]))) ∧
      (v.transport.isOffline = true → v.perform (.receive i) = (.found i .lost, v) ∧
        ∀ c p, v.perform (.notify c p) = (.refused, v)) ∧
      ∀ more, returned i (v.run more).1 = [] → (v.run more).2.transport.isOffline = false →
        ∃ r left, ((v.run more).2.perform (.receive i)).1 = .found i r ∧ r ≠ .lost ∧
          Reads channel (unread channel i log ++ messages (v.run more).1) r left := by
  intro i log v
  have hv : v.Follows i channel log := follows_run hw channel calls
  refine ⟨fun hc => ?_, hv.receive, hv.resume, hv.offline, fun more hmore ht => ?_⟩
  · exact (List.sublist_append_left _ _).trans (hv.inOrder hc)
  · have hrun : (v.run more).2.Follows i channel (log ++ (v.run more).1) := by
      have h := follows_run hw channel (calls ++ more)
      rwa [← List.cons_append, run_append] at h
    obtain ⟨r, hr, hlost, hreads⟩ := hrun.receive
    rw [unread_append hmore] at hreads
    exact ⟨r, _, hr, fun h => by simp [hlost.mp h] at ht, hreads⟩

/-- A message that was sent before an outage, and one that was not sent during it. -/
theorem delivers_afterOutage :
    let calls : List Call := [.notify "a" "1", .notify "b" "2"]
    let outage : List Call := [.setOffline true, .notify "a" "3", .receive 0, .setOffline false]
    let v := (({} : Traffic).run (.listen "a" :: (calls ++ outage))).2
    returned 0 ((({} : Traffic).run (.listen "a" :: calls)).2.run outage).1 = [] ∧
      v.transport.isOffline = false ∧ (v.perform (.receive 0)).1 = .found 0 (.payload "1") ∧
      (returned 0 (({} : Traffic).run (.listen "a" :: (calls ++ outage))).1).Sublist ["1"] := by
  intro calls outage v
  have hnothing : returned 0 ((({} : Traffic).run (.listen "a" :: calls)).2.run outage).1 = [] := by
    decide +kernel
  have honline : v.transport.isOffline = false := by decide +kernel
  obtain ⟨-, -, -, -, hafter⟩ := delivers (w := {}) rfl "a" calls
  obtain ⟨horder, -⟩ := delivers (w := {}) rfl "a" (calls ++ outage)
  have hrun : v = ((({} : Traffic).run (.listen "a" :: calls)).2.run outage).2 := by
    rw [← congrArg Prod.snd (run_append {} (.listen "a" :: calls) outage)]
    rfl
  obtain ⟨r, left, hr, hne, hreads⟩ := hafter outage hnothing (hrun ▸ honline)
  have hunread : unread "a" 0 (({} : Traffic).run (.listen "a" :: calls)).1 ++
      messages ((({} : Traffic).run (.listen "a" :: calls)).2.run outage).1 =
        [⟨"a", "1"⟩, ⟨"b", "2"⟩, ⟨"", ""⟩] := by
    decide +kernel
  have hone : r = .payload "1" := by
    rw [show (({} : Traffic).streams.length) = 0 from rfl, hunread] at hreads
    cases hreads with
    | @payload passed rest text hu hrest hgone =>
      rcases passed with _ | ⟨x, _ | ⟨y, _ | ⟨z, passed⟩⟩⟩ <;> simp_all
    | waiting hgone => exact absurd (hgone 0 _ rfl rfl) (by decide)
    | lost => exact absurd rfl hne
  exact ⟨hnothing, honline, by rw [hrun, ← hone]; exact hr, horder (by decide)⟩

end Traffic

end Provision
