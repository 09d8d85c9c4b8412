import Provision.Proofs.Effect
import Provision.Runner.Engine

/-!
# The turn of a command

What one of the two commands of an engine comes to, whatever it writes, however it ends and whenever
it is asked to stop, if the sink takes all that is written.

* `Sink.Takes`: the sink takes every write, and holds what was written in this order.
* `Engine.CommandPlay.output`, `Engine.CommandPlay.stdout`, …: what a command writes.
* `Engine.CommandPlay.heard`, `Engine.CommandPlay.signal`: what is asked of a command while it is watched,
  and as long as it runs. The two differ by what is asked for when its streams have ended.
* `Engine.Took`: the four ways in which a turn ends.
* `Engine.takeTurn_took`: there is no other.
-/

namespace Provision

open Provision.Text (Bytes lossy utf8)

variable {σ : Type}

/-- In the states with `P`, which it does not leave, the sink takes every write; `held` is what it
holds. -/
structure Sink.Takes (sink : Sink σ) (P : σ → Prop) (held : σ → Bytes) : Prop where
  write : ∀ (s : σ) (bytes : Bytes), P s →
    ∃ s', sink bytes s = (.ok (), s') ∧ P s' ∧ held s' = held s ++ bytes

/-- **A buffer without a limit** takes every write. -/
theorem Buffer.takes : Sink.Takes Buffer.write (fun b => b.limit = none) Buffer.bytes where
  write b bytes hb := by
    refine ⟨{ b with bytes := b.bytes ++ bytes, attempts := b.attempts + 1, writes := b.writes + 1 },
      ?_, hb, rfl⟩
    simp [Buffer.write, hb]

namespace Engine

/-! ## What happens while a command runs -/

namespace Happening

/-- What is written. -/
def bytes : Happening → Bytes
  | .wrote _ bytes => bytes
  | .canceled _ => []

/-- What is written to a stream. -/
def on (channel : Channel) : Happening → Bytes
  | .wrote c bytes => if c = channel then bytes else []
  | .canceled _ => []

/-- Whether a cancel is asked for. -/
def isCancel : Happening → Bool
  | .wrote .. => false
  | .canceled _ => true

/-- Whether a forced cancel is asked for. -/
def isForce : Happening → Bool
  | .wrote .. => false
  | .canceled force => force

end Happening

namespace CommandPlay

/-- All that the command writes, as it comes. -/
def output (c : CommandPlay) : Bytes :=
  c.happenings.flatMap Happening.bytes

/-- What the command writes to its first stream. -/
def stdout (c : CommandPlay) : Bytes :=
  c.happenings.flatMap (Happening.on .stdout)

/-- What the command writes to its second stream. -/
def stderr (c : CommandPlay) : Bytes :=
  c.happenings.flatMap (Happening.on .stderr)

/-- What is asked of the command while it is watched. -/
def heard (c : CommandPlay) : CancelSignal :=
  ⟨c.happenings.any Happening.isCancel, c.happenings.any Happening.isForce⟩

/-- What is asked of the command until it ends. -/
def signal (c : CommandPlay) : CancelSignal :=
  ⟨c.heard.isCanceled || !c.late.isEmpty, c.heard.isForced || c.late.any id⟩

/-- Whether the command counts as stopped if this was asked of it: it was killed, or interrupted, and it
did not end well. -/
def isStopped (c : CommandPlay) (signal : CancelSignal) : Bool :=
  signal.isForced || (signal.isCanceled && !c.ending.isSuccess)

/-- Why the command failed, if it did and nobody asked it to stop. -/
def failure (c : CommandPlay) : RunnerError :=
  .exitCode c.ending.code (String.ofList (cleanStderr (lossy c.stderr)))

end CommandPlay

/-- What is written at the end of the output of a phase that failed. -/
def failureBlock (reason : String) : Bytes :=
  utf8 ("\nError: " ++ reason ++ "\n")

/-! ## Watching a command -/

variable {sink : Sink σ} {P : σ → Prop} {held : σ → Bytes} {s : σ} {calls : List (List String)}

theorem say_takes (ht : sink.Takes P held) (hs : P s) (bytes : Bytes) (calls : List (List String)) :
    ∃ s', say sink bytes ⟨s, calls⟩ = (.ok (), ⟨s', calls⟩) ∧ P s' ∧
      held s' = held s ++ bytes := by
  obtain ⟨s', hw, hp, hh⟩ := ht.write s bytes hs
  exact ⟨s', by rw [say, hw], hp, hh⟩

/-- What was watched after one more happening. -/
def Watch.note (w : Watch) : Happening → Watch
  | .wrote .stdout bytes => { w with stdout := w.stdout ++ bytes }
  | .wrote .stderr bytes => { w with stderr := w.stderr ++ bytes }
  | .canceled force => { w with signal := w.signal.request force }

theorem observe_takes (ht : sink.Takes P held) (hs : P s) (w : Watch) (h : Happening)
    (calls : List (List String)) :
    ∃ s', observe sink w h ⟨s, calls⟩ = (.ok (w.note h), ⟨s', calls⟩) ∧ P s' ∧
      held s' = held s ++ h.bytes := by
  match h with
  | .wrote .stdout bytes | .wrote .stderr bytes =>
    obtain ⟨s', hw, hp, hh⟩ := say_takes ht hs bytes calls
    exact ⟨s', Effect.bind_ok hw, hp, hh⟩
  | .canceled force => exact ⟨s, rfl, hs, (List.append_nil _).symm⟩

/-- **A sink holds what happens to be written**, and nothing that is watched gets lost. -/
theorem watch_takes (ht : sink.Takes P held) (hs : P s) (w : Watch) (happenings : List Happening)
    (calls : List (List String)) :
    ∃ s', happenings.foldlM (observe sink) w ⟨s, calls⟩ =
        (.ok (happenings.foldl Watch.note w), ⟨s', calls⟩) ∧ P s' ∧
      held s' = held s ++ happenings.flatMap Happening.bytes := by
  induction happenings generalizing s w with
  | nil => exact ⟨s, rfl, hs, (List.append_nil _).symm⟩
  | cons h rest ih =>
    obtain ⟨s₁, hw₁, hp₁, hh₁⟩ := observe_takes ht hs w h calls
    obtain ⟨s₂, hw₂, hp₂, hh₂⟩ := ih hp₁ (w.note h)
    refine ⟨s₂, ?_, hp₂, ?_⟩
    · rw [List.foldlM_cons, Effect.bind_ok hw₁, hw₂, List.foldl_cons]
    · rw [hh₂, hh₁, List.flatMap_cons, List.append_assoc]

theorem foldl_note (happenings : List Happening) (w : Watch) :
    happenings.foldl Watch.note w =
      { stdout := w.stdout ++ happenings.flatMap (Happening.on .stdout)
        stderr := w.stderr ++ happenings.flatMap (Happening.on .stderr)
        signal := ⟨w.signal.isCanceled || happenings.any Happening.isCancel,
          w.signal.isForced || happenings.any Happening.isForce⟩ } := by
  induction happenings generalizing w with
  | nil => simp
  | cons h rest ih =>
    rw [List.foldl_cons, ih]
    match h with
    | .wrote .stdout bytes | .wrote .stderr bytes =>
      simp [Watch.note, Happening.on, Happening.isCancel, Happening.isForce]
    | .canceled force =>
      simp [Watch.note, Happening.on, Happening.isCancel, Happening.isForce, CancelSignal.request,
        Bool.or_assoc]

theorem foldl_note_happenings (c : CommandPlay) :
    c.happenings.foldl Watch.note {} = ⟨c.stdout, c.stderr, c.heard⟩ := by
  rw [foldl_note]
  simp [CommandPlay.stdout, CommandPlay.stderr, CommandPlay.heard]

theorem foldl_request (flags : List Bool) (s : CancelSignal) :
    flags.foldl CancelSignal.request s =
      ⟨s.isCanceled || !flags.isEmpty, s.isForced || flags.any id⟩ := by
  induction flags generalizing s with
  | nil => simp
  | cons force rest ih =>
    rw [List.foldl_cons, ih]
    simp [CancelSignal.request, Bool.or_assoc]

namespace CommandPlay

variable {c : CommandPlay}

theorem heard_canceled_of_forced (h : c.heard.isForced = true) : c.heard.isCanceled = true := by
  obtain ⟨h, hm, hf⟩ := List.any_eq_true.mp h
  refine List.any_eq_true.mpr ⟨h, hm, ?_⟩
  cases h with
  | wrote => cases hf
  | canceled => rfl

/-- **What is heard is asked for.** -/
theorem signal_of_heard :
    (c.heard.isCanceled = true → c.signal.isCanceled = true) ∧
      (c.heard.isForced = true → c.signal.isForced = true) :=
  ⟨fun h => Bool.or_eq_true_iff.mpr (.inl h), fun h => Bool.or_eq_true_iff.mpr (.inl h)⟩

theorem isStopped_iff {signal : CancelSignal} : c.isStopped signal = true ↔
    signal.isForced = true ∨ signal.isCanceled = true ∧ c.ending ≠ .exited 0 := by
  simp [isStopped, Ending.isSuccess]

theorem isStopped_eq_false_iff {signal : CancelSignal} : c.isStopped signal = false ↔
    signal.isForced = false ∧ (signal.isCanceled = true → c.ending = .exited 0) := by
  simp [isStopped, Ending.isSuccess]

theorem isStopped_signal (h : c.isStopped c.heard = true) : c.isStopped c.signal = true :=
  isStopped_iff.mpr ((isStopped_iff.mp h).imp signal_of_heard.2 fun h => ⟨signal_of_heard.1 h.1, h.2⟩)

theorem heard_isCanceled (h : c.isStopped c.heard = true) : c.heard.isCanceled = true := by
  obtain hf | ⟨hc, -⟩ := isStopped_iff.mp h
  · exact heard_canceled_of_forced hf
  · exact hc

theorem signal_isCanceled (h : c.isStopped c.signal = true) : c.signal.isCanceled = true := by
  obtain hf | ⟨hc, -⟩ := isStopped_iff.mp h
  · obtain hf | hl := Bool.or_eq_true_iff.mp hf
    · exact signal_of_heard.1 (heard_canceled_of_forced hf)
    · refine Bool.or_eq_true_iff.mpr (.inr ?_)
      cases hn : c.late with
      | nil => simp [hn] at hl
      | cons => rfl
  · exact hc

end CommandPlay

/-! ## How a turn ends -/

theorem isSuccess_iff {e : Ending} : e.isSuccess = true ↔ e = .exited 0 := by
  simp [Ending.isSuccess]

/-- How the turn of a command ends, which somebody had `asked` to stop before or not: with what result,
whether the command was started, and what the sink holds more than before. -/
inductive Took (c : CommandPlay) (asked : Bool) :
    Except RunnerError (List Char × CancelSignal) → Bool → Bytes → Prop
  /-- The phase was to stop before the turn. -/
  | skipped : asked = true → Took c asked (.error .cancelled) false []
  /-- The command was stopped. -/
  | stopped : asked = false → c.isStopped c.heard = true → Took c asked (.error .cancelled) true c.output
  /-- The command ended well, and was not killed. -/
  | succeeded : asked = false → c.heard.isForced = false → c.ending = .exited 0 →
      Took c asked (.ok (lossy c.stdout, c.signal)) true c.output
  /-- The command ended badly, and had not been asked to stop. -/
  | failed : asked = false → c.heard.isCanceled = false → c.ending ≠ .exited 0 →
      Took c asked (.error c.failure) true (c.output ++ failureBlock c.failure.message)

theorem runCommand_takes (ht : sink.Takes P held) (hs : P s) (engine : String) (command : List String)
    {c : CommandPlay} (hc : c.startFailure = none) (calls : List (List String)) :
    ∃ s', runCommand engine sink command c ⟨s, calls⟩ =
        ((judge ⟨c.stdout, c.stderr, c.heard⟩ c.ending).map fun text => (text, c.signal),
          ⟨s', calls ++ [command]⟩) ∧
      P s' ∧ held s' = held s ++ c.output := by
  obtain ⟨s', hw, hp, hh⟩ := watch_takes ht hs {} c.happenings (calls ++ [command])
  rw [foldl_note_happenings] at hw
  refine ⟨s', ?_, hp, hh⟩
  have hstart : start (σ := σ) engine command c.startFailure ⟨s, calls⟩ =
      (.ok (), ⟨s, calls ++ [command]⟩) := by
    rw [hc]
    rfl
  rw [runCommand, Effect.bind_ok hstart, Effect.bind_ok hw, foldl_request]
  cases judge ⟨c.stdout, c.stderr, c.heard⟩ c.ending <;> rfl

theorem judge_eq (c : CommandPlay) :
    judge ⟨c.stdout, c.stderr, c.heard⟩ c.ending =
      if c.isStopped c.heard then .error .cancelled
      else if c.ending.isSuccess then .ok (lossy c.stdout)
      else .error c.failure :=
  rfl

theorem failure_ne_cancelled (c : CommandPlay) : c.failure ≠ .cancelled := by
  simp [CommandPlay.failure]

theorem takeTurn_skipped {signal : CancelSignal} {c : CommandPlay} (engine : String) (sink : Sink σ)
    (h : (signal.isCanceled || c.before.isSome) = true) (command : List String) (x : Session σ) :
    takeTurn engine sink signal command c x = (.error .cancelled, x) := by
  unfold takeTurn
  cases hb : c.before with
  | none =>
    have hs : signal.isCanceled = true := by simpa [hb] using h
    exact congrFun (if_pos hs) x
  | some force => rfl

theorem takeTurn_eq {signal : CancelSignal} {c : CommandPlay} (engine : String) (sink : Sink σ)
    (h : (signal.isCanceled || c.before.isSome) = false) (command : List String) :
    takeTurn engine sink signal command c = tryCatch (runCommand engine sink command c) (fun e => do
      if e ≠ .cancelled then writeFailure sink e.message
      throw e) := by
  obtain ⟨hs, hb⟩ : signal.isCanceled = false ∧ c.before = none := by simpa using h
  unfold takeTurn
  rw [hb]
  exact if_neg (Bool.eq_false_iff.mp hs)

/-- **How the turn of a command ends**, if the command starts once it is called. -/
theorem takeTurn_took (ht : sink.Takes P held) (hs : P s) (engine : String) (signal : CancelSignal)
    (command : List String) {c : CommandPlay} (hc : c.startFailure = none)
    (calls : List (List String)) :
    ∃ result started written s',
      takeTurn engine sink signal command c ⟨s, calls⟩ =
        (result, ⟨s', calls ++ if started = true then [command] else []⟩) ∧
      P s' ∧ held s' = held s ++ written ∧
      Took c (signal.isCanceled || c.before.isSome) result started written := by
  cases ha : signal.isCanceled || c.before.isSome with
  | true =>
    refine ⟨.error .cancelled, false, [], s, ?_, hs, (List.append_nil _).symm, .skipped rfl⟩
    rw [takeTurn_skipped engine sink ha command ⟨s, calls⟩, if_neg Bool.false_ne_true,
      List.append_nil]
  | false =>
    rw [takeTurn_eq engine sink ha]
    obtain ⟨s₁, hrun, hp, hh⟩ := runCommand_takes ht hs engine command hc calls
    rw [judge_eq] at hrun
    by_cases hstop : c.isStopped c.heard = true
    · rw [if_pos hstop] at hrun
      exact ⟨.error .cancelled, true, c.output, s₁, Effect.tryCatch_error hrun, hp, hh,
        .stopped rfl hstop⟩
    rw [if_neg hstop] at hrun
    obtain ⟨hforce, hask⟩ := CommandPlay.isStopped_eq_false_iff.mp (Bool.eq_false_iff.mpr hstop)
    by_cases hwell : c.ending = .exited 0
    · rw [if_pos (isSuccess_iff.mpr hwell)] at hrun
      exact ⟨.ok (lossy c.stdout, c.signal), true, c.output, s₁, Effect.tryCatch_ok hrun, hp, hh,
        .succeeded rfl hforce hwell⟩
    · rw [if_neg fun h => hwell (isSuccess_iff.mp h)] at hrun
      have hask : c.heard.isCanceled = false := Bool.eq_false_iff.mpr fun h => hwell (hask h)
      obtain ⟨s₂, hsay, hp₂, hh₂⟩ :=
        say_takes ht hp (failureBlock c.failure.message) (calls ++ [command])
      refine ⟨.error c.failure, true, c.output ++ failureBlock c.failure.message, s₂, ?_, hp₂, ?_,
        .failed rfl hask hwell⟩
      · refine (Effect.tryCatch_error hrun).trans ?_
        dsimp only
        rw [if_pos (failure_ne_cancelled c)]
        exact Effect.bind_ok hsay
      · rw [hh₂, hh, List.append_assoc]

end Engine

end Provision
