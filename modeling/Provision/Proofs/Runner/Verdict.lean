import Provision.Proofs.Runner.Turn

/-!
# The verdict on a phase

What the execution of a phase comes to, for every engine and every cancel.

* `Engine.Play.comes`, `Engine.Play.askedBefore`, `Engine.Play.starts`: whose turn comes, and which of
  the two commands is started.
* `Engine.Ended`: the ways in which a phase ends.
* `Engine.execute_ended`: there is no other.
* `Engine.Play.IsCanceled`, `Engine.Play.Overlooks`: when a phase should count as canceled, and when the
  cancel came too late to be heard.
* `Engine.execute_classified`: when a phase succeeds, when it counts as canceled, and what is written.
-/

namespace Provision.Engine

open Provision.Text (Bytes lossy utf8)

/-- The two commands, by their turns. -/
inductive Turn
  | init
  | main
  deriving DecidableEq, Repr

namespace Play

/-- The command whose turn it is. -/
def command (p : Play) : Turn → CommandPlay
  | .init => p.init
  | .main => p.main

/-- Whether a cancel is asked for before the turn. -/
def askedBefore (p : Play) : Turn → Bool
  | .init => p.init.before.isSome
  | .main => p.init.before.isSome || p.init.signal.isCanceled || p.main.before.isSome

/-- Whether the turn comes: the second one does when the first command was started and exited with 0. -/
def comes (p : Play) : Turn → Bool
  | .init => true
  | .main => !p.askedBefore .init && p.init.ending.isSuccess

/-- Whether the command is started. -/
def starts (p : Play) (t : Turn) : Bool :=
  p.comes t && !p.askedBefore t

/-- The calls of the engine. -/
def calls (p : Play) (spec : JobSpec) : List (List String) :=
  (if p.starts .init then [initCommand] else []) ++
    if p.starts .main then [mainCommand spec] else []

/-- What the first command writes, and then what the second one does. -/
def output (p : Play) : Bytes :=
  (if p.starts .init then p.init.output else []) ++ if p.starts .main then p.main.output else []

end Play

/-- The report in what a phase of this kind writes to its first stream. -/
def reportOf (phase : PhaseKind) (stdout : Bytes) : Option Report :=
  match phase with
  | .plan => Summary.ofPlan? (lossy stdout)
  | .apply => Summary.ofApply? (lossy stdout)

/-- Why a plan without a report fails. -/
def noSummary : String :=
  "plan output has no resource summary"

/-- How a phase ends: with what verdict, and what is written after the output of the commands. -/
inductive Ended (spec : JobSpec) (p : Play) : Verdict → Bytes → Prop
  /-- Somebody asked to stop before a turn. -/
  | skipped (t : Turn) : p.comes t = true → p.askedBefore t = true →
      Ended spec p (.error .cancelled) []
  /-- A command was stopped. -/
  | stopped (t : Turn) : p.starts t = true → (p.command t).isStopped (p.command t).heard = true →
      Ended spec p (.error .cancelled) []
  /-- A command ended badly, and had not been asked to stop. -/
  | failed (t : Turn) : p.starts t = true → (p.command t).heard.isCanceled = false →
      (p.command t).ending ≠ .exited 0 →
      Ended spec p (.error (p.command t).failure) (failureBlock (p.command t).failure.message)
  /-- A plan was made, and does not say what it changes. -/
  | unreported : p.starts .main = true → p.main.heard.isForced = false → p.main.ending = .exited 0 →
      spec.phase = .plan → reportOf .plan p.main.stdout = none →
      Ended spec p (.error (.other noSummary)) (failureBlock noSummary)
  /-- The phase was executed to its end. -/
  | executed : p.starts .main = true → p.main.heard.isForced = false → p.main.ending = .exited 0 →
      (spec.phase = .plan → (reportOf .plan p.main.stdout).isSome = true) →
      Ended spec p (.ok ⟨reportOf spec.phase p.main.stdout⟩) []

variable {σ : Type} {sink : Sink σ} {P : σ → Prop} {held : σ → Bytes} {s : σ} {spec : JobSpec}
  {p : Play} {t t' : Turn}

/-- What is left to do when both commands have ended well. -/
def conclude (spec : JobSpec) (sink : Sink σ) (output : List Char) : Step σ Outcome :=
  match spec.phase with
  | .plan =>
    match Summary.ofPlan? output with
    | some report => return ⟨some report⟩
    | none => do
      writeFailure sink noSummary
      throw (.other noSummary)
  | .apply => return ⟨Summary.ofApply? output⟩

theorem execute_eq (engine : String) (spec : JobSpec) (sink : Sink σ)
    (hd : p.directoryFailure = none) :
    execute engine spec sink p = (do
      let first ← takeTurn engine sink {} initCommand p.init
      let second ← takeTurn engine sink first.2 (mainCommand spec) p.main
      conclude spec sink second.1) := by
  unfold execute
  rw [hd]
  rfl

/-- **A report is found, or missing**, when both commands have ended well. -/
theorem conclude_takes (ht : sink.Takes P held) (spec : JobSpec) (hs : P s) (stdout : Bytes)
    (calls : List (List String)) :
    ((spec.phase = .plan → (reportOf .plan stdout).isSome = true) ∧
        conclude spec sink (lossy stdout) ⟨s, calls⟩ =
          (.ok ⟨reportOf spec.phase stdout⟩, ⟨s, calls⟩)) ∨
      (spec.phase = .plan ∧ reportOf .plan stdout = none ∧
        ∃ s', conclude spec sink (lossy stdout) ⟨s, calls⟩ =
            (.error (.other noSummary), ⟨s', calls⟩) ∧
          P s' ∧ held s' = held s ++ failureBlock noSummary) := by
  unfold conclude
  cases spec.phase with
  | apply => exact .inl ⟨nofun, rfl⟩
  | plan =>
    cases hr : Summary.ofPlan? (lossy stdout) with
    | some report =>
      have hr : reportOf .plan stdout = some report := hr
      rw [hr]
      exact .inl ⟨fun _ => rfl, rfl⟩
    | none =>
      obtain ⟨s', hsay, hp, hh⟩ := say_takes ht hs (failureBlock noSummary) calls
      exact .inr ⟨rfl, hr, s', Effect.bind_ok hsay, hp, hh⟩

theorem Play.starts_eq {t : Turn} (hc : p.comes t = true) : p.starts t = !p.askedBefore t := by
  rw [Play.starts, hc, Bool.true_and]

theorem Play.starts_main_iff : p.starts .main = true ↔
    p.init.ending = .exited 0 ∧ p.askedBefore .main = false := by
  rw [← isSuccess_iff]
  cases hb : p.init.before.isSome <;> simp [starts, comes, askedBefore, hb]

/-- **A turn that fails** ends the phase. -/
theorem Took.ended {t : Turn} {e : RunnerError} {started : Bool} {written : Bytes}
    (h : Took (p.command t) (p.askedBefore t) (.error e) started written) (hc : p.comes t = true)
    (spec : JobSpec) :
    started = p.starts t ∧ ∃ block,
      written = (if p.starts t then (p.command t).output else []) ++ block ∧
        Ended spec p (.error e) block := by
  have hs := Play.starts_eq hc
  cases h with
  | skipped ha => exact ⟨by rw [hs, ha]; rfl, [], by rw [hs, ha]; rfl, .skipped t hc ha⟩
  | stopped ha hstop =>
    rw [ha] at hs
    exact ⟨hs.symm, [], by rw [hs]; simp, .stopped t hs hstop⟩
  | failed ha hask hbad =>
    rw [ha] at hs
    exact ⟨hs.symm, _, by rw [hs]; rfl, .failed t hs hask hbad⟩

/-- **The second command is not started** if the turn of the first one fails. -/
theorem Took.not_starts_main {e : RunnerError} {started : Bool} {written : Bytes}
    (h : Took p.init (p.askedBefore .init) (.error e) started written) : p.starts .main = false := by
  refine Bool.eq_false_iff.mpr fun hs => ?_
  obtain ⟨hwell, ha⟩ := Play.starts_main_iff.mp hs
  simp only [Play.askedBefore, Bool.or_eq_false_iff] at ha
  obtain ⟨⟨hbefore, hsignal⟩, -⟩ := ha
  cases h with
  | skipped hask => exact Bool.false_ne_true (hbefore.symm.trans hask)
  | stopped _ hstop =>
    exact Bool.false_ne_true (hsignal.symm.trans
      (CommandPlay.signal_isCanceled (CommandPlay.isStopped_signal hstop)))
  | failed _ _ hbad => exact hbad hwell

/-- **How a phase goes on** when the first command has ended well. -/
theorem second_ended (ht : sink.Takes P held) (engine : String) (spec : JobSpec) (hs : P s)
    (hm : p.main.startFailure = none) (hinit : p.starts .init = true)
    (hwell : p.init.ending = .exited 0) :
    ∃ verdict block s',
      (takeTurn engine sink p.init.signal (mainCommand spec) p.main >>= fun second =>
          conclude spec sink second.1) ⟨s, [initCommand]⟩ = (verdict, ⟨s', p.calls spec⟩) ∧
        P s' ∧ held s' = held s ++ (if p.starts .main then p.main.output else []) ++ block ∧
        Ended spec p verdict block := by
  have ha : p.askedBefore .init = false := by simpa [Play.starts, Play.comes] using hinit
  have hcomes : p.comes .main = true := by simp [Play.comes, ha, isSuccess_iff.mpr hwell]
  have hasked : (p.init.signal.isCanceled || p.main.before.isSome) = p.askedBefore .main := by
    have hb : p.init.before.isSome = false := ha
    simp [Play.askedBefore, hb]
  have hcalls : p.calls spec = [initCommand] ++ if p.starts .main then [mainCommand spec] else [] := by
    rw [Play.calls, if_pos hinit]
  obtain ⟨result, started, written, s₁, h₁, hp₁, hh₁, took⟩ :=
    takeTurn_took ht hs engine p.init.signal (mainCommand spec) hm [initCommand]
  rw [hasked] at took
  cases result with
  | error e =>
    obtain ⟨rfl, block, rfl, hend⟩ := Took.ended (t := .main) took hcomes spec
    refine ⟨.error e, block, s₁, (Effect.bind_error h₁).trans (by rw [hcalls]), hp₁, ?_, hend⟩
    rw [hh₁, List.append_assoc]
    rfl
  | ok second =>
    cases took with
    | succeeded ha' hforce hwell' =>
    have hmain : p.starts .main = true := by rw [Play.starts_eq hcomes, ha', Bool.not_false]
    rw [if_pos rfl] at h₁
    rw [Effect.bind_ok h₁, hcalls, if_pos hmain, if_pos hmain, ← hh₁]
    obtain ⟨hrep, hc⟩ | ⟨hplan, hrep, s₂, hc, hp₂, hh₂⟩ :=
      conclude_takes ht spec hp₁ p.main.stdout ([initCommand] ++ [mainCommand spec])
    · exact ⟨_, [], s₁, hc, hp₁, (List.append_nil _).symm, .executed hmain hforce hwell' hrep⟩
    · exact ⟨_, _, s₂, hc, hp₂, hh₂, .unreported hmain hforce hwell' hplan hrep⟩

/-- **How a phase ends**, if the directory can be made and the engine starts. -/
theorem execute_ended (ht : sink.Takes P held) (engine : String) (spec : JobSpec) (hs : P s)
    (hd : p.directoryFailure = none) (hi : p.init.startFailure = none)
    (hm : p.main.startFailure = none) :
    ∃ verdict block s', execute engine spec sink p ⟨s, []⟩ = (verdict, ⟨s', p.calls spec⟩) ∧
      P s' ∧ held s' = held s ++ p.output ++ block ∧ Ended spec p verdict block := by
  rw [execute_eq engine spec sink hd]
  obtain ⟨result, started, written, s₁, h₁, hp₁, hh₁, took⟩ :=
    takeTurn_took ht hs engine {} initCommand hi []
  have took : Took p.init (p.askedBefore .init) result started written := took
  cases result with
  | error e =>
    obtain ⟨rfl, block, rfl, hend⟩ := Took.ended (t := .init) took rfl spec
    have hmain := took.not_starts_main
    refine ⟨.error e, block, s₁, (Effect.bind_error h₁).trans ?_, hp₁, ?_, hend⟩
    · simp [Play.calls, hmain]
    · simp [Play.output, Play.command, hmain, hh₁]
  | ok first =>
    cases took with
    | succeeded ha hforce hwell =>
    have hinit : p.starts .init = true := by rw [Play.starts_eq rfl, ha, Bool.not_false]
    rw [Effect.bind_ok h₁]
    obtain ⟨verdict, block, s₂, h₂, hp₂, hh₂, hend⟩ := second_ended ht engine spec hp₁ hm hinit hwell
    refine ⟨verdict, block, s₂, h₂, hp₂, ?_, hend⟩
    rw [hh₂, hh₁, Play.output, if_pos hinit]
    simp only [List.append_assoc]

theorem mem_calls_iff : mainCommand spec ∈ p.calls spec ↔ p.starts .main = true := by
  have hne : mainCommand spec ≠ initCommand := by
    cases hp : spec.phase <;> simp [mainCommand, initCommand, hp, PhaseKind.name]
  cases hi : p.starts .init <;> cases hm : p.starts .main <;> simp [Play.calls, hi, hm, hne]

/-! ## When a phase counts as canceled -/

namespace Play

/-- A cancel is asked for before a turn that comes, by force while a command runs, or while a command
runs that then does not exit with 0. -/
def IsCanceled (p : Play) : Prop :=
  (∃ t, p.comes t = true ∧ p.askedBefore t = true) ∨
    (∃ t, p.starts t = true ∧ (p.command t).signal.isForced = true) ∨
      ∃ t, p.starts t = true ∧ (p.command t).signal.isCanceled = true ∧
        (p.command t).ending ≠ .exited 0

/-- No turn is left after this one: it is the second one, or its command does not exit with 0. -/
def IsLast (p : Play) (t : Turn) : Prop :=
  p.starts t = true ∧ (t = .main ∨ (p.command t).ending ≠ .exited 0)

/-- The last command that is started is stopped by what is asked of it until it ends, but not by what is
asked of it while it is watched. -/
def Overlooks (p : Play) : Prop :=
  ∃ t, p.IsLast t ∧ (p.command t).isStopped (p.command t).signal = true ∧
    (p.command t).isStopped (p.command t).heard = false

theorem isCanceled_iff : p.IsCanceled ↔ (∃ t, p.comes t = true ∧ p.askedBefore t = true) ∨
    ∃ t, p.starts t = true ∧ (p.command t).isStopped (p.command t).signal = true := by
  simp only [IsCanceled, CommandPlay.isStopped_iff, and_or_left, exists_or]

theorem askedBefore_eq_false (hs : p.starts t = true) : p.askedBefore t = false := by
  simpa using (Bool.and_eq_true_iff.mp hs).2

/-- **If the second command is started**, nobody had asked to stop. -/
theorem of_starts_main (hs : p.starts .main = true) :
    p.init.ending = .exited 0 ∧ p.askedBefore .init = false ∧ p.init.signal.isCanceled = false := by
  obtain ⟨hwell, ha⟩ := starts_main_iff.mp hs
  simp only [askedBefore, Bool.or_eq_false_iff] at ha ⊢
  exact ⟨hwell, ha.1⟩

/-- **Before the last turn** nobody asked to stop. -/
theorem IsLast.askedBefore (h : p.IsLast t) (hc : p.comes t' = true) : p.askedBefore t' = false := by
  obtain ⟨hs, hlast⟩ := h
  match t, t' with
  | .init, .init | .main, .main => exact askedBefore_eq_false hs
  | .main, .init => exact (of_starts_main hs).2.1
  | .init, .main =>
    obtain hm | hbad := hlast
    · cases hm
    · exact absurd (isSuccess_iff.mp (Bool.and_eq_true_iff.mp hc).2) hbad

/-- **Only the last command that is started** is stopped, if there is one. -/
theorem IsLast.eq_of_isStopped (h : p.IsLast t) (hs : p.starts t' = true)
    (hstop : (p.command t').isStopped (p.command t').signal = true) : t' = t := by
  match t, t' with
  | .init, .init | .main, .main => rfl
  | .main, .init =>
    exact absurd ((of_starts_main h.1).2.2.symm.trans (CommandPlay.signal_isCanceled hstop))
      Bool.false_ne_true
  | .init, .main =>
    obtain hm | hbad := h.2
    · cases hm
    · exact absurd (of_starts_main hs).1 hbad

/-- **A phase counts as canceled** if the last command that is started is stopped. -/
theorem IsLast.isCanceled_iff (h : p.IsLast t) :
    p.IsCanceled ↔ (p.command t).isStopped (p.command t).signal = true := by
  rw [Play.isCanceled_iff]
  constructor
  · rintro (⟨t', hc, ha⟩ | ⟨t', hs, hstop⟩)
    · exact absurd ((h.askedBefore hc).symm.trans ha) Bool.false_ne_true
    · exact h.eq_of_isStopped hs hstop ▸ hstop
  · exact fun hstop => .inr ⟨t, h.1, hstop⟩

theorem IsLast.overlooks_iff (h : p.IsLast t) : p.Overlooks ↔
    (p.command t).isStopped (p.command t).signal = true ∧
      (p.command t).isStopped (p.command t).heard = false := by
  constructor
  · rintro ⟨t', hl, hstop, hheard⟩
    obtain rfl := h.eq_of_isStopped hl.1 hstop
    exact ⟨hstop, hheard⟩
  · exact fun hstop => ⟨t, h, hstop⟩

/-- **Nothing is overlooked** if the last command is stopped by what is heard, and all is if it is not. -/
theorem IsLast.isCanceled_and_not_overlooks (h : p.IsLast t) :
    p.IsCanceled ∧ ¬ p.Overlooks ↔ (p.command t).isStopped (p.command t).heard = true := by
  rw [h.isCanceled_iff, h.overlooks_iff]
  constructor
  · rintro ⟨hstop, hnot⟩
    exact (Bool.eq_false_or_eq_true _).resolve_right fun hn => hnot ⟨hstop, hn⟩
  · exact fun hheard => ⟨CommandPlay.isStopped_signal hheard,
      fun ⟨_, hn⟩ => Bool.false_ne_true (hn.symm.trans hheard)⟩

end Play

/-- **A phase counts as canceled** exactly if it is and the cancel is not overlooked. -/
theorem Ended.cancelled_iff {verdict : Verdict} {block : Bytes} (h : Ended spec p verdict block) :
    verdict = .error .cancelled ↔ p.IsCanceled ∧ ¬ p.Overlooks := by
  cases h with
  | skipped t hc ha =>
    refine iff_of_true rfl ⟨.inl ⟨t, hc, ha⟩, fun ⟨t', hl, _⟩ => ?_⟩
    exact Bool.false_ne_true ((hl.askedBefore hc).symm.trans ha)
  | stopped t hs hstop =>
    have hsignal := CommandPlay.isStopped_signal hstop
    refine iff_of_true rfl ⟨Play.isCanceled_iff.mpr (.inr ⟨t, hs, hsignal⟩), ?_⟩
    rintro ⟨t', hl, -, hn⟩
    obtain rfl := hl.eq_of_isStopped hs hsignal
    exact Bool.false_ne_true (hn.symm.trans hstop)
  | failed t hs ha hbad =>
    have hl : p.IsLast t := ⟨hs, .inr hbad⟩
    rw [hl.isCanceled_and_not_overlooks]
    refine iff_of_false (fun he => failure_ne_cancelled _ (Except.error.inj he)) fun hstop => ?_
    exact Bool.false_ne_true (ha.symm.trans (CommandPlay.heard_isCanceled hstop))
  | unreported hs hf hw | executed hs hf hw =>
    have hl : p.IsLast .main := ⟨hs, .inl rfl⟩
    rw [hl.isCanceled_and_not_overlooks]
    have hn : p.main.isStopped p.main.heard = false :=
      CommandPlay.isStopped_eq_false_iff.mpr ⟨hf, fun _ => hw⟩
    exact iff_of_false (by simp) (Bool.eq_false_iff.mp hn)

/-! ## When a phase succeeds, and when it fails -/

/-- **A second command that ends well** is killed unless the forced cancel is overlooked. -/
theorem Play.heard_isForced_iff (hs : p.starts .main = true) (hw : p.main.ending = .exited 0) :
    p.main.heard.isForced = false ↔ (p.main.signal.isForced = true → p.Overlooks) := by
  have hl : p.IsLast .main := ⟨hs, .inl rfl⟩
  rw [hl.overlooks_iff]
  change _ ↔ (_ → p.main.isStopped p.main.signal = true ∧ p.main.isStopped p.main.heard = false)
  rw [CommandPlay.isStopped_iff, CommandPlay.isStopped_eq_false_iff]
  constructor
  · exact fun hn hf => ⟨.inl hf, hn, fun _ => hw⟩
  · intro h
    refine Bool.eq_false_iff.mpr fun hf => ?_
    exact Bool.false_ne_true ((h (CommandPlay.signal_of_heard.2 hf)).2.1.symm.trans hf)

/-- **A phase succeeds** exactly if both commands end well, nobody asked to stop before the second one
or killed it, and a plan says what it changes. -/
theorem Ended.ok_iff {verdict : Verdict} {block : Bytes} (h : Ended spec p verdict block)
    (o : Outcome) : verdict = .ok o ↔
      p.askedBefore .main = false ∧ (∀ t, (p.command t).ending = .exited 0) ∧
        (p.main.signal.isForced = true → p.Overlooks) ∧
        o.report = reportOf spec.phase p.main.stdout ∧
        (spec.phase = .plan → o.report.isSome = true) := by
  have hends (hall : ∀ t, (p.command t).ending = .exited 0) (ha : p.askedBefore .main = false) :
      p.starts .main = true := Play.starts_main_iff.mpr ⟨hall .init, ha⟩
  cases h with
  | skipped t hc ha =>
    refine iff_of_false (by simp) fun ⟨hm, hall, _⟩ => ?_
    have hl : p.IsLast .main := ⟨hends hall hm, .inl rfl⟩
    exact Bool.false_ne_true ((hl.askedBefore hc).symm.trans ha)
  | stopped t hs hstop =>
    refine iff_of_false (by simp) fun ⟨hm, hall, hforce, _⟩ => ?_
    have hmain := hends hall hm
    have hl : p.IsLast .main := ⟨hmain, .inl rfl⟩
    obtain rfl := hl.eq_of_isStopped hs (CommandPlay.isStopped_signal hstop)
    have hn := (Play.heard_isForced_iff hmain (hall .main)).mpr hforce
    exact Bool.false_ne_true ((CommandPlay.isStopped_eq_false_iff.mpr
      ⟨hn, fun _ => hall .main⟩).symm.trans hstop)
  | failed t hs ha hbad => exact iff_of_false (by simp) fun ⟨_, hall, _⟩ => hbad (hall t)
  | unreported hs hf hw hplan hrep =>
    refine iff_of_false (by simp) fun ⟨_, _, _, hr, hsome⟩ => ?_
    have hsome := hsome hplan
    rw [hr, hplan, hrep] at hsome
    cases hsome
  | executed hs hf hw hrep =>
    obtain ⟨hinit, hm⟩ := Play.starts_main_iff.mp hs
    constructor
    · intro ho
      cases ho
      refine ⟨hm, fun t => ?_, (Play.heard_isForced_iff hs hw).mp hf, rfl, fun hplan => ?_⟩
      · cases t with
        | init => exact hinit
        | main => exact hw
      · rw [hplan]
        exact hrep hplan
    · rintro ⟨-, -, -, hr, -⟩
      rw [← hr]

theorem Ended.block_eq_nil {verdict : Verdict} {block : Bytes} (h : Ended spec p verdict block)
    (hv : (∃ o, verdict = .ok o) ∨ verdict = .error .cancelled) : block = [] := by
  cases h with
  | skipped | stopped | executed => rfl
  | failed =>
    obtain ⟨o, ho⟩ | hc := hv
    · cases ho
    · exact absurd (Except.error.inj hc) (failure_ne_cancelled _)
  | unreported =>
    obtain ⟨o, ho⟩ | hc := hv
    · cases ho
    · cases hc

theorem Ended.block_of_failure {e : RunnerError} {block : Bytes} (h : Ended spec p (.error e) block)
    (he : e ≠ .cancelled) :
    ∃ reason, (reason = e.message ∨ e = .other reason) ∧ block = failureBlock reason := by
  cases h with
  | skipped | stopped => exact absurd rfl he
  | failed t => exact ⟨_, .inl rfl, rfl⟩
  | unreported => exact ⟨noSummary, .inr rfl, rfl⟩

/-- **What the execution of a phase comes to**, whatever the engine writes, however it ends and whenever
it is asked to stop, if the directory can be made, the engine starts and the sink takes all that is
written.

The second command is started exactly if the first one exited with 0 and nobody asked to stop by then.
The phase succeeds exactly if both commands exit with 0, none was killed, nobody asked to stop before the
second one, and a plan says what it changes; the report is what the second one says on its first stream.
It counts as canceled exactly if somebody asked to stop before a turn that came, or killed a command, or
interrupted one that then did not exit with 0. All this, except for a cancel that is overlooked: it is
asked for when the streams of the last command have ended, and then neither stops that command nor makes
the phase count as canceled. The sink holds the output of the first command and then that of the second
one, and after it one line about the failure if there is one other than a cancel. -/
theorem execute_classified (ht : sink.Takes P held) (engine : String) (spec : JobSpec) (p : Play)
    (hs : P s) (hd : p.directoryFailure = none) (hi : p.init.startFailure = none)
    (hm : p.main.startFailure = none) :
    ∃ (verdict : Verdict) (block : Bytes) (s' : σ),
      execute engine spec sink p ⟨s, []⟩ = (verdict, ⟨s', p.calls spec⟩) ∧
      (mainCommand spec ∈ p.calls spec ↔
        p.init.ending = .exited 0 ∧ p.askedBefore .main = false) ∧
      (∀ o, verdict = .ok o ↔
        p.askedBefore .main = false ∧ (∀ t, (p.command t).ending = .exited 0) ∧
          (p.main.signal.isForced = true → p.Overlooks) ∧
          o.report = reportOf spec.phase p.main.stdout ∧
          (spec.phase = .plan → o.report.isSome = true)) ∧
      (verdict = .error .cancelled ↔
        ((∃ t, p.comes t = true ∧ p.askedBefore t = true) ∨
          (∃ t, p.starts t = true ∧ (p.command t).signal.isForced = true) ∨
            ∃ t, p.starts t = true ∧ (p.command t).signal.isCanceled = true ∧
              (p.command t).ending ≠ .exited 0) ∧ ¬ p.Overlooks) ∧
      held s' = held s ++ p.output ++ block ∧
      ((∃ o, verdict = .ok o) ∨ verdict = .error .cancelled → block = []) ∧
      ∀ e, verdict = .error e → e ≠ .cancelled →
        ∃ reason, (reason = e.message ∨ e = .other reason) ∧
          block = utf8 ("\nError: " ++ reason ++ "\n") := by
  obtain ⟨verdict, block, s', hexec, -, hheld, hend⟩ := execute_ended ht engine spec hs hd hi hm
  refine ⟨verdict, block, s', hexec, ?_, hend.ok_iff, hend.cancelled_iff, hheld,
    hend.block_eq_nil, ?_⟩
  · exact mem_calls_iff.trans Play.starts_main_iff
  · rintro e rfl he
    exact hend.block_of_failure he

/-- A first command that is interrupted and still ends well, before a second one that would fail. -/
theorem execute_classified_interrupted :
    ∃ s', execute "terraform" { run := "run-1", phase := .plan } Buffer.write
        { init := { happenings := [.wrote .stdout [7], .canceled false, .wrote .stderr [8]] }
          main := { ending := .died } } ⟨{}, []⟩ =
        (.error .cancelled, ⟨s', [initCommand]⟩) ∧ s'.bytes = [7, 8] := by
  obtain ⟨verdict, block, s', hexec, -, -, hcancelled, hheld, hblock, -⟩ :=
    execute_classified Buffer.takes "terraform" { run := "run-1", phase := .plan }
      { init := { happenings := [.wrote .stdout [7], .canceled false, .wrote .stderr [8]] }
        main := { ending := .died } } (s := {}) rfl rfl rfl rfl
  have hheard : ∀ t, ¬ Play.IsLast
      { init := { happenings := [.wrote .stdout [7], .canceled false, .wrote .stderr [8]] }
        main := { ending := .died } } t := by
    rintro (_ | _) ⟨hs, hlast⟩
    · exact absurd hlast (by decide)
    · exact absurd hs (by decide)
  obtain rfl := hcancelled.mpr
    ⟨.inl ⟨.main, by decide, by decide⟩, fun ⟨t, hl, _⟩ => hheard t hl⟩
  obtain rfl := hblock (.inr rfl)
  exact ⟨s', hexec, hheld⟩

/-- **Not every forced cancel counts**: a second command closes both of its streams and goes on, is to be
killed then, and exits with 0. -/
theorem not_execute_classified_unheard : ¬ ∀ (spec : JobSpec) (p : Play),
    p.directoryFailure = none → p.init.startFailure = none → p.main.startFailure = none →
      ((execute "terraform" spec Buffer.write p ⟨{}, []⟩).1 = .error .cancelled ↔ p.IsCanceled) := by
  intro h
  let p : Play := { main := { late := [true] } }
  have hcanceled : p.IsCanceled := .inr (.inl ⟨.main, rfl, rfl⟩)
  have hok : (execute "terraform" { run := "run-1", phase := .apply } Buffer.write p ⟨{}, []⟩).1.isOk =
      true := by decide +kernel
  rw [(h { run := "run-1", phase := .apply } p rfl rfl rfl).mpr hcanceled] at hok
  cases hok

end Provision.Engine
