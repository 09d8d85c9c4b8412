import Provision.Log.Writer
import Provision.Proofs.Ledger.Move
import Provision.Proofs.Log.Tiles
import Provision.Proofs.Store.Chunks

/-!
# What is read back from a log

A writer makes a log chunk by chunk, and storage may refuse any of them. Others may do what they like
in between, as long as they leave the chunks of the phase alone.

* `LogWriter.Session`: the output that was accepted so far, and whether the log was closed.
* `LogWriter.Framed`: the chunks tile the accepted output within its marks. Every call keeps this.
* `LogWriter.Session.closed_log`: a closed log is a whole stream and reads as the accepted output.
* `LogWriter.Session.open_log`: so does a log that is still open, unless its output ends with the byte
  that is the end mark; this byte is then taken for the mark.
-/

namespace Provision

open Provision.Text (Bytes inInt64)

namespace Service

theorem putChunk_apply (chunk : Chunk) (l : Ledger) :
    putChunk chunk l = match l.store.putChunk chunk with
      | .error e => (.error e, l)
      | .ok (stored, s) => (.ok stored, l.post s { type := .chunkCreated, payload := .chunk stored }) := by
  unfold putChunk
  rw [commit_bind]
  rcases l.store.putChunk chunk with e | ⟨stored, s⟩ <;> rfl

theorem getLog_apply (run : String) (phase : PhaseKind) (l : Ledger) :
    getLog run phase l = (.ok (Log.assemble (l.store.logOf run phase)), l) := rfl

end Service

namespace LogWriter

/-- The services, which may fail; then nothing is stored. -/
def storage (fault : Option Error) : Put Ledger :=
  fun chunk => match fault with
    | none => Service.putChunk chunk
    | some e => throw e

/-- The session of a writer for a phase, with the output of all writes that succeeded and whether a
close succeeded. -/
inductive Session (run : String) (phase : PhaseKind) (l₀ : Ledger) :
    Bytes → Bool → LogWriter → Ledger → Prop
  | opened : Session run phase l₀ [] false { run, phase } l₀
  /-- Somebody else does something. -/
  | meanwhile {out : Bytes} {closed : Bool} {w : LogWriter} {l : Ledger} (l' : Ledger) :
      Session run phase l₀ out closed w l → l'.store.logOf run phase = l.store.logOf run phase →
      Session run phase l₀ out closed w l'
  | written {out : Bytes} {closed : Bool} {w w' : LogWriter} {l l' : Ledger} (fault : Option Error)
      (data : Bytes) : Session run phase l₀ out closed w l →
      write (storage fault) data (w, l) = (.ok (), (w', l')) →
      Session run phase l₀ (out ++ data) closed w' l'
  | unwritten {out : Bytes} {closed : Bool} {w w' : LogWriter} {l l' : Ledger} (fault : Option Error)
      (data : Bytes) (e : RunnerError) : Session run phase l₀ out closed w l →
      write (storage fault) data (w, l) = (.error e, (w', l')) →
      Session run phase l₀ out closed w' l'
  | closed {out : Bytes} {closed : Bool} {w w' : LogWriter} {l l' : Ledger} (fault : Option Error) :
      Session run phase l₀ out closed w l → close (storage fault) (w, l) = (.ok (), (w', l')) →
      Session run phase l₀ out true w' l'
  | unclosed {out : Bytes} {closed : Bool} {w w' : LogWriter} {l l' : Ledger} (fault : Option Error)
      (e : Error) : Session run phase l₀ out closed w l →
      close (storage fault) (w, l) = (.error e, (w', l')) → Session run phase l₀ out closed w' l'

/-! ## What a session keeps -/

/-- The marks around output, as far as they are written. -/
def frame (hasStarted closed : Bool) (out : Bytes) : Bytes :=
  (if hasStarted then [Log.startMark] else []) ++ out ++ (if closed then [Log.endMark] else [])

/-- The stored chunks tile the accepted output within its marks. -/
structure Framed (run : String) (phase : PhaseKind) (out : Bytes) (closed : Bool) (w : LogWriter)
    (l : Ledger) : Prop where
  ofRun : w.run = run
  ofPhase : w.phase = phase
  isClosed : w.isClosed = closed
  tiles : Log.Tiles 0 (l.store.logOf run phase) w.offset
  content : Log.content (l.store.logOf run phase) = frame w.hasStarted closed out
  /-- Before the first chunk there is no output, and no end. -/
  silent : w.hasStarted = false → out = [] ∧ closed = false

variable {run : String} {phase : PhaseKind} {out data : Bytes} {closed : Bool}
  {w w' : LogWriter} {l l' l₀ : Ledger}

/-- **A chunk is refused and nothing happens**, or it lies behind all others. -/
theorem append_cases (h : Framed run phase out closed w l) (fault : Option Error)
    (hd : data ≠ []) :
    (∃ e, append (storage fault) data (w, l) = (.error e, (w, l))) ∨
      ∃ l', append (storage fault) data (w, l) =
          (.ok (), ({ w with offset := w.offset + data.length, hasStarted := true }, l')) ∧
        Log.Tiles 0 (l'.store.logOf run phase) (w.offset + data.length) ∧
        Log.content (l'.store.logOf run phase) = frame w.hasStarted closed out ++ data := by
  unfold append
  dsimp only
  cases fault with
  | some e => exact .inl ⟨e, rfl⟩
  | none =>
    rw [storage, Service.putChunk_apply]
    rcases hp : l.store.putChunk ⟨w.run, w.phase, w.offset, data⟩ with e | ⟨stored, s⟩
    · exact .inl ⟨e, rfl⟩
    · obtain ⟨rfl, rfl, -, -⟩ := Store.putChunk_ok hp
      obtain rfl := h.ofRun
      obtain rfl := h.ofPhase
      have hlog : (l.store.addChunk ⟨w.run, w.phase, w.offset, data⟩).logOf w.run w.phase =
          l.store.logOf w.run w.phase ++ [⟨w.run, w.phase, w.offset, data⟩] :=
        Store.logOf_addChunk ⟨w.run, w.phase, w.offset, data⟩ h.tiles.pairwise
          fun c hc => (h.tiles.bounds.2 c hc).2
      refine .inr ⟨_, rfl, ?_, ?_⟩
      · exact hlog ▸ h.tiles.concat rfl hd
      · exact hlog ▸ (Log.content_concat _ _).trans (congrArg (· ++ data) h.content)

theorem write_closed (h : Framed run phase out true w l) (fault : Option Error) (data : Bytes) :
    write (storage fault) data (w, l) = (.error (.other "phase log already closed"), (w, l)) :=
  if_pos h.isClosed

theorem close_closed (h : Framed run phase out true w l) (fault : Option Error) :
    close (storage fault) (w, l) = (.ok (), (w, l)) :=
  if_pos h.isClosed

/-- **A write** is refused and changes nothing, or its output is added. -/
theorem write_framed (h : Framed run phase out closed w l) (fault : Option Error) (data : Bytes) :
    (∃ e, write (storage fault) data (w, l) = (.error e, (w, l))) ∨
      ∃ w' l', write (storage fault) data (w, l) = (.ok (), (w', l')) ∧
        Framed run phase (out ++ data) closed w' l' := by
  cases closed with
  | true => exact .inl ⟨_, write_closed h fault data⟩
  | false =>
    unfold write
    rw [if_neg (by simp [h.isClosed])]
    by_cases hd : data = []
    · subst hd
      exact .inr ⟨w, l, rfl, (List.append_nil out).symm ▸ h⟩
    rw [if_neg (by simpa using hd)]
    have hn : (if w.hasStarted then data else Log.startMark :: data) ≠ [] := by
      split_ifs
      · exact hd
      · exact List.cons_ne_nil _ _
    obtain ⟨e, ha⟩ | ⟨l', ha, htiles, hcontent⟩ := append_cases h fault hn
    · exact .inl ⟨.output e, by dsimp only; rw [ha]; rfl⟩
    · refine .inr ⟨_, l', by dsimp only; rw [ha]; rfl, ?_⟩
      refine ⟨h.ofRun, h.ofPhase, h.isClosed, htiles, hcontent.trans ?_, nofun⟩
      cases hs : w.hasStarted with
      | true => simp [frame]
      | false => simp [frame, (h.silent hs).1]

/-- **A close** is refused and changes nothing, or the end mark is put behind the output. -/
theorem close_framed (h : Framed run phase out closed w l) (fault : Option Error) :
    (∃ e, close (storage fault) (w, l) = (.error e, (w, l))) ∨
      ∃ w' l', close (storage fault) (w, l) = (.ok (), (w', l')) ∧
        Framed run phase out true w' l' := by
  cases closed with
  | true => exact .inr ⟨w, l, close_closed h fault, h⟩
  | false =>
    unfold close
    rw [if_neg (by simp [h.isClosed])]
    have hn : (if w.hasStarted then [Log.endMark] else [Log.startMark, Log.endMark]) ≠ [] := by
      split_ifs <;> exact List.cons_ne_nil _ _
    obtain ⟨e, ha⟩ | ⟨l', ha, htiles, hcontent⟩ := append_cases h fault hn
    · exact .inl ⟨e, by dsimp only; rw [ha]⟩
    · refine .inr ⟨_, l', by dsimp only; rw [ha], ?_⟩
      refine ⟨h.ofRun, h.ofPhase, rfl, htiles, hcontent.trans ?_, nofun⟩
      cases hs : w.hasStarted with
      | true => simp [frame]
      | false => simp [frame, (h.silent hs).1]

/-- **What every session keeps.** -/
theorem Session.framed (h₀ : l₀.store.logOf run phase = [])
    (h : Session run phase l₀ out closed w l) : Framed run phase out closed w l := by
  induction h with
  | opened =>
    refine ⟨rfl, rfl, rfl, ?_, ?_, fun _ => ⟨rfl, rfl⟩⟩
    · exact h₀ ▸ .nil 0
    · exact h₀ ▸ rfl
  | meanwhile l' _ hl ih =>
    refine ⟨ih.ofRun, ih.ofPhase, ih.isClosed, ?_, ?_, ih.silent⟩
    · exact hl ▸ ih.tiles
    · exact hl ▸ ih.content
  | written fault data _ hw ih =>
    obtain ⟨e, he⟩ | ⟨w', l', he, hf⟩ := write_framed ih fault data
    · cases he.symm.trans hw
    · cases he.symm.trans hw
      exact hf
  | unwritten fault data e _ hw ih =>
    obtain ⟨e, he⟩ | ⟨w', l', he, hf⟩ := write_framed ih fault data
    · cases he.symm.trans hw
      exact ih
    · cases he.symm.trans hw
  | closed fault _ hw ih =>
    obtain ⟨e, he⟩ | ⟨w', l', he, hf⟩ := close_framed ih fault
    · cases he.symm.trans hw
    · cases he.symm.trans hw
      exact hf
  | unclosed fault e _ hw ih =>
    obtain ⟨e, he⟩ | ⟨w', l', he, hf⟩ := close_framed ih fault
    · cases he.symm.trans hw
      exact ih
    · cases he.symm.trans hw

/-! ## Closed logs -/

/-- **A closed log comes back byte for byte.** Its chunks lie one behind the other up to the writer's
offset, and are a whole stream as far as this offset is an integer of 64 bits. Nothing is written to
the log any more, and to close it again does nothing. -/
theorem Session.closed_log (h₀ : l₀.store.chunksOf run phase = [])
    (h : Session run phase l₀ out true w l) :
    (Service.getLog run phase l).1 = .ok out ∧
      (l.store.logOf run phase).Pairwise (·.offset < ·.offset) ∧
      Log.Tiles 0 (l.store.logOf run phase) w.offset ∧
      (inInt64 w.offset = true → Log.isComplete? (l.store.logOf run phase) = some true) ∧
      (∀ fault data, ∃ e, write (storage fault) data (w, l) = (.error e, (w, l))) ∧
      ∀ fault, close (storage fault) (w, l) = (.ok (), (w, l)) := by
  have hf := h.framed (by rw [Store.logOf, h₀]; rfl)
  have hs : w.hasStarted = true := by
    by_contra hs
    cases (hf.silent (Bool.eq_false_iff.mpr hs)).2
  have hc : Log.content (l.store.logOf run phase) = Log.startMark :: (out ++ [Log.endMark]) := by
    rw [hf.content, hs]
    rfl
  refine ⟨?_, hf.tiles.pairwise, hf.tiles, fun hi => ?_, fun fault data => ?_, close_closed hf⟩
  · rw [Service.getLog_apply, hf.tiles.assemble_eq, hc, Log.stripStart_cons, Log.stripEnd_concat]
  · have hl : (Log.startMark :: (out ++ [Log.endMark])).getLast? = some Log.endMark := by
      rw [← List.cons_append, List.getLast?_concat]
    rw [hf.tiles.isComplete?_eq, hc, if_pos ⟨rfl, hl⟩]
    refine (hf.tiles.isGapFree?_cases (by decide)).resolve_right fun hn => ?_
    rw [hi] at hn
    cases hn.2
  · exact ⟨_, write_closed hf fault data⟩

/-- Output that begins and ends like a mark, with a first write and a close that had to be tried
again. -/
theorem closed_log_retried : ∃ w l,
    Session (Identifier.fresh Run.stem 1) .plan Ledger.firstRun [2, 7, 3] true w l ∧
      (Service.getLog (Identifier.fresh Run.stem 1) .plan l).1 = .ok [2, 7, 3] ∧ w.offset = 5 ∧
      Log.isComplete? (l.store.logOf (Identifier.fresh Run.stem 1) .plan) = some true ∧
      (write (storage none) [9] (w, l)).2 = (w, l) := by
  have h₀ : Session (Identifier.fresh Run.stem 1) .plan Ledger.firstRun [] false _ _ := .opened
  have h₁ := h₀.unwritten (some (.database "put_chunk" "connection lost")) [2] _
    (Prod.ext rfl rfl)
  have h₂ := h₁.written none [2, 7] (Prod.ext (by decide +kernel) rfl)
  have h₃ := h₂.unclosed (some (.database "put_chunk" "connection lost")) _ (Prod.ext rfl rfl)
  have h₄ := h₃.written none [] (Prod.ext (by decide +kernel) rfl)
  have h₅ := h₄.written none [3] (Prod.ext (by decide +kernel) rfl)
  have h₆ := h₅.closed none (Prod.ext (by decide +kernel) rfl)
  have h₇ := h₆.closed none (Prod.ext (by decide +kernel) rfl)
  obtain ⟨hlog, -, -, hcomplete, hwrite, -⟩ := h₇.closed_log (by decide +kernel)
  obtain ⟨e, he⟩ := hwrite none [9]
  exact ⟨_, _, h₇, hlog, by decide +kernel, hcomplete (by decide +kernel), by rw [he]⟩

/-! ## Open logs -/

theorem Framed.content_open (h : Framed run phase out false w l) :
    Log.content (l.store.logOf run phase) = [] ∧ out = [] ∨
      Log.content (l.store.logOf run phase) = Log.startMark :: out := by
  rw [h.content]
  cases hs : w.hasStarted with
  | true => exact .inr (by simp [frame])
  | false =>
    obtain ⟨rfl, -⟩ := h.silent hs
    exact .inl ⟨rfl, rfl⟩

/-- **What an open log reads as**: the output written so far, unless this ends with the byte that is
the end mark. Then that byte is missing, and only then the log passes for a whole stream. -/
theorem Session.open_log (h₀ : l₀.store.chunksOf run phase = [])
    (h : Session run phase l₀ out false w l) :
    (Service.getLog run phase l).1 = .ok (Log.stripEnd out) ∧
      ((Service.getLog run phase l).1 = .ok out ↔ out.getLast? ≠ some Log.endMark) ∧
      (Log.isComplete? (l.store.logOf run phase) = some false ↔
        out.getLast? ≠ some Log.endMark) := by
  have hf := h.framed (by rw [Store.logOf, h₀]; rfl)
  have hget : (Service.getLog run phase l).1 = .ok (Log.stripEnd out) := by
    rw [Service.getLog_apply, hf.tiles.assemble_eq]
    obtain ⟨hc, rfl⟩ | hc := hf.content_open
    · rw [hc]
      rfl
    · rw [hc, Log.stripStart_cons]
  refine ⟨hget, ?_, ?_⟩
  · rw [hget, Except.ok.injEq, Log.stripEnd_eq_self_iff]
  · have hgap : Log.isGapFree? (l.store.logOf run phase) ≠ some false := by
      obtain hg | ⟨hg, -⟩ := hf.tiles.isGapFree?_cases (by decide)
      · simp [hg]
      · simp [hg]
    rw [hf.tiles.isComplete?_eq]
    obtain ⟨hc, rfl⟩ | hc := hf.content_open
    · simp [hc]
    · rw [hc]
      cases out with
      | nil => simp [Log.startMark, Log.endMark]
      | cons b rest =>
        rw [List.getLast?_cons_cons, List.head?_cons]
        by_cases hl : (b :: rest).getLast? = some Log.endMark
        · simp [hl, hgap]
        · simp [hl]

/-- Output that begins with a mark, and does not end with one. -/
theorem open_log_polled : ∃ w l,
    Session (Identifier.fresh Run.stem 1) .plan Ledger.firstRun [2, 3, 7] false w l ∧
      (Service.getLog (Identifier.fresh Run.stem 1) .plan l).1 = .ok [2, 3, 7] ∧
      Log.isComplete? (l.store.logOf (Identifier.fresh Run.stem 1) .plan) = some false := by
  have h₀ : Session (Identifier.fresh Run.stem 1) .plan Ledger.firstRun [] false _ _ := .opened
  have h₁ := h₀.written none [2, 3] (Prod.ext (by decide +kernel) rfl)
  have h₂ := h₁.written none [7] (Prod.ext (by decide +kernel) rfl)
  obtain ⟨-, hlog, hcomplete⟩ := h₂.open_log (by decide +kernel)
  exact ⟨_, _, h₂, hlog.mpr (by decide), hcomplete.mpr (by decide)⟩

/-- **Not every open log reads as what was written**: output that ends with the byte that is the end
mark comes back without it, and the log passes for a whole stream. -/
theorem not_open_log_intact : ¬ ∀ run phase l₀ out w l,
    l₀.store.chunksOf run phase = [] → Session run phase l₀ out false w l →
      (Service.getLog run phase l).1 = .ok out ∧
        Log.isComplete? (l.store.logOf run phase) = some false := by
  intro h
  have h₀ : Session (Identifier.fresh Run.stem 1) .plan Ledger.firstRun [] false _ _ := .opened
  have h₁ := h₀.written none [7, 3] (Prod.ext (by decide +kernel) rfl)
  obtain ⟨hlog, -⟩ := h _ _ _ _ _ _ (by decide +kernel) h₁
  have hread : (Service.getLog (Identifier.fresh Run.stem 1) .plan
      (write (storage none) [7, 3]
        ({ run := Identifier.fresh Run.stem 1, phase := .plan }, Ledger.firstRun)).2.2).1 =
      .ok [7] := by
    decide +kernel
  cases hread.symm.trans hlog

end LogWriter

end Provision
