import Provision.Log.Record
import Provision.Notification
import Provision.Proofs.Json.Codec
import Provision.Proofs.Time.Rfc3339

/-!
# Phases, chunks and messages as texts

Each type that travels or is stored as JSON has a codec, and with it both directions between its values
and their texts. What is written has to be of its range: times for which there is a text, counts of
32 bits, offsets and identifiers of 64 bits. Strings and bytes are arbitrary.
-/

namespace Provision

open Json (IsCodec)

/-! ## Names and times -/

theorem RunStatus.isCodec : IsCodec (fun _ => True) RunStatus.toJson RunStatus.ofJson? :=
  Json.isCodec_name fun s => by cases s <;> rfl

theorem PhaseStatus.isCodec : IsCodec (fun _ => True) PhaseStatus.toJson PhaseStatus.ofJson? :=
  Json.isCodec_name fun s => by cases s <;> rfl

theorem PhaseKind.isCodec : IsCodec (fun _ => True) PhaseKind.toJson PhaseKind.ofJson? :=
  Json.isCodec_name fun k => by cases k <;> rfl

theorem Instant.isCodec : IsCodec Instant.IsUtc Instant.toJson Instant.ofJson? where
  isSound _ _ := rfl
  read_write t ht := by
    rw [ofJson?, toJson, toText, Json.ofString, Json.string?, Option.bind_some,
      String.toList_ofList, Rfc3339.read?_write ht]
  valid_of_read v t h := by
    obtain ⟨s, -, hs⟩ := Option.bind_eq_some_iff.mp h
    exact Rfc3339.isUtc_of_read? hs

/-! ## Phases -/

theorem Entered.isCodec {σ : Type} {write : σ → Json} {read : Json → Option σ}
    (h : IsCodec (fun _ => True) write read) :
    IsCodec (fun e : Entered σ => e.time.IsUtc) (Entered.toJson write) (Entered.ofJson? read) where
  isSound e he := Json.isSound_ofMembers <| by
    simp [h.isSound e.status trivial, Instant.isCodec.isSound e.time he]
  read_write e he := by
    have hfields : Json.fields? ["status", "timestamp"] (e.toJson write) =
      some [some (write e.status), some e.time.toJson] :=
      Json.fields?_ofMembers (show ["status", "timestamp"].Nodup by decide)
    simp [ofJson?, hfields, h.read_write e.status trivial, Instant.isCodec.read_write e.time he]
  valid_of_read v e he := by
    unfold ofJson? at he
    split at he
    · split at he
      · cases he
        exact Instant.isCodec.valid_of_read _ _ ‹_›
      · cases he
    · cases he

/-- Whether the counts of a report are below the bound of their type. -/
structure Report.IsBounded (r : Report) : Prop where
  additions : r.additions < Report.bound
  changes : r.changes < Report.bound
  destructions : r.destructions < Report.bound

theorem Report.isCodec_count : IsCodec (· < Report.bound) (fun n : ℕ => Json.ofInt n)
    (Json.natBelow? Report.bound) :=
  Json.isCodec_natBelow (by decide)

theorem Report.ofJson?_eq_some {v a c d : Json} {additions changes destructions : ℕ}
    (hv : Json.fields? ["additions", "changes", "destructions"] v = some [some a, some c, some d])
    (ha : Json.natBelow? bound a = some additions) (hc : Json.natBelow? bound c = some changes)
    (hd : Json.natBelow? bound d = some destructions) :
    ofJson? v = some ⟨additions, changes, destructions⟩ := by
  simp only [ofJson?, hv, ha, hc, hd]

theorem Report.isCodec : IsCodec Report.IsBounded Report.toJson Report.ofJson? where
  isSound r hr := Json.isSound_ofMembers <| by
    simp [isCodec_count.isSound _ hr.additions, isCodec_count.isSound _ hr.changes,
      isCodec_count.isSound _ hr.destructions]
  read_write r hr :=
    ofJson?_eq_some
      (Json.fields?_ofMembers (show ["additions", "changes", "destructions"].Nodup by decide))
      (isCodec_count.read_write _ hr.additions) (isCodec_count.read_write _ hr.changes)
      (isCodec_count.read_write _ hr.destructions)
  valid_of_read v r hr := by
    unfold ofJson? at hr
    split at hr
    · split at hr
      case h_1 _ a c d ha hc hd =>
        cases hr
        exact ⟨isCodec_count.valid_of_read _ _ ha, isCodec_count.valid_of_read _ _ hc,
          isCodec_count.valid_of_read _ _ hd⟩
      · cases hr
    · cases hr

/-- Whether a phase has times and counts of their range. -/
structure Phase.IsWritable (p : Phase) : Prop where
  log : ∀ e ∈ p.log, e.time.IsUtc
  report : ∀ r ∈ p.report, r.IsBounded

namespace Phase

theorem isCodec_log : IsCodec (fun log : List (Entered PhaseStatus) => ∀ e ∈ log, e.time.IsUtc)
    (fun log => .array (log.map (Entered.toJson PhaseStatus.toJson)))
    (Json.list? (Entered.ofJson? PhaseStatus.ofJson?)) :=
  (Entered.isCodec PhaseStatus.isCodec).list

theorem isCodec_report : IsCodec (fun r : Option Report => ∀ a ∈ r, a.IsBounded)
    (fun r => (r.map Report.toJson).getD .null) (Json.optional? Report.ofJson?) :=
  Report.isCodec.optional fun _ h => by cases h

theorem isCodec_claim : IsCodec (fun c : Option String => ∀ a ∈ c, True)
    (fun c => (c.map Json.ofString).getD .null) (Json.optional? Json.string?) :=
  Json.isCodec_string.optional fun _ h => by cases h

theorem isCodec : IsCodec IsWritable toJson ofJson? where
  isSound p hp := Json.isSound_ofMembers <| by
    have hclaim := isCodec_claim.isSound p.claimedBy fun _ _ => trivial
    simp [Json.isCodec_string.isSound p.run trivial, PhaseKind.isCodec.isSound p.kind trivial,
      PhaseStatus.isCodec.isSound p.status trivial, isCodec_log.isSound p.log hp.log,
      isCodec_report.isSound p.report hp.report, hclaim]
  read_write p hp := by
    have hfields : Json.fields? fieldNames p.toJson = _ :=
      Json.fields?_ofMembers (show fieldNames.Nodup by decide)
    have hclaim := isCodec_claim.read_write p.claimedBy fun _ _ => trivial
    simp [ofJson?, hfields, Json.isCodec_string.read_write p.run trivial,
      PhaseKind.isCodec.read_write p.kind trivial,
      PhaseStatus.isCodec.read_write p.status trivial, isCodec_log.read_write p.log hp.log,
      isCodec_report.read_write p.report hp.report, hclaim]
  valid_of_read v p hp := by
    unfold ofJson? at hp
    split at hp
    · simp only [Option.bind_eq_bind, Option.bind_eq_some_iff] at hp
      obtain ⟨run, -, kind, -, status, -, log, hlog, report, hreport, claim, -, heq⟩ := hp
      cases heq
      exact ⟨isCodec_log.valid_of_read _ _ hlog, isCodec_report.valid_of_read _ _ hreport⟩
    · cases hp

end Phase

/-! ## Chunks -/

open Text (inInt64)

theorem Log.isCodec_byte :
    IsCodec (fun _ => True) (fun b : UInt8 => Json.ofInt b.toNat) Log.byteOfJson? where
  isSound b _ := Json.isSound_ofInt (by have := b.toNat_lt; omega)
  read_write b _ := by
    rw [byteOfJson?, (Json.isCodec_natBelow (by decide)).read_write b.toNat b.toNat_lt,
      Option.map_some, UInt8.ofNat_toNat]
  valid_of_read _ _ _ := trivial

theorem Log.isCodec_bytes :
    IsCodec (fun _ => True) Log.bytesToJson (Json.list? Log.byteOfJson?) where
  isSound bytes _ := Log.isCodec_byte.list.isSound bytes fun _ _ => trivial
  read_write bytes _ := Log.isCodec_byte.list.read_write bytes fun _ _ => trivial
  valid_of_read _ _ _ := trivial

theorem Log.depth_bytesToJson_lt (bytes : Text.Bytes) : (Log.bytesToJson bytes).depth < 2 := by
  refine Nat.succ_lt_succ (Json.depthItems_lt Nat.one_pos fun v hv => ?_)
  obtain ⟨b, -, rfl⟩ := List.mem_map.mp hv
  exact Nat.one_pos

namespace Chunk

/-- Whether the offset of a chunk is a signed integer of 64 bits. -/
def IsWritable (c : Chunk) : Prop :=
  inInt64 c.offset = true

theorem isSound_members {c : Chunk} (hc : c.IsWritable) : ∀ m ∈ c.members, m.2.isSound = true := by
  simp [members, Json.isCodec_string.isSound c.run trivial, PhaseKind.isCodec.isSound c.phase trivial,
    Json.isCodec_int64.isSound c.offset hc, Log.isCodec_bytes.isSound c.data trivial]

theorem ofFields?_members {phase? : Json → Option PhaseKind} {c : Chunk} (hc : c.IsWritable)
    (hphase : phase? c.phase.toJson = some c.phase) :
    ofFields? phase? (c.members.map fun m => some m.2) = some c := by
  simp [members, ofFields?, Json.isCodec_string.read_write c.run trivial, hphase,
    Json.isCodec_int64.read_write c.offset hc, Log.isCodec_bytes.read_write c.data trivial]

theorem isWritable_of_ofFields? {phase? : Json → Option PhaseKind} {fields : List (Option Json)}
    {c : Chunk} (h : ofFields? phase? fields = some c) : c.IsWritable := by
  unfold ofFields? at h
  split at h
  · simp only [Option.bind_eq_bind, Option.bind_eq_some_iff] at h
    obtain ⟨run, -, kind, -, offset, hoffset, data, -, heq⟩ := h
    cases heq
    exact Json.isCodec_int64.valid_of_read _ _ hoffset
  · cases h

theorem isCodec : IsCodec IsWritable toJson ofJson? where
  isSound c hc := Json.isSound_ofMembers (isSound_members hc)
  read_write c hc := by
    have hfields : Json.fields? fieldNames c.toJson = _ :=
      @Json.fields?_ofMembers c.members (show fieldNames.Nodup by decide)
    rw [ofJson?, hfields, Option.bind_some,
      ofFields?_members hc (PhaseKind.isCodec.read_write c.phase trivial)]
  valid_of_read v c h := by
    obtain ⟨fields, -, hc⟩ := Option.bind_eq_some_iff.mp h
    exact isWritable_of_ofFields? hc

end Chunk

namespace StoredChunk

/-- Whether the number and the offset are signed integers of 64 bits. -/
structure IsWritable (c : StoredChunk) : Prop where
  id : inInt64 c.id = true
  chunk : c.chunk.IsWritable

theorem isSound_members {c : StoredChunk} (hc : c.IsWritable) :
    ∀ m ∈ ("id", Json.ofInt c.id) :: c.chunk.members, m.2.isSound = true :=
  List.forall_mem_cons.mpr
    ⟨Json.isCodec_int64.isSound c.id hc.id, Chunk.isSound_members hc.chunk⟩

theorem isCodec : IsCodec IsWritable toJson ofJson? where
  isSound c hc := Json.isSound_ofMembers (isSound_members hc)
  read_write c hc := by
    have hdepth : ∀ m ∈ ("id", Json.ofInt c.id) :: c.chunk.members, m.2.depth < Json.bufferDepth := by
      have hbytes : (Log.bytesToJson c.chunk.data).depth < Json.bufferDepth :=
        (Log.depth_bytesToJson_lt _).trans (by decide)
      have hflat : 0 < Json.bufferDepth := by decide
      simp only [Chunk.members, List.forall_mem_cons]
      exact ⟨hflat, hflat, hflat, hflat, hbytes, by simp⟩
    have hfields : Json.merged? ["id"] Chunk.fieldNames c.toJson = _ :=
      @Json.merged?_ofMembers _ _ (("id", Json.ofInt c.id) :: c.chunk.members) rfl
        (show ("id" :: Chunk.fieldNames).Nodup by decide) (isSound_members hc) hdepth
    have hphase : Json.choice? PhaseKind.ofName? Json.isNullOrEmpty c.chunk.phase.toJson =
        some c.chunk.phase := PhaseKind.isCodec.read_write c.chunk.phase trivial
    have hchunk := Chunk.ofFields?_members hc.chunk hphase
    rw [ofJson?, hfields]
    simp only [List.map_cons, Json.isCodec_int64.read_write c.id hc.id, hchunk]
    rfl
  valid_of_read v c h := by
    unfold ofJson? at h
    split at h
    · simp only [Option.bind_eq_bind, Option.bind_eq_some_iff] at h
      obtain ⟨id, hid, chunk, hchunk, heq⟩ := h
      cases heq
      exact ⟨Json.isCodec_int64.valid_of_read _ _ hid, Chunk.isWritable_of_ofFields? hchunk⟩
    · cases h

end StoredChunk

/-! ## Messages -/

theorem Notification.isCodec :
    IsCodec (fun _ => True) Notification.toJson Notification.ofJson? where
  isSound n _ := rfl
  read_write n _ := by
    have hfields : Json.fields? fieldNames n.toJson = _ :=
      Json.fields?_ofMembers (show fieldNames.Nodup by decide)
    simp [ofJson?, hfields, Json.string?, Json.ofString]
  valid_of_read _ _ _ := trivial

theorem Notification.decode?_encode (n : Notification) : decode? n.encode = some n :=
  isCodec.roundTrips.restores n trivial

/-! ## All of them -/

theorem Instant.isUtc_of_year {t : Instant} (h0 : 0 ≤ (Date.ofDay (t.second / 86400)).year)
    (h1 : (Date.ofDay (t.second / 86400)).year ≤ 9999) (hnano : t.nano < 1000000000) : t.IsUtc := by
  refine ⟨?_, .inl hnano⟩
  simp only [Rfc3339.hasYear, Bool.and_eq_true, decide_eq_true_eq]
  omega

/-- **Decoding undoes encoding**, for phases, chunks alone and stored, messages and entries of logs;
the times of the years 0 to 9999 are among those that can be written. -/
theorem Json.decoding_undoes_encoding :
    RoundTrips Phase.IsWritable Phase.toJson Phase.ofJson? ∧
    RoundTrips Chunk.IsWritable Chunk.toJson Chunk.ofJson? ∧
    RoundTrips StoredChunk.IsWritable StoredChunk.toJson StoredChunk.ofJson? ∧
    RoundTrips (fun _ => True) Notification.toJson Notification.ofJson? ∧
    RoundTrips (fun e => e.time.IsUtc) (Entered.toJson RunStatus.toJson)
      (Entered.ofJson? RunStatus.ofJson?) ∧
    RoundTrips (fun e => e.time.IsUtc) (Entered.toJson PhaseStatus.toJson)
      (Entered.ofJson? PhaseStatus.ofJson?) ∧
    ∀ t : Instant, 0 ≤ (Date.ofDay (t.second / 86400)).year →
      (Date.ofDay (t.second / 86400)).year ≤ 9999 → t.nano < 1000000000 → t.IsUtc :=
  ⟨Phase.isCodec.roundTrips, Chunk.isCodec.roundTrips, StoredChunk.isCodec.roundTrips,
    Notification.isCodec.roundTrips, (Entered.isCodec RunStatus.isCodec).roundTrips,
    (Entered.isCodec PhaseStatus.isCodec).roundTrips, fun _ => Instant.isUtc_of_year⟩

/-- A phase with every kind of character in its texts, the last nanosecond of a year and a leap
second. -/
def Phase.motley : Phase :=
  ⟨"run \"\\\n\u0001 é", .apply, .errored,
    [⟨.pending, ⟨1483228799, 999999999⟩⟩, ⟨.errored, ⟨1483228799, 1500000000⟩⟩],
    some ⟨0, 4294967295, 1⟩, some "agent\t/"⟩

theorem Json.decoding_undoes_encoding_motley :
    Phase.motley.IsWritable ∧
      decode? Phase.ofJson? Phase.motley.toJson.render = some Phase.motley := by
  have hwritable : Phase.motley.IsWritable := by
    refine ⟨fun e he => ?_, fun r hr => ?_⟩
    · simp only [Phase.motley, List.mem_cons, List.not_mem_nil, or_false] at he
      rcases he with rfl | rfl <;> exact ⟨by decide, by decide⟩
    · cases hr
      exact ⟨by decide, by decide, by decide⟩
  exact ⟨hwritable, decoding_undoes_encoding.1.restores _ hwritable⟩

end Provision
