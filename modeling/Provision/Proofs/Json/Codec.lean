import Provision.Json.Record
import Provision.Proofs.Json.Value
import Provision.Proofs.Keyed

/-!
# Codecs

A type is written as a value and read from one. `Json.IsCodec` holds if what is written is sound and
is read back, and if nothing else can be read than what can be written.

* `IsCodec.roundTrips`: both directions between the type and its texts follow.
* `fields?_ofMembers`, `merged?_ofMembers`: the fields of a record are found by their names.
-/

namespace Provision.Json

/-- Whether `read` undoes `write` on the values that are `valid`, and reads no others. -/
structure IsCodec {α : Type} (valid : α → Prop) (write : α → Json) (read : Json → Option α) :
    Prop where
  isSound : ∀ a, valid a → (write a).isSound = true
  read_write : ∀ a, valid a → read (write a) = some a
  valid_of_read : ∀ v a, read v = some a → valid a

/-- Between the `valid` values of a type and its texts: a value comes back from its text, and what any
text gives comes back from the text that is written for it. -/
structure RoundTrips {α : Type} (valid : α → Prop) (write : α → Json) (read : Json → Option α) :
    Prop where
  restores : ∀ a, valid a → decode? read (write a).render = some a
  settles : ∀ text a, decode? read text = some a → decode? read (write a).render = some a

theorem IsCodec.roundTrips {α : Type} {valid : α → Prop} {write : α → Json} {read : Json → Option α}
    (h : IsCodec valid write read) : RoundTrips valid write read := by
  have hrestores : ∀ a, valid a → decode? read (write a).render = some a := fun a ha => by
    rw [decode?_render read (h.isSound a ha), h.read_write a ha]
  refine ⟨hrestores, fun text a hr => ?_⟩
  obtain ⟨v, -, hv⟩ := Option.bind_eq_some_iff.mp hr
  exact hrestores a (h.valid_of_read v a hv)

/-! ## Soundness -/

theorem isSoundItems_iff {vs : List Json} :
    isSoundItems vs = true ↔ ∀ v ∈ vs, v.isSound = true := by
  induction vs with
  | nil => simp [isSoundItems]
  | cons v rest ih => simp [isSoundItems, ih]

theorem isSoundMembers_iff {ms : List (Text × Json)} :
    isSoundMembers ms = true ↔ ∀ m ∈ ms, m.1.isSome = true ∧ m.2.isSound = true := by
  induction ms with
  | nil => simp [isSoundMembers]
  | cons m rest ih => simp [isSoundMembers, ih]

theorem isSound_ofMembers {ms : List (String × Json)} (h : ∀ m ∈ ms, m.2.isSound = true) :
    (ofMembers ms).isSound = true :=
  isSoundMembers_iff.mpr fun m hm => by
    obtain ⟨n, hn, rfl⟩ := List.mem_map.mp hm
    exact ⟨rfl, h n hn⟩

theorem depthItems_lt {vs : List Json} {bound : ℕ} (hb : 0 < bound) (h : ∀ v ∈ vs, v.depth < bound) :
    depthItems vs < bound := by
  induction vs with
  | nil => exact hb
  | cons v rest ih =>
    exact Nat.max_lt.mpr
      ⟨h v List.mem_cons_self, ih fun w hw => h w (List.mem_cons_of_mem v hw)⟩

theorem depthMembers_lt {ms : List (Text × Json)} {bound : ℕ} (hb : 0 < bound)
    (h : ∀ m ∈ ms, m.2.depth < bound) : depthMembers ms < bound := by
  induction ms with
  | nil => exact hb
  | cons m rest ih =>
    exact Nat.max_lt.mpr
      ⟨h m List.mem_cons_self, ih fun n hn => h n (List.mem_cons_of_mem m hn)⟩

theorem isSound_ofInt {i : ℤ} (h : i.natAbs < 2 ^ 64) : (ofInt i).isSound = true := by
  have hle : 2 ^ 64 ≤ overflow := by decide +kernel
  rw [ofInt, isSound, Number.isFinite, decide_eq_true_eq]
  exact h.trans_le hle

/-! ## Single values -/

theorem isCodec_string : IsCodec (fun _ => True) ofString string? where
  isSound _ _ := rfl
  read_write _ _ := rfl
  valid_of_read _ _ _ := trivial

theorem isCodec_name {α : Type} {name : α → String} {ofName? : String → Option α}
    (h : ∀ a, ofName? (name a) = some a) :
    IsCodec (fun _ => True) (fun a => ofString (name a)) (Json.name? ofName?) where
  isSound _ _ := rfl
  read_write a _ := h a
  valid_of_read _ _ _ := trivial

theorem int?_eq_some {p : ℤ → Bool} {v : Json} {i : ℤ} (h : int? p v = some i) : p i = true := by
  unfold int? at h
  split at h
  · split_ifs at h with hp
    cases h
    exact hp
  · cases h

theorem isCodec_int64 : IsCodec (fun i => Text.inInt64 i = true) ofInt int64? where
  isSound i h := by
    simp only [Text.inInt64, Bool.and_eq_true, decide_eq_true_eq] at h
    have hpow : Int.pow 2 63 = 2 ^ 63 := rfl
    exact isSound_ofInt (by omega)
  read_write i h := by simp [int64?, int?, ofInt, h]
  valid_of_read v i h := int?_eq_some h

theorem isCodec_natBelow {bound : ℕ} (hb : bound ≤ 2 ^ 64) :
    IsCodec (· < bound) (fun n : ℕ => ofInt n) (natBelow? bound) where
  isSound n h := isSound_ofInt (by rw [Int.natAbs_natCast]; omega)
  read_write n h := by simp [natBelow?, int?, ofInt, h]
  valid_of_read v n h := by
    obtain ⟨i, hi, rfl⟩ := Option.map_eq_some_iff.mp h
    have hp := int?_eq_some hi
    simp only [Bool.and_eq_true, decide_eq_true_eq] at hp
    omega

/-! ## Lists and choices -/

theorem exists_of_mem_mapM {α : Type} {read : Json → Option α} {items : List Json} {as : List α}
    (h : items.mapM read = some as) {a : α} (ha : a ∈ as) : ∃ v ∈ items, read v = some a := by
  induction items generalizing as with
  | nil =>
    cases h
    cases ha
  | cons v rest ih =>
    simp only [List.mapM_cons, Option.bind_eq_bind, Option.bind_eq_some_iff] at h
    obtain ⟨b, hb, bs, hbs, hcons⟩ := h
    cases hcons
    rcases List.mem_cons.mp ha with rfl | hm
    · exact ⟨v, List.mem_cons_self, hb⟩
    · obtain ⟨w, hw, hread⟩ := ih hbs hm
      exact ⟨w, List.mem_cons_of_mem v hw, hread⟩

theorem optional?_of_ne_null {α : Type} (read : Json → Option α) {v : Json} (hv : v ≠ .null) :
    optional? read v = (read v).map some := by
  cases v with
  | null => exact absurd rfl hv
  | _ => rfl

section

variable {α : Type} {valid : α → Prop} {write : α → Json} {read : Json → Option α}
  (h : IsCodec valid write read)
include h

theorem IsCodec.list :
    IsCodec (fun as => ∀ a ∈ as, valid a) (fun as => .array (as.map write)) (list? read) where
  isSound as ha := isSoundItems_iff.mpr fun v hv => by
    obtain ⟨a, hm, rfl⟩ := List.mem_map.mp hv
    exact h.isSound a (ha a hm)
  read_write as ha := by
    induction as with
    | nil => rfl
    | cons a rest ih =>
      have hrest := ih fun b hb => ha b (List.mem_cons_of_mem a hb)
      simp only [list?, List.map_cons, List.mapM_cons] at hrest ⊢
      rw [h.read_write a (ha a List.mem_cons_self), hrest]
      rfl
  valid_of_read v as hr := by
    cases v with
    | array items =>
      rw [list?] at hr
      intro a ha
      obtain ⟨v, -, hv⟩ := exists_of_mem_mapM hr ha
      exact h.valid_of_read v a hv
    | _ => cases hr

theorem IsCodec.optional (hnull : ∀ a, write a ≠ .null) :
    IsCodec (fun o => ∀ a ∈ o, valid a) (fun o : Option α => (o.map write).getD .null)
      (optional? read) where
  isSound o ho := by
    cases o with
    | none => rfl
    | some a => exact h.isSound a (ho a rfl)
  read_write o ho := by
    cases o with
    | none => rfl
    | some a =>
      rw [Option.map_some, Option.getD_some, optional?_of_ne_null read (hnull a),
        h.read_write a (ho a rfl), Option.map_some]
  valid_of_read v o hr := by
    by_cases hv : v = .null
    · subst hv
      cases hr
      rintro a ha
      cases ha
    · rw [optional?_of_ne_null read hv] at hr
      obtain ⟨a, ha, rfl⟩ := Option.map_eq_some_iff.mp hr
      rintro b hb
      cases hb
      exact h.valid_of_read v a ha

end

/-! ## Records -/

theorem pick?_map {ms : List (String × Json)} (hn : (ms.map Prod.fst).Nodup) :
    pick? (ms.map Prod.fst) (ms.map fun m => (some m.1, m.2)) = some (ms.map fun m => some m.2) := by
  have honce (name : String) : (ms.filter fun m => m.1 == name).length ≤ 1 := by
    rw [← List.countP_eq_length_filter]
    exact (List.countP_map ..).symm.trans_le (List.nodup_iff_count_le_one.mp hn name)
  have hfind : ∀ m ∈ ms, ms.find? (fun n => n.1 == m.1) = some m :=
    fun m hm => (Keyed.find?_eq_some_iff hn).mpr ⟨hm, rfl⟩
  have hkey (name : String) : ((fun m : Text × Json => m.1 == some name) ∘
      fun m : String × Json => (some m.1, m.2)) = fun m => m.1 == name := by
    funext m
    simp
  simp only [pick?, List.filter_map, List.length_map, List.find?_map, List.map_map, hkey]
  rw [if_pos (by simp [honce])]
  refine congrArg some (List.map_congr_left fun m hm => ?_)
  simp [hfind m hm]

theorem fields?_ofMembers {ms : List (String × Json)} (hn : (ms.map Prod.fst).Nodup) :
    fields? (ms.map Prod.fst) (ofMembers ms) = some (ms.map fun m => some m.2) :=
  pick?_map hn

/-- The members of a merged record that pass through the buffer are sound and not too deep. -/
theorem merged?_ofMembers {direct names : List String} {ms : List (String × Json)}
    (hnames : direct ++ names = ms.map Prod.fst) (hn : (ms.map Prod.fst).Nodup)
    (hsound : ∀ m ∈ ms, m.2.isSound = true) (hdepth : ∀ m ∈ ms, m.2.depth < bufferDepth) :
    merged? direct names (ofMembers ms) = some (ms.map fun m => some m.2) := by
  have hmem : ∀ m ∈ ms.map fun m => ((some m.1, m.2) : Text × Json),
      m.1.isSome = true ∧ m.2.isSound = true ∧ m.2.depth < bufferDepth := fun m hm => by
    obtain ⟨n, hn, rfl⟩ := List.mem_map.mp hm
    exact ⟨rfl, hsound n hn, hdepth n hn⟩
  simp only [merged?, ofMembers]
  rw [if_pos, hnames, pick?_map hn]
  rw [Bool.and_eq_true, isSoundMembers_iff, decide_eq_true_eq]
  refine ⟨fun m hm => ?_, depthMembers_lt (by decide) fun m hm => ?_⟩
  · exact ⟨(hmem m (List.mem_of_mem_filter hm)).1, (hmem m (List.mem_of_mem_filter hm)).2.1⟩
  · exact (hmem m (List.mem_of_mem_filter hm)).2.2

end Provision.Json
