/-!
# Reading bytes as text

Bytes are read as UTF-8. Where they are not valid, each maximal piece that could have started a
character, and each byte that could not, is read as one replacement character.

* `lead?` gives the length that a first byte announces and the range of the second byte.
* `lossy` reads any bytes.
-/

namespace Provision.Text

/-- A run of bytes. -/
abbrev Bytes := List UInt8

/-- The character that stands for what could not be read. -/
def replacement : Char := '\ufffd'

/-- What the first byte of a sequence announces: the bits it carries, how many bytes follow, and
the range of the next one. -/
structure Lead where
  /-- The bits of the code point in the first byte. -/
  bits : Nat
  /-- How many bytes follow. -/
  following : Nat
  /-- The least value of the second byte. -/
  low : Nat
  /-- The greatest value of the second byte. -/
  high : Nat

/-- What a byte announces as the first of a sequence of several bytes, if it can be one. -/
def lead? (b : UInt8) : Option Lead :=
  let n := b.toNat
  if 0xC2 ≤ n ∧ n ≤ 0xDF then some ⟨n - 0xC0, 1, 0x80, 0xBF⟩
  else if n = 0xE0 then some ⟨0, 2, 0xA0, 0xBF⟩
  else if n = 0xED then some ⟨n - 0xE0, 2, 0x80, 0x9F⟩
  else if 0xE1 ≤ n ∧ n ≤ 0xEF then some ⟨n - 0xE0, 2, 0x80, 0xBF⟩
  else if n = 0xF0 then some ⟨0, 3, 0x90, 0xBF⟩
  else if n = 0xF4 then some ⟨n - 0xF0, 3, 0x80, 0x8F⟩
  else if 0xF1 ≤ n ∧ n ≤ 0xF3 then some ⟨n - 0xF0, 3, 0x80, 0xBF⟩
  else none

/-- The bytes that follow a first byte: the code point if all of them are there, none if the
sequence breaks off, and in both cases the bytes not used. -/
def finish (code : Nat) : Nat → Nat → Nat → Bytes → Option Nat × Bytes
  | 0, _, _, rest => (some code, rest)
  | _ + 1, _, _, [] => (none, [])
  | more + 1, low, high, b :: rest =>
    if low ≤ b.toNat ∧ b.toNat ≤ high then
      finish (code * 64 + (b.toNat - 0x80)) more 0x80 0xBF rest
    else (none, b :: rest)

theorem finish_length_le (code more low high : Nat) (bytes : Bytes) :
    (finish code more low high bytes).2.length ≤ bytes.length := by
  induction bytes generalizing code more low high with
  | nil => cases more <;> simp [finish]
  | cons b rest ih =>
    cases more with
    | zero => simp [finish]
    | succ more =>
      simp only [finish]
      split
      · exact Nat.le_trans (ih ..) (Nat.le_succ _)
      · simp

/-- Any bytes as characters. -/
def lossy : Bytes → List Char
  | [] => []
  | b :: rest =>
    if b.toNat < 0x80 then Char.ofNat b.toNat :: lossy rest
    else match lead? b with
      | none => replacement :: lossy rest
      | some lead =>
        let read := finish lead.bits lead.following lead.low lead.high rest
        (read.1.map Char.ofNat).getD replacement :: lossy read.2
termination_by bytes => bytes.length
decreasing_by
  all_goals simp only [List.length_cons]
  · omega
  · omega
  · have := finish_length_le lead.bits lead.following lead.low lead.high rest
    omega

/-- The bytes of a text. -/
def utf8 (s : String) : Bytes :=
  s.toUTF8.toList

end Provision.Text
