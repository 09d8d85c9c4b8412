/-!
# Instants

A point of time in UTC: a second counted from the start of 1970 and the nanoseconds within it. A
leap second is the second before it with another thousand million nanoseconds, so it comes after
every ordinary point of that second.

Instants are ordered by second, then by nanosecond.
-/

namespace Provision

/-- A point of time in UTC. -/
structure Instant where
  /-- The second, counted from the start of 1970. -/
  second : Int
  /-- The nanoseconds since the second began. -/
  nano : Nat
  deriving DecidableEq, Repr, Inhabited

namespace Instant

/-- The order of time. -/
instance : LT Instant where
  lt a b := a.second < b.second ∨ a.second = b.second ∧ a.nano < b.nano

/-- The order of time, equal points included. -/
instance : LE Instant where
  le a b := a.second < b.second ∨ a.second = b.second ∧ a.nano ≤ b.nano

instance (a b : Instant) : Decidable (a < b) :=
  inferInstanceAs (Decidable (a.second < b.second ∨ a.second = b.second ∧ a.nano < b.nano))

instance (a b : Instant) : Decidable (a ≤ b) :=
  inferInstanceAs (Decidable (a.second < b.second ∨ a.second = b.second ∧ a.nano ≤ b.nano))

/-- The instant a whole number of seconds later. -/
def addSeconds (t : Instant) (seconds : Int) : Instant :=
  { t with second := t.second + seconds }

/-- The instant a whole number of milliseconds later. -/
def addMillis (t : Instant) (millis : Int) : Instant :=
  let nanos : Int := t.nano + millis * 1000000
  ⟨t.second + nanos / 1000000000, (nanos % 1000000000).toNat⟩

/-- The milliseconds from `start` to `t`, rounded down. -/
def millisSince (t start : Instant) : Int :=
  ((t.second - start.second) * 1000000000 + (t.nano - start.nano)) / 1000000

/-- Whether no instant of a list comes before the one in front of it. -/
def areOrdered : List Instant → Bool
  | a :: b :: rest => decide (a ≤ b) && areOrdered (b :: rest)
  | _ => true

end Instant

end Provision
