/-!
# Backoff

Delays between attempts. Each is twice the one before it, up to a maximum, with some jitter on top: a
whole number of milliseconds below a tenth of the delay. A success starts over.

Spans of time are counted in nanoseconds. The span that doubles without end stops at the longest
span there is, `Backoff.longest`.
-/

namespace Provision

/-- The state of a sequence of delays. -/
structure Backoff where
  /-- The first delay. -/
  base : Nat
  /-- The greatest delay, before jitter. -/
  limit : Nat
  /-- The delay that comes next, before it is cut to `limit`. -/
  current : Nat
  deriving DecidableEq, Repr

namespace Backoff

/-- A millisecond in nanoseconds. -/
def millisecond : Nat :=
  1000000

/-- The longest span: the seconds fill 64 bits, and one nanosecond more would be another second. -/
def longest : Nat :=
  Nat.pow 2 64 * 1000000000 - 1

/-- A sequence that starts at `base` and does not exceed `limit`. -/
def new (base limit : Nat) : Backoff :=
  ⟨base, limit, base⟩

/-- The sequence for a connection: from a tenth of a second to five seconds. -/
def connection : Backoff :=
  new (100 * millisecond) (5000 * millisecond)

/-- The delay that comes next, without jitter. -/
def delay (b : Backoff) : Nat :=
  min b.current b.limit

/-- How many whole milliseconds of jitter there are to choose from, a number of 64 bits. -/
def jitterRange (b : Backoff) : Nat :=
  b.delay / 10 / millisecond % Nat.pow 2 64

/-- The next delay in nanoseconds, where `chance` picks the jitter, and the state after it. -/
def next (b : Backoff) (chance : Nat) : Nat × Backoff :=
  let jitter := if b.jitterRange = 0 then 0 else chance % b.jitterRange * millisecond
  (b.delay + jitter, { b with current := min (2 * b.current) longest })

/-- The state after a success. -/
def reset (b : Backoff) : Backoff :=
  { b with current := b.base }

end Backoff

end Provision
