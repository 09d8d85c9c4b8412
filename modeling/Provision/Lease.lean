/-!
# Exclusive leases

A lease is held by one party at a time across all nodes. Requests for one lease are served in the
order they come in: the first one holds it, and the others wait behind.
-/

namespace Provision

/-- The requests for each lease, in the order of arrival. A lease nobody asks for is not listed. -/
structure Leases (α : Type) where
  /-- The numbers of the leases and the requests for each. -/
  queues : List (Int × List α) := []
  deriving Repr

namespace Leases

variable {α : Type} [DecidableEq α]

/-- The requests for a lease; the first one holds it. -/
def requests (l : Leases α) (lease : Int) : List α :=
  ((l.queues.find? fun q => q.1 == lease).map (·.2)).getD []

/-- The holder of a lease. -/
def holder? (l : Leases α) (lease : Int) : Option α :=
  (l.requests lease).head?

/-- Ask for a lease. -/
def request (l : Leases α) (lease : Int) (party : α) : Leases α :=
  if l.queues.any fun q => q.1 == lease then
    ⟨l.queues.map fun q => if q.1 = lease then (q.1, q.2 ++ [party]) else q⟩
  else ⟨l.queues ++ [(lease, [party])]⟩

/-- Give back what a party holds, and withdraw what it asked for. -/
def withdraw (l : Leases α) (party : α) : Leases α :=
  ⟨(l.queues.map fun q => (q.1, q.2.filter fun p => decide (p ≠ party))).filter fun q =>
    !q.2.isEmpty⟩

/-- The holders of all leases. -/
def holders (l : Leases α) : List α :=
  l.queues.flatMap fun q => q.2.take 1

/-- The parties that wait for a lease. -/
def waiting (l : Leases α) : List α :=
  l.queues.flatMap fun q => q.2.drop 1

end Leases

end Provision
