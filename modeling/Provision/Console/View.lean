import Provision.Console.Basic
import Provision.View

/-!
# The view of a console

What an operator sees of a cluster: what is stored, the queues of the schedulers, and what runs on the
nodes. Workspaces come by organization, and everything in the order of creation.
-/

namespace Provision

open Json (ofString ofString? ofStrings ofNat ofMembers)

/-- The queues of a scheduler. An identifier that was given out later comes later. -/
def Roster.view (r : Roster) : Json :=
  let queues := (r.flatMap (·.queues)).mergeSort fun a b => decide (a.1 ≤ b.1)
  ofMembers [("organizations", ofStrings r.organizations),
    ("queues", .array (queues.map fun q =>
      .array [ofString q.1, ofString? q.2.current, ofStrings q.2.pending]))]

/-- What runs on a node. -/
def Station.view (s : Station) (c : Cluster) : Json :=
  ofMembers (("subscribers", ofNat (c.subscribers s.node)) ::
    ((s.scheduler.map fun place =>
        ("scheduler_alive", Json.bool (s.whole.isSome || c.isScheduling place))).toList ++
      (s.agent.map fun place => ("in_flight", ofNat (c.inFlight place))).toList ++
      (s.whole.map fun n => ("running", Json.bool (c.isRunning n))).toList))

/-- Everything that an operator sees. -/
def Console.view (c : Console) : Json :=
  let store := c.cluster.ledger.store
  let workspaces := store.organizations.flatMap fun o => store.workspacesOf o.name
  let rosters := c.stations.filterMap fun e =>
    (e.2.scheduler.bind fun place => c.cluster.schedulers[place]?).map fun p =>
      (e.1, p.roster.view)
  ofMembers [("organizations", ofStrings (store.organizations.map (·.name))),
    ("workspaces", .array (workspaces.map fun w =>
      .array [ofString w.id, w.lockView, ofString? w.currentRun])),
    ("runs", .array (store.runs.map fun r =>
      ofStrings [r.id, r.status.name, r.plan.status.name, r.apply.status.name])),
    ("scheduler", ofMembers rosters),
    ("nodes", ofMembers (c.stations.map fun e => (e.1, e.2.view c.cluster)))]

end Provision
