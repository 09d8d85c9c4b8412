import Provision.Cluster.Basic

/-!
# Turns

What each task of a cluster does in its turn. A scheduler competes for the lease, and while it holds it,
subscribes, seeds its queues and follows events; an agent subscribes, looks for queued phases and
follows events. Both start again after a while when their subscription ends. A listener opens a stream
and takes in what other nodes tell, and starts again when the connection is lost.

* `Cluster.settle` lets everything take turns until all tasks wait.
* `Cluster.advance` lets time pass, and wakes what waited for the times that come.
-/

namespace Provision.Cluster

/-! ## Listeners -/

/-- Let a listener wait for its next attempt. -/
def retryListener (node : Nat) : Step Unit := do
  let now := (← get).now
  reviseMember node fun m =>
    let (delay, backoff) := m.backoff.next 0
    { m with backoff, listener := .sleeping (now + delay) }

/-- Take in what a stream found and at most `fuel` messages after it, until none is left or the
connection is lost. -/
def hearFrom (node : Nat) : Nat → Received × Stream → Step Unit
  | _, (.lost, _) => retryListener node
  | _, (.waiting, stream) => reviseMember node fun m => { m with listener := .listening stream }
  | fuel, (.payload text, stream) => do
    let c ← get
    reviseMember node fun m =>
      { m with broker := m.broker.hear c.ledger.store text, listener := .listening stream }
    wakeRelays node
    match fuel with
    | 0 => return
    | fuel + 1 => hearFrom node fuel (c.transport.receive stream)

/-- Open a stream. -/
def startListener (node : Nat) : Step Unit := do
  let c ← get
  if let some m := c.members[node]? then
    match c.transport.listen m.broker.channel with
    | .ok stream =>
      reviseMember node fun m =>
        { m with backoff := m.backoff.reset, listener := .listening stream }
    | .error _ => retryListener node

/-- The turn of a listener. -/
def listenerTurn (node : Nat) : Step Unit := do
  let c ← get
  if let some m := c.members[node]? then
    if m.isStopping then reviseMember node fun m => { m with listener := .stopped }
    else
      match m.listener with
      | .starting => startListener node
      | .listening stream => hearFrom node c.transport.sent.size (c.transport.resume stream)
      | .sleeping due => if due ≤ c.now then startListener node
      | .stopped => return

/-! ## Schedulers -/

/-- Carry out a step of a scheduler, and publish what it announces. -/
def schedule (place : Nat) (x : Scheduler.Step Unit) : Step (Except Error Unit) := do
  let c ← get
  match c.schedulers[place]? with
  | none => return .ok ()
  | some p =>
    let r := x (p.roster, c.ledger)
    modify fun c => { c with ledger := r.2.2 }
    reviseScheduler place fun p => { p with roster := r.2.1 }
    publishAnnounced p.node
    return r.1

/-- End a scheduler. -/
def stopScheduler (place : Nat) (fault : Option Fault) : Step Unit :=
  reviseScheduler place fun p => { p with stage := .stopped fault }

/-- Give back the lease of a scheduler, or what it asked for. -/
def yieldLease (place : Nat) : Step Unit := do
  modify fun c => { c with leases := c.leases.withdraw (.scheduler place) }
  wakeHolder

/-- Let a scheduler wait for its next attempt. -/
def retryScheduler (place : Nat) : Step Unit := do
  let now := (← get).now
  reviseScheduler place fun p =>
    let (delay, backoff) := p.backoff.next 0
    { p with backoff, stage := .sleeping (now + delay) }

/-- What follows a session that a fault ended. -/
def failScheduler (place : Nat) (fault : Fault) : Step Unit :=
  if fault.isFatal then stopScheduler place (some fault) else retryScheduler place

/-- Leave the session of a scheduler. -/
def leaveSession (place : Nat) (node : Nat) (session : Session) : Step Unit := do
  closeSession node Scheduler.subscriber session
  yieldLease place

/-- Open the session of a scheduler that holds the lease. -/
def beginSession (place : Nat) : Step Unit := do
  if let some p := (← get).schedulers[place]? then
    match ← openSession p.node Scheduler.subscriber with
    | .error fault =>
      yieldLease place
      failScheduler place fault
    | .ok session =>
      let due := (← get).now + p.reseedEvery
      reviseScheduler place fun p => { p with stage := .following session due }
      wake (.relay (.scheduler place))
      match ← schedule place Scheduler.seed with
      | .ok () => return
      | .error e =>
        leaveSession place p.node session
        failScheduler place (.core e)

/-- Ask for the lease. -/
def startScheduler (place : Nat) : Step Unit := do
  modify fun c => { c with leases := c.leases.request Scheduler.lease (.scheduler place) }
  if (← get).leases.holder? Scheduler.lease = some (.scheduler place) then beginSession place
  else reviseScheduler place fun p => { p with stage := .waiting }

/-- Handle what has come in a session, and reconcile if that is due. -/
def followEvents (place node : Nat) (session : Session) (due : Nat) : Step Unit := do
  reviseSession (.scheduler place) fun s => { s with events := [] }
  session.events.forM fun e => do
    let _ ← schedule place (Scheduler.dispatch e)
  if session.hasEnded then
    leaveSession place node session
    reviseScheduler place fun p => { p with backoff := p.backoff.reset }
    retryScheduler place
  else if due ≤ (← get).now then
    reviseScheduler place fun p =>
      match p.stage with
      | .following s due => { p with stage := .following s (due + p.reseedEvery) }
      | _ => p
    match ← schedule place Scheduler.seed with
    | .ok () => return
    | .error e =>
      if (Fault.core e).isFatal then
        leaveSession place node session
        failScheduler place (.core e)

/-- The turn of a scheduler. -/
def schedulerTurn (place : Nat) : Step Unit := do
  let c ← get
  if let some p := c.schedulers[place]? then
    match p.stage with
    | .starting => if p.isStopping then stopScheduler place none else startScheduler place
    | .waiting =>
      if p.isStopping then
        yieldLease place
        stopScheduler place none
      else if c.leases.holder? Scheduler.lease = some (.scheduler place) then beginSession place
    | .following session due =>
      if p.isStopping then
        leaveSession place p.node session
        stopScheduler place none
      else followEvents place p.node session due
    | .sleeping due =>
      if p.isStopping then stopScheduler place none
      else if due ≤ c.now then startScheduler place
    | .stopped _ => return

/-! ## Agents -/

/-- Carry out a step of an agent, publish what it announces, and let new jobs take a turn. -/
def employ (place : Nat) (x : Agent.Step Unit) : Step Unit := do
  let c ← get
  if let some p := c.agents[place]? then
    let r := x (p.agent, c.ledger)
    modify fun c => { c with ledger := r.2.2 }
    reviseAgent place fun p => { p with agent := r.2.1 }
    publishAnnounced p.node
    r.2.1.jobs.forM fun j => do
      match p.agent.job? j.number with
      | none => wake (.job place j.number)
      | some old => if old.signal ≠ j.signal then wake (.job place j.number)

/-- Let an agent wait for its next attempt. -/
def retryAgent (place : Nat) : Step Unit := do
  let now := (← get).now
  reviseAgent place fun p =>
    let (delay, backoff) := p.backoff.next 0
    { p with backoff, stage := .sleeping (now + delay) }

/-- Put away the jobs that have ended. -/
def joinJobs (place : Nat) (x : Nat → Agent.Step Unit) : Step Unit := do
  if let some p := (← get).agents[place]? then
    (p.agent.jobs.filter (·.hasEnded)).forM fun j => employ place (x j.number)

/-- Let an agent end once its jobs have. -/
def drainAgent (place : Nat) : Step Unit := do
  joinJobs place fun number => modify fun s => (s.1.remove number, s.2)
  reviseAgent place fun p =>
    { p with stage := if p.agent.jobs.isEmpty then .stopped else .draining }

/-- Ask the jobs of an agent to stop, and let it end once they have. -/
def dismissAgent (place : Nat) : Step Unit := do
  employ place (modify fun s => (s.1.cancelAll, s.2))
  drainAgent place

/-- Subscribe an agent, and let it look for queued phases. -/
def startAgent (place : Nat) : Step Unit := do
  if let some p := (← get).agents[place]? then
    match ← openSession p.node p.agent.id with
    | .error _ => retryAgent place
    | .ok session =>
      reviseAgent place fun p => { p with stage := .following session }
      wake (.relay (.agent place))
      employ place Agent.rescan

/-- The turn of an agent. -/
def agentTurn (place : Nat) : Step Unit := do
  let c ← get
  if let some p := c.agents[place]? then
    match p.stage with
    | .starting => if p.isStopping then dismissAgent place else startAgent place
    | .following session =>
      if p.isStopping then
        closeSession p.node p.agent.id session
        dismissAgent place
      else
        joinJobs place Agent.join
        reviseSession (.agent place) fun s => { s with events := [] }
        session.events.forM fun e => employ place (Agent.handle e)
        if session.hasEnded then
          closeSession p.node p.agent.id session
          reviseAgent place fun p => { p with backoff := p.backoff.reset }
          retryAgent place
    | .sleeping due =>
      if p.isStopping then dismissAgent place
      else if due ≤ c.now then startAgent place
    | .draining => drainAgent place
    | .stopped => return

/-! ## Jobs -/

/-- Carry out a step of a job, and publish what it announces. -/
def work {α : Type} (place number : Nat) (x : Job.Step α) : Step (Option α) := do
  let c ← get
  match c.agents[place]? with
  | none => return none
  | some p =>
    match p.agent.job? number with
    | none => return none
    | some job =>
      let r := x (job, c.ledger)
      modify fun c => { c with ledger := r.2.2 }
      reviseAgent place fun p => { p with agent := p.agent.putJob r.2.1 }
      publishAnnounced p.node
      return some r.1

/-- Take the verdict of a job's runner, and bring the job to its end. -/
def endJob (place number : Nat) (verdict : Verdict) : Step Unit := do
  let _ ← work place number (Job.wrapUp verdict)
  reviseAgent place fun p => { p with alarms := p.alarms.filter fun a => a.1 != number }
  wake (.follower (.agent place))

/-- Begin to execute a job, and lay down when it ends by itself. -/
def beginJob (place number : Nat) (runner : ScriptedRunner) (signal : CancelSignal) :
    Step Unit := do
  reviseAgent place fun p => { p with executed := p.executed + 1 }
  let _ ← work place number (modify fun s => (s.1.begin_, s.2))
  match ← work place number (Job.write runner.output) with
  | some (.error e) => endJob place number (.error e)
  | _ =>
    if signal.isCanceled then endJob place number (.error .cancelled)
    else
      match runner.duration? with
      | none => return
      | some 0 => endJob place number runner.verdict
      | some delay =>
        let due := (← get).now + delay * Backoff.millisecond
        reviseAgent place fun p => { p with alarms := p.alarms ++ [(number, due)] }

/-- The turn of a job. -/
def jobTurn (place number : Nat) : Step Unit := do
  let c ← get
  if let some p := c.agents[place]? then
    if let some job := p.agent.job? number then
      match job.stage with
      | .claimed => beginJob place number p.runner job.signal
      | .executing =>
        if job.signal.isCanceled then endJob place number (.error .cancelled)
        else if p.alarms.any fun a => decide (a.1 = number ∧ a.2 ≤ c.now) then
          endJob place number p.runner.verdict
      | _ => return

/-! ## Taking turns -/

/-- Take events out of the inbox of a follower. -/
def relayTurn (who : Follower) : Step Unit := do
  let c ← get
  if let some (node, session) := c.session? who then
    if let some m := c.members[node]? then
      let (events, broker) := m.broker.takeAll session.generation
      let hasEnded := broker.hasEnded session.generation
      reviseBroker node fun _ => broker
      reviseSession who fun s => { s with events := s.events ++ events, hasEnded }
      if !events.isEmpty || hasEnded then wake (.follower who)

/-- A turn. -/
def turn : Turn → Step Unit
  | .listener node => listenerTurn node
  | .follower (.scheduler place) => schedulerTurn place
  | .follower (.agent place) => agentTurn place
  | .relay who => relayTurn who
  | .job place number => jobTurn place number
  | .reaper node registration => do
    reviseBroker node (·.unregister registration.name registration.generation)
    wakeRelays node

/-- Let at most `fuel` turns be taken, until all tasks wait. -/
def settle : Nat → Step Unit
  | 0 => return
  | fuel + 1 => do
    match (← get).ready with
    | [] => return
    | t :: rest =>
      modify fun c => { c with ready := rest }
      turn t
      settle fuel

/-! ## Time -/

/-- What waits for a time, with that time. -/
def alarms (c : Cluster) : List (Nat × Turn) :=
  ((List.range c.members.size).filterMap fun node =>
    (c.members[node]?.bind (·.listenerAlarm?)).map fun due => (due, .listener node)) ++
  ((List.range c.schedulers.size).filterMap fun place =>
    (c.schedulers[place]?.bind (·.alarm?)).map fun due => (due, .follower (.scheduler place))) ++
  ((List.range c.agents.size).flatMap fun place =>
    match c.agents[place]? with
    | some p =>
      (p.alarm?.toList.map fun due => (due, .follower (.agent place))) ++
        p.alarms.map fun a => (a.2, .job place a.1)
    | none => [])

/-- The earliest time that something waits for. -/
def earliest (c : Cluster) : Option Nat :=
  (c.alarms.map (·.1)).min?

/-- Let time pass until `target`, stopping at most `fuel` times for what waits for a time in between,
with at most `turns` turns each time. -/
def advanceTo (turns target : Nat) : Nat → Step Unit
  | 0 => modify fun c => { c with now := target }
  | fuel + 1 => do
    match (← get).earliest with
    | some due =>
      if due ≤ target then
        modify fun c => { c with now := max c.now due }
        let c ← get
        (c.alarms.filter fun a => decide (a.1 ≤ c.now)).forM fun a => wake a.2
        settle turns
        advanceTo turns target fuel
      else modify fun c => { c with now := target }
    | none => modify fun c => { c with now := target }

end Provision.Cluster
