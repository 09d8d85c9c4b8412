import Provision.Text.Numeral
import Provision.Text.Utf8

/-!
# Configuration of a node

A node is configured by environment variables. A variable whose value is not valid UTF-8 counts as
not set, and most have a default; the address of the database has none. A switch is on exactly for
`true` and `1`.
-/

namespace Provision

open Provision.Text (Bytes)

/-- What is wrong with an environment. -/
inductive ConfigError
  /-- A variable without default is not set. -/
  | missing (name : String)
  /-- The value of a variable cannot be used. -/
  | invalid (name : String)
  deriving DecidableEq, Repr

/-- The fault in words. -/
def ConfigError.message : ConfigError → String
  | .missing name => "Missing required environment variable: " ++ name
  | .invalid name => "Invalid value for environment variable: " ++ name

/-- The configuration of a node. -/
structure Config where
  /-- The address of the database. -/
  databaseUrl : String
  /-- The channel that all nodes share. -/
  eventsChannel : String
  /-- Whether the node competes for the scheduler's lock. -/
  schedulerEnabled : Bool
  /-- Whether the node executes phases. -/
  agentEnabled : Bool
  /-- How many phases the node executes at once. -/
  agentConcurrency : Nat
  /-- The program that executes phases. -/
  engine : String
  /-- The directory above those of the runs. -/
  dataDirectory : String
  /-- The seconds between two reconciliations of the queues with storage. -/
  reseedSeconds : Nat
  deriving DecidableEq, Repr

namespace Config

/-- The values of environment variables. -/
abbrev Environment := String → Option Bytes

/-- The value of a variable, as far as it is text. -/
def value? (env : Environment) (name : String) : Option String :=
  (env name).bind fun bytes => String.fromUTF8? ⟨bytes.toArray⟩

/-- The value of a switch. -/
def switch (env : Environment) (name : String) (default : Bool) : Bool :=
  match value? env name with
  | some v => v == "true" || v == "1"
  | none => default

/-- The value of a variable that holds a number of 64 bits. -/
def number? (env : Environment) (name default : String) : Except ConfigError Nat :=
  match Text.natBelow? (Nat.pow 2 64) ((value? env name).getD default).toList with
  | some n => .ok n
  | none => .error (.invalid name)

/-- The configuration that an environment gives. -/
def ofEnvironment (env : Environment) : Except ConfigError Config := do
  let databaseUrl ← match value? env "RUNWAY_DATABASE_URL" with
    | some url => .ok url
    | none => .error (.missing "RUNWAY_DATABASE_URL")
  let agentConcurrency ← number? env "RUNWAY_AGENT_CONCURRENCY" "5"
  if agentConcurrency = 0 then .error (.invalid "RUNWAY_AGENT_CONCURRENCY")
  let reseedSeconds ← number? env "RUNWAY_RESEED_INTERVAL_SECS" "300"
  return {
    databaseUrl
    eventsChannel := (value? env "RUNWAY_EVENTS_CHANNEL").getD "events"
    schedulerEnabled := switch env "RUNWAY_SCHEDULER_ENABLED" true
    agentEnabled := switch env "RUNWAY_AGENT_ENABLED" true
    agentConcurrency
    engine := (value? env "RUNWAY_ENGINE_BIN").getD "terraform"
    dataDirectory := (value? env "DATA_DIR").getD ".data"
    reseedSeconds }

end Config

end Provision
