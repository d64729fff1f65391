import GraphSql.Keyed
import GraphSql.Relational.Statement

/-!
# Databases as a client sees them

A client reaches a database through pools of connections.  All that it asks of the database are
operations, each of which may fail; they are logged as events, and what is open at any time can be read
off from the log (`Held.ofLog`).  A `Backend` says how the database answers and which operations fail,
which may depend on all that has happened before.  A `Run` is a computation of the client that may fail
and that keeps its log and its state in either case.
-/

namespace GraphSql.Database

/-- A row of a result: columns with their values, each column once. -/
abbrev Row (α : Type) := List (String × α)

/-- How a pool is opened. -/
structure Settings where
  host : String := "localhost"
  port : Int := 5433
  user : String := "postgres"
  password : String := ""
  database : String := "postgres"
  minPoolSize : Int := 1
  maxPoolSize : Int := 10

/-- How a statement is sent. -/
inductive Command (α : Type) where
  | execute (sql : String)
  | fetch (sql : String) (arguments : List α)
  | fetchValue (sql : String)

def Command.sql {α : Type} : Command α → String
  | execute sql | fetch sql _ | fetchValue sql => sql

/-- What is asked of a database.  Pools are numbered as they are opened, and connections as they are
taken. -/
inductive Operation (α : Type) where
  | connect (settings : Settings)
  | close (pool : Nat)
  | acquire (pool : Nat)
  | release (connection : Nat)
  | send (connection : Nat) (command : Command α)

/-- An operation, and whether it was done or failed. -/
structure Event (α : Type) where
  operation : Operation α
  done : Bool

/-- What is held open at a database. -/
structure Held where
  /-- How many pools have been opened. -/
  opened : Nat := 0
  /-- The pools that have not been closed. -/
  pools : List Nat := []
  /-- How many connections have been taken. -/
  taken : Nat := 0
  /-- The connections that have not been given back. -/
  connections : List Nat := []

namespace Held

variable {α : Type}

/-- What is held after an event.  An operation that fails changes nothing. -/
def after (h : Held) (e : Event α) : Held :=
  if e.done then
    match e.operation with
    | .connect _ => { h with opened := h.opened + 1, pools := h.opened :: h.pools }
    | .close p => { h with pools := h.pools.erase p }
    | .acquire _ => { h with taken := h.taken + 1, connections := h.taken :: h.connections }
    | .release k => { h with connections := h.connections.erase k }
    | .send _ _ => h
  else h

/-- What is held after all events of a log. -/
def ofLog (log : List (Event α)) : Held := log.foldl after {}

end Held

/-- How a database behaves. -/
structure Backend (α : Type) where
  /-- The rows that every query answers with. -/
  rows : List (Row α) := []
  /-- The single value that a query for one answers with. -/
  value : Value := .integer 1
  /-- Why an operation fails behind the events before it, if it does. -/
  failure : List (Event α) → Operation α → Option String := fun _ _ => none

/-- Why an operation is refused, if it is.  A pool that has been closed hands out no connections. -/
def Backend.refusal {α : Type} (b : Backend α) (log : List (Event α)) : Operation α → Option String
  | .acquire p =>
    if p ∈ (Held.ofLog log).pools then b.failure log (.acquire p) else some "pool is closed"
  | o => b.failure log o

/-- Why a request to a client fails. -/
inductive Failure where
  | compile (e : Error)
  /-- The text is no query, or its clauses do not form one. -/
  | malformed (query : String)
  | unsupported (query : String)
  | connection (reason : String)
  | statement (reason : String)
  | noPool
  | noSession
  deriving DecidableEq

def Failure.message : Failure → String
  | compile e => e.message
  | malformed query => "Could not translate query: " ++ query
  | unsupported query => "Unsupported query: " ++ query
  | connection reason | statement reason => reason
  | noPool => "Connection pool not initialized"
  | noSession => "Session not initialized. Use async with context."

/-- How a failing operation is reported. -/
def Operation.failed {α : Type} (reason : String) : Operation α → Failure
  | send _ _ => .statement reason
  | _ => .connection reason

/-- A session belongs to a pool, and has a connection while it is entered. -/
structure Session where
  pool : Nat
  connection : Option Nat := none

structure State (α : Type) where
  /-- The pool that is remembered as open. -/
  pool : Option Nat := none
  /-- The sessions that have been made. -/
  sessions : List Session := []
  /-- How many names of temporary tables have been taken. -/
  tempTables : Nat := 0
  log : List (Event α) := []

namespace State

variable {α : Type}

def held (s : State α) : Held := Held.ofLog s.log

/-- The connection of a session; there is none unless it has been entered. -/
def connection? (s : State α) (i : Nat) : Option Nat := s.sessions[i]?.bind Session.connection

def setConnection (s : State α) (i : Nat) (k : Option Nat) : State α :=
  { s with sessions := s.sessions.modify i fun session => { session with connection := k } }

end State

abbrev Run (α : Type) := ExceptT Failure (StateM (State α))

namespace Run

variable {α β : Type}

def emit (e : Event α) : Run α Unit := modify fun s => { s with log := s.log ++ [e] }

/-- Asks for an operation. -/
def perform (b : Backend α) (o : Operation α) : Run α Unit := do
  match b.refusal (← get).log o with
  | some reason =>
    emit ⟨o, false⟩
    throw (o.failed reason)
  | none => emit ⟨o, true⟩

/-- Runs `cleanup` after `body`, whether that failed or not.  If both fail, the later failure is
reported. -/
def ensuring (body : Run α β) (cleanup : Run α Unit) : Run α β := ExceptT.mk do
  let result ← body.run
  match ← cleanup.run with
  | .ok _ => pure result
  | .error e => pure (.error e)

/-- Takes a connection of a pool. -/
def acquire (b : Backend α) (pool : Nat) : Run α Nat := do
  let k := (← get).held.taken
  perform b (.acquire pool)
  return k

/-- Runs `body` with a connection of a pool, which is given back afterwards. -/
def withConnection (b : Backend α) (pool : Nat) (body : Nat → Run α β) : Run α β := do
  let k ← acquire b pool
  ensuring (body k) (perform b (.release k))

def execute (b : Backend α) (k : Nat) (sql : String) : Run α Unit :=
  perform b (.send k (.execute sql))

def fetch (b : Backend α) (k : Nat) (sql : String) (arguments : List α) : Run α (List (Row α)) := do
  perform b (.send k (.fetch sql arguments))
  return b.rows.map lastValues

def fetchValue (b : Backend α) (k : Nat) (sql : String) : Run α Value := do
  perform b (.send k (.fetchValue sql))
  return b.value

end Run

end GraphSql.Database
