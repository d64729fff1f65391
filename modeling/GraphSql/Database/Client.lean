import GraphSql.Database.Backend
import GraphSql.Compiler.Script

/-!
# A client that runs graph queries on a database

The client compiles a query and runs its statements in order on one connection.  All but the last
prepare it: they may leave temporary tables on the connection, which are discarded before it is given
back.  A pool is opened when it is first needed and stays open until the client is closed.  Sessions
take a connection when they are entered and give it back when they are left; what happens in between
is up to the caller, so these are requests of their own.
-/

namespace GraphSql.Database

open Relational (Statement)

structure Client where
  compiler : Compiler
  settings : Settings := {}

/-- What a client can be asked for.  Sessions are numbered as they are made. -/
inductive Request (α : Type) where
  | query (text : String)
  /-- Create all tables of the schema, after dropping them if asked to. -/
  | createTables (drop : Bool)
  | openPool
  | close
  | ping
  /-- Make a session. -/
  | session
  | enter (session : Nat)
  /-- Run a statement with arguments on the connection of a session. -/
  | run (session : Nat) (sql : String) (arguments : List α)
  | exit (session : Nat)

inductive Response (α : Type) where
  | done
  | rows (rs : List (Row α))
  | health (ok : Bool)
  | session (i : Nat)

namespace Client

variable {α β : Type}

/-- Opens a pool unless one is open. -/
def openPool (c : Client) (b : Backend α) : Run α Nat := do
  match (← get).pool with
  | some p => return p
  | none =>
    let p := (← get).held.opened
    Run.perform b (.connect c.settings)
    modify fun s => { s with pool := some p }
    return p

/-- Runs `body` with a connection, for which a pool is opened if there is none. -/
def onConnection (c : Client) (b : Backend α) (body : Nat → Run α β) : Run α β := do
  Run.withConnection b (← c.openPool b) body

/-- Compiles the text of a query. -/
def compile (c : Client) (text : String) : Run α (List Statement) := do
  let (result, taken) := (c.compiler.translate text).run.run (← get).tempTables
  modify fun s => { s with tempTables := taken }
  match result with
  | .ok statements => return statements
  | .error .malformed => throw (.malformed text)
  | .error .unsupported => throw (.unsupported text)
  | .error (.failed e) => throw (.compile e)

/-- Runs the last statement of a query: one with rows is fetched, any other executed. -/
def runFinal (b : Backend α) (final : Statement) (k : Nat) : Run α (List (Row α)) :=
  if final.hasRows then Run.fetch b k final.render []
  else do
    Run.execute b k final.render
    return []

/-- Runs the statements of a query on a connection and discards its temporary tables. -/
def runStatements (b : Backend α) (setup : List Statement) (final : Statement) (k : Nat) :
    Run α (List (Row α)) :=
  Run.ensuring
    (do
      setup.forM fun statement => Run.execute b k statement.render
      runFinal b final k)
    (if setup.isEmpty then pure () else Run.execute b k "DISCARD TEMP")

/-- Runs a query.  One without statements answers with no rows and needs no connection. -/
def query (c : Client) (b : Backend α) (text : String) : Run α (List (Row α)) := do
  let statements ← c.compile text
  match statements.getLast? with
  | none => return []
  | some final => c.onConnection b (runStatements b statements.dropLast final)

def createTables (c : Client) (b : Backend α) (drop : Bool) : Run α Unit :=
  let schema := c.compiler.schema
  let statements := (if drop then schema.dropStatements else []) ++ schema.createStatements
  c.onConnection b fun k => statements.forM (Run.execute b k)

def close (b : Backend α) : Run α Unit := do
  match (← get).pool with
  | none => return ()
  | some p =>
    Run.perform b (.close p)
    modify fun s => { s with pool := none }

/-- Whether the database answers one when asked for one; no failure is reported. -/
def ping (c : Client) (b : Backend α) : Run α Bool := ExceptT.mk do
  match ← (c.onConnection b fun k => Run.fetchValue b k "SELECT 1").run with
  | .ok v => pure (.ok v.isOne)
  | .error _ => pure (.ok false)

/-- Makes a session for the pool that is open. -/
def session : Run α Nat := do
  match (← get).pool with
  | none => throw .noPool
  | some p =>
    let i := (← get).sessions.length
    modify fun s => { s with sessions := s.sessions ++ [{ pool := p }] }
    return i

/-- Takes a connection for a session, in place of the one that it may have. -/
def enter (b : Backend α) (i : Nat) : Run α Unit := do
  match (← get).sessions[i]? with
  | none => throw .noPool
  | some session =>
    let k ← Run.acquire b session.pool
    modify fun s => s.setConnection i (some k)

def runInSession (b : Backend α) (i : Nat) (sql : String) (arguments : List α) :
    Run α (List (Row α)) := do
  match (← get).connection? i with
  | none => throw .noSession
  | some k => Run.fetch b k sql arguments

/-- Gives the connection of a session back, if it has one. -/
def exit (b : Backend α) (i : Nat) : Run α Unit := do
  match (← get).connection? i with
  | none => return ()
  | some k =>
    Run.perform b (.release k)
    modify fun s => s.setConnection i none

/-- Answers a request. -/
def answer (c : Client) (b : Backend α) : Request α → Run α (Response α)
  | .query text => .rows <$> c.query b text
  | .createTables drop => (fun _ => .done) <$> c.createTables b drop
  | .openPool => (fun _ => .done) <$> c.openPool b
  | .close => (fun _ => .done) <$> close b
  | .ping => .health <$> c.ping b
  | .session => .session <$> session
  | .enter i => (fun _ => .done) <$> enter b i
  | .run i sql arguments => .rows <$> runInSession b i sql arguments
  | .exit i => (fun _ => .done) <$> exit b i

end Client

end GraphSql.Database
