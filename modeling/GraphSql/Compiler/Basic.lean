import GraphSql.Plan
import GraphSql.Relational.Statement

/-!
# Compilers

A compiler knows the schema and how temporary tables are named.  Their names are taken one after the
other from a supply, also by queries that are refused later on.

A query that is not compiled is refused by one of two answers in place of a script, or by an error that
is raised.  Errors of one kind can be caught and turned into an answer.
-/

namespace GraphSql

/-- How a query is refused. -/
inductive Refusal where
  /-- The answer when the clauses are understood but their combination is not supported. -/
  | unsupported
  /-- The answer when the text is no query, or its clauses do not form one. -/
  | malformed
  /-- An error is raised. -/
  | failed (e : Error)
  deriving DecidableEq

namespace Refusal

/-- Reports an error as a refusal. -/
def lift {α : Type} : Except Error α → Except Refusal α
  | .ok a => .ok a
  | .error e => .error (.failed e)

/-- Catches the errors of one kind and answers them. -/
def caught (kind : Error.Kind) (answer : Refusal) : Refusal → Refusal
  | failed e => if e.kind = kind then answer else failed e
  | r => r

end Refusal

structure Compiler where
  schema : Schema
  tempStart : String := "with_temp"
  /-- The last part of the name of the `k`-th temporary table. -/
  tempSuffix : Nat → String := Relational.hexSuffix
  /-- How deeply the expressions of a query can be nested before the stack is used up. -/
  stack : Nat := 1000

/-- A computation that may be refused; the state counts the names that have been taken. -/
abbrev Compile := ExceptT Refusal (StateM Nat)

/-- A result that takes no names. -/
def Compile.ofExcept {α : Type} (x : Except Refusal α) : Compile α := ExceptT.mk (pure x)

/-- A result that takes no names, or an error that is raised. -/
def Compile.raise {α : Type} (x : Except Error α) : Compile α := .ofExcept (Refusal.lift x)

/-- Catches the errors of one kind and answers them.  The names that have been taken stay taken. -/
def Compile.catching {α : Type} (kind : Error.Kind) (answer : Refusal) (x : Compile α) : Compile α :=
  ExceptT.mk (Except.mapError (Refusal.caught kind answer) <$> x.run)

namespace Compiler

/-- Takes the next name of a temporary table. -/
def tempTable (c : Compiler) : Compile String := do
  let k ← getModify (· + 1)
  return Relational.tempName c.tempStart (c.tempSuffix (k + 1))

/-- The plan of match clauses and a projection. -/
def plan (c : Compiler) (relations : List (String × Relation)) (ms : List Query.Matching)
    (p : Query.Projection) : Compile Plan :=
  .raise (Plan.ofClauses c.schema relations ms p)

end Compiler

end GraphSql
