import GraphSql.Compiler.Loop
import GraphSql.Query.Depth
import GraphSql.Query.Parser.Clause

/-!
# Scripts

The text of a query is read, compiled by its shape to a list of statements, and written as a script.
`compile` runs on a stack that holds any query; `translate` has to get along with the stack of the
compiler.
-/

namespace GraphSql

/-- The error that is raised when a text is not read. -/
def Query.SyntaxError.error : SyntaxError → Error
  | malformed => .unreadable
  | numeralTooLong n => .numeralTooLong n

namespace Compiler

open Relational (Statement)

/-- The statements of a query. -/
def compileQuery (c : Compiler) (q : Query) : Compile (List Statement) :=
  match q.shape with
  | .loop => c.compileLooping q
  | _ => do return (← c.prepare q).statements

/-- Reads a text as a query.  That it is none is an error, which is caught and answered. -/
def parse (text : String) : Except Refusal Query :=
  (Refusal.lift ((Query.parse text).mapError Query.SyntaxError.error)).mapError
    (Refusal.caught .unreadable .malformed)

/-- The statements of the query that a text spells. -/
def compile (c : Compiler) (text : String) : Compile (List Statement) := do
  c.compileQuery (← Compile.ofExcept (parse text))

/-- The statements of the query that a text spells, as long as the stack can hold its expressions.
They are gone through one inside the other, so a query that is nested too deeply is found out when it
would be compiled. -/
def translate (c : Compiler) (text : String) : Compile (List Statement) := do
  let q ← Compile.ofExcept (parse text)
  let statements ← c.compileQuery q
  if c.stack < q.depth then
    throw (.failed .tooDeep)
  return statements

/-- The script of the query that a text spells. -/
def script (c : Compiler) (text : String) : Compile String := do
  return Statement.script (← c.compile text)

end Compiler

/-- The plan of a text that spells a query of match clauses and one projection; any other text has
none. -/
def Plan.ofText (schema : Schema) (text : String) : Except Error (Option Plan) :=
  match Query.parse text with
  | .error .malformed => .ok none
  | .error (.numeralTooLong n) => .error (.numeralTooLong n)
  | .ok q => if q.shape = .plain then Plan.ofQuery schema [] q else .ok none

end GraphSql
