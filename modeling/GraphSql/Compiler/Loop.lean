import GraphSql.Compiler.Action
import GraphSql.Compiler.Staging

/-!
# Loops

The clauses before a loop are prepared as a query of their own.  A list that is written out becomes
one statement for each element and action, over a temporary table with the result of that query when
the actions use its variables; a list that the query returns is gone through in a block.
-/

namespace GraphSql

open Query (Loop)
open Relational (BlockVariable Statement)

/-- The output columns that identify variables of the query before a loop. -/
def Plan.outputs (p : Plan) (names : List String) : Except Error (List (String × ResultColumn)) :=
  names.mapM fun n =>
    match p.output? n with
    | some c => .ok (n, c)
    | none => .error (.unsupported (.notReturned n))

namespace Compiler

/-- A loop over a list that is written out: the writes of each element in turn.  The result of the
query before it is kept in a temporary table when the actions read it. -/
def unroll (c : Compiler) (before : Prepared) (columns : List (String × ResultColumn)) (l : Loop)
    (elements : List Value) : Compile (List Statement) := do
  let (setup, rows) ←
    if columns.isEmpty || elements.isEmpty then pure ([], none)
    else do
      let table ← c.tempTable
      pure (before.setup ++ [.createTemp table before.final.select], some table)
  let writes ← Compile.raise (elements.mapM fun v =>
    LoopEnv.writes { name := l.name, key := {}, element := some v, columns, rows } c.schema l.actions)
  return setup ++ writes.flatten.map .write

/-- A loop over a list that the query before it returns under the given name. -/
def iterate (c : Compiler) (before : Prepared) (columns : List (String × ResultColumn)) (l : Loop)
    (name : String) : Except Error (List Statement) := do
  match before.final.output? name with
  | none => throw (.unsupported (.notReturned name))
  | some source =>
    if source.origin.map Origin.table = some Schema.edgesTable then
      throw (.unsupported .overRelationships)
    let type := source.type.getD .text
    let env : LoopEnv := { name := l.name, key := source.elementKey type, element := none, columns }
    let body ← env.writes c.schema l.actions
    let element : BlockVariable :=
      { name := l.name, type, column := source.name, unnested := source.isList }
    let others := columns.map fun (n, col) =>
      { name := n, type := col.type.getD .bigint, column := col.name : BlockVariable }
    return before.setup ++
      [.block { declared := element :: others, source := before.final.select, body }]

/-- A loop behind a prepared query. -/
def compileLoop (c : Compiler) (before : Prepared) (l : Loop) : Compile (List Statement) := do
  let columns ← Compile.raise (before.final.outputs l.outerNames)
  match l.source with
  | .list es =>
    match Query.Expr.values? es with
    | some elements => c.unroll before columns l elements
    | none => throw (.failed (.unsupported .element))
  | .var name => .raise (c.iterate before columns l name)
  | _ => throw (.failed (.unsupported .source))

/-- A query with a loop, which must be its last clause and its only loop.  What a loop does not support
is caught here, behind the query before it. -/
def compileLooping (c : Compiler) (q : Query) : Compile (List Statement) :=
  match q.getLast?, q.dropLast with
  | some (.looping l), before =>
    if before.any Query.Clause.isLooping then throw .unsupported
    else if before.isEmpty then throw .malformed
    else
      match Query.beforeLoop? before with
      | none => throw .malformed
      | some q => do
        let before ← c.prepare q
        (c.compileLoop before l).catching .unsupported .unsupported
  | _, _ => throw .unsupported

end Compiler

end GraphSql
