import GraphSql.Compiler.Basic

/-!
# Queries in stages

A query that ends in a projection is prepared: its plan comes with the statements that have to be run
before it.  With a projection in the middle there are two stages.  The first one fills a temporary
table, and the second one reads it.
-/

namespace GraphSql

open Query (Matching WithProjection Projection)
open Relational (Statement)

/-- A plan and the statements that come before it. -/
structure Prepared where
  setup : List Statement := []
  final : Plan

def Prepared.statements (p : Prepared) : List Statement := p.setup ++ [.select p.final.select]

namespace Compiler

/-- The final projection of a query in two stages: it takes over the order of the projection in the
middle when it has none of its own and there is no condition between them. -/
def finalProjection (w : WithProjection) (p : Projection) : Projection :=
  if w.condition.isNone && p.orderBy.isEmpty then { p with orderBy := w.orderBy } else p

/-- Whether a condition stands together with an order, which is not supported. -/
def ordersFiltered (w : WithProjection) (p : Projection) : Bool :=
  w.condition.isSome && (!w.orderBy.isEmpty || !p.orderBy.isEmpty)

/-- Match clauses, a projection into a temporary table and a projection from it.  In the second stage
the table goes by the name of the first node. -/
def prepareStages (c : Compiler) (ms : List Matching) (w : WithProjection) (p : Projection) :
    Compile Prepared := do
  if ordersFiltered w p then
    throw .unsupported
  let first ← c.plan [] ms w.toProjection
  let table ← c.tempTable
  let name := first.firstName
  let final ← c.plan [(name, first.relation table)] [.reading name w.condition] (finalProjection w p)
  return { setup := [.createTemp table first.select], final }

/-- A query with a projection in the middle. -/
def prepareStaged (c : Compiler) (q : Query) : Compile Prepared :=
  match q.staged? with
  | some (ms, w, p) => c.prepareStages ms w p
  | none => throw .unsupported

/-- A query that ends in a projection. -/
def prepare (c : Compiler) (q : Query) : Compile Prepared :=
  match q.shape with
  | .staged => c.prepareStaged q
  | .loop => throw .unsupported
  | .plain =>
    match q.plain? with
    | some (ms, p) => return { final := ← c.plan [] ms p }
    | none => throw .malformed

end Compiler

end GraphSql
