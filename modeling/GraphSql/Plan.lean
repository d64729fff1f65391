import GraphSql.Scope.Pattern
import GraphSql.Scope.Projection

/-!
# Plans

The plan of one or more match clauses and a projection is a single select statement, together with
the tables that the variables of the patterns were bound to and the columns of the result.  Faults
are reported in the order patterns, projection, conditions, sort keys, skip and limit.
-/

namespace GraphSql

open Query (Matching Projection)

structure Plan where
  nodes : List BoundNode
  edges : List BoundEdge
  /-- The conditions of the match clauses, joined by conjunction. -/
  predicate : Option Query.Expr
  projection : List ResultColumn
  select : Relational.Select

namespace Plan

/-- The conjunction of conditions, grouped to the left. -/
def conjunction : List Query.Expr → Option Query.Expr
  | [] => none
  | e :: es => some (es.foldl (.binary .and) e)

/-- The select statement of a projection over the patterns that a scope has collected. -/
def selectOver (s : Scope) (conditions : List Query.Expr) (p : Projection) :
    Except Error (List ResultColumn × Relational.Select) := do
  let projected ← s.project p.items
  let conditions ← s.compileAll conditions
  let orderBy ← p.orderBy.mapM (s.sortKey projected.columns)
  let offset ← p.skip.mapM s.compile
  let limit ← p.limit.mapM s.compile
  let groupBy := if p.items.any fun i => i.expr.aggregates then projected.keys else []
  return (projected.columns,
    { distinct := p.distinct, items := projected.columns.map ResultColumn.item,
      sources := s.sources, conditions := s.conditions ++ conditions, groupBy, orderBy, offset,
      limit })

/-- The plan of match clauses and a projection.  Variables named in `relations` range over derived
relations. -/
def ofClauses (schema : Schema) (relations : List (String × Relation)) (ms : List Matching)
    (p : Projection) : Except Error Plan := do
  let s ← Scope.addPatterns schema { relations } (ms.flatMap Matching.patterns)
  let conditions := ms.filterMap Matching.condition
  let (projection, select) ← selectOver s conditions p
  return { nodes := s.nodes, edges := s.edges, predicate := conjunction conditions, projection,
           select }

/-- The plan of a query of match clauses and one projection; any other query has none. -/
def ofQuery (schema : Schema) (relations : List (String × Relation)) (q : Query) :
    Except Error (Option Plan) :=
  match q.plain? with
  | some (ms, p) => (ofClauses schema relations ms p).map some
  | none => .ok none

/-- The name of the first node. -/
def firstName (p : Plan) : String :=
  match p.nodes with
  | n :: _ => n.name
  | [] => ""

/-- The result as a table of the given name. -/
def relation (p : Plan) (name : String) : Relation := ⟨name, p.projection⟩

/-- The output column that identifies what a later stage reaches by a name. -/
def output? (p : Plan) (name : String) : Option ResultColumn := (p.relation "").key? name

end Plan

end GraphSql
