import GraphSql.Query.Expr

/-!
# Patterns and clauses of a graph query

A pattern is a chain of nodes joined by relationships, kept as its first node and the hops from one
node to the next, so there is always one node more than there are relationships.  A query is a list
of clauses, and its shape says which of them decides how it is compiled.
-/

namespace GraphSql.Query

inductive Direction where
  | outgoing
  | incoming
  | both
  deriving DecidableEq

inductive SortOrder where
  | ascending
  | descending
  deriving DecidableEq

/-- The properties of a pattern, each key once. -/
abbrev Properties := List (String × Expr)

structure NodePattern where
  name : Option String := none
  labels : List String := []
  properties : Option Properties := none
  deriving Inhabited

structure RelationshipPattern where
  name : Option String := none
  types : List String := []
  properties : Option Properties := none
  direction : Direction

/-- One step of a pattern: a relationship and the node that it leads to. -/
structure Hop where
  relationship : RelationshipPattern
  node : NodePattern

structure Pattern where
  first : NodePattern
  hops : List Hop := []
  deriving Inhabited

def Pattern.nodes (p : Pattern) : List NodePattern := p.first :: p.hops.map Hop.node

def Pattern.relationships (p : Pattern) : List RelationshipPattern :=
  p.hops.map Hop.relationship

/-- An item of a projection, with the name given to it if there is one. -/
structure ReturnItem where
  expr : Expr
  asName : Option String := none

structure SortKey where
  expr : Expr
  order : SortOrder := .ascending

/-- Patterns that must be found in the graph, and a condition on what they bind. -/
structure Matching where
  patterns : List Pattern
  condition : Option Expr := none

/-- The clause that binds a name to any node, under a condition. -/
abbrev Matching.reading (name : String) (condition : Option Expr) : Matching where
  patterns := [{ first := { name := some name } }]
  condition

/-- What is made of the rows that were found.  An empty list of sort keys means that no order is
asked for. -/
structure Projection where
  items : List ReturnItem
  distinct : Bool := false
  orderBy : List SortKey := []
  skip : Option Expr := none
  limit : Option Expr := none

/-- A projection in the middle of a query, and a condition on its result. -/
structure WithProjection extends Projection where
  condition : Option Expr := none

/-- A property of a variable and its new value. -/
structure Assignment where
  name : String
  key : String
  value : Expr

/-- What is done for each element of a list. -/
inductive Action where
  | set (items : List Assignment)
  | create (pattern : Pattern)

/-- Actions for each element of a list; `name` stands for the element. -/
structure Loop where
  name : String
  source : Expr
  actions : List Action

inductive Clause where
  | matching (m : Matching)
  | passing (w : WithProjection)
  | returning (p : Projection)
  | looping (l : Loop)

end GraphSql.Query

namespace GraphSql

/-- A query is its clauses in order. -/
abbrev Query := List Query.Clause

namespace Query

/-- How a query is compiled: as a single select statement, in two stages, or as a loop. -/
inductive Shape where
  | plain
  | staged
  | loop
  deriving DecidableEq

namespace Clause

def isPassing : Clause → Bool
  | passing _ => true
  | _ => false

def isLooping : Clause → Bool
  | looping _ => true
  | _ => false

def matching? : Clause → Option Matching
  | matching m => some m
  | _ => none

end Clause

/-- A loop decides the shape of a query, and without one a projection in the middle does. -/
def shape (q : Query) : Shape :=
  if q.any Clause.isLooping then .loop
  else if q.any Clause.isPassing then .staged
  else .plain

/-- The parts of a query that has one or more match clauses, then one projection, and nothing
else. -/
def plain? : Query → Option (List Matching × Projection)
  | .matching m :: [.returning p] => some ([m], p)
  | .matching m :: rest => (plain? rest).map fun (ms, p) => (m :: ms, p)
  | _ => none

/-- The parts of a query that has one or more match clauses, then a projection in the middle and a
final one, and nothing else. -/
def staged? : Query → Option (List Matching × WithProjection × Projection)
  | .matching m :: [.passing w, .returning p] => some ([m], w, p)
  | .matching m :: rest => (staged? rest).map fun (ms, w, p) => (m :: ms, w, p)
  | _ => none

end Query

end GraphSql
