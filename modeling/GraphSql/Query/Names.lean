import GraphSql.Query.Clause

/-!
# Names in clauses

The variables that clauses introduce or use, and the query that remains of the clauses before a loop.
-/

namespace GraphSql.Query

/-- The members of a list in order of first appearance. -/
def firstAppearances (xs : List String) : List String :=
  xs.foldl (fun seen x => if seen.contains x then seen else seen ++ [x]) []

/-- The node variables of a pattern. -/
def Pattern.nodeNames (p : Pattern) : List String := p.nodes.filterMap NodePattern.name

/-- The node variables of match clauses in order of first appearance. -/
def nodeNames (ms : List Matching) : List String :=
  firstAppearances (ms.flatMap fun m => m.patterns.flatMap Pattern.nodeNames)

/-- The name by which later clauses reach an item; one that is no bare name and is given none has no
such name. -/
def ReturnItem.name? (i : ReturnItem) : Option String :=
  match i.asName, i.expr with
  | some a, _ => some a
  | none, .var name => some name
  | none, _ => none

/-- A projection of the given names. -/
def Projection.ofNames (names : List String) : Projection where
  items := names.map fun n => { expr := .var n }

/-- The clauses before a loop as a query that ends in a projection.  A projection in the middle
becomes the final one, unless its condition or order has to be kept; after a match clause all node
variables are returned, and without any there is nothing to go on from. -/
def beforeLoop? (q : Query) : Option Query :=
  match q.getLast? with
  | some (.passing w) =>
    if w.condition.isNone && w.orderBy.isEmpty then
      some (q.dropLast ++ [.returning w.toProjection])
    else some (q ++ [.returning (.ofNames (w.items.filterMap ReturnItem.name?))])
  | some (.matching _) =>
    match nodeNames (q.filterMap Clause.matching?) with
    | [] => none
    | names => some (q ++ [.returning (.ofNames names)])
  | _ => some q

/-- The variables that an action uses as nodes. -/
def Action.nodeNames : Action → List String
  | .set items => items.map Assignment.name
  | .create p => p.nodeNames

/-- The variables other than that of the element that the actions of a loop use as nodes. -/
def Loop.outerNames (l : Loop) : List String :=
  firstAppearances ((l.actions.flatMap Action.nodeNames).filter (· != l.name))

end GraphSql.Query
