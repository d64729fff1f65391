import GraphSql.Query.Clause

/-!
# How deeply a query is nested

Expressions are compiled from the outside to the inside, so a run needs a stack as high as they are
nested (`Expr.depth`).  Brackets do not count, as they leave no trace in an expression; but operators
that group to the left do, and a chain of them is nested as deeply as it is long.
-/

namespace GraphSql.Query

namespace Expr

mutual

def depth : Expr → Nat
  | .property e _ => e.depth + 1
  | .not e => e.depth + 1
  | .negate e => e.depth + 1
  | .nullTest _ e => e.depth + 1
  | .binary _ left right => max left.depth right.depth + 1
  | .compare _ left right => max left.depth right.depth + 1
  | .list es => depthOfAll es + 1
  | .call _ _ es => depthOfAll es + 1
  | .map entries => depthOfEntries entries + 1
  | _ => 1

def depthOfAll : List Expr → Nat
  | [] => 0
  | e :: es => max e.depth (depthOfAll es)

def depthOfEntries : List (String × Expr) → Nat
  | [] => 0
  | (_, e) :: entries => max e.depth (depthOfEntries entries)

end

end Expr

/-! ## The expressions of a query -/

def Properties.exprs (properties : Option Properties) : List Expr :=
  (properties.getD []).map Prod.snd

def Pattern.exprs (p : Pattern) : List Expr :=
  (p.nodes.flatMap fun n => Properties.exprs n.properties) ++
    p.relationships.flatMap fun r => Properties.exprs r.properties

def Matching.exprs (m : Matching) : List Expr := m.patterns.flatMap Pattern.exprs ++ m.condition.toList

def Projection.exprs (p : Projection) : List Expr :=
  p.items.map ReturnItem.expr ++ p.orderBy.map SortKey.expr ++ p.skip.toList ++ p.limit.toList

def Action.exprs : Action → List Expr
  | .set items => items.map Assignment.value
  | .create p => p.exprs

/-- The actions are not looked at when there is no element. -/
def Loop.exprs (l : Loop) : List Expr :=
  match l.source with
  | .list [] => []
  | source => source :: l.actions.flatMap Action.exprs

def Clause.exprs : Clause → List Expr
  | .matching m => m.exprs
  | .passing w => w.toProjection.exprs ++ w.condition.toList
  | .returning p => p.exprs
  | .looping l => l.exprs

/-- How deeply the expressions of a query are nested. -/
def depth (q : Query) : Nat := Expr.depthOfAll (q.flatMap Clause.exprs)

end GraphSql.Query
