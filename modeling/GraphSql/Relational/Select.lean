import GraphSql.Query.Clause
import GraphSql.Relational.Expr

/-!
# Select statements

A select statement as data, and its text.  The first source is read on its own; each further one is
joined to those before it, without a condition or on a list of conditions that must all hold.
-/

namespace GraphSql.Relational

/-- How a source is joined to those before it. -/
inductive Join where
  | cross
  | on (conditions : List Expr)

structure Source where
  table : String
  name : String
  join : Join := .cross

structure SelectItem where
  expr : Expr
  name : String

structure OrderItem where
  expr : Expr
  order : Query.SortOrder

structure Select where
  distinct : Bool := false
  items : List SelectItem
  sources : List Source
  conditions : List Expr := []
  groupBy : List Expr := []
  orderBy : List OrderItem := []
  offset : Option Expr := none
  limit : Option Expr := none

def SelectItem.render (i : SelectItem) : String := asItem i.name i.expr.render

def OrderItem.render (i : OrderItem) : String :=
  i.expr.render ++ match i.order with
    | .ascending => " ASC"
    | .descending => " DESC"

/-- Conditions that must all hold. -/
def renderConditions (cs : List Expr) : String := Text.join " AND " (cs.map Expr.render)

/-- A source behind others. -/
def Source.renderJoin (s : Source) : String :=
  match s.join with
  | .cross => "CROSS JOIN " ++ s.table ++ " " ++ s.name
  | .on cs => "JOIN " ++ s.table ++ " " ++ s.name ++ " ON " ++ renderConditions cs

def renderSources : List Source → List String
  | [] => []
  | s :: ss => ("FROM " ++ s.table ++ " " ++ s.name) :: ss.map Source.renderJoin

/-- A part of a statement that is left out when there is nothing to put into it. -/
def renderPart (keyword sep : String) : List String → List String
  | [] => []
  | es => [keyword ++ " " ++ Text.join sep es]

namespace Select

/-- The statement without its semicolon. -/
def body (s : Select) : String :=
  let head := "SELECT " ++ (if s.distinct then "DISTINCT " else "") ++
    Text.join ", " (s.items.map SelectItem.render)
  Text.join " " (head :: renderSources s.sources ++
    renderPart "WHERE" " AND " (s.conditions.map Expr.render) ++
    renderPart "GROUP BY" ", " (s.groupBy.map Expr.render) ++
    renderPart "ORDER BY" ", " (s.orderBy.map OrderItem.render) ++
    renderPart "OFFSET" "" (s.offset.toList.map Expr.render) ++
    renderPart "LIMIT" "" (s.limit.toList.map Expr.render))

def render (s : Select) : String := s.body ++ ";"

end Select

end GraphSql.Relational
