import GraphSql.Scope.Expr

/-!
# Projections

Each item of a projection becomes one or more output columns.  A bare variable becomes a column for
each of its properties, or the one column of a derived relation that holds its value; everything else
becomes a single column.  Output names are made unique from left to right.
-/

namespace GraphSql.Scope

open Query (ReturnItem SortKey)
open Relational (freshName)

/-- Gives each of the columns, whose names are only wanted, a name that is free behind the taken
ones. -/
def freshColumns (taken : List String) : List ResultColumn → List ResultColumn
  | [] => []
  | c :: cs =>
    let name := freshName c.name taken
    { c with name } :: freshColumns (taken ++ [name]) cs

/-- The columns of a variable that ranges over a table of the schema. -/
def storedColumns (name scope table : String) (columns : List Column) : List ResultColumn :=
  columns.map fun c =>
    { name := scope ++ "_" ++ c.name, expr := .column name c.name, scopeName := some scope,
      key := some c.name, type := some c.type, origin := some ⟨table, some c.name⟩ }

/-- The columns of a derived relation for a name: the one with its whole value, or those of its
properties. -/
def derivedColumns (name scope source : String) (r : Relation) : Option (List ResultColumn) :=
  match r.whole? name with
  | some c =>
    some [{ name := scope, expr := .column source c.name, scopeName := some scope, type := c.type,
            isList := c.isList, origin := c.origin }]
  | none =>
    match r.properties name with
    | [] => none
    | cs => some (cs.map fun c =>
      { name := scope ++ "_" ++ c.key.getD "", expr := .column source c.name, scopeName := some scope,
        key := c.key, type := c.type, isList := c.isList, origin := c.origin })

/-- The columns of a bare variable, with the names they want. -/
def variableColumns (s : Scope) (name scope : String) : Except Error (List ResultColumn) :=
  match s.stored? name with
  | some (table, columns) => .ok (storedColumns name scope table columns)
  | none =>
    match s.derived.findSome? fun (source, r) => derivedColumns name scope source r with
    | some cs => .ok cs
    | none => .error (.unknownVariable name)

/-- What is known about the value of an aggregate from what is known about its argument. -/
def aggregateType (a : Aggregate) (argument : Option Resolved) : Option ColumnType :=
  match a, argument with
  | .count, _ => some .bigint
  | .collect, some r | .min, some r | .max, some r => r.type
  | .sum, some r => if r.type.any ColumnType.isNumeric then some .bigint else none
  | _, _ => none

@[inherit_doc aggregateType]
def aggregateOrigin (a : Aggregate) (argument : Option Resolved) : Option Origin :=
  match a, argument with
  | .collect, some r | .min, some r | .max, some r => r.origin
  | _, _ => none

/-- The column of a call of an aggregate. -/
def aggregateColumn (s : Scope) (a : Aggregate) (call : Query.Expr) (arguments : List Query.Expr)
    (asName : Option String) : Except Error ResultColumn := do
  let argument ← arguments.head?.mapM s.resolve
  let expr ← s.compile call
  return { name := asName.getD a.name, expr, scopeName := asName, type := aggregateType a argument,
           aggregate := some a, isList := a = .collect, origin := aggregateOrigin a argument }

/-- The column of any other expression. -/
def plainColumn (s : Scope) (e : Query.Expr) (name : String) (asName : Option String) :
    Except Error ResultColumn := do
  return { name := asName.getD name, expr := ← s.compile e, scopeName := asName }

/-- The column of a call. -/
def callColumn (s : Scope) (function : String) (call : Query.Expr) (arguments : List Query.Expr)
    (asName : Option String) : Except Error ResultColumn :=
  match Aggregate.ofName? function with
  | some a => s.aggregateColumn a call arguments asName
  | none => s.plainColumn call (Text.lower function) asName

/-- The columns of an item, with the names they want; `index` is the place of the item. -/
def itemColumns (s : Scope) (index : Nat) (item : ReturnItem) :
    Except Error (List ResultColumn) :=
  match item.expr with
  | .var name => s.variableColumns name (item.asName.getD name)
  | .property (.var name) key => do
    let r ← s.lookupProperty name key
    return [{ name := item.asName.getD key, expr := r.expr, scopeName := some (item.asName.getD name),
              key := if item.asName.isSome then none else some key, type := r.type,
              isList := r.isList, origin := r.origin }]
  | .call f distinct args => do
    return [← s.callColumn f (.call f distinct args) args item.asName]
  | .callStar f => do return [← s.callColumn f (.callStar f) [] item.asName]
  | e => do return [← s.plainColumn e ("expr" ++ Numeral.natural index) item.asName]

/-- The output columns of a projection, and the expressions of those that come from items without
aggregates. -/
structure Projected where
  columns : List ResultColumn := []
  keys : List Relational.Expr := []

/-- Adds the columns of an item; its place comes with it. -/
def addItem (s : Scope) (p : Projected) (item : ReturnItem × Nat) : Except Error Projected := do
  let wanted ← s.itemColumns item.2 item.1
  let columns := freshColumns (p.columns.map ResultColumn.name) wanted
  return { columns := p.columns ++ columns
           keys := if item.1.expr.aggregates then p.keys
             else p.keys ++ columns.map ResultColumn.expr }

/-- The output columns of a list of items. -/
def project (s : Scope) (items : List ReturnItem) : Except Error Projected :=
  items.zipIdx.foldlM s.addItem {}

/-- The output column that holds the whole value of a bare name. -/
def wholeOutput? (columns : List ResultColumn) : Query.Expr → Option ResultColumn
  | .var name => Relation.whole? ⟨"", columns⟩ name
  | _ => none

/-- A sort key: a name that the projection gives to a whole value is sorted by the output column of
that name. -/
def sortKey (s : Scope) (columns : List ResultColumn) (key : SortKey) :
    Except Error Relational.OrderItem := do
  match wholeOutput? columns key.expr with
  | some c => return ⟨.output c.name, key.order⟩
  | none => return ⟨← s.compile key.expr, key.order⟩

end GraphSql.Scope
