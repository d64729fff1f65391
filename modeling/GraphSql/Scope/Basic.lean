import GraphSql.Relation

/-!
# Scopes

While the patterns of a query are read, a `Scope` collects what their variables stand for: node
variables for rows of a node table or of a derived relation, relationship variables for rows of the
table of all edges.  It also collects the sources and conditions of the select statement.  Names and
properties are resolved against it.
-/

namespace GraphSql

/-- What a node variable ranges over. -/
inductive NodeSource where
  | stored (table : String) (columns : List Column) (labels : List String)
  | derived (relation : Relation)

namespace NodeSource

def table : NodeSource → String
  | stored table _ _ => table
  | derived relation => relation.name

def columns : NodeSource → List Column
  | stored _ columns _ => columns
  | derived _ => []

def labels : NodeSource → List String
  | stored _ _ labels => labels
  | derived _ => []

def relation? : NodeSource → Option Relation
  | stored _ _ _ => none
  | derived relation => some relation

end NodeSource

structure BoundNode where
  name : String
  source : NodeSource
  /-- The conditions that the patterns put on the properties of the node. -/
  filters : List Relational.Expr := []

structure BoundEdge where
  name : String
  /-- The names of the nodes before and after the relationship in its pattern. -/
  source : String
  target : String
  direction : Query.Direction
  /-- The allowed types in the spelling of the schema; none means any. -/
  types : List String
  columns : List Column
  filters : List Relational.Expr := []

structure Scope where
  /-- Derived relations that node variables can range over. -/
  relations : List (String × Relation) := []
  nodes : List BoundNode := []
  edges : List BoundEdge := []
  sources : List Relational.Source := []
  conditions : List Relational.Expr := []
  /-- How many anonymous patterns have been given a name. -/
  anonymous : Nat := 0

/-- An operand of an expression with what is known about its value. -/
structure Resolved where
  expr : Relational.Expr
  type : Option ColumnType := none
  isList : Bool := false
  origin : Option Origin := none

/-- A column of a derived relation that goes by the name `source`. -/
def ResultColumn.resolved (source : String) (c : ResultColumn) : Resolved where
  expr := .column source c.name
  type := c.type
  isList := c.isList
  origin := c.origin

namespace Scope

def node? (s : Scope) (name : String) : Option BoundNode :=
  s.nodes.find? fun n => n.name == name

def edge? (s : Scope) (name : String) : Option BoundEdge :=
  s.edges.find? fun e => e.name == name

/-- The derived relations that node variables range over, with the names of the variables. -/
def derived (s : Scope) : List (String × Relation) :=
  s.nodes.filterMap fun n => n.source.relation?.map fun r => (n.name, r)

/-- The table and columns of a variable that ranges over a table of the schema. -/
def stored? (s : Scope) (name : String) : Option (String × List Column) :=
  match s.node? name with
  | some n =>
    match n.source with
    | .stored table columns _ => some (table, columns)
    | .derived _ => none
  | none => (s.edge? name).map fun e => (Schema.edgesTable, e.columns)

/-- The column of a property of a variable. -/
def lookupProperty (s : Scope) (name key : String) : Except Error Resolved :=
  match s.stored? name with
  | some (table, columns) =>
    match Column.find? columns key with
    | some c =>
      .ok { expr := .column name c.name, type := some c.type, origin := some ⟨table, some c.name⟩ }
    | none => .error (.noColumnOf key name table)
  | none =>
    match s.derived.findSome? fun (source, r) => (r.property? name key).map (·.resolved source) with
    | some resolved => .ok resolved
    | none => .error (.unknownProperty name key)

/-- The columns that identify an edge. -/
def edgeRow (name : String) : Relational.Expr :=
  .row ([Schema.edgeSource, Schema.edgeTarget, Schema.edgeType].map (.column name))

/-- The value that identifies a derived name. -/
def lookupDerived (s : Scope) (name : String) : Except Error Resolved :=
  match s.derived.findSome? fun (source, r) => (r.key? name).map (·.resolved source) with
  | some resolved => .ok resolved
  | none => .error (.unknownVariable name)

/-- The value that identifies what a name stands for: the id of a node, the three columns of an edge,
or a column of a derived relation. -/
def lookupName (s : Scope) (name : String) : Except Error Resolved :=
  match s.node? name with
  | some n =>
    match n.source with
    | .stored table _ _ =>
      .ok { expr := .column name Schema.nodeId, type := some .bigint,
            origin := some ⟨table, some Schema.nodeId⟩ }
    | .derived _ => s.lookupDerived name
  | none =>
    match s.edge? name with
    | some _ => .ok { expr := edgeRow name, origin := some ⟨Schema.edgesTable, none⟩ }
    | none => s.lookupDerived name

end Scope

end GraphSql
