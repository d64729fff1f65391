import GraphSql.Scope.Expr

/-!
# Patterns in a scope

Reading a pattern adds its variables, sources and conditions to a scope.  A node variable that is
already bound is read again; a relationship variable must be new.  Patterns without a variable get a
name of their own.  The patterns of a query are read one after the other by `Scope.addPatterns`.
-/

namespace GraphSql.Scope

open Query (Direction NodePattern RelationshipPattern Hop Pattern Properties)

/-- The name of a pattern: its variable, or the next anonymous one of the given kind. -/
def nameFor (s : Scope) (kind : String) : Option String → String × Scope
  | some name => (name, s)
  | none => ("_" ++ kind ++ Numeral.natural s.anonymous, { s with anonymous := s.anonymous + 1 })

/-- Puts a node binding in the place of the one with the same name. -/
def putNode (s : Scope) (n : BoundNode) : Scope :=
  { s with nodes := putBy (fun m => m.name == n.name) n s.nodes }

/-- Puts an edge binding in the place of the one with the same name. -/
def putEdge (s : Scope) (e : BoundEdge) : Scope :=
  { s with edges := putBy (fun d => d.name == e.name) e s.edges }

def addConditions (s : Scope) (cs : List Relational.Expr) : Scope :=
  { s with conditions := s.conditions ++ cs }

def addSource (s : Scope) (source : Relational.Source) : Scope :=
  { s with sources := s.sources ++ [source] }

/-- The condition that a property has the given value. -/
def propertyCondition (s : Scope) (name : String) (entry : String × Query.Expr) :
    Except Error Relational.Expr := do
  let column ← s.lookupProperty name entry.1
  let value ← typed entry.2 column.type (s.compile entry.2)
  return .compare .eq column.expr value

/-- The conditions that the properties of a pattern make. -/
def propertyConditions (s : Scope) (name : String) (properties : Option Properties) :
    Except Error (List Relational.Expr) :=
  (properties.getD []).mapM (s.propertyCondition name)

/-- Whether two lists of labels mean the same set. -/
def sameLabels (xs ys : List String) : Bool :=
  Schema.sameMembers (xs.map Text.lower) (ys.map Text.lower)

/-- What a new node variable ranges over. -/
def nodeSource (schema : Schema) (s : Scope) (name : String) (labels : List String) :
    Except Error NodeSource :=
  match s.relations.lookup name with
  | some relation => if labels.isEmpty then .ok (.derived relation) else .error (.labelledDerived name)
  | none =>
    if labels.isEmpty then .ok (.stored Schema.nodesTable schema.nodeColumns [])
    else do
      let entry ← schema.labelTable (.names labels)
      return .stored entry.table entry.columns labels

/-- Adds a node pattern: the scope, the binding of its variable, and whether that is new. -/
def addNode (schema : Schema) (s : Scope) (p : NodePattern) :
    Except Error (Scope × BoundNode × Bool) := do
  let (name, s) := s.nameFor "n" p.name
  match s.node? name with
  | some n =>
    if !p.labels.isEmpty && !sameLabels p.labels n.source.labels then
      throw (.labelsDiffer name n.source.labels p.labels)
    let filters ← s.propertyConditions name p.properties
    let n := { n with filters := n.filters ++ filters }
    return ((s.putNode n).addConditions filters, n, false)
  | none =>
    if (s.edge? name).isSome then
      throw (.boundToRelationship name)
    let source ← nodeSource schema s name p.labels
    let n : BoundNode := { name, source }
    let s := s.putNode n
    let filters ← s.propertyConditions name p.properties
    let n := { n with filters }
    return ((s.putNode n).addConditions filters, n, true)

/-- The columns of an edge variable and its types in the spelling of the schema. -/
def edgeTypes (schema : Schema) (types : List String) : Except Error (List Column × List String) :=
  if types.isEmpty then .ok (schema.edgeColumns, [])
  else do
    let entries ← types.mapM schema.typeTable
    return (Column.merge (Schema.coreEdgeColumns :: entries.map Schema.TypeTable.columns),
      entries.map Schema.TypeTable.name)

/-- The two conditions that join an edge to the node before it and the node after it to the edge, from
the keys of the two nodes. -/
def joinConditions (direction : Direction) (edge : String) (source target : Relational.Expr) :
    Relational.Expr × Relational.Expr :=
  let start := Relational.Expr.column edge Schema.edgeSource
  let finish := Relational.Expr.column edge Schema.edgeTarget
  match direction with
  | .outgoing => (.compare .eq start source, .compare .eq target finish)
  | .incoming => (.compare .eq finish source, .compare .eq target start)
  | .both =>
    (.inList source [start, finish],
     .compare .eq target (.ifElse (.compare .eq start source) finish start))

/-- The condition that an edge has one of the given types. -/
def typeConditions (edge : String) : List String → List Relational.Expr
  | [] => []
  | [type] => [.compare .eq (.column edge Schema.edgeType) (.literal (.text type))]
  | types => [.inList (.column edge Schema.edgeType) (types.map fun t => .literal (.text t))]

/-- Adds the sources of a relationship and the node that it leads to.  When the node was bound before,
the edge is joined to both nodes at once. -/
def addJoin (s : Scope) (edge : String) (conditions : Relational.Expr × Relational.Expr)
    (target : BoundNode) (isNew : Bool) : Scope :=
  if isNew then
    (s.addSource ⟨Schema.edgesTable, edge, .on [conditions.1]⟩).addSource
      ⟨target.source.table, target.name, .on [conditions.2]⟩
  else
    s.addSource ⟨Schema.edgesTable, edge, .on [conditions.1, conditions.2]⟩

/-- Adds a hop from the node `source`: the scope and the name of the node that it leads to.  The edge
is bound before that node, so that the node can refer to it. -/
def addHop (schema : Schema) (s : Scope) (source : String) (hop : Hop) :
    Except Error (Scope × String) := do
  let rel := hop.relationship
  let (name, s) := s.nameFor "e" rel.name
  if (s.node? name).isSome || (s.edge? name).isSome then
    throw (.alreadyBound name)
  let (columns, types) ← edgeTypes schema rel.types
  let edge : BoundEdge :=
    { name, source, target := "", direction := rel.direction, types, columns }
  let (s, target, isNew) ← addNode schema (s.putEdge edge) hop.node
  let sourceKey ← s.lookupProperty source Schema.nodeId
  let targetKey ← s.lookupProperty target.name Schema.nodeId
  let s := s.addJoin name (joinConditions rel.direction name sourceKey.expr targetKey.expr) target isNew
  let edge := { edge with target := target.name }
  let s := (s.addConditions (typeConditions name types)).putEdge edge
  let filters ← s.propertyConditions name rel.properties
  let edge := { edge with filters := typeConditions name types ++ filters }
  return ((s.putEdge edge).addConditions filters, target.name)

/-- Adds the hops of a pattern one after the other. -/
def addHops (schema : Schema) (s : Scope) (source : String) : List Hop → Except Error Scope
  | [] => .ok s
  | hop :: hops => do
    let (s, target) ← addHop schema s source hop
    addHops schema s target hops

def addPattern (schema : Schema) (s : Scope) (p : Pattern) : Except Error Scope := do
  let (s, first, isNew) ← addNode schema s p.first
  let s := if isNew then s.addSource ⟨first.source.table, first.name, .cross⟩ else s
  addHops schema s first.name p.hops

/-- Adds patterns one after the other. -/
def addPatterns (schema : Schema) (s : Scope) (ps : List Pattern) : Except Error Scope :=
  ps.foldlM (addPattern schema) s

end GraphSql.Scope
