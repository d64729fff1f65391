import GraphSql.Proofs.Keyed
import GraphSql.Proofs.Outcome
import GraphSql.Scope.Pattern

/-!
# What reading a pattern does to a scope

A node pattern is either read again or bound anew (`addNode_cases`), and a hop goes through a fixed
sequence of steps, which `HopStep` lists with their results.  Everything about scopes that were built
from patterns is derived from these two facts, most of it by `addPatterns_induction`.
-/

namespace GraphSql.Scope

open Query (NodePattern RelationshipPattern Hop Pattern)
open Relational (Expr)

variable {schema : Schema} {s s' : Scope}

/-- A binding that is replaced leaves no trace. -/
theorem putNode_putNode {m n : BoundNode} (h : m.name = n.name) :
    (s.putNode m).putNode n = s.putNode n := by
  unfold putNode
  rw [h]
  congr 1
  exact putBy_putBy (by simp [h]) _

theorem nameFor_cases {kind name : String} {variableName : Option String} {s₀ : Scope}
    (h : s.nameFor kind variableName = (name, s₀)) :
    (variableName = some name ∧ s₀ = s) ∨
      (variableName = none ∧ name = "_" ++ kind ++ Numeral.natural s.anonymous ∧
        s₀ = { s with anonymous := s.anonymous + 1 }) := by
  cases variableName with
  | some x =>
    cases h
    exact .inl ⟨rfl, rfl⟩
  | none =>
    cases h
    exact .inr ⟨rfl, rfl, rfl⟩

/-- What a node with the given name and labels ranges over: a derived relation of its name, or the table
of its labels. -/
inductive SourceOf (schema : Schema) (relations : List (String × Relation)) (name : String)
    (labels : List String) : NodeSource → Prop
  | derived {r : Relation} (hr : (name, r) ∈ relations) :
      SourceOf schema relations name labels (.derived r)
  | nodes (hlabels : labels = []) :
      SourceOf schema relations name labels (.stored Schema.nodesTable schema.nodeColumns [])
  | labelled {e : Schema.LabelTable} (he : schema.labelTable (.names labels) = .ok e) :
      SourceOf schema relations name labels (.stored e.table e.columns labels)

theorem sourceOf_nodeSource {name : String} {labels : List String} {source : NodeSource}
    (h : nodeSource schema s name labels = .ok source) :
    SourceOf schema s.relations name labels source := by
  unfold nodeSource at h
  split at h
  · rename_i r hlookup
    split at h
    · cases h
      obtain ⟨before, after, he, -⟩ := List.lookup_eq_some_iff.mp hlookup
      exact .derived (by simp [he])
    · cases h
  · split at h
    · rename_i hlabels
      cases h
      exact .nodes (List.isEmpty_iff.mp hlabels)
    · obtain ⟨e, he, h⟩ := Except.bind_eq_ok.mp h
      cases h
      exact .labelled he

/-- The columns and the types of an edge: all columns of edges without types, those of its types
otherwise. -/
theorem edgeTypes_cases {types spelled : List String} {columns : List Column}
    (h : edgeTypes schema types = .ok (columns, spelled)) :
    (types = [] ∧ columns = schema.edgeColumns ∧ spelled = []) ∨
      types ≠ [] ∧ ∃ entries, types.mapM schema.typeTable = .ok entries ∧
        columns = Column.merge (Schema.coreEdgeColumns :: entries.map Schema.TypeTable.columns) ∧
        spelled = entries.map Schema.TypeTable.name := by
  unfold edgeTypes at h
  split at h
  · rename_i hempty
    cases h
    exact .inl ⟨List.isEmpty_iff.mp hempty, rfl, rfl⟩
  · rename_i hsome
    obtain ⟨entries, hentries, h⟩ := Except.bind_eq_ok.mp h
    cases h
    exact .inr ⟨fun hnil => hsome (List.isEmpty_iff.mpr hnil), entries, hentries, rfl, rfl⟩

/-- **A node pattern is read again or bound anew.** -/
theorem addNode_cases {p : NodePattern} {n : BoundNode} {isNew : Bool}
    (h : addNode schema s p = .ok (s', n, isNew)) :
    ∃ name s₀, s.nameFor "n" p.name = (name, s₀) ∧
      ((∃ m filters, isNew = false ∧ s₀.node? name = some m ∧
          (p.labels = [] ∨ sameLabels p.labels m.source.labels = true) ∧
          s₀.propertyConditions name p.properties = .ok filters ∧
          n = { m with filters := m.filters ++ filters } ∧
          s' = (s₀.putNode n).addConditions filters) ∨
        ∃ source filters, isNew = true ∧ s₀.node? name = none ∧ s₀.edge? name = none ∧
          nodeSource schema s₀ name p.labels = .ok source ∧
          (s₀.putNode { name, source }).propertyConditions name p.properties = .ok filters ∧
          n = { name, source, filters } ∧ s' = (s₀.putNode n).addConditions filters) := by
  unfold addNode at h
  rcases hname : s.nameFor "n" p.name with ⟨name, s₀⟩
  refine ⟨name, s₀, rfl, ?_⟩
  rw [hname] at h
  dsimp only at h
  split at h
  · rename_i m hm
    split at h
    · cases h
    · rename_i hlabels
      obtain ⟨filters, hfilters, h⟩ := Except.bind_eq_ok.mp h
      cases h
      refine .inl ⟨m, filters, rfl, hm, ?_, hfilters, rfl, rfl⟩
      simpa [or_iff_not_imp_left] using hlabels
  · rename_i hm
    split at h
    · cases h
    · rename_i hedge
      obtain ⟨source, hsource, h⟩ := Except.bind_eq_ok.mp h
      obtain ⟨filters, hfilters, h⟩ := Except.bind_eq_ok.mp h
      cases h
      refine .inr ⟨source, filters, rfl, hm, by simpa using hedge, hsource, hfilters, rfl, ?_⟩
      exact congrArg (addConditions · filters) (putNode_putNode rfl)

/-! ## Hops -/

/-- The binding of a relationship pattern. -/
def edgeOf (rel : RelationshipPattern) (name source target : String) (columns : List Column)
    (types : List String) (filters : List Expr) : BoundEdge :=
  { name, source, target, direction := rel.direction, types, columns, filters }

theorem nodes_addJoin {edge : String} {conditions : Expr × Expr}
    {target : BoundNode} {isNew : Bool} :
    (s.addJoin edge conditions target isNew).nodes = s.nodes := by
  unfold addJoin
  split <;> rfl

theorem edges_addJoin {edge : String} {conditions : Expr × Expr}
    {target : BoundNode} {isNew : Bool} :
    (s.addJoin edge conditions target isNew).edges = s.edges := by
  unfold addJoin
  split <;> rfl

/-- What adding a hop to the scope `s` goes through. -/
structure HopStep (schema : Schema) (s : Scope) (source : String) (hop : Hop) where
  name : String
  columns : List Column
  types : List String
  node : BoundNode
  isNew : Bool
  sourceKey : Resolved
  targetKey : Resolved
  filters : List Expr
  /-- The scope in which the edge has its name. -/
  named : Scope
  /-- The scope in which the edge and the node behind it are bound. -/
  bound : Scope
  nameFor_eq : s.nameFor "e" hop.relationship.name = (name, named)
  node?_eq : named.node? name = none
  edge?_eq : named.edge? name = none
  edgeTypes_eq : edgeTypes schema hop.relationship.types = .ok (columns, types)
  addNode_eq : addNode schema
    (named.putEdge (edgeOf hop.relationship name source "" columns types [])) hop.node =
      .ok (bound, node, isNew)
  sourceKey_eq : bound.lookupProperty source Schema.nodeId = .ok sourceKey
  targetKey_eq : bound.lookupProperty node.name Schema.nodeId = .ok targetKey
  filters_eq : (((bound.addJoin name
      (joinConditions hop.relationship.direction name sourceKey.expr targetKey.expr) node
      isNew).addConditions (typeConditions name types)).putEdge
        (edgeOf hop.relationship name source node.name columns types [])).propertyConditions name
      hop.relationship.properties = .ok filters

namespace HopStep

variable {source : String} {hop : Hop} (step : HopStep schema s source hop)

/-- The binding of the edge. -/
def edge : BoundEdge :=
  edgeOf hop.relationship step.name source step.node.name step.columns step.types
    (typeConditions step.name step.types ++ step.filters)

/-- The conditions that join the edge and the node behind it. -/
def conditions : Expr × Expr :=
  joinConditions hop.relationship.direction step.name step.sourceKey.expr step.targetKey.expr

/-- The sources that the hop introduces. -/
def newSources : List Relational.Source :=
  if step.isNew then
    [⟨Schema.edgesTable, step.name, .on [step.conditions.1]⟩,
      ⟨step.node.source.table, step.node.name, .on [step.conditions.2]⟩]
  else [⟨Schema.edgesTable, step.name, .on [step.conditions.1, step.conditions.2]⟩]

/-- The scope behind the hop. -/
def scope : Scope :=
  (((step.bound.addJoin step.name step.conditions step.node step.isNew).addConditions
    (typeConditions step.name step.types)).putEdge step.edge).addConditions step.filters

theorem scope_nodes : step.scope.nodes = step.bound.nodes := nodes_addJoin

theorem scope_edges : step.scope.edges =
    putBy (fun d => d.name == step.name) step.edge step.bound.edges := by
  unfold scope addJoin
  split <;> rfl

theorem scope_relations : step.scope.relations = step.bound.relations := by
  unfold scope addJoin
  split <;> rfl

theorem scope_sources : step.scope.sources = step.bound.sources ++ step.newSources := by
  unfold scope addJoin newSources
  split
  · exact List.append_assoc _ _ _
  · rfl

theorem scope_conditions : step.scope.conditions =
    step.bound.conditions ++ typeConditions step.name step.types ++ step.filters := by
  unfold scope addJoin
  split <;> rfl

theorem scope_anonymous : step.scope.anonymous = step.bound.anonymous := by
  unfold scope addJoin
  split <;> rfl

end HopStep

theorem putEdge_putEdge {d e : BoundEdge} (h : d.name = e.name) :
    (s.putEdge d).putEdge e = s.putEdge e := by
  unfold putEdge
  rw [h]
  congr 1
  exact putBy_putBy (by simp [h]) _

/-- **A hop goes through its steps.** -/
theorem exists_hopStep {source target : String} {hop : Hop}
    (h : addHop schema s source hop = .ok (s', target)) :
    ∃ step : HopStep schema s source hop, s' = step.scope ∧ target = step.node.name := by
  unfold addHop at h
  rcases hname : s.nameFor "e" hop.relationship.name with ⟨name, named⟩
  dsimp only at h
  rw [hname] at h
  dsimp only at h
  split at h
  · cases h
  · rename_i hfree
    obtain ⟨⟨columns, types⟩, htypes, h⟩ := Except.bind_eq_ok.mp h
    obtain ⟨⟨bound, node, isNew⟩, hnode, h⟩ := Except.bind_eq_ok.mp h
    obtain ⟨sourceKey, hsource, h⟩ := Except.bind_eq_ok.mp h
    obtain ⟨targetKey, htarget, h⟩ := Except.bind_eq_ok.mp h
    obtain ⟨filters, hfilters, h⟩ := Except.bind_eq_ok.mp h
    cases h
    simp only [Bool.or_eq_true, Option.isSome_iff_ne_none, ne_eq, not_or, not_not] at hfree
    refine ⟨{ name, columns, types, node, isNew, sourceKey, targetKey, filters, named, bound
              nameFor_eq := hname, node?_eq := hfree.1, edge?_eq := hfree.2
              edgeTypes_eq := htypes, addNode_eq := hnode, sourceKey_eq := hsource
              targetKey_eq := htarget, filters_eq := hfilters }, ?_, rfl⟩
    exact congrArg (addConditions · filters) (putEdge_putEdge rfl)

/-! ## Patterns -/

theorem addHops_cons {source : String} {hop : Hop} {hops : List Hop}
    (h : addHops schema s source (hop :: hops) = .ok s') :
    ∃ s₁ target, addHop schema s source hop = .ok (s₁, target) ∧
      addHops schema s₁ target hops = .ok s' := by
  rw [addHops] at h
  obtain ⟨⟨s₁, target⟩, h₁, h⟩ := Except.bind_eq_ok.mp h
  exact ⟨s₁, target, h₁, h⟩

theorem addPattern_cases {p : Pattern} (h : addPattern schema s p = .ok s') :
    ∃ s₁ n isNew, addNode schema s p.first = .ok (s₁, n, isNew) ∧
      addHops schema (if isNew then s₁.addSource ⟨n.source.table, n.name, .cross⟩ else s₁) n.name
        p.hops = .ok s' := by
  unfold addPattern at h
  obtain ⟨⟨s₁, n, isNew⟩, h₁, h⟩ := Except.bind_eq_ok.mp h
  exact ⟨s₁, n, isNew, h₁, h⟩

theorem addHops_induction {J : Scope → String → Prop} {hops : List Hop}
    (hhop : ∀ hop ∈ hops, ∀ {s : Scope} {source : String} (step : HopStep schema s source hop),
      J s source → J step.scope step.node.name) :
    ∀ {s : Scope} {source : String}, J s source → addHops schema s source hops = .ok s' →
      ∃ target, J s' target := by
  induction hops with
  | nil =>
    intro s source hs h
    cases h
    exact ⟨source, hs⟩
  | cons hop hops ih =>
    intro s source hs h
    obtain ⟨s₁, target, h₁, h⟩ := addHops_cons h
    obtain ⟨step, rfl, rfl⟩ := exists_hopStep h₁
    exact ih (fun hop' hmem => hhop hop' (List.mem_cons_of_mem hop hmem))
      (hhop hop List.mem_cons_self step hs) h

/-- **What first nodes and hops keep is kept by patterns.**  Between two hops, `J` also tells about the
name that the pattern has come to. -/
theorem addPatterns_induction {I : Scope → Prop} {J : Scope → String → Prop} {ps : List Pattern}
    (hfirst : ∀ p ∈ ps, ∀ {s s₁ : Scope} {n : BoundNode} {isNew : Bool}, I s →
      addNode schema s p.first = .ok (s₁, n, isNew) →
        J (if isNew then s₁.addSource ⟨n.source.table, n.name, .cross⟩ else s₁) n.name)
    (hhop : ∀ p ∈ ps, ∀ hop ∈ p.hops, ∀ {s : Scope} {source : String}
      (step : HopStep schema s source hop), J s source → J step.scope step.node.name)
    (hlast : ∀ s x, J s x → I s) (hs : I s) (h : addPatterns schema s ps = .ok s') : I s' := by
  refine Except.foldlM_induction I (fun t ht p hp t' hpattern => ?_) hs h
  obtain ⟨s₁, n, isNew, hnode, hhops⟩ := addPattern_cases hpattern
  obtain ⟨x, hx⟩ := addHops_induction (hhop p hp) (hfirst p hp ht hnode) hhops
  exact hlast t' x hx

end GraphSql.Scope
