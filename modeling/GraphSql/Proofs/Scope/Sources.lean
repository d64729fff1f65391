import Mathlib.Data.List.Perm.Basic
import GraphSql.Proofs.Scope.Compile
import GraphSql.Proofs.Scope.Steps

/-!
# Every variable is introduced once

A scope keeps its variables twice: as bindings of nodes and edges, and as sources of the select
statement.  After each hop the two agree (`Scope.Introduces`): the sources are a rearrangement of the
bindings, table by table and name by name, and no name occurs twice.  Within a hop a new node is
bound before it is introduced, so the step from one scope to the next is described in two parts,
`addNode_bindings` for the bindings and `HopStep.bindings_perm` for both.
-/

namespace GraphSql

/-- What a name of a scope stands for: rows of a table, of which some columns can be referred to. -/
structure Binding where
  table : String
  name : String
  columns : List String

/-- The table and the name of a binding. -/
def Binding.entry (b : Binding) : String × String := (b.table, b.name)

/-- The table and the name of a source. -/
def Relational.Source.entry (x : Relational.Source) : String × String := (x.table, x.name)

/-- The columns that a scope hands out for a node.  The id stands for the node as a whole. -/
def NodeSource.columnNames : NodeSource → List String
  | .stored _ columns _ => Schema.nodeId :: columns.map Column.name
  | .derived r => r.columns.map ResultColumn.name

def BoundNode.binding (n : BoundNode) : Binding := ⟨n.source.table, n.name, n.source.columnNames⟩

/-- The columns that identify an edge stand for it as a whole. -/
def BoundEdge.binding (e : BoundEdge) : Binding :=
  ⟨Schema.edgesTable, e.name, (Schema.coreEdgeColumns ++ e.columns).map Column.name⟩

namespace Scope

open Query (NodePattern Hop Pattern)

variable {schema : Schema} {s s' : Scope} {n : BoundNode} {p : NodePattern} {isNew : Bool}
  {x : String}

/-- Everything that is bound. -/
def bindings (s : Scope) : List Binding :=
  s.nodes.map BoundNode.binding ++ s.edges.map BoundEdge.binding

/-- The names of everything that is bound. -/
def names (s : Scope) : List String := s.bindings.map Binding.name

theorem mem_names : x ∈ s.names ↔ (∃ n ∈ s.nodes, n.name = x) ∨ ∃ e ∈ s.edges, e.name = x := by
  simp [names, bindings, BoundNode.binding, BoundEdge.binding]

theorem not_mem_names (hn : s.node? x = none) (he : s.edge? x = none) : x ∉ s.names := by
  rw [mem_names]
  rintro (⟨n, hmem, rfl⟩ | ⟨e, hmem, rfl⟩)
  · simpa using List.find?_eq_none.mp hn n hmem
  · simpa using List.find?_eq_none.mp he e hmem

/-! ## Single steps -/

theorem nameFor_bindings {kind name : String} {variableName : Option String} {s₀ : Scope}
    (h : s.nameFor kind variableName = (name, s₀)) :
    s₀.nodes = s.nodes ∧ s₀.edges = s.edges ∧ s₀.sources = s.sources ∧
      s₀.relations = s.relations ∧ s₀.conditions = s.conditions := by
  rcases nameFor_cases h with ⟨-, rfl⟩ | ⟨-, -, rfl⟩
  · exact ⟨rfl, rfl, rfl, rfl, rfl⟩
  · exact ⟨rfl, rfl, rfl, rfl, rfl⟩

theorem nodes_putNode_of_none (h : s.node? n.name = none) : (s.putNode n).nodes = s.nodes ++ [n] :=
  putBy_of_find?_eq_none h

/-- **A node pattern leaves the bindings as they are or adds one with a new name.** -/
theorem addNode_bindings (h : addNode schema s p = .ok (s', n, isNew)) :
    s'.edges = s.edges ∧ s'.sources = s.sources ∧ s'.relations = s.relations ∧
      ((isNew = false ∧ s'.nodes.map BoundNode.binding = s.nodes.map BoundNode.binding ∧
          n.binding ∈ s.nodes.map BoundNode.binding) ∨
        (isNew = true ∧ s'.nodes = s.nodes ++ [n] ∧ n.name ∉ s.names)) := by
  obtain ⟨name, s₀, hname, hcase⟩ := addNode_cases h
  obtain ⟨hnodes, hedges, hsources, hrelations, -⟩ := nameFor_bindings hname
  rcases hcase with ⟨m, filters, rfl, hm, -, -, rfl, rfl⟩ |
    ⟨source, filters, rfl, hnone, hedge, -, -, rfl, rfl⟩
  · obtain ⟨hmem, rfl⟩ := mem_of_node? hm
    refine ⟨hedges, hsources, hrelations, .inl ⟨rfl, ?_, ?_⟩⟩
    · have hsame : BoundNode.binding { m with filters := m.filters ++ filters } = m.binding := rfl
      exact (map_putBy_of_find?_eq_some hsame hm).trans (by rw [hnodes])
    · exact List.mem_map.mpr ⟨m, hnodes ▸ hmem, rfl⟩
  · refine ⟨hedges, hsources, hrelations, .inr ⟨rfl, ?_, ?_⟩⟩
    · exact (nodes_putNode_of_none (n := { name, source, filters }) hnone).trans (by rw [hnodes])
    · have hfree := not_mem_names hnone hedge
      simpa [names, bindings, hnodes, hedges] using hfree

/-- A name is looked up in the relations of the scope and nowhere else. -/
theorem nodeSource_congr {t : Scope} (h : s.relations = t.relations) (name : String)
    (labels : List String) : nodeSource schema s name labels = nodeSource schema t name labels := by
  rw [nodeSource, nodeSource, h]

/-- A node behind a node pattern was there before, filters apart, or ranges over what its name stands
for. -/
theorem mem_nodes_of_addNode {x : BoundNode} (h : addNode schema s p = .ok (s', n, isNew))
    (hx : x ∈ s'.nodes) :
    (∃ m ∈ s.nodes, m.name = x.name ∧ m.source = x.source) ∨
      nodeSource schema s x.name p.labels = .ok x.source := by
  obtain ⟨name, s₀, hname, hcase⟩ := addNode_cases h
  obtain ⟨hnodes, -, -, hrelations, -⟩ := nameFor_bindings hname
  rcases hcase with ⟨m, filters, -, hm, -, -, rfl, rfl⟩ |
    ⟨source, filters, -, -, -, hsource, -, rfl, rfl⟩
  · rcases mem_of_mem_putBy hx with rfl | hx
    · exact .inl ⟨m, hnodes ▸ (mem_of_node? hm).1, rfl, rfl⟩
    · exact .inl ⟨x, hnodes ▸ hx, rfl, rfl⟩
  · rcases mem_of_mem_putBy hx with rfl | hx
    · exact .inr ((nodeSource_congr hrelations _ _).symm.trans hsource)
    · exact .inl ⟨x, hnodes ▸ hx, rfl, rfl⟩

/-! ## Hops -/

namespace HopStep

variable {source : String} {hop : Hop} (step : HopStep schema s source hop)

theorem name_not_mem : step.name ∉ s.names := by
  obtain ⟨hnodes, hedges, -, -, -⟩ := nameFor_bindings step.nameFor_eq
  simpa [names, bindings, hnodes, hedges] using not_mem_names step.node?_eq step.edge?_eq

/-- The edge is bound anew, before the node behind it. -/
theorem edges_putEdge {e : BoundEdge} (h : e.name = step.name) :
    (step.named.putEdge e).edges = s.edges ++ [e] := by
  obtain ⟨-, hedges, -, -, -⟩ := nameFor_bindings step.nameFor_eq
  rw [← hedges]
  refine putBy_of_find?_eq_none ?_
  rw [h]
  exact step.edge?_eq

theorem bound_edges : step.bound.edges =
    s.edges ++ [edgeOf hop.relationship step.name source "" step.columns step.types []] := by
  obtain ⟨hbound, -, -, -⟩ := addNode_bindings step.addNode_eq
  rw [hbound, step.edges_putEdge rfl]

/-- Bound again, the edge is in the same place. -/
theorem putBy_bound_edges {e : BoundEdge} (h : e.name = step.name) :
    putBy (fun d => d.name == e.name) e step.bound.edges = s.edges ++ [e] := by
  obtain ⟨hbound, -, -, -⟩ := addNode_bindings step.addNode_eq
  rw [hbound, ← step.edges_putEdge h, putEdge, putEdge, h]
  exact putBy_putBy (by simp [edgeOf]) _

theorem edges_eq : step.scope.edges = s.edges ++ [step.edge] := by
  rw [step.scope_edges]
  exact step.putBy_bound_edges (e := step.edge) rfl

theorem nodes_cases :
    (step.isNew = false ∧ step.scope.nodes.map BoundNode.binding = s.nodes.map BoundNode.binding ∧
        step.node.binding ∈ s.nodes.map BoundNode.binding) ∨
      (step.isNew = true ∧ step.scope.nodes = s.nodes ++ [step.node] ∧
        step.node.name ∉ s.names ∧ step.node.name ≠ step.name) := by
  obtain ⟨hnodes, -, -, -, -⟩ := nameFor_bindings step.nameFor_eq
  rw [step.scope_nodes, ← hnodes]
  obtain ⟨-, -, -, ⟨hnew, hmap, hmem⟩ | ⟨hnew, hadded, hfree⟩⟩ := addNode_bindings step.addNode_eq
  · exact .inl ⟨hnew, hmap, hmem⟩
  · refine .inr ⟨hnew, hadded, fun hmem => hfree ?_, fun he => hfree ?_⟩
    · rw [mem_names] at hmem ⊢
      refine hmem.imp (fun ⟨n, hn, hname⟩ => ⟨n, hnodes ▸ hn, hname⟩) fun ⟨e, he, hname⟩ =>
        ⟨e, ?_, hname⟩
      rw [step.edges_putEdge rfl]
      exact List.mem_append_left _ he
    · rw [mem_names]
      refine .inr ⟨edgeOf hop.relationship step.name source "" step.columns step.types [], ?_,
        he.symm⟩
      rw [step.edges_putEdge rfl]
      exact List.mem_append_right _ List.mem_cons_self

theorem sources_eq : step.scope.sources = s.sources ++ step.newSources := by
  obtain ⟨-, -, hsources, -, -⟩ := nameFor_bindings step.nameFor_eq
  obtain ⟨-, hbound, -, -⟩ := addNode_bindings step.addNode_eq
  rw [step.scope_sources, hbound]
  exact congrArg (· ++ step.newSources) hsources

/-- What the hop binds. -/
def newBindings : List Binding :=
  if step.isNew then [step.edge.binding, step.node.binding] else [step.edge.binding]

/-- What a hop binds is what it introduces. -/
theorem map_entry_newSources :
    step.newSources.map Relational.Source.entry = step.newBindings.map Binding.entry := by
  unfold newSources newBindings
  split
  · rfl
  · rfl

theorem bindings_perm : step.scope.bindings.Perm (s.bindings ++ step.newBindings) := by
  unfold newBindings
  rcases step.nodes_cases with ⟨hnew, hnodes, -⟩ | ⟨hnew, hnodes, -⟩
  · simp [bindings, step.edges_eq, hnodes, hnew]
  · have hmove : ([step.node.binding] ++ (s.edges.map BoundEdge.binding ++ [step.edge.binding])).Perm
        ((s.edges.map BoundEdge.binding ++ [step.edge.binding]) ++ [step.node.binding]) :=
      List.perm_append_comm
    have hall := hmove.append_left (s.nodes.map BoundNode.binding)
    simpa [bindings, step.edges_eq, hnodes, hnew] using hall

/-- The names that a hop binds are new and different. -/
theorem newNames_nodup (h : s.names.Nodup) :
    (s.names ++ step.newBindings.map Binding.name).Nodup := by
  have hname := step.name_not_mem
  have hedge : step.edge.binding.name = step.name := rfl
  have hnode : step.node.binding.name = step.node.name := rfl
  unfold newBindings
  rcases step.nodes_cases with ⟨hnew, -, -⟩ | ⟨hnew, -, hfree, hne⟩
  · refine List.nodup_append.mpr ⟨h, by simp [hnew], fun x hx y hy => ?_⟩
    obtain rfl : y = step.name := by simpa [hnew, hedge] using hy
    exact fun he => hname (he ▸ hx)
  · refine List.nodup_append.mpr ⟨h, by simpa [hnew, hedge, hnode] using hne.symm,
      fun x hx y hy => ?_⟩
    have hy : y = step.name ∨ y = step.node.name := by simpa [hnew, hedge, hnode] using hy
    rcases hy with rfl | rfl
    · exact fun he => hname (he ▸ hx)
    · exact fun he => hfree (he ▸ hx)

end HopStep

/-! ## Whole patterns -/

/-- The sources are a rearrangement of the bindings, and no name is bound twice. -/
structure Introduces (s : Scope) : Prop where
  perm : (s.sources.map Relational.Source.entry).Perm (s.bindings.map Binding.entry)
  nodup : s.names.Nodup

theorem Introduces.names_perm (h : s.Introduces) :
    (s.sources.map Relational.Source.name).Perm s.names := by
  simpa [names, Relational.Source.entry, Binding.entry, Function.comp_def] using
    h.perm.map Prod.snd

theorem Introduces.hop {source : String} {hop : Hop} (h : s.Introduces)
    (step : HopStep schema s source hop) : step.scope.Introduces where
  perm := by
    rw [step.sources_eq, List.map_append, step.map_entry_newSources]
    refine (h.perm.append_right _).trans ?_
    rw [← List.map_append]
    exact (step.bindings_perm.map Binding.entry).symm
  nodup := by
    refine ((step.bindings_perm.map Binding.name).nodup_iff).mpr ?_
    rw [List.map_append]
    exact step.newNames_nodup h.nodup

/-- The first node of a pattern is bound, and introduced when it is new. -/
theorem Introduces.first (h : s.Introduces) (hnode : addNode schema s p = .ok (s', n, isNew)) :
    (if isNew then s'.addSource ⟨n.source.table, n.name, .cross⟩ else s').Introduces := by
  obtain ⟨hedges, hsources, -, ⟨rfl, hmap, -⟩ | ⟨rfl, hnodes, hfree⟩⟩ := addNode_bindings hnode
  · have hbindings : s'.bindings = s.bindings := by rw [bindings, bindings, hmap, hedges]
    constructor
    · simpa [hsources, hbindings] using h.perm
    · simpa [names, hbindings] using h.nodup
  · have hmove : s'.bindings.Perm (s.bindings ++ [n.binding]) := by
      have hmove : ([n.binding] ++ s.edges.map BoundEdge.binding).Perm
          (s.edges.map BoundEdge.binding ++ [n.binding]) := List.perm_append_comm
      simpa [bindings, hnodes, hedges] using hmove.append_left (s.nodes.map BoundNode.binding)
    constructor
    · refine List.Perm.trans ?_ (hmove.map Binding.entry).symm
      simpa [addSource, hsources, Relational.Source.entry, Binding.entry, BoundNode.binding]
        using h.perm.append_right [n.binding.entry]
    · refine ((hmove.map Binding.name).nodup_iff).mpr ?_
      rw [List.map_append, List.nodup_append]
      refine ⟨h.nodup, by simp, fun x hx y hy => ?_⟩
      obtain rfl : y = n.name := by simpa [BoundNode.binding] using hy
      exact fun he => hfree (he ▸ hx)

/-- **Patterns introduce every variable once.** -/
theorem introduces_of_addPatterns {ps : List Pattern} {relations : List (String × Relation)}
    (h : addPatterns schema { relations } ps = .ok s) : s.Introduces := by
  have hstart : Introduces { relations } := ⟨List.Perm.nil, List.nodup_nil⟩
  exact addPatterns_induction (J := fun s _ => s.Introduces) (fun _ _ _ _ _ _ hs => hs.first)
    (fun _ _ _ _ _ _ step hs => hs.hop step) (fun _ _ hs => hs) hstart h

/-! ## Scopes without derived relations -/

/-- All node variables range over tables of the schema, and so will further ones. -/
structure Stored (s : Scope) : Prop where
  relations : s.relations = []
  nodes : ∀ n ∈ s.nodes, n.source.relation? = none

theorem Stored.derived_eq_nil (h : s.Stored) : s.derived = [] := by
  rw [derived, List.filterMap_eq_nil_iff]
  intro n hn
  rw [h.nodes n hn]
  rfl

/-- A property is a column of its variable. -/
theorem Stored.lookupProperty (h : s.Stored) {key : String} {r : Resolved}
    (hr : s.lookupProperty x key = .ok r) :
    ∃ c, r.expr = .column x c ∧ Text.sameName c key = true := by
  unfold Scope.lookupProperty at hr
  split at hr
  · split at hr
    · rename_i c hc
      cases hr
      unfold Column.find? at hc
      exact ⟨c.name, rfl, by simpa using List.find?_some hc⟩
    · cases hr
  · rw [h.derived_eq_nil] at hr
    cases hr

theorem relation?_of_nodeSource {name : String} {labels : List String} {source : NodeSource}
    (h : s.relations = []) (hs : nodeSource schema s name labels = .ok source) :
    source.relation? = none := by
  have hsource := sourceOf_nodeSource hs
  rw [h] at hsource
  cases hsource with
  | derived hr => cases hr
  | nodes _ => rfl
  | labelled _ => rfl

theorem Stored.addNode (hs : s.Stored) (h : Scope.addNode schema s p = .ok (s', n, isNew)) :
    s'.Stored := by
  obtain ⟨-, -, hrelations, -⟩ := addNode_bindings h
  refine ⟨hrelations.trans hs.relations, fun x hx => ?_⟩
  rcases mem_nodes_of_addNode h hx with ⟨m, hm, -, hsource⟩ | hsource
  · exact hsource ▸ hs.nodes m hm
  · exact relation?_of_nodeSource hs.relations hsource

/-- The scope in which the edge of a hop is bound. -/
theorem Stored.edge {source : String} {hop : Hop} (hs : s.Stored)
    (step : HopStep schema s source hop) : (step.named.putEdge
      (edgeOf hop.relationship step.name source "" step.columns step.types [])).Stored := by
  obtain ⟨hnodes, -, -, hrelations, -⟩ := nameFor_bindings step.nameFor_eq
  exact ⟨hrelations.trans hs.relations, fun n hn => hs.nodes n (hnodes ▸ hn)⟩

theorem Stored.scope {source : String} {hop : Hop} {step : HopStep schema s source hop}
    (hs : step.bound.Stored) : step.scope.Stored :=
  ⟨step.scope_relations.trans hs.relations, fun n hn => hs.nodes n (step.scope_nodes ▸ hn)⟩

end Scope

end GraphSql
