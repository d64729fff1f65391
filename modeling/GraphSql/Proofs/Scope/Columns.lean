import GraphSql.Proofs.Relational.FreshName
import GraphSql.Proofs.Scope.Sources

/-!
# Columns behind names

A property of a variable is a column, either of a table of the schema or of the result of an earlier
stage.  Both kinds are traced back here: every node of a scope ranges over what `nodeSource` gives for
its name (`ranged_of_addPatterns`), and the output columns of a projection have different names,
letter case apart, in which the key of a property can still be found (`Plan.distinct_projection`).
-/

namespace GraphSql

namespace Scope

open Query (NodePattern Hop Pattern)

variable {schema : Schema} {relations : List (String × Relation)} {s s' : Scope}

/-! ## What nodes range over -/

/-- Every node ranges over what its name stands for among the given relations, or over the table of
some labels. -/
structure Ranged (schema : Schema) (relations : List (String × Relation)) (s : Scope) : Prop where
  relations_eq : s.relations = relations
  nodes : ∀ n ∈ s.nodes, ∃ labels, nodeSource schema { relations } n.name labels = .ok n.source

theorem Ranged.addNode {p : NodePattern} {n : BoundNode} {isNew : Bool}
    (hs : s.Ranged schema relations) (h : Scope.addNode schema s p = .ok (s', n, isNew)) :
    s'.Ranged schema relations := by
  obtain ⟨-, -, hrelations, -⟩ := addNode_bindings h
  refine ⟨hrelations.trans hs.relations_eq, fun x hx => ?_⟩
  rcases mem_nodes_of_addNode h hx with ⟨m, hm, hname, hsource⟩ | hsource
  · exact hname ▸ hsource ▸ hs.nodes m hm
  · rw [nodeSource_congr (t := { relations }) hs.relations_eq] at hsource
    exact ⟨p.labels, hsource⟩

theorem Ranged.hop {source : String} {hop : Hop} (hs : s.Ranged schema relations)
    (step : HopStep schema s source hop) : step.scope.Ranged schema relations := by
  obtain ⟨hnodes, -, -, hrelations, -⟩ := nameFor_bindings step.nameFor_eq
  have hedge : (step.named.putEdge
      (edgeOf hop.relationship step.name source "" step.columns step.types [])).Ranged schema
        relations :=
    ⟨hrelations.trans hs.relations_eq, fun n hn => hs.nodes n (hnodes ▸ hn)⟩
  have hbound := hedge.addNode step.addNode_eq
  exact ⟨step.scope_relations.trans hbound.relations_eq, fun n hn =>
    hbound.nodes n (step.scope_nodes ▸ hn)⟩

/-- **Nodes range over what their names stand for.** -/
theorem ranged_of_addPatterns {ps : List Pattern}
    (h : addPatterns schema { relations } ps = .ok s) : s.Ranged schema relations := by
  have hstart : Ranged schema relations { relations } := ⟨rfl, by simp⟩
  refine addPatterns_induction (J := fun s _ => s.Ranged schema relations) (fun p _ s s₁ n isNew hs hnode => ?_)
    (fun _ _ _ _ _ _ step hs => hs.hop step) (fun _ _ hs => hs) hstart h
  have hfirst := hs.addNode hnode
  cases isNew with
  | false => exact hfirst
  | true => exact ⟨hfirst.relations_eq, hfirst.nodes⟩

/-- A node over a derived relation has its name from one of the relations. -/
theorem mem_of_nodeSource_derived {name : String} {labels : List String} {r : Relation}
    (h : nodeSource schema { relations } name labels = .ok (.derived r)) : (name, r) ∈ relations := by
  cases sourceOf_nodeSource h with
  | derived hr => exact hr

/-- Bound nodes are told apart by their names. -/
theorem Introduces.node?_of_mem (h : s.Introduces) {n : BoundNode} (hn : n ∈ s.nodes) :
    s.node? n.name = some n := by
  have hnodup : (s.nodes.map BoundNode.name).Nodup := by
    have hall : (s.nodes.map BoundNode.name ++ s.edges.map BoundEdge.name).Nodup := by
      simpa [names, bindings, BoundNode.binding, BoundEdge.binding, Function.comp_def] using h.nodup
    exact (List.nodup_append.mp hall).1
  cases hfind : s.node? n.name with
  | none => simpa using List.find?_eq_none.mp hfind n hn
  | some m =>
    obtain ⟨hm, hname⟩ := mem_of_node? hfind
    rw [List.inj_on_of_nodup_map hnodup hm hn hname]

/-- Bound edges are told apart by their names, and no node goes by one of these. -/
theorem Introduces.edge?_of_mem (h : s.Introduces) {e : BoundEdge} (he : e ∈ s.edges) :
    s.node? e.name = none ∧ s.edge? e.name = some e := by
  have hall : (s.nodes.map BoundNode.name ++ s.edges.map BoundEdge.name).Nodup := by
    simpa [names, bindings, BoundNode.binding, BoundEdge.binding, Function.comp_def] using h.nodup
  obtain ⟨-, hnodup, hdisjoint⟩ := List.nodup_append.mp hall
  constructor
  · rw [node?, List.find?_eq_none]
    intro n hn hname
    exact hdisjoint n.name (List.mem_map_of_mem hn) e.name (List.mem_map_of_mem he)
      (by simpa using hname)
  · cases hfind : s.edge? e.name with
    | none => simpa using List.find?_eq_none.mp hfind e he
    | some d =>
      obtain ⟨hd, hname⟩ := mem_of_edge? hfind
      rw [List.inj_on_of_nodup_map hnodup hd he hname]

end Scope

/-! ## Output names -/

/-- The name that a column asks for when it has a key: the key, perhaps behind the name of what it is
a property of. -/
def ResultColumn.AsksForKey (c : ResultColumn) (name : String) : Prop :=
  ∀ k, c.key = some k → name = k ∨ ∃ x, c.scopeName = some x ∧ name = x ++ "_" ++ k

/-- Output columns with different names, letter case apart, in which keys can still be found. -/
structure DistinctColumns (cs : List ResultColumn) : Prop where
  names : (cs.map fun c => Text.lower c.name).Nodup
  keys : ∀ c ∈ cs, ∃ name taken, c.AsksForKey name ∧ c.name = Relational.freshName name taken

/-- Columns are told apart by their names. -/
theorem DistinctColumns.eq_of_name {cs : List ResultColumn} (h : DistinctColumns cs)
    {c d : ResultColumn} (hc : c ∈ cs) (hd : d ∈ cs) (he : c.name = d.name) : c = d :=
  List.inj_on_of_nodup_map h.names hc hd (congrArg Text.lower he)

namespace Scope

variable {s : Scope}

theorem nodup_freshColumns : ∀ (cs : List ResultColumn) {taken : List String},
    (taken.map Text.lower).Nodup →
      ((taken ++ (freshColumns taken cs).map ResultColumn.name).map Text.lower).Nodup
  | [], taken, h => by simpa [freshColumns] using h
  | c :: cs, taken, h => by
    have hfresh := Relational.lower_freshName_not_mem c.name taken
    have htaken : ((taken ++ [Relational.freshName c.name taken]).map Text.lower).Nodup := by
      rw [List.map_append, List.nodup_append]
      refine ⟨h, by simp, fun x hx y hy he => hfresh ?_⟩
      rw [List.mem_singleton.mp hy] at he
      exact he ▸ hx
    simpa [freshColumns] using nodup_freshColumns cs htaken

/-- An output asks for its key. -/
theorem Outputs.asksForKey {index : Nat} {item : Query.ReturnItem} {c : ResultColumn}
    (h : Outputs s index item c) : c.AsksForKey c.name := by
  intro k hk
  cases h with
  | @named x _ _ hc =>
    cases hc with
    | stored =>
      cases hk
      exact .inr ⟨item.asName.getD x, rfl, rfl⟩
    | whole => cases hk
    | @member _ d =>
      have hkey : d.key = some k := hk
      refine .inr ⟨item.asName.getD x, rfl, ?_⟩
      rw [hkey, Option.getD_some]
  | property =>
    -- only an item without a name of its own keeps its key
    cases hname : item.asName with
    | none =>
      simp only [hname, Option.isSome_none] at hk
      cases hk
      exact .inl rfl
    | some a =>
      simp only [hname, Option.isSome_some] at hk
      cases hk
  | _ => cases hk

/-- **The output columns of a projection have different names.** -/
theorem distinct_project {items : List Query.ReturnItem} {p : Projected}
    (h : s.project items = .ok p) : DistinctColumns p.columns := by
  refine Except.foldlM_induction (fun p : Projected => DistinctColumns p.columns) ?_
    ⟨by simp, by simp⟩ h
  intro p hp item hitem p' h
  obtain ⟨wanted, hwanted, h⟩ := Except.bind_eq_ok.mp h
  cases h
  constructor
  · have htaken : ((p.columns.map ResultColumn.name).map Text.lower).Nodup := by
      simpa [Function.comp_def] using hp.names
    simpa [Function.comp_def] using nodup_freshColumns wanted htaken
  · intro c hc
    rcases List.mem_append.mp hc with hc | hc
    · exact hp.keys c hc
    · obtain ⟨d, hd, taken, rfl⟩ := exists_of_mem_freshColumns hc
      exact ⟨d.name, taken, (outputs_of_itemColumns hwanted d hd).asksForKey, rfl⟩

end Scope

theorem Plan.distinct_projection {schema : Schema} {relations : List (String × Relation)}
    {ms : List Query.Matching} {p : Query.Projection} {plan : Plan}
    (h : Plan.ofClauses schema relations ms p = .ok plan) : DistinctColumns plan.projection := by
  obtain ⟨s, projected, compiled, select, -, hselect, rfl⟩ := ofClauses_eq_ok.mp h
  exact Scope.distinct_project hselect.project_eq

end GraphSql
