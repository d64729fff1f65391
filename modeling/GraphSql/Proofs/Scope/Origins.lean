import GraphSql.Proofs.Schema
import GraphSql.Proofs.Scope.Columns

/-!
# Where values come from

Output columns remember the table and column that their value was read from, and pass this on from
stage to stage.  What holds of the origins that the sources of a scope give rise to
(`Scope.Traces`) holds of the origins of all its output columns (`Scope.Traces.project`).  So every
origin is a table of the schema, in one stage and in two (`Plan.origins_ofClauses`).
-/

namespace GraphSql

namespace Scope

variable {O : Origin → Prop} {s : Scope}

/-- `O` holds of every origin that a scope can hand out: columns of the tables that its variables range
over, ids of nodes, rows of edges, and the origins of columns of derived relations. -/
structure Traces (O : Origin → Prop) (s : Scope) : Prop where
  stored {x table : String} {columns : List Column} : s.stored? x = some (table, columns) →
    ∀ c ∈ columns, O ⟨table, some c.name⟩
  node {x table : String} {columns : List Column} {labels : List String} {n : BoundNode} :
    s.node? x = some n → n.source = .stored table columns labels → O ⟨table, some Schema.nodeId⟩
  edge {x : String} {e : BoundEdge} : s.edge? x = some e → O ⟨Schema.edgesTable, none⟩
  derived : ∀ p ∈ s.derived, ∀ c ∈ p.2.columns, ∀ o ∈ c.origin, O o

theorem Traces.lookupProperty (h : s.Traces O) {x key : String} {r : Resolved}
    (hr : s.lookupProperty x key = .ok r) : ∀ o ∈ r.origin, O o := by
  rcases lookupProperty_eq_ok hr with ⟨table, columns, c, hstored, hc, rfl⟩ | ⟨p, hp, c, hc, rfl⟩
  · rintro o ⟨⟩
    exact h.stored hstored c (List.mem_of_find?_eq_some hc)
  · exact h.derived p hp c (mem_of_property? hc)

theorem Traces.lookupName (h : s.Traces O) {x : String} {r : Resolved}
    (hr : s.lookupName x = .ok r) : ∀ o ∈ r.origin, O o := by
  rcases lookupName_eq_ok hr with ⟨n, table, columns, labels, hn, hs, rfl⟩ | ⟨e, he, rfl⟩ |
    ⟨p, hp, c, hc, rfl⟩
  · rintro o ⟨⟩
    exact h.node hn hs
  · rintro o ⟨⟩
    exact h.edge he
  · exact h.derived p hp c (mem_of_key? hc)

theorem Traces.resolve (h : s.Traces O) {e : Query.Expr} {r : Resolved}
    (hr : s.resolve e = .ok r) : ∀ o ∈ r.origin, O o := by
  rcases operand_eq_ok hr with ⟨name, -, hr⟩ | ⟨name, key, -, hr⟩ | ⟨a, -, rfl⟩
  · exact h.lookupName hr
  · exact h.lookupProperty hr
  · simp

/-- The origin of an aggregate is that of its argument, if it has one. -/
theorem mem_of_aggregateOrigin {a : Aggregate} {argument : Option Resolved} {o : Origin}
    (h : o ∈ aggregateOrigin a argument) : ∃ r ∈ argument, o ∈ r.origin := by
  unfold aggregateOrigin at h
  split at h
  case h_4 => cases h
  all_goals
    rename_i r
    exact ⟨r, rfl, h⟩

theorem Traces.outputs (h : s.Traces O) {index : Nat} {item : Query.ReturnItem} {c : ResultColumn}
    (hc : Outputs s index item c) : ∀ o ∈ c.origin, O o := by
  cases hc with
  | named _ hc =>
    cases hc with
    | stored hstored hd =>
      rintro o ⟨⟩
      exact h.stored hstored _ hd
    | @whole p d hp hd => exact h.derived p hp d (mem_of_whole? hd)
    | @member p d hp hd => exact h.derived p hp d (List.mem_of_mem_filter hd)
  | property hitem hr => exact h.lookupProperty hr
  | aggregate _ _ hargument =>
    intro o ho
    obtain ⟨r, hr, ho⟩ := mem_of_aggregateOrigin ho
    obtain ⟨e, -, hr⟩ := Except.exists_of_mem_option_mapM hargument hr
    exact h.resolve hr o ho
  | call => simp
  | other => simp

/-- **Output columns have their values from where the scope has them.** -/
theorem Traces.project (h : s.Traces O) {items : List Query.ReturnItem} {p : Projected}
    (hp : s.project items = .ok p) : ∀ c ∈ p.columns, ∀ o ∈ c.origin, O o := by
  intro c hc
  obtain ⟨item, -, index, d, taken, hd, rfl⟩ := (exists_outputs_of_project hp).1 c hc
  have horigin := h.outputs hd
  exact horigin

/-! ## Tables of the schema -/

variable {schema : Schema} {relations : List (String × Relation)}

theorem nodeTable_of_nodeSource {x table : String} {labels known : List String}
    {columns : List Column} (h : nodeSource schema s x labels = .ok (.stored table columns known)) :
    schema.NodeTable table := by
  cases sourceOf_nodeSource h with
  | nodes _ => exact .inl rfl
  | labelled he => exact .inr ⟨_, Schema.mem_of_labelTable he, rfl⟩

theorem Ranged.nodeTable (h : s.Ranged schema relations) {x table : String} {columns : List Column}
    {labels : List String} {n : BoundNode} (hn : s.node? x = some n)
    (hs : n.source = .stored table columns labels) : schema.NodeTable table := by
  obtain ⟨wanted, hsource⟩ := h.nodes n (mem_of_node? hn).1
  rw [hs] at hsource
  exact nodeTable_of_nodeSource hsource

theorem Ranged.traces (h : s.Ranged schema relations)
    (hrelations : ∀ p ∈ relations, ∀ c ∈ p.2.columns, ∀ o ∈ c.origin,
      o.table ∈ schema.tableNames) :
    s.Traces fun o => o.table ∈ schema.tableNames where
  stored := by
    intro x table columns hstored c _
    show table ∈ schema.tableNames
    rcases stored?_cases hstored with ⟨n, labels, hn, hs⟩ | ⟨-, e, -, rfl, -⟩
    · exact (h.nodeTable hn hs).mem_tableNames
    · exact schema.edgesTable_mem_tableNames
  node hn hs := (h.nodeTable hn hs).mem_tableNames
  edge _ := schema.edgesTable_mem_tableNames
  derived := by
    intro p hp
    obtain ⟨n, hn, hname, hs⟩ := exists_node_of_mem_derived hp
    obtain ⟨labels, hsource⟩ := h.nodes n hn
    rw [hs, hname] at hsource
    exact hrelations p (mem_of_nodeSource_derived hsource)

end Scope

/-- **Every value comes from a table of the schema**, as long as those of the derived relations do. -/
theorem Plan.origins_ofClauses {schema : Schema} {relations : List (String × Relation)}
    {ms : List Query.Matching} {p : Query.Projection} {plan : Plan}
    (hrelations : ∀ p ∈ relations, ∀ c ∈ p.2.columns, ∀ o ∈ c.origin, o.table ∈ schema.tableNames)
    (h : ofClauses schema relations ms p = .ok plan) :
    ∀ c ∈ plan.projection, ∀ o ∈ c.origin, o.table ∈ schema.tableNames := by
  obtain ⟨s, projected, compiled, select, hs, hselect, rfl⟩ := ofClauses_eq_ok.mp h
  exact ((Scope.ranged_of_addPatterns hs).traces hrelations).project hselect.project_eq

end GraphSql
