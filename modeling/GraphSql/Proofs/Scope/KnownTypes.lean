import GraphSql.Proofs.Scope.ColumnTypes
import GraphSql.Proofs.Scope.Origins

/-!
# Types and origins

An output column can know the type of its values and the column of a table that they were read from.
Both are passed on side by side, and they fit together (`Schema.Known`): with a column of a node table for
an origin, the type is that of this column, and without an origin it is not known or that of a number that
was counted or added up.  `Scope.KnowsTypes.project` shows it for the output columns of a scope from what the
scope records, and `Plan.known_ofClauses` for plans.
-/

namespace GraphSql

variable {columns : List Column} {table : String}

namespace Schema

/-- A table of nodes and its columns: that of all nodes, or that of some labels. -/
def NodeColumns (s : Schema) (table : String) (columns : List Column) : Prop :=
  table = nodesTable ∧ columns = s.nodeColumns ∨
    ∃ l e, s.labelTable l = .ok e ∧ table = e.table ∧ columns = e.columns

/-- What can be known of values: nothing, or that they were counted or added up; or else that they were
read from a column of a node table, whose type they have, or from edges. -/
inductive Known (s : Schema) : Option ColumnType → Option Origin → Prop
  | unknown : Known s none none
  | number : Known s (some .bigint) none
  | column {table : String} {columns : List Column} {d : Column} :
      s.NodeColumns table columns → d ∈ columns → Known s (some d.type) (some ⟨table, some d.name⟩)
  | edge {type : Option ColumnType} {column : Option String} :
      Known s type (some ⟨edgesTable, column⟩)

theorem Merged.nodeColumns {s : Schema} (h : s.Merged) (hcolumns : s.NodeColumns table columns) :
    Column.Distinct columns ∧ idColumn ∈ columns := by
  rcases hcolumns with ⟨-, rfl⟩ | ⟨l, e, he, -, rfl⟩
  · exact h.nodes
  · exact h.labels e (mem_of_labelTable he)

end Schema

namespace Scope

variable {schema : Schema} {s : Scope} {x : String} {r : Resolved}

/-- The node variables of a scope range over node tables, and what its derived relations know is
right. -/
structure KnowsTypes (schema : Schema) (s : Scope) : Prop where
  nodes {x table : String} {columns : List Column} {labels : List String} {n : BoundNode} :
    s.node? x = some n → n.source = .stored table columns labels →
      schema.NodeColumns table columns ∧ Schema.idColumn ∈ columns
  derived : ∀ p ∈ s.derived, ∀ c ∈ p.2.columns, schema.Known c.type c.origin

theorem KnowsTypes.stored (h : s.KnowsTypes schema) (hx : s.stored? x = some (table, columns))
    {c : Column} (hc : c ∈ columns) : schema.Known (some c.type) (some ⟨table, some c.name⟩) := by
  rcases stored?_cases hx with ⟨n, labels, hn, hsource⟩ | ⟨-, e, -, rfl, -⟩
  · exact .column (h.nodes hn hsource).1 hc
  · exact .edge

theorem KnowsTypes.lookupProperty (h : s.KnowsTypes schema) {key : String}
    (hr : s.lookupProperty x key = .ok r) : schema.Known r.type r.origin := by
  rcases lookupProperty_eq_ok hr with ⟨table, columns, c, hstored, hc, rfl⟩ | ⟨p, hp, c, hc, rfl⟩
  · exact h.stored hstored (List.mem_of_find?_eq_some hc)
  · exact h.derived p hp c (mem_of_property? hc)

theorem KnowsTypes.lookupName (h : s.KnowsTypes schema) (hr : s.lookupName x = .ok r) :
    schema.Known r.type r.origin := by
  rcases lookupName_eq_ok hr with ⟨n, table, columns, labels, hn, hs, rfl⟩ | ⟨e, he, rfl⟩ |
    ⟨p, hp, c, hc, rfl⟩
  · obtain ⟨hcolumns, hid⟩ := h.nodes hn hs
    exact .column (d := Schema.idColumn) hcolumns hid
  · exact .edge
  · exact h.derived p hp c (mem_of_key? hc)

theorem KnowsTypes.resolve (h : s.KnowsTypes schema) {e : Query.Expr} (hr : s.resolve e = .ok r) :
    schema.Known r.type r.origin := by
  rcases operand_eq_ok hr with ⟨name, -, hr⟩ | ⟨name, key, -, hr⟩ | ⟨a, -, rfl⟩
  · exact h.lookupName hr
  · exact h.lookupProperty hr
  · exact .unknown

/-- An aggregate knows of its value what is known of its argument, or it makes a number or something
that nothing is known of. -/
theorem known_aggregate {a : Aggregate} {argument : Option Resolved}
    (h : ∀ r ∈ argument, schema.Known r.type r.origin) :
    schema.Known (aggregateType a argument) (aggregateOrigin a argument) := by
  cases argument with
  | none =>
    cases a with
    | count => exact .number
    | _ => exact .unknown
  | some r =>
    have hr := h r rfl
    cases a with
    | count => exact .number
    | sum =>
      show schema.Known (if r.type.any ColumnType.isNumeric then some .bigint else none) none
      split
      · exact .number
      · exact .unknown
    | collect => exact hr
    | min => exact hr
    | max => exact hr
    | avg => exact .unknown

theorem KnowsTypes.outputs (h : s.KnowsTypes schema) {index : Nat} {item : Query.ReturnItem}
    {c : ResultColumn} (hc : Outputs s index item c) : schema.Known c.type c.origin := by
  cases hc with
  | named _ hc =>
    cases hc with
    | stored hstored hd => exact h.stored hstored hd
    | @whole p d hp hd => exact h.derived p hp d (mem_of_whole? hd)
    | @member p d hp hd => exact h.derived p hp d (List.mem_of_mem_filter hd)
  | property hitem hr => exact h.lookupProperty hr
  | aggregate _ _ hargument =>
    refine known_aggregate fun r hr => ?_
    obtain ⟨e, -, hr⟩ := Except.exists_of_mem_option_mapM hargument hr
    exact h.resolve hr
  | call => exact .unknown
  | other => exact .unknown

/-- **Output columns know the types of what they were read from.** -/
theorem KnowsTypes.project (h : s.KnowsTypes schema) {items : List Query.ReturnItem} {p : Projected}
    (hp : s.project items = .ok p) : ∀ c ∈ p.columns, schema.Known c.type c.origin := by
  intro c hc
  obtain ⟨item, -, index, d, taken, hd, rfl⟩ := (exists_outputs_of_project hp).1 c hc
  have hknown := h.outputs hd
  exact hknown

/-! ## Patterns -/

variable {relations : List (String × Relation)}

theorem nodeColumns_of_nodeSource {labels known : List String}
    (h : nodeSource schema s x labels = .ok (.stored table columns known)) :
    schema.NodeColumns table columns := by
  cases sourceOf_nodeSource h with
  | nodes _ => exact .inl ⟨rfl, rfl⟩
  | labelled he => exact .inr ⟨_, _, he, rfl, rfl⟩

theorem Ranged.knowsTypes (h : s.Ranged schema relations) (hschema : schema.Merged)
    (hrelations : ∀ p ∈ relations, ∀ c ∈ p.2.columns, schema.Known c.type c.origin) :
    s.KnowsTypes schema where
  nodes := by
    intro x table columns labels n hn hs
    obtain ⟨wanted, hsource⟩ := h.nodes n (mem_of_node? hn).1
    rw [hs] at hsource
    have hcolumns := nodeColumns_of_nodeSource hsource
    exact ⟨hcolumns, (hschema.nodeColumns hcolumns).2⟩
  derived := by
    intro p hp
    obtain ⟨n, hn, hname, hs⟩ := exists_node_of_mem_derived hp
    obtain ⟨labels, hsource⟩ := h.nodes n hn
    rw [hs, hname] at hsource
    exact hrelations p (mem_of_nodeSource_derived hsource)

end Scope

/-- **What a plan knows of its output columns is right**, as long as this holds of the derived
relations. -/
theorem Plan.known_ofClauses {schema : Schema} {relations : List (String × Relation)}
    {ms : List Query.Matching} {p : Query.Projection} {plan : Plan} (hschema : schema.Merged)
    (hrelations : ∀ p ∈ relations, ∀ c ∈ p.2.columns, schema.Known c.type c.origin)
    (h : ofClauses schema relations ms p = .ok plan) :
    ∀ c ∈ plan.projection, schema.Known c.type c.origin := by
  obtain ⟨s, projected, compiled, select, hs, hselect, rfl⟩ := ofClauses_eq_ok.mp h
  exact ((Scope.ranged_of_addPatterns hs).knowsTypes hschema hrelations).project hselect.project_eq

end GraphSql
