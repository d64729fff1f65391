import GraphSql.Proofs.Schema
import GraphSql.Proofs.Scope.Compile
import GraphSql.Proofs.Scope.Origins
import GraphSql.Proofs.Scope.Steps
import GraphSql.Proofs.Words

/-!
# Scopes of words

When the names in the schema and in the patterns are words, so are all names that a scope collects
(`Scope.WordyNames`), and with them the names in the select statement that is made from it
(`Plan.wordyNames_ofClauses`).
-/

namespace GraphSql

variable {name x : String} {p : Plan}

/-- The names of columns are words. -/
def WordyColumns (cs : List Column) : Prop := ∀ c ∈ cs, Wordy c.name

/-- The names of the tables that are read and of all columns are words. -/
structure Schema.WordyNames (s : Schema) : Prop where
  labels : ∀ e ∈ s.labelTables, Wordy e.table ∧ WordyColumns e.columns
  types : ∀ e ∈ s.typeTables, WordyColumns e.columns
  nodes : WordyColumns s.nodeColumns
  edges : WordyColumns s.edgeColumns

/-- The table and the column that a value was read from are words. -/
structure Origin.WordyNames (o : Origin) : Prop where
  table : Wordy o.table
  column : ∀ x ∈ o.column, Wordy x

/-- The name of a column, its key, from which further names are made, and its origin are words. -/
structure ResultColumn.WordyNames (c : ResultColumn) : Prop where
  name : Wordy c.name
  key : ∀ k ∈ c.key, Wordy k
  origin : ∀ o ∈ c.origin, o.WordyNames

structure Relation.WordyNames (r : Relation) : Prop where
  name : Wordy r.name
  columns : ∀ c ∈ r.columns, c.WordyNames

def NodeSource.WordyNames : NodeSource → Prop
  | .stored table columns _ => Wordy table ∧ WordyColumns columns
  | .derived relation => relation.WordyNames

theorem NodeSource.WordyNames.table {n : NodeSource} (h : n.WordyNames) : Wordy n.table := by
  cases n with
  | stored table columns labels => exact h.1
  | derived relation => exact h.name

/-- All names that a scope has collected are words. -/
structure Scope.WordyNames (s : Scope) : Prop where
  relations : ∀ p ∈ s.relations, p.2.WordyNames
  nodes : ∀ n ∈ s.nodes, Wordy n.name ∧ n.source.WordyNames
  edges : ∀ e ∈ s.edges, Wordy e.name ∧ WordyColumns e.columns
  sources : ∀ x ∈ s.sources, x.All WordyRef Wordy
  conditions : ∀ e ∈ s.conditions, e.All WordyRef Wordy

theorem wordy_coreEdge :
    Wordy Schema.edgeSource ∧ Wordy Schema.edgeTarget ∧ Wordy Schema.edgeType := by decide

namespace Scope

open Query (NodePattern Hop Pattern)

variable {schema : Schema} {s s' : Scope}

theorem WordyNames.stored (h : s.WordyNames) {table : String} {columns : List Column}
    (hstored : s.stored? x = some (table, columns)) :
    Wordy x ∧ Wordy table ∧ WordyColumns columns := by
  rcases stored?_cases hstored with ⟨n, labels, hn, hs⟩ | ⟨-, e, he, rfl, rfl⟩
  · obtain ⟨hmem, rfl⟩ := mem_of_node? hn
    obtain ⟨hname, hsource⟩ := h.nodes n hmem
    rw [hs] at hsource
    exact ⟨hname, hsource⟩
  · obtain ⟨hmem, rfl⟩ := mem_of_edge? he
    exact ⟨(h.edges e hmem).1, by decide, (h.edges e hmem).2⟩

theorem WordyNames.resolves (h : s.WordyNames) : s.Resolves WordyRef where
  stored := by
    intro x table columns hstored c hc
    obtain ⟨hname, -, hcolumns⟩ := h.stored hstored
    exact ⟨hname, hcolumns c hc⟩
  node := by
    intro x _ _ _ n hn _
    obtain ⟨hmem, rfl⟩ := mem_of_node? hn
    exact ⟨(h.nodes n hmem).1, by decide⟩
  edge := by
    intro x e he
    obtain ⟨hmem, rfl⟩ := mem_of_edge? he
    have hname := (h.edges e hmem).1
    obtain ⟨hstart, hfinish, htype⟩ := wordy_coreEdge
    exact ⟨⟨hname, hstart⟩, ⟨hname, hfinish⟩, hname, htype⟩
  derived := by
    intro p hp c hc
    obtain ⟨n, hmem, hn, hs⟩ := exists_node_of_mem_derived hp
    obtain ⟨hname, hsource⟩ := h.nodes n hmem
    rw [hs] at hsource
    exact ⟨hn ▸ hname, (hsource.columns c hc).name⟩

theorem wordyNames_derived (h : s.WordyNames) :
    ∀ p ∈ s.derived, p.2.WordyNames := by
  intro p hp
  obtain ⟨n, hmem, -, hs⟩ := exists_node_of_mem_derived hp
  have hsource := (h.nodes n hmem).2
  rw [hs] at hsource
  exact hsource

theorem WordyNames.traces (h : s.WordyNames) : s.Traces Origin.WordyNames where
  stored := by
    intro x table columns hstored c hc
    obtain ⟨-, htable, hcolumns⟩ := h.stored hstored
    exact ⟨htable, by simpa using hcolumns c hc⟩
  node := by
    intro x table columns labels n hn hs
    have hsource := (h.nodes n (mem_of_node? hn).1).2
    rw [hs] at hsource
    refine ⟨hsource.1, ?_⟩
    rintro x ⟨⟩
    decide
  edge _ := ⟨by decide, by decide⟩
  derived p hp c hc := ((wordyNames_derived h p hp).columns c hc).origin

/-! ## Steps -/

theorem WordyNames.nameFor {kind : String} {variableName : Option String} {s₀ : Scope}
    (h : s.WordyNames) (hk : Wordy kind) (hv : ∀ x ∈ variableName, Wordy x)
    (he : s.nameFor kind variableName = (name, s₀)) : Wordy name ∧ s₀.WordyNames := by
  rcases nameFor_cases he with ⟨rfl, rfl⟩ | ⟨rfl, rfl, rfl⟩
  · exact ⟨hv name rfl, h⟩
  · exact ⟨wordy_append (wordy_append (by decide) hk) (wordy_natural _),
      h.relations, h.nodes, h.edges, h.sources, h.conditions⟩

theorem WordyNames.putNode {n : BoundNode} (h : s.WordyNames) (hn : Wordy n.name)
    (hs : n.source.WordyNames) : (s.putNode n).WordyNames where
  relations := h.relations
  nodes m hm := (mem_of_mem_putBy hm).elim (fun he => he ▸ ⟨hn, hs⟩) (h.nodes m)
  edges := h.edges
  sources := h.sources
  conditions := h.conditions

theorem WordyNames.putEdge {e : BoundEdge} (h : s.WordyNames) (he : Wordy e.name)
    (hc : WordyColumns e.columns) : (s.putEdge e).WordyNames where
  relations := h.relations
  nodes := h.nodes
  edges d hd := (mem_of_mem_putBy hd).elim (fun hde => hde ▸ ⟨he, hc⟩) (h.edges d)
  sources := h.sources
  conditions := h.conditions

theorem WordyNames.addConditions {cs : List Relational.Expr} (h : s.WordyNames)
    (hcs : ∀ c ∈ cs, c.All WordyRef Wordy) : (s.addConditions cs).WordyNames where
  relations := h.relations
  nodes := h.nodes
  edges := h.edges
  sources := h.sources
  conditions e he := (List.mem_append.mp he).elim (h.conditions e) (hcs e)

theorem WordyNames.addSource {x : Relational.Source} (h : s.WordyNames)
    (hx : x.All WordyRef Wordy) : (s.addSource x).WordyNames where
  relations := h.relations
  nodes := h.nodes
  edges := h.edges
  sources y hy := (List.mem_append.mp hy).elim (h.sources y) fun hy =>
    List.mem_singleton.mp hy ▸ hx
  conditions := h.conditions

theorem WordyNames.addJoin {edge : String} {on : Relational.Expr × Relational.Expr}
    {node : BoundNode} (h : s.WordyNames) (he : Wordy edge) (hn : Wordy node.name)
    (hs : node.source.WordyNames) (h₁ : on.1.All WordyRef Wordy) (h₂ : on.2.All WordyRef Wordy)
    (isNew : Bool) : (s.addJoin edge on node isNew).WordyNames := by
  have hedges : Wordy Schema.edgesTable := by decide
  unfold Scope.addJoin
  split
  · refine (h.addSource ⟨hedges, he, ?_⟩).addSource ⟨hs.table, hn, ?_⟩
    · simpa [Relational.Join.conditions] using h₁
    · simpa [Relational.Join.conditions] using h₂
  · refine h.addSource ⟨hedges, he, ?_⟩
    simpa [Relational.Join.conditions] using ⟨h₁, h₂⟩

theorem wordy_of_nodeSource {labels : List String} {source : NodeSource}
    (hschema : schema.WordyNames) (h : s.WordyNames)
    (hn : nodeSource schema s name labels = .ok source) : source.WordyNames := by
  cases sourceOf_nodeSource hn with
  | derived hr => exact h.relations (name, _) hr
  | nodes _ => exact ⟨by decide, hschema.nodes⟩
  | labelled he => exact hschema.labels _ (Schema.mem_of_labelTable he)

theorem wordy_of_edgeTypes {types names : List String} {columns : List Column}
    (hschema : schema.WordyNames) (h : edgeTypes schema types = .ok (columns, names)) :
    WordyColumns columns := by
  rcases edgeTypes_cases h with ⟨-, rfl, -⟩ | ⟨-, entries, hentries, rfl, -⟩
  · exact hschema.edges
  · intro c hc
    obtain ⟨cs, hcs, hc⟩ := Schema.exists_of_mem_merge hc
    rcases List.mem_cons.mp hcs with rfl | hcs
    · have hcore : ∀ c ∈ Schema.coreEdgeColumns, Wordy c.name := by decide
      exact hcore c hc
    · obtain ⟨entry, hentry, rfl⟩ := List.mem_map.mp hcs
      obtain ⟨type, -, htype⟩ := Except.exists_of_mem_mapM hentries hentry
      exact hschema.types entry (Schema.mem_of_typeTable htype) c hc

section

variable (hschema : schema.WordyNames)

include hschema

theorem wordyNames_addNode {p : NodePattern} {n : BoundNode} {isNew : Bool} (h : s.WordyNames)
    (hp : p.Named Wordy) (ha : addNode schema s p = .ok (s', n, isNew)) :
    s'.WordyNames ∧ Wordy n.name ∧ n.source.WordyNames := by
  obtain ⟨name, s₀, hname, hcase⟩ := addNode_cases ha
  obtain ⟨hn, h₀⟩ := h.nameFor (by decide) hp.name hname
  rcases hcase with ⟨m, filters, -, hm, -, hfilters, rfl, rfl⟩ |
    ⟨source, filters, -, -, -, hsource, hfilters, rfl, rfl⟩
  · obtain ⟨hmem, rfl⟩ := mem_of_node? hm
    obtain ⟨hn, hsource⟩ := h₀.nodes m hmem
    have hall := propertyConditions_all h₀.resolves (fun _ => wordy_functionName) hp.properties hfilters
    exact ⟨(h₀.putNode (n := { m with filters := m.filters ++ filters }) hn hsource).addConditions
      hall, hn, hsource⟩
  · have hsource := wordy_of_nodeSource hschema h₀ hsource
    have hbound := h₀.putNode (n := { name, source }) hn hsource
    have hall := propertyConditions_all hbound.resolves (fun _ => wordy_functionName) hp.properties hfilters
    exact ⟨(h₀.putNode hn hsource).addConditions hall, hn, hsource⟩

theorem wordyNames_hop {source : String} {hop : Hop} (h : s.WordyNames) (hp : hop.Named Wordy)
    (step : HopStep schema s source hop) : step.scope.WordyNames := by
  obtain ⟨hname, hnamed⟩ := h.nameFor (by decide) hp.relationship.name step.nameFor_eq
  have hcolumns := wordy_of_edgeTypes hschema step.edgeTypes_eq
  obtain ⟨hbound, hnode, hsource⟩ := wordyNames_addNode hschema
    (hnamed.putEdge (e := edgeOf _ _ _ _ _ _ _) hname hcolumns) hp.node step.addNode_eq
  obtain ⟨hstart, hfinish, htype⟩ := wordy_coreEdge
  have hkey : step.sourceKey.expr.All WordyRef Wordy :=
    lookupProperty_all hbound.resolves step.sourceKey_eq
  have hon := joinConditions_fst_all hop.relationship.direction ⟨hname, hstart⟩ ⟨hname, hfinish⟩ hkey
    step.targetKey.expr
  have hon' := joinConditions_snd_all hop.relationship.direction ⟨hname, hstart⟩ ⟨hname, hfinish⟩
    hkey (lookupProperty_all hbound.resolves step.targetKey_eq)
  have hjoined := hbound.addJoin hname hnode hsource hon hon' step.isNew
  have htyped := hjoined.addConditions (typeConditions_all ⟨hname, htype⟩ step.types)
  have hfilters := propertyConditions_all
    (htyped.putEdge (e := edgeOf _ _ _ _ _ _ _) hname hcolumns).resolves
    (fun _ => wordy_functionName) hp.relationship.properties step.filters_eq
  exact (htyped.putEdge (e := step.edge) hname hcolumns).addConditions hfilters

theorem wordyNames_addPatterns {ps : List Pattern} (h : s.WordyNames)
    (hp : ∀ p ∈ ps, p.Named Wordy) (ha : addPatterns schema s ps = .ok s') : s'.WordyNames := by
  refine addPatterns_induction (J := fun s _ => s.WordyNames) (fun p hmem s s₁ n isNew h hnode => ?_)
    (fun p hmem hop hhop _ _ step h => wordyNames_hop hschema h ((hp p hmem).hops hop hhop) step)
    (fun _ _ h => h) h ha
  obtain ⟨h₁, hname, hsource⟩ := wordyNames_addNode hschema h (hp p hmem).first hnode
  split
  · exact h₁.addSource ⟨hsource.table, hname, by simp [Relational.Join.conditions]⟩
  · exact h₁

end

/-! ## Output columns -/

theorem wordy_getD {o : Option String} (ho : ∀ y ∈ o, Wordy y) (hx : Wordy x) :
    Wordy (o.getD x) := by
  cases o with
  | none => exact hx
  | some y => exact ho y rfl

theorem Outputs.wordyNames {index : Nat} {item : Query.ReturnItem} {c : ResultColumn}
    (h : s.WordyNames) (hi : item.Named Wordy) (hc : Outputs s index item c) : c.WordyNames := by
  have hexpr := hi.expr
  have horigin := h.traces.outputs hc
  cases hc with
  | named hitem hc =>
    rw [hitem] at hexpr
    have hname := wordy_getD hi.asName hexpr
    cases hc with
    | stored hstored hd =>
      obtain ⟨-, -, hcolumns⟩ := h.stored hstored
      have hcolumn := hcolumns _ hd
      exact ⟨wordy_append (wordy_append hname (by decide)) hcolumn, by simpa using hcolumn, horigin⟩
    | whole hp hd => exact ⟨hname, by simp, horigin⟩
    | member hp hd =>
      have hkey := (wordyNames_derived h _ hp).columns _ (List.mem_of_mem_filter hd) |>.key
      exact ⟨wordy_append (wordy_append hname (by decide)) (wordy_getD hkey (by decide)), hkey,
        horigin⟩
  | property hitem hr =>
    rw [hitem] at hexpr
    refine ⟨wordy_getD hi.asName hexpr.2, fun k hk => ?_, horigin⟩
    dsimp only at hk
    split at hk
    · simp at hk
    · cases hk
      exact hexpr.2
  | @aggregate _ a =>
    refine ⟨wordy_getD hi.asName ?_, by simp, horigin⟩
    cases a <;> decide
  | @call f _ _ hcall =>
    have hf : Wordy f := by
      rcases hcall with ⟨distinct, hitem⟩ | ⟨hitem, -⟩
      · rw [hitem] at hexpr
        exact hexpr.1
      · rw [hitem] at hexpr
        exact hexpr
    exact ⟨wordy_getD hi.asName (wordy_lower hf), by simp, horigin⟩
  | other =>
    exact ⟨wordy_getD hi.asName (wordy_append (by decide) (wordy_natural index)), by simp, horigin⟩

theorem wordyNames_project {items : List Query.ReturnItem}
    {p : Projected} (h : s.WordyNames) (hi : ∀ i ∈ items, i.Named Wordy)
    (hp : s.project items = .ok p) :
    ∀ c ∈ p.columns, c.WordyNames := by
  intro c hc
  obtain ⟨item, hitem, index, d, taken, hd, rfl⟩ := (exists_outputs_of_project hp).1 c hc
  have hnames := hd.wordyNames h (hi item hitem)
  exact ⟨wordy_freshName hnames.name taken, hnames.key, hnames.origin⟩

end Scope

/-! ## Plans -/

/-- The names in the select statement of a plan, of its output columns and of its nodes are words. -/
structure Plan.WordyNames (p : Plan) : Prop where
  select : p.select.All WordyRef Wordy
  projection : ∀ c ∈ p.projection, c.WordyNames
  nodes : ∀ n ∈ p.nodes, Wordy n.name

theorem Plan.WordyNames.relation (h : p.WordyNames) (hn : Wordy name) :
    (p.relation name).WordyNames :=
  ⟨hn, h.projection⟩

theorem Plan.WordyNames.firstName (h : p.WordyNames) : Wordy p.firstName := by
  unfold Plan.firstName
  split
  · rename_i n ns hn
    exact h.nodes n (by simp [hn])
  · decide

theorem Plan.WordyNames.output (h : p.WordyNames) {c : ResultColumn} (hc : p.output? x = some c) :
    Wordy c.name :=
  (h.projection c (Scope.mem_of_key? hc)).name

/-- **The plan of clauses whose names are words has only words for names.** -/
theorem Plan.wordyNames_ofClauses {schema : Schema} {relations : List (String × Relation)}
    {ms : List Query.Matching} {p : Query.Projection} {plan : Plan} (hschema : schema.WordyNames)
    (hrelations : ∀ r ∈ relations, r.2.WordyNames) (hms : ∀ m ∈ ms, m.Named Wordy) (hp : p.Named Wordy)
    (h : Plan.ofClauses schema relations ms p = .ok plan) : plan.WordyNames := by
  obtain ⟨s, projected, compiled, select, hs, hselect, rfl⟩ := ofClauses_eq_ok.mp h
  have hstart : Scope.WordyNames { relations } :=
    ⟨hrelations, by simp, by simp, by simp, by simp⟩
  have hpatterns : ∀ p ∈ ms.flatMap Query.Matching.patterns, p.Named Wordy := by
    intro p hp
    obtain ⟨m, hm, hp⟩ := List.mem_flatMap.mp hp
    exact (hms m hm).patterns p hp
  have hconditions : ∀ e ∈ ms.filterMap Query.Matching.condition, e.Named Wordy := by
    intro e he
    obtain ⟨m, hm, he⟩ := List.mem_filterMap.mp he
    exact (hms m hm).condition e he
  have hscope := Scope.wordyNames_addPatterns hschema hstart hpatterns hs
  have hcolumns := Scope.wordyNames_project hscope hp.items hselect.project_eq
  refine ⟨?_, hcolumns, fun n hn => (hscope.nodes n hn).1⟩
  exact hselect.all hscope.resolves (fun _ => wordy_functionName) hconditions hp hscope.sources
    hscope.conditions fun c hc => (hcolumns c hc).name

end GraphSql
