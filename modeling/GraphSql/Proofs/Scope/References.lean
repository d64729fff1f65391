import Mathlib.Data.List.Nodup
import GraphSql.Proofs.Schema
import GraphSql.Proofs.Scope.Aliases

/-!
# No dangling references

A select statement is grounded (`Select.Grounded`) when each name that its column references start
with is introduced exactly once among its sources, no join condition looks at a later source, and the
column is one that is recorded for what the name ranges over.  That is not free to choose: it is what
the labels or types say at a place of the patterns that goes by the name (`Range.Of`).  The select
statement of every plan is grounded: over the tables of the schema (`Plan.grounded_ofClauses`), and
over a temporary table (`Plan.grounded_ofRelation`).

Edges of given types are read from the table of all edges, but their columns are looked up in the
columns of these types.  So there are two records of columns, `Range.columns` for what the schema
gives for a table, and `Range.accepted` for what is accepted; they differ on such edges only.
-/

namespace GraphSql

open Query (AliasedHop AliasedPattern NodePattern)
open Relational (Source)

variable {name : String}

/-- What a name of a select statement ranges over: all nodes, the nodes of a mapped set of labels,
all edges, the edges of some types, or the rows of a temporary table with the given output names. -/
inductive Range where
  | nodes
  | labelled (e : Schema.LabelTable)
  | edges
  | typedEdges (types : List Schema.TypeTable)
  | temp (table : String) (outputs : List String)

namespace Range

def table : Range → String
  | nodes => Schema.nodesTable
  | labelled e => e.table
  | edges => Schema.edgesTable
  | typedEdges _ => Schema.edgesTable
  | temp table _ => table

/-- The columns that the schema gives for the table of a range, or the output names of the stage that
the table was made from. -/
def columns (schema : Schema) : Range → List String
  | nodes => schema.nodeColumns.map Column.name
  | labelled e => e.columns.map Column.name
  | edges => schema.edgeColumns.map Column.name
  | typedEdges _ => schema.edgeColumns.map Column.name
  | temp _ outputs => outputs

/-- The columns that are accepted for a range. -/
def accepted (schema : Schema) : Range → List String
  | typedEdges types =>
    (Column.merge (Schema.coreEdgeColumns :: types.map Schema.TypeTable.columns)).map Column.name
  | r => r.columns schema

/-- The range of a name: what the labels or the types say at a place that goes by the name.  A
temporary table is among the given ones. -/
def Of (schema : Schema) (temps : List (String × List String))
    (nodes : List (NodePattern × String)) (edges : List AliasedHop) (x : String) : Range → Prop
  | .nodes => ∃ p ∈ nodes, p.2 = x ∧ p.1.labels = []
  | .labelled e => ∃ p ∈ nodes, p.2 = x ∧ schema.labelTable (.names p.1.labels) = .ok e
  | .edges => ∃ h ∈ edges, h.edge = x ∧ h.relationship.types = []
  | .typedEdges types => ∃ h ∈ edges, h.edge = x ∧ h.relationship.types ≠ [] ∧
    h.relationship.types.mapM schema.typeTable = .ok types
  | .temp table outputs => (table, outputs) ∈ temps

variable {schema : Schema} {temps : List (String × List String)}
  {nodes nodes' : List (NodePattern × String)} {edges edges' : List AliasedHop} {x : String}
  {r : Range}

theorem Of.mono (hnodes : nodes ⊆ nodes') (hedges : edges ⊆ edges')
    (h : r.Of schema temps nodes edges x) : r.Of schema temps nodes' edges' x := by
  cases r with
  | nodes => exact h.imp fun p hp => ⟨hnodes hp.1, hp.2⟩
  | labelled e => exact h.imp fun p hp => ⟨hnodes hp.1, hp.2⟩
  | edges => exact h.imp fun p hp => ⟨hedges hp.1, hp.2⟩
  | typedEdges types => exact h.imp fun p hp => ⟨hedges hp.1, hp.2⟩
  | temp table outputs => exact h

end Range

/-- Each source is joined on conditions about itself and the sources before it. -/
def Joined (before : List String) : List Source → Prop
  | [] => True
  | x :: xs =>
    (∀ e ∈ x.join.conditions, e.All (fun y _ => y ∈ before ++ [x.name]) fun _ => True) ∧
      Joined (before ++ [x.name]) xs

/-- Every reference of a select statement has a name that is introduced once, before it is used, and a
column that is recorded for what the name ranges over. -/
structure Relational.Select.Grounded (schema : Schema) (temps : List (String × List String))
    (qs : List AliasedPattern) (recorded : Range → List String) (range : String → Range)
    (s : Relational.Select) : Prop where
  once : (s.sources.map Source.name).Nodup
  ranges : ∀ x ∈ s.sources, (range x.name).table = x.table ∧ (range x.name).Of schema temps
    (qs.flatMap AliasedPattern.nodes) (qs.flatMap AliasedPattern.hops) x.name
  references : s.All (fun x c => x ∈ s.sources.map Source.name ∧ c ∈ recorded (range x)) fun _ => True
  joins : Joined [] s.sources

/-- A longer record of columns will do as well. -/
theorem Relational.Select.Grounded.mono {schema : Schema} {temps : List (String × List String)}
    {qs : List AliasedPattern} {recorded recorded' : Range → List String} {range : String → Range}
    {s : Relational.Select} (h : s.Grounded schema temps qs recorded range)
    (hr : ∀ (r : Range) (nodes : List (NodePattern × String)) (edges : List AliasedHop) (x : String),
      r.Of schema temps nodes edges x → ∀ c ∈ recorded r, c ∈ recorded' r) :
    s.Grounded schema temps qs recorded' range := by
  refine ⟨h.once, h.ranges, h.references.mono (fun x c hx => ?_) fun _ _ => trivial, h.joins⟩
  obtain ⟨y, hy, rfl⟩ := List.mem_map.mp hx.1
  exact ⟨hx.1, hr _ _ _ _ (h.ranges y hy).2 c hx.2⟩

/-- The table of all edges has the columns of all types, in the same spelling.  Its columns can be
declared without regard to the types. -/
def Schema.CoversTypes (schema : Schema) : Prop :=
  ∀ t ∈ schema.typeTables, ∀ c ∈ t.columns, c.name ∈ schema.edgeColumns.map Column.name

theorem Range.columns_of_accepted {schema : Schema} (hschema : schema.Complete)
    (hcovers : schema.CoversTypes) {temps : List (String × List String)}
    {nodes : List (NodePattern × String)} {edges : List AliasedHop} {x : String} {r : Range}
    (hr : r.Of schema temps nodes edges x) : ∀ c ∈ r.accepted schema, c ∈ r.columns schema := by
  intro c hc
  cases r with
  | typedEdges types =>
    obtain ⟨d, hd, rfl⟩ := List.mem_map.mp hc
    obtain ⟨cs, hcs, hd⟩ := Schema.exists_of_mem_merge hd
    rcases List.mem_cons.mp hcs with rfl | hcs
    · exact List.mem_map_of_mem (hschema.edges d hd)
    · obtain ⟨t, ht, rfl⟩ := List.mem_map.mp hcs
      obtain ⟨h, -, -, -, htypes⟩ := hr
      obtain ⟨type, -, htype⟩ := Except.exists_of_mem_mapM htypes ht
      exact hcovers t (Schema.mem_of_typeTable htype) d hd
  | nodes => exact hc
  | labelled e => exact hc
  | edges => exact hc
  | temp table outputs => exact hc

/-- The names of the output columns of a select statement. -/
def Relational.Select.outputs (s : Relational.Select) : List String :=
  s.items.map Relational.SelectItem.name

theorem joined_append {xs ys : List Source} : ∀ {before : List String}, Joined before xs →
    Joined (before ++ xs.map Source.name) ys → Joined before (xs ++ ys) := by
  induction xs with
  | nil =>
    intro before _ hy
    simpa using hy
  | cons x xs ih =>
    intro before hx hy
    refine ⟨hx.1, ih hx.2 ?_⟩
    simpa using hy

namespace Scope

open Query (Hop Pattern aliasedPatterns)

variable {schema : Schema} {s s' : Scope} {nodes : List (NodePattern × String)}
  {edges : List AliasedHop} {p : NodePattern} {n : BoundNode} {isNew : Bool} {c : String}

/-! ## What a scope hands out -/

/-- The name is bound, and the column can be referred to. -/
def Records (s : Scope) (x c : String) : Prop := ∃ b ∈ s.bindings, b.name = x ∧ c ∈ b.columns

theorem records_of_node (hn : n ∈ s.nodes) (hc : c ∈ n.source.columnNames) : s.Records n.name c :=
  ⟨n.binding, List.mem_append_left _ (List.mem_map_of_mem hn), rfl, hc⟩

theorem records_of_edge {e : BoundEdge} (he : e ∈ s.edges) {c : Column}
    (hc : c ∈ Schema.coreEdgeColumns ++ e.columns) : s.Records e.name c.name :=
  ⟨e.binding, List.mem_append_right _ (List.mem_map_of_mem he), rfl, List.mem_map_of_mem hc⟩

theorem Records.mono (h : s.bindings ⊆ s'.bindings) {x : String} (hx : s.Records x c) :
    s'.Records x c := by
  obtain ⟨b, hb, hname, hc⟩ := hx
  exact ⟨b, h hb, hname, hc⟩

theorem Records.mem_names {x : String} (h : s.Records x c) : x ∈ s.names := by
  obtain ⟨b, hb, rfl, -⟩ := h
  exact List.mem_map_of_mem hb

/-- **A scope hands out what it records.** -/
theorem resolves_records (s : Scope) : s.Resolves s.Records where
  stored {x table columns} h c hc := by
    rw [stored?] at h
    split at h
    · rename_i n hn
      obtain ⟨hmem, rfl⟩ := mem_of_node? hn
      split at h
      · rename_i table columns labels hsource
        cases h
        refine records_of_node hmem ?_
        rw [hsource]
        exact List.mem_cons_of_mem _ (List.mem_map_of_mem hc)
      · cases h
    · obtain ⟨e, he, h⟩ := Option.map_eq_some_iff.mp h
      cases h
      obtain ⟨hmem, rfl⟩ := mem_of_edge? he
      exact records_of_edge hmem (List.mem_append_right _ hc)
  node {x table columns labels n} hn hsource := by
    obtain ⟨hmem, rfl⟩ := mem_of_node? hn
    refine records_of_node hmem ?_
    rw [hsource]
    exact List.mem_cons_self
  edge {x e} he := by
    obtain ⟨hmem, rfl⟩ := mem_of_edge? he
    have hcore : ∀ c ∈ Schema.coreEdgeColumns, s.Records e.name c.name := fun c hc =>
      records_of_edge hmem (List.mem_append_left _ hc)
    simpa [Schema.coreEdgeColumns] using hcore
  derived p hp c hc := by
    obtain ⟨n, hmem, hn⟩ := List.mem_filterMap.mp hp
    obtain ⟨r, hr, rfl⟩ := Option.map_eq_some_iff.mp hn
    refine records_of_node hmem ?_
    cases hsource : n.source with
    | stored table columns labels =>
      rw [hsource] at hr
      cases hr
    | derived r' =>
      rw [hsource] at hr
      cases hr
      exact List.mem_map_of_mem hc

/-- The conditions that properties make are about what the scope records. -/
theorem propertyConditions_records {properties : Option Query.Properties}
    {filters : List Relational.Expr} (h : s.propertyConditions name properties = .ok filters) :
    ∀ e ∈ filters, e.All s.Records fun _ => True :=
  propertyConditions_all (P := fun _ => True) s.resolves_records (fun _ _ => trivial)
    (fun entries _ => Query.Expr.namedEntries_of_forall (fun _ => trivial) entries) h

/-! ## Bindings and ranges -/

/-- A binding reads the table of the range of its name, and no columns but those that are
accepted. -/
structure RangesOver (schema : Schema) (nodes : List (NodePattern × String))
    (edges : List AliasedHop) (b : Binding) (r : Range) : Prop where
  of : r.Of schema [] nodes edges b.name
  table : r.table = b.table
  columns : ∀ c ∈ b.columns, c ∈ r.accepted schema

theorem RangesOver.mono {nodes' : List (NodePattern × String)} {edges' : List AliasedHop}
    (hnodes : nodes ⊆ nodes') (hedges : edges ⊆ edges') {b : Binding} {r : Range}
    (h : RangesOver schema nodes edges b r) : RangesOver schema nodes' edges' b r :=
  ⟨h.of.mono hnodes hedges, h.table, h.columns⟩

theorem exists_range_of_nodeSource (hschema : schema.Complete) (hs : s.relations = [])
    (edges : List AliasedHop) {source : NodeSource} (hp : (p, name) ∈ nodes)
    (h : nodeSource schema s name p.labels = .ok source) :
    ∃ r, RangesOver schema nodes edges ⟨source.table, name, source.columnNames⟩ r := by
  have hsource := sourceOf_nodeSource h
  rw [hs] at hsource
  cases hsource with
  | derived hr => cases hr
  | nodes hlabels =>
    refine ⟨.nodes, ⟨_, hp, rfl, hlabels⟩, rfl, fun c hc => ?_⟩
    rcases List.mem_cons.mp hc with rfl | hc
    · exact hschema.nodes
    · exact hc
  | labelled he =>
    refine ⟨.labelled _, ⟨_, hp, rfl, he⟩, rfl, fun c hc => ?_⟩
    rcases List.mem_cons.mp hc with rfl | hc
    · exact hschema.labels _ (Schema.mem_of_labelTable he)
    · exact hc

theorem exists_range_of_edgeTypes (hschema : schema.Complete) {h : AliasedHop}
    {spelled : List String} {columns : List Column} (hmem : h ∈ edges)
    (hok : edgeTypes schema h.relationship.types = .ok (columns, spelled)) :
    ∃ r, RangesOver schema nodes edges
      ⟨Schema.edgesTable, h.edge, (Schema.coreEdgeColumns ++ columns).map Column.name⟩ r := by
  rcases edgeTypes_cases hok with ⟨hnone, rfl, -⟩ | ⟨hsome, entries, hentries, rfl, rfl⟩
  · refine ⟨.edges, ⟨h, hmem, rfl, hnone⟩, rfl, fun c hc => ?_⟩
    obtain ⟨d, hd, rfl⟩ := List.mem_map.mp hc
    rcases List.mem_append.mp hd with hd | hd
    · exact List.mem_map_of_mem (hschema.edges d hd)
    · exact List.mem_map_of_mem hd
  · refine ⟨.typedEdges entries, ⟨h, hmem, rfl, hsome, hentries⟩, rfl, fun c hc => ?_⟩
    obtain ⟨d, hd, rfl⟩ := List.mem_map.mp hc
    rcases List.mem_append.mp hd with hd | hd
    · exact List.mem_map_of_mem (Schema.mem_merge_coreEdgeColumns hd _)
    · exact List.mem_map_of_mem hd

/-! ## Reading patterns -/

/-- What reading patterns keeps, told with the nodes and hops that have been read. -/
structure Grounded (schema : Schema) (s : Scope) (nodes : List (NodePattern × String))
    (edges : List AliasedHop) : Prop where
  stored : s.Stored
  introduces : s.Introduces
  ranges : ∀ b ∈ s.bindings, ∃ r, RangesOver schema nodes edges b r
  conditions : ∀ e ∈ s.conditions, e.All s.Records fun _ => True
  sources : ∀ x ∈ s.sources, ∀ e ∈ x.join.conditions, e.All s.Records fun _ => True
  joins : Joined [] s.sources

theorem all_records_mono (h : s.bindings ⊆ s'.bindings) {e : Relational.Expr}
    (he : e.All s.Records fun _ => True) : e.All s'.Records fun _ => True :=
  e.all_mono (fun _ _ hx => hx.mono h) (fun _ _ => trivial) he

/-- A node pattern keeps all bindings. -/
theorem bindings_subset_addNode (h : addNode schema s p = .ok (s', n, isNew)) :
    s.bindings ⊆ s'.bindings ∧ n.binding ∈ s'.bindings := by
  rw [bindings, bindings]
  obtain ⟨hedges, -, -, ⟨-, hmap, hmem⟩ | ⟨-, hnodes, -⟩⟩ := addNode_bindings h
  · rw [hmap, hedges]
    exact ⟨List.Subset.refl _, List.mem_append_left _ hmem⟩
  · rw [hnodes, hedges, List.map_append]
    refine ⟨fun b hb => ?_, by simp⟩
    rcases List.mem_append.mp hb with hb | hb
    · exact List.mem_append_left _ (List.mem_append_left _ hb)
    · exact List.mem_append_right _ hb

/-- The conditions that a node pattern adds are about what is then recorded. -/
theorem conditions_addNode (h : addNode schema s p = .ok (s', n, isNew)) :
    ∃ filters, s'.conditions = s.conditions ++ filters ∧
      ∀ e ∈ filters, e.All s'.Records fun _ => True := by
  have hsubset := (bindings_subset_addNode h).1
  obtain ⟨name, s₀, hname, hcase⟩ := addNode_cases h
  obtain ⟨hnodes, hedges, -, -, hconditions⟩ := nameFor_bindings hname
  have hbindings : s₀.bindings = s.bindings := by rw [bindings, bindings, hnodes, hedges]
  rcases hcase with ⟨m, filters, -, -, -, hfilters, -, he⟩ |
    ⟨source, filters, -, hnone, -, -, hfilters, hn, he⟩
  · refine ⟨filters, by rw [he, ← hconditions]; rfl, fun e hmem => ?_⟩
    refine all_records_mono ?_ (propertyConditions_records hfilters e hmem)
    rw [hbindings]
    exact hsubset
  · refine ⟨filters, by rw [he, ← hconditions]; rfl, fun e hmem => ?_⟩
    refine all_records_mono (fun b hb => ?_) (propertyConditions_records hfilters e hmem)
    -- before and after the conditions are known, the node has the same binding
    have hbefore := nodes_putNode_of_none (n := { name, source }) hnone
    have hafter := nodes_putNode_of_none (n := { name, source, filters }) hnone
    have hsame : (s₀.putNode { name, source }).bindings = s'.bindings := by
      rw [he, hn]
      show (s₀.putNode _).nodes.map _ ++ _ = (s₀.putNode _).nodes.map _ ++ _
      rw [hbefore, hafter, List.map_append, List.map_append]
      rfl
    exact hsame ▸ hb

theorem ranges_addNode (hschema : schema.Complete) (hs : s.Stored)
    (hranges : ∀ b ∈ s.bindings, ∃ r, RangesOver schema nodes edges b r)
    (h : addNode schema s p = .ok (s', n, isNew)) :
    ∀ b ∈ s'.bindings, ∃ r, RangesOver schema (nodes ++ [(p, n.name)]) edges b r := by
  replace hranges : ∀ b ∈ s.bindings,
      ∃ r, RangesOver schema (nodes ++ [(p, n.name)]) edges b r := fun b hb =>
    (hranges b hb).imp fun r hr =>
      hr.mono (List.subset_append_left _ _) (List.Subset.refl _)
  obtain ⟨hedges, -, -, ⟨-, hmap, -⟩ | ⟨rfl, hnodes, -⟩⟩ := addNode_bindings h
  · rw [bindings, hmap, hedges]
    exact hranges
  · obtain ⟨name, s₀, hname, ⟨_, _, hnew, -⟩ | ⟨source, filters, -, -, -, hsource, -, rfl, -⟩⟩ :=
      addNode_cases h
    · cases hnew
    · obtain ⟨-, -, -, hrelations, -⟩ := nameFor_bindings hname
      have hmem : (p, name) ∈ nodes ++ [(p, name)] := List.mem_append_right _ List.mem_cons_self
      obtain ⟨r, hr⟩ :=
        exists_range_of_nodeSource hschema (hrelations.trans hs.relations) edges hmem hsource
      intro b hb
      rw [bindings, hnodes, hedges, List.map_append] at hb
      rcases List.mem_append.mp hb with hb | hb
      · rcases List.mem_append.mp hb with hb | hb
        · exact hranges b (List.mem_append_left _ hb)
        · obtain rfl := List.mem_singleton.mp hb
          exact ⟨r, hr⟩
      · exact hranges b (List.mem_append_right _ hb)

/-- The first node of a pattern. -/
theorem Grounded.first (hschema : schema.Complete) (hg : s.Grounded schema nodes edges)
    (h : addNode schema s p = .ok (s', n, isNew)) :
    (if isNew then s'.addSource ⟨n.source.table, n.name, .cross⟩ else s').Grounded schema
      (nodes ++ [(p, n.name)]) edges := by
  obtain ⟨filters, hconditions, hfilters⟩ := conditions_addNode h
  obtain ⟨hsubset, -⟩ := bindings_subset_addNode h
  obtain ⟨-, hsources, -, -⟩ := addNode_bindings h
  have hall : ∀ e ∈ s'.conditions, e.All s'.Records fun _ => True := by
    rw [hconditions]
    intro e he
    rcases List.mem_append.mp he with he | he
    · exact all_records_mono hsubset (hg.conditions e he)
    · exact hfilters e he
  have hjoins : ∀ x ∈ s'.sources, ∀ e ∈ x.join.conditions, e.All s'.Records fun _ => True := by
    rw [hsources]
    intro x hx e he
    exact all_records_mono hsubset (hg.sources x hx e he)
  have hstored := hg.stored.addNode h
  have hranges := ranges_addNode hschema hg.stored hg.ranges h
  have hintroduces := hg.introduces.first h
  cases isNew with
  | false => exact ⟨hstored, hintroduces, hranges, hall, hjoins, hsources ▸ hg.joins⟩
  | true =>
    refine ⟨⟨hstored.relations, hstored.nodes⟩, hintroduces, hranges, hall, fun x hx => ?_, ?_⟩
    · rcases List.mem_append.mp hx with hx | hx
      · exact hjoins x hx
      · obtain rfl := List.mem_singleton.mp hx
        intro e he
        cases he
    · refine joined_append (hsources ▸ hg.joins) ⟨?_, trivial⟩
      intro e he
      cases he

namespace HopStep

variable {source : String} {hop : Hop} (step : HopStep schema s source hop)

/-- The scope in which the edge is bound. -/
def edgeBound : Scope :=
  step.named.putEdge (edgeOf hop.relationship step.name source "" step.columns step.types [])

theorem bindings_edgeBound : step.edgeBound.bindings = s.bindings ++ [step.edge.binding] := by
  obtain ⟨hnodes, -, -, -⟩ := nameFor_bindings step.nameFor_eq
  have hput : step.edgeBound.edges = _ := step.edges_putEdge rfl
  have hsame : step.edgeBound.nodes = s.nodes := hnodes
  rw [bindings, bindings, hput, hsame, List.map_append, List.append_assoc]
  rfl

theorem bindings_bound : step.bound.bindings = step.scope.bindings := by
  rw [bindings, bindings, step.scope_nodes, step.edges_eq, step.bound_edges, List.map_append,
    List.map_append]
  rfl

theorem bindings_subset : s.bindings ⊆ step.scope.bindings := by
  obtain ⟨hsubset, -⟩ := bindings_subset_addNode step.addNode_eq
  intro b hb
  rw [← step.bindings_bound]
  refine hsubset ?_
  show b ∈ step.edgeBound.bindings
  rw [step.bindings_edgeBound]
  exact List.mem_append_left _ hb

theorem records_edge {c : Column} (hc : c ∈ Schema.coreEdgeColumns) :
    step.scope.Records step.name c.name := by
  have hmem : step.edge ∈ step.scope.edges := by
    rw [step.edges_eq]
    exact List.mem_append_right _ List.mem_cons_self
  exact records_of_edge hmem (List.mem_append_left _ hc)

/-- The conditions on the properties of the edge, which is bound but for them. -/
theorem filters_records : ∀ e ∈ step.filters, e.All step.scope.Records fun _ => True := by
  intro e he
  refine all_records_mono ?_ (propertyConditions_records step.filters_eq e he)
  have hedges := step.putBy_bound_edges
    (e := edgeOf hop.relationship step.name source step.node.name step.columns step.types []) rfl
  rw [bindings, bindings, step.scope_nodes, step.edges_eq]
  simp only [putEdge, addConditions, nodes_addJoin, edges_addJoin]
  rw [hedges, List.map_append, List.map_append]
  exact List.Subset.refl _

theorem conditions_records (hg : s.Grounded schema nodes edges) :
    ∀ e ∈ step.scope.conditions, e.All step.scope.Records fun _ => True := by
  obtain ⟨filters, hconditions, hfilters⟩ := conditions_addNode step.addNode_eq
  obtain ⟨-, -, -, -, hnamed⟩ := nameFor_bindings step.nameFor_eq
  have hbound : step.bound.conditions = s.conditions ++ filters := by
    rw [hconditions, ← hnamed]
    rfl
  rw [step.scope_conditions, hbound]
  intro e he
  simp only [List.mem_append] at he
  rcases he with ((he | he) | he) | he
  · exact all_records_mono step.bindings_subset (hg.conditions e he)
  · refine all_records_mono ?_ (hfilters e he)
    rw [step.bindings_bound]
    exact List.Subset.refl _
  · exact typeConditions_all (step.records_edge (c := ⟨Schema.edgeType, .text⟩) (by decide)) _ e he
  · exact step.filters_records e he

/-- The hop with its aliases. -/
def aliased : AliasedHop := ⟨hop.relationship, step.name, hop.node, step.node.name⟩

theorem ranges (hschema : schema.Complete) (hg : s.Grounded schema nodes edges) :
    ∀ b ∈ step.scope.bindings, ∃ r, RangesOver schema (nodes ++ [(hop.node, step.node.name)])
      (edges ++ [step.aliased]) b r := by
  rw [← step.bindings_bound]
  refine ranges_addNode hschema (hg.stored.edge step) (fun b hb => ?_) step.addNode_eq
  have hb : b ∈ step.edgeBound.bindings := hb
  rw [step.bindings_edgeBound] at hb
  rcases List.mem_append.mp hb with hb | hb
  · exact (hg.ranges b hb).imp fun r hr =>
      hr.mono (List.Subset.refl _) (List.subset_append_left _ _)
  · obtain rfl := List.mem_singleton.mp hb
    exact exists_range_of_edgeTypes (h := step.aliased) hschema (by simp) step.edgeTypes_eq

theorem newSources_records :
    ∀ x ∈ step.newSources, ∀ e ∈ x.join.conditions, e.All step.scope.Records fun _ => True := by
  have hkey : ∀ {x key : String} {r : Resolved}, step.bound.lookupProperty x key = .ok r →
      r.expr.All step.scope.Records fun _ => True := by
    intro x key r hr
    refine all_records_mono ?_ (lookupProperty_all step.bound.resolves_records hr)
    rw [step.bindings_bound]
    exact List.Subset.refl _
  have hstart := step.records_edge (c := ⟨Schema.edgeSource, .bigint⟩) (by decide)
  have hfinish := step.records_edge (c := ⟨Schema.edgeTarget, .bigint⟩) (by decide)
  have hfst : step.conditions.1.All step.scope.Records fun _ => True :=
    joinConditions_fst_all _ hstart hfinish (hkey step.sourceKey_eq) _
  have hsnd : step.conditions.2.All step.scope.Records fun _ => True :=
    joinConditions_snd_all _ hstart hfinish (hkey step.sourceKey_eq) (hkey step.targetKey_eq)
  intro x hx e he
  rw [newSources] at hx
  split at hx
  · rcases List.mem_pair.mp hx with rfl | rfl
    · obtain rfl := List.mem_singleton.mp he
      exact hfst
    · obtain rfl := List.mem_singleton.mp he
      exact hsnd
  · obtain rfl := List.mem_singleton.mp hx
    rcases List.mem_pair.mp he with rfl | rfl
    · exact hfst
    · exact hsnd

/-- The sources of a hop are joined to what is there: the edge to the node before it, the node behind
it to both. -/
theorem newSources_joined (hg : s.Grounded schema nodes edges) (hsource : source ∈ s.names) :
    Joined (s.sources.map Source.name) step.newSources := by
  have hstored : step.bound.Stored := (hg.stored.edge step).addNode step.addNode_eq
  obtain ⟨c, hsourceKey, -⟩ := hstored.lookupProperty step.sourceKey_eq
  obtain ⟨c', htargetKey, -⟩ := hstored.lookupProperty step.targetKey_eq
  have hbefore : ∀ {x}, x ∈ s.names → x ∈ s.sources.map Source.name :=
    fun hx => hg.introduces.names_perm.mem_iff.mpr hx
  -- the first condition is about the edge and the node before it, whatever is introduced later
  have hfst : ∀ {names : List String}, step.name ∈ names → source ∈ names →
      step.conditions.1.All (fun y _ => y ∈ names) fun _ => True := by
    intro names hname hmem
    rw [conditions, hsourceKey]
    have hkey : (Relational.Expr.column source c).All (fun y _ => y ∈ names) fun _ => True := hmem
    exact joinConditions_fst_all _ hname hname hkey _
  have hsnd : ∀ {names : List String}, step.name ∈ names → source ∈ names →
      step.node.name ∈ names → step.conditions.2.All (fun y _ => y ∈ names) fun _ => True := by
    intro names hname hmem htarget
    rw [conditions, hsourceKey, htargetKey]
    have hkey : (Relational.Expr.column source c).All (fun y _ => y ∈ names) fun _ => True := hmem
    exact joinConditions_snd_all _ hname hname hkey htarget
  rw [newSources]
  rcases step.nodes_cases with ⟨hnew, -, hmem⟩ | ⟨hnew, -, -⟩
  · rw [hnew, if_neg (by decide)]
    have htarget : step.node.name ∈ s.names :=
      List.mem_map.mpr ⟨step.node.binding, List.mem_append_left _ hmem, rfl⟩
    refine ⟨fun e he => ?_, trivial⟩
    rcases List.mem_pair.mp he with rfl | rfl
    · exact hfst (by simp) (List.mem_append_left _ (hbefore hsource))
    · exact hsnd (by simp) (List.mem_append_left _ (hbefore hsource))
        (List.mem_append_left _ (hbefore htarget))
  · rw [hnew, if_pos rfl]
    refine ⟨fun e he => ?_, fun e he => ?_, trivial⟩
    · obtain rfl := List.mem_singleton.mp he
      exact hfst (by simp) (List.mem_append_left _ (hbefore hsource))
    · obtain rfl := List.mem_singleton.mp he
      exact hsnd (by simp) (List.mem_append_left _ (List.mem_append_left _ (hbefore hsource)))
        (by simp)

end HopStep

theorem Grounded.hop (hschema : schema.Complete) (hg : s.Grounded schema nodes edges)
    {source : String} {hop : Hop} (hsource : source ∈ s.names) (step : HopStep schema s source hop) :
    step.scope.Grounded schema (nodes ++ [(hop.node, step.node.name)])
      (edges ++ [step.aliased]) where
  stored := ((hg.stored.edge step).addNode step.addNode_eq).scope
  introduces := hg.introduces.hop step
  ranges := step.ranges hschema hg
  conditions := step.conditions_records hg
  sources := by
    rw [step.sources_eq]
    intro x hx
    rcases List.mem_append.mp hx with hx | hx
    · exact fun e he => all_records_mono step.bindings_subset (hg.sources x hx e he)
    · exact step.newSources_records x hx
  joins := by
    rw [step.sources_eq]
    exact joined_append hg.joins (step.newSources_joined hg hsource)

/-- **Patterns over the tables of a schema are grounded.** -/
theorem grounded_of_addPatterns (hschema : schema.Complete) {ps : List Pattern}
    (h : addPatterns schema {} ps = .ok s) :
    s.Grounded schema ((aliasedPatterns 0 ps).1.flatMap AliasedPattern.nodes)
      ((aliasedPatterns 0 ps).1.flatMap AliasedPattern.hops) := by
  have hstart : Grounded schema {} [] [] :=
    ⟨⟨rfl, by simp⟩, ⟨List.Perm.nil, List.nodup_nil⟩, by simp [bindings], by simp, by simp, trivial⟩
  refine addPatterns_aliased (I := Grounded schema)
    (J := fun s x nodes edges => s.Grounded schema nodes edges ∧ x ∈ s.names) ?_ ?_
    (fun hs => hs.1) [] [] hstart h
  · intro s s₁ p n isNew nodes edges hs hnode
    have hmem : n.name ∈ s₁.names :=
      List.mem_map.mpr ⟨n.binding, (bindings_subset_addNode hnode).2, rfl⟩
    refine ⟨hs.first hschema hnode, ?_⟩
    cases isNew with
    | false => exact hmem
    | true => exact hmem
  · rintro s source hop nodes edges step ⟨hs, hsource⟩
    have hmem := (bindings_subset_addNode step.addNode_eq).2
    rw [step.bindings_bound] at hmem
    exact ⟨hs.hop hschema hsource step, List.mem_map.mpr ⟨step.node.binding, hmem, rfl⟩⟩

/-- As no name is bound twice, ranges can be given by name. -/
theorem Grounded.exists_range (hg : s.Grounded schema nodes edges) : ∃ range : String → Range,
    ∀ b ∈ s.bindings, RangesOver schema nodes edges b (range b.name) := by
  have hall : ∀ x, ∃ r, ∀ b ∈ s.bindings, b.name = x → RangesOver schema nodes edges b r := by
    intro x
    by_cases hx : ∃ b ∈ s.bindings, b.name = x
    · obtain ⟨b, hb, rfl⟩ := hx
      obtain ⟨r, hr⟩ := hg.ranges b hb
      refine ⟨r, fun b' hb' hname => ?_⟩
      rw [List.inj_on_of_nodup_map hg.introduces.nodup hb' hb hname]
      exact hr
    · exact ⟨.nodes, fun b hb hname => absurd ⟨b, hb, hname⟩ hx⟩
  choose range hrange using hall
  exact ⟨range, fun b hb => hrange b.name b hb rfl⟩

end Scope

/-! ## Plans -/

namespace Plan

open Query (aliasedPatterns)

variable {schema : Schema} {s : Scope} {p : Query.Projection} {plan : Plan}

/-- The select statement of a projection refers to what the scope records. -/
theorem references_of_selects (hconditions : ∀ e ∈ s.conditions, e.All s.Records fun _ => True)
    (hsources : ∀ x ∈ s.sources, ∀ e ∈ x.join.conditions, e.All s.Records fun _ => True)
    {conditions : List Query.Expr} {projected : Scope.Projected} {compiled : List Relational.Expr}
    {select : Relational.Select} (h : s.Selects conditions p projected compiled select) :
    select.All s.Records fun _ => True :=
  h.all (P := fun _ => True) s.resolves_records (fun _ _ => trivial)
    (fun e _ => Query.Expr.named_of_forall (fun _ => trivial) e)
    (p.named_of_forall fun _ => trivial)
    (fun x hx => ⟨trivial, trivial, hsources x hx⟩) hconditions fun _ _ => trivial

/-- The output names of a plan are those of its select statement. -/
theorem outputs_ofClauses {relations : List (String × Relation)} {ms : List Query.Matching}
    (h : ofClauses schema relations ms p = .ok plan) :
    plan.select.outputs = plan.projection.map ResultColumn.name := by
  rw [Relational.Select.outputs, items_eq_of_ofClauses h, List.map_map]
  rfl

/-- **The plan of match clauses over the tables of a schema is grounded.** -/
theorem grounded_ofClauses (hschema : schema.Complete) {ms : List Query.Matching}
    (h : ofClauses schema [] ms p = .ok plan) :
    ∃ range, plan.select.Grounded schema []
      (aliasedPatterns 0 (ms.flatMap Query.Matching.patterns)).1 (Range.accepted schema) range := by
  obtain ⟨s, projected, compiled, select, hs, hselect, rfl⟩ := ofClauses_eq_ok.mp h
  have hg := Scope.grounded_of_addPatterns hschema hs
  obtain ⟨range, hrange⟩ := hg.exists_range
  have hsources := hselect.sources
  refine ⟨range, ?_, ?_, ?_, ?_⟩
  · rw [hsources]
    exact hg.introduces.names_perm.nodup_iff.mpr hg.introduces.nodup
  · rw [hsources]
    intro x hx
    obtain ⟨b, hb, he⟩ := List.mem_map.mp
      (hg.introduces.perm.mem_iff.mp (List.mem_map_of_mem hx))
    obtain ⟨htable, hname⟩ := Prod.mk.inj he
    rw [← hname, ← htable]
    exact ⟨(hrange b hb).table, (hrange b hb).of⟩
  · rw [hsources]
    refine (references_of_selects hg.conditions hg.sources hselect).mono (fun x c hx => ?_)
      fun _ _ => trivial
    refine ⟨hg.introduces.names_perm.mem_iff.mpr hx.mem_names, ?_⟩
    obtain ⟨b, hb, rfl, hc⟩ := hx
    exact (hrange b hb).columns c hc
  · rw [hsources]
    exact hg.joins

/-- A variable that ranges over a temporary table. -/
theorem addPatterns_relation (schema : Schema) (name : String) (r : Relation) :
    Scope.addPatterns schema { relations := [(name, r)] } [{ first := { name := some name } }] =
      .ok { relations := [(name, r)], nodes := [{ name, source := .derived r }],
            sources := [⟨r.name, name, .cross⟩] } := by
  have hlookup : List.lookup name [(name, r)] = some r := List.lookup_cons_self
  have hnode : Scope.addNode schema { relations := [(name, r)] } { name := some name } =
      .ok ({ relations := [(name, r)], nodes := [{ name, source := .derived r }] },
        { name, source := .derived r }, true) := by
    simp only [Scope.addNode, Scope.nameFor, Scope.node?, Scope.edge?, Scope.nodeSource, hlookup,
      List.find?_nil]
    rw [if_neg (by simp), if_pos (by simp)]
    simp [Scope.propertyConditions, Scope.putNode, putBy, Scope.addConditions]
  simp only [Scope.addPatterns, List.foldlM_cons, List.foldlM_nil, Scope.addPattern, hnode]
  rfl

/-- **A plan over one temporary table is grounded.** -/
theorem grounded_ofRelation {r : Relation} {condition : Option Query.Expr}
    (h : ofClauses schema [(name, r)] [.reading name condition] p = .ok plan)
    (qs : List AliasedPattern) :
    ∃ range, plan.select.Grounded schema [(r.name, r.columns.map ResultColumn.name)] qs
      (Range.accepted schema) range := by
  obtain ⟨s, projected, compiled, select, hs, hselect, rfl⟩ := ofClauses_eq_ok.mp h
  cases (addPatterns_relation schema name r).symm.trans hs
  have hsources := hselect.sources
  have hreferences := references_of_selects (by simp)
    (by simp [Relational.Join.conditions]) hselect
  refine ⟨fun _ => .temp r.name (r.columns.map ResultColumn.name), ?_, ?_, ?_, ?_⟩
  · simp [hsources]
  · simp [hsources, Range.Of, Range.table]
  · rw [hsources]
    refine hreferences.mono (fun x c hx => ?_) fun _ _ => trivial
    obtain ⟨b, hb, rfl, hc⟩ := hx
    obtain rfl : b = BoundNode.binding { name, source := .derived r } := List.mem_singleton.mp hb
    exact ⟨List.mem_singleton_self name, hc⟩
  · rw [hsources]
    refine ⟨fun e he => ?_, trivial⟩
    cases he

end Plan

end GraphSql
