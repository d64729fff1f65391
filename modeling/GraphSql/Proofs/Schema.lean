import GraphSql.Proofs.Keyed
import GraphSql.Proofs.Outcome
import GraphSql.Schema

/-!
# Tables of a schema

What is found in a schema is one of its tables, and the tables of a schema that was built have the
columns that identify nodes and edges (`Schema.complete_of_build`).  Nodes are in the table of all
nodes and in those of labels (`Schema.NodeTable`).
-/

namespace GraphSql.Schema

variable {s : Schema}

theorem mem_of_labelTable {l : LabelRef} {e : LabelTable} (h : s.labelTable l = .ok e) :
    e ∈ s.labelTables := by
  unfold labelTable at h
  split at h
  · rename_i hfound
    cases h
    exact List.mem_of_find?_eq_some hfound
  · cases h

theorem typeTable_eq_ok {type : String} {e : TypeTable} :
    s.typeTable type = .ok e ↔ s.typeTable? type = some e := by
  unfold typeTable
  split
  · rename_i e' hfound
    rw [hfound, Except.ok.injEq, Option.some.injEq]
  · rename_i hnone
    simp [hnone]

theorem mem_of_typeTable {type : String} {e : TypeTable} (h : s.typeTable type = .ok e) :
    e ∈ s.typeTables :=
  List.mem_of_find?_eq_some (typeTable_eq_ok.mp h)

/-! ## Names of tables -/

/-- The table of all nodes, or that of a mapped set of labels. -/
def NodeTable (s : Schema) (table : String) : Prop :=
  table = nodesTable ∨ ∃ e ∈ s.labelTables, e.table = table

/-- The names of all tables. -/
def tableNames (s : Schema) : List String := s.tables.map Prod.fst

theorem NodeTable.mem_tableNames {table : String} (h : s.NodeTable table) :
    table ∈ s.tableNames := by
  rcases h with rfl | ⟨e, he, rfl⟩
  · exact List.mem_cons_self
  · have hmem : (e.table, e.columns) ∈ s.tables := by
      simpa [tables] using .inr (.inr (.inl ⟨e, he, rfl, rfl⟩))
    exact List.mem_map.mpr ⟨_, hmem, rfl⟩

theorem edgesTable_mem_tableNames (s : Schema) : edgesTable ∈ s.tableNames :=
  List.mem_cons_of_mem _ List.mem_cons_self

theorem mem_tableNames_of_columnsOfTable {table : String} {columns : List Column}
    (h : s.columnsOfTable table = .ok columns) : table ∈ s.tableNames := by
  unfold columnsOfTable at h
  split at h
  · rename_i htable
    exact NodeTable.mem_tableNames (.inl htable)
  · split at h
    · rename_i htable
      exact htable ▸ edgesTable_mem_tableNames s
    · split at h
      · rename_i e he
        refine NodeTable.mem_tableNames (.inr ⟨e, List.mem_of_find?_eq_some he, ?_⟩)
        simpa using List.find?_some he
      · cases h

/-! ## Merged columns -/

/-- Merged columns come from the lists that are merged. -/
theorem mem_of_mem_distinct {c : Column} : ∀ {cs : List Column}, c ∈ Column.distinct cs → c ∈ cs
  | [], h => by simp [Column.distinct] at h
  | d :: ds, h => by
    rcases List.mem_cons.mp h with rfl | h
    · exact List.mem_cons_self
    · exact List.mem_cons_of_mem d (mem_of_mem_distinct (List.mem_of_mem_filter h))

theorem exists_of_mem_merge {c : Column} {groups : List (List Column)}
    (h : c ∈ Column.merge groups) : ∃ cs ∈ groups, c ∈ cs :=
  List.mem_flatten.mp (mem_of_mem_distinct h)

/-- Columns in front are not merged away. -/
theorem mem_distinct_append {c : Column} :
    ∀ {cs ds : List Column}, c ∈ Column.distinct cs → c ∈ Column.distinct (cs ++ ds)
  | [], _, h => by simp [Column.distinct] at h
  | d :: cs, ds, h => by
    rw [Column.distinct] at h
    rw [List.cons_append, Column.distinct]
    rcases List.mem_cons.mp h with rfl | h
    · exact List.mem_cons_self
    · obtain ⟨hmem, hd⟩ := List.mem_filter.mp h
      exact List.mem_cons_of_mem d (List.mem_filter.mpr ⟨mem_distinct_append hmem, hd⟩)

theorem mem_merge_cons {c : Column} {cs : List Column} {groups : List (List Column)}
    (h : c ∈ Column.distinct cs) : c ∈ Column.merge (cs :: groups) :=
  mem_distinct_append h

/-- The columns that every table has are named differently. -/
theorem mem_distinct_core : (∀ c ∈ coreEdgeColumns, c ∈ Column.distinct coreEdgeColumns) ∧
    idColumn ∈ Column.distinct coreNodeColumns ∧ idColumn ∈ Column.distinct [idColumn] := by
  decide +kernel

theorem mem_merge_coreEdgeColumns {c : Column} (h : c ∈ coreEdgeColumns)
    (groups : List (List Column)) : c ∈ Column.merge (coreEdgeColumns :: groups) :=
  mem_merge_cons (mem_distinct_core.1 c h)

/-! ## What is built -/

variable {d : Declaration}

/-- An entry as it is declared for a label: `id` comes before the declared columns. -/
def LabelTable.Declared (l : String × Definition) (e : LabelTable) : Prop :=
  e.text = l.1 ∧ ∃ cs, l.2.read = .ok cs ∧ e.columns = Column.merge [[idColumn], cs]

/-- An entry as it is declared for a relationship type. -/
def TypeTable.Declared (l : String × Definition) (e : TypeTable) : Prop :=
  e.name = l.1 ∧ l.2.read = .ok e.columns

/-- **What a schema is built of.** -/
theorem exists_entries_of_build (h : build d = .ok s) : ∃ labels types nodes edges,
    List.Forall₂ LabelTable.Declared d.labels labels ∧ List.Forall₂ TypeTable.Declared d.types types ∧
      d.nodeColumns.mapM Definition.read = .ok nodes ∧ d.edgeColumns.mapM Definition.read = .ok edges ∧
      s = ofEntries (labels.foldl putLabel []) (types.foldl putType []) nodes edges := by
  obtain ⟨labels, hlabels, h⟩ := Except.bind_eq_ok.mp h
  obtain ⟨types, htypes, h⟩ := Except.bind_eq_ok.mp h
  obtain ⟨nodes, hnodes, h⟩ := Except.bind_eq_ok.mp h
  obtain ⟨edges, hedges, h⟩ := Except.bind_eq_ok.mp h
  refine ⟨labels, types, nodes, edges, ?_, ?_, hnodes, hedges, (Except.pure_eq_ok.mp h).symm⟩
  · refine (Except.forall₂_of_mapM hlabels).imp fun l e he => ?_
    obtain ⟨cs, hcs, he⟩ := Except.bind_eq_ok.mp he
    cases he
    exact ⟨rfl, cs, hcs, rfl⟩
  · refine (Except.forall₂_of_mapM htypes).imp fun l e he => ?_
    obtain ⟨cs, hcs, he⟩ := Except.bind_eq_ok.mp he
    cases he
    exact ⟨rfl, hcs⟩

theorem merge_of_build_nodes (h : build d = .ok s) :
    ∃ groups, s.nodeColumns = Column.merge (coreNodeColumns :: groups) ∧
      (d.nodeColumns = none → groups = s.labelTables.map LabelTable.columns) := by
  obtain ⟨labels, types, nodes, edges, -, -, hnodes, -, rfl⟩ := exists_entries_of_build h
  refine ⟨_, rfl, fun hnone => ?_⟩
  rw [hnone] at hnodes
  cases hnodes
  rfl

theorem merge_of_build_edges (h : build d = .ok s) :
    ∃ groups, s.edgeColumns = Column.merge (coreEdgeColumns :: groups) ∧
      (d.edgeColumns = none → groups = s.typeTables.map TypeTable.columns) := by
  obtain ⟨labels, types, nodes, edges, -, -, -, hedges, rfl⟩ := exists_entries_of_build h
  refine ⟨_, rfl, fun hnone => ?_⟩
  rw [hnone] at hedges
  cases hedges
  rfl

theorem declared_of_build (h : build d = .ok s) :
    (∀ e ∈ s.labelTables, ∃ l ∈ d.labels, LabelTable.Declared l e) ∧
      ∀ e ∈ s.typeTables, ∃ l ∈ d.types, TypeTable.Declared l e := by
  obtain ⟨labels, types, nodes, edges, hlabels, htypes, -, -, rfl⟩ := exists_entries_of_build h
  refine ⟨fun e he => ?_, fun e he => ?_⟩
  · exact hlabels.exists_of_mem_right ((mem_of_mem_foldl_putBy he).resolve_left List.not_mem_nil)
  · exact htypes.exists_of_mem_right ((mem_of_mem_foldl_putBy he).resolve_left List.not_mem_nil)

/-- The columns that identify nodes and edges are there. -/
structure Complete (s : Schema) : Prop where
  nodes : nodeId ∈ s.nodeColumns.map Column.name
  labels : ∀ e ∈ s.labelTables, nodeId ∈ e.columns.map Column.name
  edges : ∀ c ∈ coreEdgeColumns, c ∈ s.edgeColumns

/-- **A schema that was built is complete.** -/
theorem complete_of_build (h : build d = .ok s) : s.Complete := by
  obtain ⟨nodes, hnodes, -⟩ := merge_of_build_nodes h
  obtain ⟨edges, hedges, -⟩ := merge_of_build_edges h
  refine ⟨?_, fun e he => ?_, fun c hc => hedges ▸ mem_merge_coreEdgeColumns hc _⟩
  · rw [hnodes]
    exact List.mem_map.mpr ⟨idColumn, mem_merge_cons mem_distinct_core.2.1, rfl⟩
  · obtain ⟨l, -, -, cs, -, hcolumns⟩ := (declared_of_build h).1 e he
    rw [hcolumns]
    exact List.mem_map.mpr ⟨idColumn, mem_merge_cons mem_distinct_core.2.2, rfl⟩

end GraphSql.Schema
