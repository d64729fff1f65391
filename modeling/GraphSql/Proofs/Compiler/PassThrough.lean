import GraphSql.Proofs.Compiler.Results
import GraphSql.Proofs.Query.Shape
import GraphSql.Proofs.Scope.Columns
import GraphSql.Proofs.Scope.Mirror
import GraphSql.Proofs.Scope.References

/-!
# Passing nodes through a temporary table

A query whose projection in the middle only passes node variables on says the same as the query
without it.  The first stage writes all columns of these nodes into a temporary table, under new
names, and the second stage looks everything up there.  When the columns of the temporary table are
replaced by what the first stage wrote into them (`Scope.written`), the second stage is the query
in one stage: the same output columns, in the same order and with the same names, and the same
groups and sort keys (`Compiler.readsBack_of_prepareStaged`).

The columns of a node stand in the temporary table in the order of its table (`Scope.Passed`), so
that looking a key up finds the same column in both.  A node as a whole is its id, which is the
first column of every table of nodes (`Schema.head?_nodeTables`).
-/

namespace GraphSql

variable {name : String}

/-! ## Tables of nodes -/

namespace Schema

/-- The columns of all tables of nodes. -/
def nodeTables (s : Schema) : List (List Column) :=
  s.nodeColumns :: s.labelTables.map LabelTable.columns

/-- The columns of a table of nodes are merged behind the id. -/
theorem exists_distinct_nodeTables {s : Schema} {d : Declaration} (h : build d = .ok s) :
    ∀ columns ∈ s.nodeTables, ∃ rest, columns = Column.distinct (idColumn :: rest) := by
  intro columns hcolumns
  rcases List.mem_cons.mp hcolumns with rfl | hcolumns
  · obtain ⟨groups, hnodes, -⟩ := merge_of_build_nodes h
    exact ⟨_, hnodes⟩
  · obtain ⟨e, he, rfl⟩ := List.mem_map.mp hcolumns
    obtain ⟨l, -, -, cs, -, hcolumns⟩ := (declared_of_build h).1 e he
    exact ⟨_, hcolumns⟩

/-- The id comes first in every table of nodes. -/
theorem head?_nodeTables {s : Schema} {d : Declaration} (h : build d = .ok s) :
    ∀ columns ∈ s.nodeTables, columns.head? = some idColumn := by
  intro columns hcolumns
  obtain ⟨rest, rfl⟩ := exists_distinct_nodeTables h columns hcolumns
  rfl

/-- No other column of a table of nodes has the name of the id. -/
theorem eq_idColumn {s : Schema} {d : Declaration} (h : build d = .ok s) {columns : List Column}
    (hcolumns : columns ∈ s.nodeTables) {e : Column} (he : e ∈ columns)
    (hname : Text.sameName e.name nodeId = true) : e = idColumn := by
  obtain ⟨rest, rfl⟩ := exists_distinct_nodeTables h columns hcolumns
  rcases List.mem_cons.mp he with rfl | he
  · rfl
  · obtain ⟨-, hother⟩ := List.mem_filter.mp he
    have hid : idColumn.name = nodeId := rfl
    rw [hid, hname] at hother
    cases hother

end Schema

namespace Scope

variable {schema : Schema} {s : Scope} {x table : String} {columns : List Column}
  {cs : List ResultColumn} {d : Column}

/-- The variable `x` ranges over a table of nodes with the given columns. -/
def OverNodes (schema : Schema) (s : Scope) (x table : String) (columns : List Column) : Prop :=
  columns ∈ schema.nodeTables ∧
    ∃ n labels, s.node? x = some n ∧ n.source = .stored table columns labels

theorem stored_of_nodeSource {labels : List String} {source : NodeSource}
    (h : nodeSource schema {} x labels = .ok source) :
    ∃ table columns labels, source = .stored table columns labels ∧
      columns ∈ schema.nodeTables := by
  cases sourceOf_nodeSource h with
  | derived hr => cases hr
  | nodes _ => exact ⟨_, _, _, rfl, List.mem_cons_self⟩
  | @labelled e he =>
    have hmem : e ∈ schema.labelTables := Schema.mem_of_labelTable he
    exact ⟨_, _, _, rfl, List.mem_cons_of_mem _ (List.mem_map_of_mem hmem)⟩

/-- Without derived relations every node variable ranges over a table of nodes. -/
theorem Ranged.exists_overNodes (h : s.Ranged schema []) (hx : x ∈ s.nodes.map BoundNode.name) :
    ∃ table columns, s.OverNodes schema x table columns := by
  obtain ⟨m, hm, rfl⟩ := List.mem_map.mp hx
  obtain ⟨n, hn⟩ : ∃ n, s.node? m.name = some n := by
    rw [← Option.isSome_iff_exists, node?, List.find?_isSome]
    exact ⟨m, hm, beq_self_eq_true m.name⟩
  obtain ⟨labels, hsource⟩ := h.nodes n (mem_of_node? hn).1
  obtain ⟨table, columns, labels, hsource, hcolumns⟩ := stored_of_nodeSource hsource
  exact ⟨table, columns, hcolumns, n, labels, hn, hsource⟩

theorem OverNodes.stored? (h : s.OverNodes schema x table columns) :
    s.stored? x = some (table, columns) := by
  obtain ⟨-, n, labels, hn, hsource⟩ := h
  rw [Scope.stored?, hn]
  dsimp only
  rw [hsource]

theorem OverNodes.lookupName (h : s.OverNodes schema x table columns) :
    s.lookupName x = .ok { expr := .column x Schema.nodeId, type := some .bigint,
                           origin := some ⟨table, some Schema.nodeId⟩ } := by
  obtain ⟨-, n, labels, hn, hsource⟩ := h
  rw [Scope.lookupName, hn]
  dsimp only
  rw [hsource]

/-! ## What the first stage writes -/

/-- The output column `c` has what the column `d` of the table of `x` holds. -/
def Copies (x table : String) (d : Column) (c : ResultColumn) : Prop :=
  ∃ name, c = { name, expr := .column x d.name, scopeName := some x, key := some d.name
                type := some d.type, origin := some ⟨table, some d.name⟩ }

theorem forall₂_copies (x table : String) : ∀ (columns : List Column) (taken : List String),
    List.Forall₂ (Copies x table) columns (freshColumns taken (storedColumns x x table columns))
  | [], _ => .nil
  | _ :: ds, _ => .cons ⟨_, rfl⟩ (forall₂_copies x table ds _)

theorem Copies.scopeName {c : ResultColumn} (h : Copies x table d c) : c.scopeName = some x := by
  obtain ⟨name, rfl⟩ := h
  rfl

/-- The columns that a later stage reaches by a name. -/
def columnsOf (x : String) (cs : List ResultColumn) : List ResultColumn :=
  cs.filter fun c => c.scopeName == some x

theorem columnsOf_append (x : String) (cs ds : List ResultColumn) :
    columnsOf x (cs ++ ds) = columnsOf x cs ++ columnsOf x ds :=
  List.filter_append _ _

/-- Copies of the columns of `x` are reached by `x` and by no other name. -/
theorem columnsOf_copies (h : List.Forall₂ (Copies x table) columns cs) (y : String) :
    columnsOf y cs = if y = x then cs else [] := by
  induction h with
  | nil => exact (ite_self _).symm
  | cons hc _ ih =>
    rw [columnsOf] at ih
    rw [columnsOf, List.filter_cons, hc.scopeName, ih]
    by_cases hy : y = x
    · simp [hy]
    · simp [hy, Ne.symm hy]

/-- The output columns are copies of the columns of the given nodes, each node in the order of its
table. -/
structure Passed (schema : Schema) (s : Scope) (names : List String) (cs : List ResultColumn) :
    Prop where
  inside : ∀ x ∈ names, ∀ table columns, s.OverNodes schema x table columns →
    List.Forall₂ (Copies x table) columns (columnsOf x cs)
  outside : ∀ x, x ∉ names → columnsOf x cs = []

/-- **One more node is passed on.** -/
theorem Passed.addItem {names : List String} {p : Projected}
    (h : Passed schema s names p.columns) (hx : x ∉ names)
    (hover : s.OverNodes schema x table columns) (k : Nat) :
    ∃ p', s.addItem p ({ expr := .var x }, k) = .ok p' ∧
      Passed schema s (names ++ [x]) p'.columns := by
  have hcolumns : s.variableColumns x x = .ok (storedColumns x x table columns) := by
    rw [variableColumns, hover.stored?]
  have hcopies := forall₂_copies x table columns (p.columns.map ResultColumn.name)
  refine ⟨_, Except.bind_eq_ok.mpr ⟨_, hcolumns, rfl⟩, fun y hy table' columns' hover' => ?_,
    fun y hy => ?_⟩
  · dsimp only
    rw [columnsOf_append, columnsOf_copies hcopies]
    by_cases hyx : y = x
    · subst hyx
      have hsame := hover.stored?.symm.trans hover'.stored?
      cases hsame
      rw [h.outside y hx, if_pos rfl, List.nil_append]
      exact hcopies
    · have hmem : y ∈ names := by
        rcases List.mem_append.mp hy with hy | hy
        · exact hy
        · exact absurd (List.mem_singleton.mp hy) hyx
      rw [if_neg hyx, List.append_nil]
      exact h.inside y hmem table' columns' hover'
  · dsimp only
    rw [List.mem_append, List.mem_singleton, not_or] at hy
    rw [columnsOf_append, columnsOf_copies hcopies, h.outside y hy.1, if_neg hy.2, List.nil_append]

theorem Passed.addItems : ∀ {rest names : List String} {p : Projected} {k : Nat},
    Passed schema s names p.columns → (names ++ rest).Nodup →
      (∀ x ∈ rest, ∃ table columns, s.OverNodes schema x table columns) →
        ∃ p', ((rest.map fun x => ({ expr := .var x } : Query.ReturnItem)).zipIdx k).foldlM
            s.addItem p = .ok p' ∧ Passed schema s (names ++ rest) p'.columns
  | [], names, p, k, h, _, _ => ⟨p, rfl, by rwa [List.append_nil]⟩
  | x :: rest, names, p, k, h, hnodup, hover => by
    obtain ⟨table, columns, hx⟩ := hover x List.mem_cons_self
    have hnew : x ∉ names := fun hmem =>
      (List.nodup_append.mp hnodup).2.2 x hmem x List.mem_cons_self rfl
    obtain ⟨p₁, hp₁, hpassed⟩ := h.addItem hnew hx k
    have hassoc : names ++ x :: rest = names ++ [x] ++ rest := by simp
    obtain ⟨p', hp', hrest⟩ := hpassed.addItems (k := k + 1) (hassoc ▸ hnodup)
      fun y hy => hover y (List.mem_cons_of_mem x hy)
    refine ⟨p', ?_, hassoc ▸ hrest⟩
    rw [List.map_cons, List.zipIdx_cons, List.foldlM_cons]
    exact Except.bind_eq_ok.mpr ⟨p₁, hp₁, hp'⟩

/-- **Node variables are passed on.** -/
theorem passed_project {names : List String} (hnodup : names.Nodup)
    (hover : ∀ x ∈ names, ∃ table columns, s.OverNodes schema x table columns) :
    ∃ p, s.project (Query.Projection.ofNames names).items = .ok p ∧
      Passed schema s names p.columns := by
  have hstart : Passed schema s [] ({} : Projected).columns := ⟨by simp, fun _ _ => rfl⟩
  exact hstart.addItems hnodup hover

/-! ## What the second stage reads -/

section

variable {r : Relation} {key : String} {c : ResultColumn}

theorem property?_eq (r : Relation) (x key : String) :
    r.property? x key = (columnsOf x r.columns).find? fun c =>
      match c.key with
      | some k => k != "" && Text.sameName k key
      | none => false := by
  simp only [columnsOf, List.find?_filter, Bool.decide_and, Bool.decide_eq_true]
  rfl

theorem properties_eq (r : Relation) (x : String) :
    r.properties x = (columnsOf x r.columns).filter fun c => c.key.isSome := by
  rw [columnsOf, List.filter_filter]
  exact List.filter_congr fun c _ => Bool.and_comm _ _

theorem whole?_eq (r : Relation) (x : String) :
    r.whole? x = (columnsOf x r.columns).find? fun c => c.key == none := by
  simp only [columnsOf, List.find?_filter, Bool.decide_and, Bool.decide_eq_true]
  rfl

/-- A key is found among the copies where it is found in the table. -/
theorem property?_of_copies (h : List.Forall₂ (Copies x table) columns (columnsOf x r.columns))
    (hnames : ∀ d ∈ columns, d.name ≠ "") (hd : Column.find? columns key = some d) :
    ∃ c, r.property? x key = some c ∧ Copies x table d c := by
  rw [property?_eq]
  rw [Column.find?] at hd
  generalize columnsOf x r.columns = cs at h
  induction h with
  | nil => cases hd
  | @cons e c es cs hc _ ih =>
    have htest : (match c.key with
        | some k => k != "" && Text.sameName k key
        | none => false) = Text.sameName e.name key := by
      obtain ⟨name, rfl⟩ := hc
      simp [hnames e List.mem_cons_self]
    rw [List.find?_cons] at hd
    rw [List.find?_cons, htest]
    split at hd
    · cases hd
      exact ⟨c, rfl, hc⟩
    · exact ih (fun d hd => hnames d (List.mem_cons_of_mem e hd)) hd

theorem keys_of_copies (h : List.Forall₂ (Copies x table) columns cs) :
    (cs.filter fun c => c.key.isSome) = cs ∧ (cs.find? fun c => c.key == none) = none := by
  induction h with
  | nil => exact ⟨rfl, rfl⟩
  | cons hc _ ih =>
    obtain ⟨name, rfl⟩ := hc
    rw [List.filter_cons, List.find?_cons, ih.1, ih.2]
    exact ⟨rfl, rfl⟩

/-- The scope in which a variable ranges over a relation. -/
def reading (name : String) (r : Relation) : Scope where
  relations := [(name, r)]
  nodes := [{ name, source := .derived r }]
  sources := [⟨r.name, name, .cross⟩]

theorem derived_reading (name : String) (r : Relation) : (reading name r).derived = [(name, r)] :=
  rfl

theorem stored?_reading (name : String) (r : Relation) (x : String) :
    (reading name r).stored? x = none := by
  rw [stored?, node?, reading, List.find?_singleton]
  by_cases hx : name == x
  · rw [if_pos hx]
  · rw [if_neg hx]
    rfl

theorem lookupProperty_reading (name : String) (h : r.property? x key = some c) :
    (reading name r).lookupProperty x key = .ok (c.resolved name) := by
  rw [lookupProperty, stored?_reading, derived_reading]
  simp [h]

theorem lookupName_reading (name : String) (h : r.key? x = some c) :
    (reading name r).lookupName x = .ok (c.resolved name) := by
  have hderived : (reading name r).lookupDerived x = .ok (c.resolved name) := by
    rw [lookupDerived, derived_reading]
    simp [h]
  rw [lookupName, node?, reading, List.find?_singleton]
  by_cases hx : name == x
  · rw [if_pos hx]
    exact hderived
  · rw [if_neg hx]
    exact hderived

theorem lookupProperty_reading_eq_ok {resolved : Resolved}
    (h : (reading name r).lookupProperty x key = .ok resolved) :
    ∃ c, r.property? x key = some c ∧ resolved = c.resolved name := by
  rcases lookupProperty_eq_ok h with ⟨table, columns, c, hstored, -⟩ | ⟨p, hp, c, hc, he⟩
  · rw [stored?_reading] at hstored
    cases hstored
  · obtain rfl := List.mem_singleton.mp hp
    exact ⟨c, hc, he⟩

theorem lookupName_reading_eq_ok {resolved : Resolved}
    (h : (reading name r).lookupName x = .ok resolved) :
    ∃ c, r.key? x = some c ∧ resolved = c.resolved name := by
  rcases lookupName_eq_ok h with ⟨n, table, columns, labels, hn, hs, -⟩ | ⟨e, he, -⟩ |
    ⟨p, hp, c, hc, he⟩
  · obtain rfl := List.mem_singleton.mp (mem_of_node? hn).1
    cases hs
  · cases (mem_of_edge? he).1
  · obtain rfl := List.mem_singleton.mp hp
    exact ⟨c, hc, he⟩

/-- A variable that is read from a relation has one column, or those of its properties. -/
theorem variableColumn_reading_cases {scope : String} {c : ResultColumn}
    (h : (reading name r).VariableColumn x scope c) :
    (∃ d, r.whole? x = some d ∧
        c = { name := scope, expr := .column name d.name, scopeName := some scope, type := d.type
              isList := d.isList, origin := d.origin }) ∨
      ∃ d ∈ r.properties x,
        c = { name := scope ++ "_" ++ d.key.getD "", expr := .column name d.name
              scopeName := some scope, key := d.key, type := d.type, isList := d.isList
              origin := d.origin } := by
  cases h with
  | stored hstored =>
    rw [stored?_reading] at hstored
    cases hstored
  | whole hp hd =>
    obtain rfl := List.mem_singleton.mp hp
    exact .inl ⟨_, hd, rfl⟩
  | member hp hd =>
    obtain rfl := List.mem_singleton.mp hp
    exact .inr ⟨_, hd, rfl⟩

theorem variableColumns_reading (name : String) {scope : String}
    (h : derivedColumns x scope name r = some cs) :
    (reading name r).variableColumns x scope = .ok cs := by
  rw [variableColumns, stored?_reading, derived_reading]
  simp [h]

end

/-! ## Both stages together -/

/-- What was written into a column of the relation that goes by the given name. -/
def written (name : String) (cs : List ResultColumn) (x c : String) : Relational.Expr :=
  if x = name then
    match cs.find? fun d => d.name == c with
    | some d => d.expr
    | none => .column x c
  else .column x c

theorem written_of_mem (hcs : DistinctColumns cs) {c : ResultColumn} (hc : c ∈ cs) :
    written name cs name c.name = c.expr := by
  obtain ⟨d, hd⟩ : ∃ d, cs.find? (fun d => d.name == c.name) = some d := by
    rw [← Option.isSome_iff_exists, List.find?_isSome]
    exact ⟨c, hc, beq_self_eq_true c.name⟩
  have hname : d.name = c.name := by simpa using List.find?_some hd
  rw [written, if_pos rfl, hd, hcs.eq_of_name (List.mem_of_find?_eq_some hd) hc hname]

theorem mapColumns_copy (name : String) (hcs : DistinctColumns cs) {c : ResultColumn} (hc : c ∈ cs)
    (h : Copies x table d c) :
    (Relational.Expr.column name c.name).mapColumns (written name cs) = .column x d.name := by
  rw [Relational.Expr.mapColumns, written_of_mem hcs hc]
  obtain ⟨name, rfl⟩ := h
  rfl

theorem resolved_copy (hcs : DistinctColumns cs) {c : ResultColumn} (hc : c ∈ cs)
    (h : Copies x table d c) :
    (c.resolved name).mapColumns (written name cs) =
      { expr := .column x d.name, type := some d.type, origin := some ⟨table, some d.name⟩ } := by
  rw [Resolved.mapColumns, ResultColumn.resolved, mapColumns_copy name hcs hc h]
  obtain ⟨name, rfl⟩ := h
  rfl

/-- The whole columns of a node, read back. -/
theorem map_copies {scope : String} {ds : List ResultColumn} (hcs : DistinctColumns cs)
    (hds : ∀ c ∈ ds, c ∈ cs) (h : List.Forall₂ (Copies x table) columns ds) :
    (ds.map fun c => ({ name := scope ++ "_" ++ c.key.getD "", expr := .column name c.name
                        scopeName := some scope, key := c.key, type := c.type, isList := c.isList
                        origin := c.origin } : ResultColumn)).map
        (ResultColumn.mapColumns (written name cs)) =
      storedColumns x scope table columns := by
  induction h with
  | nil => rfl
  | cons hc _ ih =>
    have hexpr := mapColumns_copy name hcs (hds _ List.mem_cons_self) hc
    rw [List.map_cons, List.map_cons, ih fun c hc => hds c (List.mem_cons_of_mem _ hc),
      ResultColumn.mapColumns, hexpr]
    obtain ⟨name, rfl⟩ := hc
    rfl

/-- **The second stage resolves the nodes that were passed on as the first one does.** -/
theorem mirrors_reading {names : List String} (name : String) (r : Relation)
    (hhead : ∀ columns ∈ schema.nodeTables, columns.head? = some Schema.idColumn)
    (hnames : ∀ columns ∈ schema.nodeTables, ∀ d ∈ columns, d.name ≠ "")
    (hover : ∀ x ∈ names, ∃ table columns, s.OverNodes schema x table columns)
    (hpassed : Passed schema s names r.columns) (hdistinct : DistinctColumns r.columns) :
    Mirrors (written name r.columns) names s (reading name r) := by
  have hfound : ∀ x ∈ names, ∀ table columns, s.OverNodes schema x table columns →
      ∀ key d, Column.find? columns key = some d →
        ∃ c ∈ r.columns, r.property? x key = some c ∧ Copies x table d c := by
    intro x hx table columns hx' key d hd
    obtain ⟨c, hc, hcopy⟩ := property?_of_copies (hpassed.inside x hx table columns hx')
      (hnames columns hx'.1) hd
    exact ⟨c, mem_of_property? hc, hc, hcopy⟩
  constructor
  · -- a node as a whole is its id, in both stages
    intro x hx
    obtain ⟨table, columns, hx'⟩ := hover x hx
    have hid : Column.find? columns Schema.nodeId = some Schema.idColumn := by
      have hcolumns := hhead columns hx'.1
      cases columns with
      | nil => cases hcolumns
      | cons d ds =>
        cases hcolumns
        rw [Column.find?, List.find?_cons_of_pos (by decide +kernel)]
    obtain ⟨c, hmem, hc, hcopy⟩ := hfound x hx table columns hx' Schema.nodeId _ hid
    have hkey : r.key? x = some c := by rw [Relation.key?, hc]
    rw [hx'.lookupName, lookupName_reading name hkey]
    exact .ok (resolved_copy hdistinct hmem hcopy)
  · intro x hx key
    obtain ⟨table, columns, hx'⟩ := hover x hx
    rw [lookupProperty, hx'.stored?]
    dsimp only
    split
    · rename_i d hd
      obtain ⟨c, hmem, hc, hcopy⟩ := hfound x hx table columns hx' key d hd
      rw [lookupProperty_reading name hc]
      exact .ok (resolved_copy hdistinct hmem hcopy)
    · exact .error _
  · intro x hx scope
    obtain ⟨table, columns, hx'⟩ := hover x hx
    have hcopies := hpassed.inside x hx table columns hx'
    obtain ⟨hsome, hnone⟩ := keys_of_copies hcopies
    have hnonempty : columnsOf x r.columns ≠ [] := by
      intro hnil
      rw [hnil, List.forall₂_nil_right_iff] at hcopies
      have hcolumns := hhead columns hx'.1
      rw [hcopies] at hcolumns
      cases hcolumns
    have hderived : derivedColumns x scope name r = some ((columnsOf x r.columns).map fun c =>
        { name := scope ++ "_" ++ c.key.getD "", expr := .column name c.name
          scopeName := some scope, key := c.key, type := c.type, isList := c.isList
          origin := c.origin }) := by
      rw [derivedColumns, whole?_eq, hnone]
      dsimp only
      rw [properties_eq, hsome]
      split
      · rename_i hnil
        exact absurd hnil hnonempty
      · rfl
    rw [variableColumns, hx'.stored?, variableColumns_reading name hderived]
    exact .ok (map_copies hdistinct (fun c hc => List.mem_of_mem_filter hc) hcopies)

end Scope

/-! ## Plans -/

open Query (Matching Projection WithProjection)

namespace Plan

/-- An expression of a second stage with what the first one wrote in place of its columns. -/
def writtenOut (first : Plan) : Relational.Expr → Relational.Expr :=
  Relational.Expr.mapColumns (Scope.written first.firstName first.projection)

/-- The first stage finds the rows of the plan in one stage, and the second one keeps them all.
With what the first stage wrote in place of its columns, the second stage is this plan: it has the
same output columns, groups, sort keys and bounds. -/
structure ReadsBack (first second plan : Plan) : Prop where
  sources : first.select.sources = plan.select.sources
  conditions : first.select.conditions = plan.select.conditions
  unfiltered : second.select.conditions = []
  projection : second.projection.map (fun c => { c with expr := first.writtenOut c.expr }) =
    plan.projection
  items : second.select.items.map (fun i => { i with expr := first.writtenOut i.expr }) =
    plan.select.items
  groupBy : second.select.groupBy.map first.writtenOut = plan.select.groupBy
  orderBy : second.select.orderBy.map (fun i => { i with expr := first.writtenOut i.expr }) =
    plan.select.orderBy
  offset : second.select.offset.map first.writtenOut = plan.select.offset
  limit : second.select.limit.map first.writtenOut = plan.select.limit
  distinct : second.select.distinct = plan.select.distinct

variable {schema : Schema} {ms : List Matching} {p : Projection} {plan : Plan}
  {names : List String}

/-- The plan of a second stage is a projection of what it reads. -/
theorem selects_reading {r : Relation} {condition : Option Query.Expr}
    (h : ofClauses schema [(name, r)] [.reading name condition] p = .ok plan) :
    ∃ projected compiled, plan.projection = projected.columns ∧
      (Scope.reading name r).Selects condition.toList p projected compiled plan.select := by
  obtain ⟨s, projected, compiled, select, hs, hselect, rfl⟩ := ofClauses_eq_ok.mp h
  cases (addPatterns_relation schema name r).symm.trans hs
  refine ⟨projected, compiled, rfl, ?_⟩
  cases condition with
  | none => exact hselect
  | some e => exact hselect

/-- The first stage succeeds when the patterns and conditions do, and passes the nodes on. -/
theorem exists_first {s : Scope} {compiled : List Relational.Expr} (hnodup : names.Nodup)
    (hs : Scope.addPatterns schema {} (ms.flatMap Matching.patterns) = .ok s)
    (hconditions : s.compileAll (ms.filterMap Matching.condition) = .ok compiled)
    (hover : ∀ x ∈ names, ∃ table columns, s.OverNodes schema x table columns) :
    ∃ first, ofClauses schema [] ms (.ofNames names) = .ok first ∧
      first.select.sources = s.sources ∧ first.select.conditions = s.conditions ++ compiled ∧
      Scope.Passed schema s names first.projection := by
  obtain ⟨projected, hprojected, hpassed⟩ := Scope.passed_project hnodup hover
  exact ⟨_, ofClauses_eq_ok.mpr ⟨s, projected, compiled, ⟨_, _, _, _, _, [], none, none⟩, hs,
    ⟨hprojected, hconditions, rfl, rfl, rfl, rfl, rfl, rfl, rfl, rfl⟩, rfl⟩, rfl, rfl, hpassed⟩

/-- **A second stage over nodes that were passed on is the plan in one stage.** -/
theorem exists_readsBack
    (hhead : ∀ columns ∈ schema.nodeTables, columns.head? = some Schema.idColumn)
    (hnames : ∀ columns ∈ schema.nodeTables, ∀ d ∈ columns, d.name ≠ "")
    (hplan : ofClauses schema [] ms p = .ok plan) (hnodup : names.Nodup)
    (hbound : ∀ x ∈ names, x ∈ plan.nodes.map BoundNode.name)
    (hitems : ∀ i ∈ p.items, i.expr.mentioned ⊆ names)
    (horder : ∀ key ∈ p.orderBy, key.expr.mentioned ⊆ names ∨
      (Scope.wholeOutput? plan.projection key.expr).isSome = true)
    (hskip : ∀ e ∈ p.skip, e.mentioned ⊆ names) (hlimit : ∀ e ∈ p.limit, e.mentioned ⊆ names) :
    ∃ first, ofClauses schema [] ms (.ofNames names) = .ok first ∧
      ∀ table, ∃ second, ofClauses schema [(first.firstName, first.relation table)]
        [.reading first.firstName none] p = .ok second ∧
          second.select.sources = [⟨table, first.firstName, .cross⟩] ∧
          ReadsBack first second plan := by
  obtain ⟨s, projected, compiled, select, hs, hselect, rfl⟩ := ofClauses_eq_ok.mp hplan
  have hover : ∀ x ∈ names, ∃ table columns, s.OverNodes schema x table columns := fun x hx =>
    (Scope.ranged_of_addPatterns hs).exists_overNodes (hbound x hx)
  obtain ⟨first, hfirst, hsources, hconditions, hpassed⟩ := 
    exists_first hnodup hs hselect.compileAll_eq hover
  refine ⟨first, hfirst, fun table => ?_⟩
  have hmirrors : Scope.Mirrors (Scope.written first.firstName first.projection) names s
      (Scope.reading first.firstName (first.relation table)) :=
    Scope.mirrors_reading first.firstName (first.relation table) hhead hnames hover hpassed
      (distinct_projection hfirst)
  -- each part of the plan succeeds in the second stage as well, and is read back
  obtain ⟨projected, hprojected, rfl⟩ := hmirrors.project hitems _ hselect.project_eq
  have hsortKey : ∀ key ∈ p.orderBy, Except.Mirrors
      (Relational.OrderItem.mapColumns (Scope.written first.firstName first.projection))
      (s.sortKey (projected.columns.map (ResultColumn.mapColumns
        (Scope.written first.firstName first.projection))) key)
      ((Scope.reading first.firstName (first.relation table)).sortKey projected.columns key) := by
    intro key hkey
    refine hmirrors.sortKey projected.columns ((horder key hkey).imp_right fun hwhole => ?_)
    rw [← Option.isSome_map, ← Scope.wholeOutput?_mapColumns]
    exact hwhole
  obtain ⟨orderBy, horderBy, horder⟩ := Except.Mirrors.mapM hsortKey _ hselect.orderBy_eq
  obtain ⟨offset, hoffset, hskip⟩ := Except.Mirrors.option_mapM
    (fun e he => hmirrors.compile e (hskip e he)) _ hselect.offset_eq
  obtain ⟨limit, hlimit, hbound⟩ := Except.Mirrors.option_mapM
    (fun e he => hmirrors.compile e (hlimit e he)) _ hselect.limit_eq
  refine ⟨_, ofClauses_eq_ok.mpr ⟨_, projected, [], ⟨_, _, _, _, _, orderBy, offset, limit⟩,
    addPatterns_relation schema _ _, ⟨hprojected, rfl, horderBy, hoffset, hlimit, rfl, rfl, rfl, rfl,
      rfl⟩, rfl⟩, rfl, hsources.trans hselect.sources.symm, hconditions.trans hselect.conditions.symm,
    rfl, rfl, ?_, ?_, horder, hskip, hbound, hselect.distinct.symm⟩
  · show (projected.columns.map ResultColumn.item).map _ = select.items
    rw [hselect.items]
    show _ = (projected.columns.map _).map ResultColumn.item
    rw [List.map_map, List.map_map]
    rfl
  · show (if p.items.any fun i => i.expr.aggregates then projected.keys else []).map _ = select.groupBy
    rw [hselect.groupBy, apply_ite (List.map _)]
    rfl

/-- A plan is only made of one or more match clauses. -/
theorem ofClauses_of_ofQuery
    (h : ofQuery schema [] (ms.map .matching ++ [.returning p]) = .ok (some plan)) :
    ms ≠ [] ∧ ofClauses schema [] ms p = .ok plan := by
  have hms : ms ≠ [] := by
    rintro rfl
    cases h
  rw [ofQuery, Query.plain?_append hms] at h
  obtain ⟨plan, hplan, h⟩ := Except.map_eq_ok.mp h
  cases h
  exact ⟨hms, hplan⟩

end Plan

/-! ## Queries in stages -/

namespace Compiler

variable {c : Compiler} {k : Nat}

theorem run_plan {relations : List (String × Relation)} {ms : List Matching} {p : Projection}
    {plan : Plan} (h : Plan.ofClauses c.schema relations ms p = .ok plan) :
    (c.plan relations ms p).run.run k = (.ok plan, k) := by
  rw [Compiler.plan, h]
  rfl

/-- A projection in the middle that only passes variables on does not change the final one. -/
theorem finalProjection_ofNames (names : List String) (p : Projection) :
    finalProjection { toProjection := .ofNames names } p = p := by
  rcases p with ⟨items, distinct, _ | ⟨key, keys⟩, skip, limit⟩
  · rfl
  · rfl

/-- Both stages of a query that passes variables on. -/
theorem run_prepareStaged {ms : List Matching} {names : List String} {p : Projection}
    {first second : Plan} (hms : ms ≠ [])
    (hfirst : Plan.ofClauses c.schema [] ms (.ofNames names) = .ok first)
    (hsecond : Plan.ofClauses c.schema [(first.firstName,
        first.relation (Relational.tempName c.tempStart (c.tempSuffix (k + 1))))]
      [.reading first.firstName none] p = .ok second) :
    (c.prepareStaged (ms.map .matching ++
        [.passing { toProjection := .ofNames names }, .returning p])).run.run k =
      (.ok { setup := [.createTemp (Relational.tempName c.tempStart (c.tempSuffix (k + 1)))
               first.select]
             final := second }, k + 1) := by
  rw [prepareStaged, Query.staged?_append hms]
  refine Compile.run_bind_eq_ok.mpr ⟨first, k, run_plan hfirst, ?_⟩
  refine Compile.run_bind_eq_ok.mpr ⟨_, k + 1, rfl, ?_⟩
  rw [finalProjection_ofNames]
  exact Compile.run_bind_eq_ok.mpr ⟨second, k + 1, run_plan hsecond, rfl⟩

/-- **Passing nodes on changes nothing.**  When a query in one stage has a plan and its projection
only mentions some of its nodes, then the query that passes these nodes on first is prepared as
well.  Its first stage fills a temporary table, and its second stage, with what was written into the
columns of this table in their place, is the query in one stage. -/
theorem readsBack_of_prepareStaged {d : Schema.Declaration}
    (hschema : Schema.build d = .ok c.schema)
    (hnames : ∀ columns ∈ c.schema.nodeTables, ∀ column ∈ columns, column.name ≠ "")
    {ms : List Matching} {p : Projection} {plan : Plan} {names : List String}
    (hplan : Plan.ofQuery c.schema [] (ms.map .matching ++ [.returning p]) = .ok (some plan))
    (hnodup : names.Nodup) (hbound : ∀ x ∈ names, x ∈ plan.nodes.map BoundNode.name)
    (hitems : ∀ i ∈ p.items, i.expr.mentioned ⊆ names)
    (horder : ∀ key ∈ p.orderBy, key.expr.mentioned ⊆ names ∨
      (Scope.wholeOutput? plan.projection key.expr).isSome = true)
    (hskip : ∀ e ∈ p.skip, e.mentioned ⊆ names) (hlimit : ∀ e ∈ p.limit, e.mentioned ⊆ names)
    (k : Nat) :
    ∃ first prepared table, Plan.ofClauses c.schema [] ms (.ofNames names) = .ok first ∧
      (c.prepareStaged (ms.map .matching ++
          [.passing { toProjection := .ofNames names }, .returning p])).run.run k =
        (.ok prepared, k + 1) ∧
      prepared.setup = [.createTemp table first.select] ∧
      prepared.final.select.sources = [⟨table, first.firstName, .cross⟩] ∧
      first.ReadsBack prepared.final plan := by
  obtain ⟨hms, hplan⟩ := Plan.ofClauses_of_ofQuery hplan
  obtain ⟨first, hfirst, hstages⟩ := Plan.exists_readsBack (Schema.head?_nodeTables hschema) hnames
    hplan hnodup hbound hitems horder hskip hlimit
  obtain ⟨second, hsecond, hsources, hback⟩ :=
    hstages (Relational.tempName c.tempStart (c.tempSuffix (k + 1)))
  exact ⟨first, _, _, hfirst, run_prepareStaged hms hfirst hsecond, rfl, hsources, hback⟩

/-- People with a name and an age. -/
def peopleDeclaration : Schema.Declaration where
  labels := [("Person", .text "name TEXT, age INT")]

def peopleCompiler : Compiler where
  schema := Schema.ofEntries [⟨"Person", [Schema.idColumn, ⟨"name", .text⟩, ⟨"age", .int⟩]⟩] []
    none none

theorem build_peopleDeclaration :
    Schema.build peopleDeclaration = .ok peopleCompiler.schema := by decide +kernel

/-- The clause `MATCH (a:Person)-->(b) WHERE a.age > 3`. -/
def eldersClause : Matching where
  patterns := [⟨{ name := some "a", labels := ["Person"] },
    [⟨{ direction := .outgoing }, { name := some "b" }⟩]⟩]
  condition := some (.compare .gt (.property (.var "a") "age") (.integer 3))

/-- The projection `b, a.NAME AS name, count(a) ORDER BY name DESC, b.age LIMIT 5`. -/
def eldersProjection : Projection where
  items := [⟨.var "b", none⟩, ⟨.property (.var "a") "NAME", some "name"⟩,
    ⟨.call "count" false [.var "a"], none⟩]
  orderBy := [⟨.var "name", .descending⟩, ⟨.property (.var "b") "age", .ascending⟩]
  limit := some (.integer 5)

theorem readsBack_of_prepareStaged_elders :
    ∃ plan, Plan.ofQuery peopleCompiler.schema []
        ([eldersClause].map .matching ++ [.returning eldersProjection]) = .ok (some plan) ∧
      plan.projection.map ResultColumn.name =
        ["b_id", "b_label", "b_name", "b_age", "name", "count"] ∧
      ∃ first prepared table,
        Plan.ofClauses peopleCompiler.schema [] [eldersClause] (.ofNames ["b", "a"]) = .ok first ∧
        (peopleCompiler.prepareStaged ([eldersClause].map .matching ++
            [.passing { toProjection := .ofNames ["b", "a"] },
              .returning eldersProjection])).run.run 0 = (.ok prepared, 1) ∧
        prepared.setup = [.createTemp table first.select] ∧
        prepared.final.select.sources = [⟨table, first.firstName, .cross⟩] ∧
        first.ReadsBack prepared.final plan := by
  have hfacts : (Plan.ofQuery peopleCompiler.schema []
      ([eldersClause].map .matching ++ [.returning eldersProjection])).toOption.join.any
        (fun plan => decide (plan.nodes.map BoundNode.name = ["a", "b"]) &&
          decide (plan.projection.map ResultColumn.name =
            ["b_id", "b_label", "b_name", "b_age", "name", "count"]) &&
          (Scope.wholeOutput? plan.projection (.var "name")).isSome) = true := by decide +kernel
  rcases hplan : Plan.ofQuery peopleCompiler.schema []
    ([eldersClause].map .matching ++ [.returning eldersProjection]) with e | _ | plan
  · rw [hplan] at hfacts
    cases hfacts
  · rw [hplan] at hfacts
    cases hfacts
  · rw [hplan] at hfacts
    simp only [Except.toOption, Option.join_some, Option.any_some, Bool.and_eq_true,
      decide_eq_true_eq] at hfacts
    obtain ⟨⟨hnodes, hcolumns⟩, hname⟩ := hfacts
    have hschema : Schema.build peopleDeclaration = .ok peopleCompiler.schema := by decide +kernel
    refine ⟨plan, hplan, hcolumns, readsBack_of_prepareStaged hschema ?_ hplan ?_ ?_ ?_ ?_ ?_ ?_ 0⟩
    · decide +kernel
    · decide
    · rw [hnodes]
      decide
    · decide
    · intro key hkey
      rcases List.mem_pair.mp hkey with rfl | rfl
      · exact .inr hname
      · exact .inl (by decide)
    · intro e he
      cases he
    · intro e he
      cases he
      exact List.nil_subset _

end Compiler

end GraphSql
