import Mathlib.Data.List.Nodup
import GraphSql.Proofs.Compiler.Derivation
import GraphSql.Proofs.Compiler.PassThrough
import GraphSql.Proofs.Compiler.References
import GraphSql.Proofs.Scope.Origins

/-!
# Temporary tables

The statements of a script use tables of the schema and temporary tables.  A temporary table is made
once and before it is used, and none is made in vain: a later statement reads it (`OrderedTemps`).
This holds of every text that compiles, as long as the supply of names never repeats
(`Compiler.orderedTemps_of_compile`).

That a table was made before is read off from `GroundedScript` by the position of the statement.
That it is read later is kept along the list of statements (`MadeAreRead`); the rows of the query
before a loop are read because each of its variables is written by some action
(`LoopEnv.exists_write`).
-/

namespace GraphSql

namespace Relational

/-! ## Tables and rows -/

/-- The tables that a value is looked up in. -/
def Operand.tables : Operand → List String
  | .nodeWith table _ value => table :: value.tables
  | _ => []

def RowTest.tables : RowTest → List String
  | .equals _ value => value.tables
  | .idAmong _ table => [table]

/-- The table that a write changes and those that it reads. -/
def Write.tables : Write → List String
  | .update table assignments test =>
    table :: assignments.flatMap (fun a => a.2.tables) ++ test.tables
  | .insertEdge values rows =>
    Schema.edgesTable :: values.flatMap (fun v => v.2.tables) ++ rows.toList

/-- The tables whose rows a write goes through. -/
def Write.rowTables : Write → List String
  | .update _ _ (.idAmong _ table) => [table]
  | .update _ _ (.equals _ _) => []
  | .insertEdge _ rows => rows.toList

def Select.tables (s : Select) : List String := s.sources.map Source.table

/-- All tables of a statement, also those that the writes of a block use. -/
def Statement.tables : Statement → List String
  | .select s => s.tables
  | .createTemp _ s => s.tables
  | .write w => w.tables
  | .block b => b.source.tables ++ b.body.flatMap Write.tables

/-- Whether a value is a column of the rows that are read, or looked up by one. -/
def Operand.readsRow : Operand → Bool
  | .rowColumn _ => true
  | .nodeWith _ _ value => value.readsRow
  | _ => false

/-- A test against rows brings its own select statement over them. -/
def RowTest.RowsInScope : RowTest → Prop
  | .equals _ value => value.readsRow = false
  | .idAmong _ _ => True

/-- Columns of rows only stand where a table of rows is gone through. -/
def Write.RowsInScope : Write → Prop
  | .update _ assignments test => (∀ a ∈ assignments, a.2.readsRow = false) ∧ test.RowsInScope
  | .insertEdge values rows => rows = none → ∀ v ∈ values, v.2.readsRow = false

/-- References to the rows have a source of that name. -/
def Select.RowsInScope (s : Select) : Prop :=
  s.All (fun x _ => x = rowsName → x ∈ s.sources.map Source.name) fun _ => True

/-- A block goes through its rows to fill its variables; its writes use the variables. -/
def Statement.RowsInScope : Statement → Prop
  | .select s => s.RowsInScope
  | .createTemp _ s => s.RowsInScope
  | .write w => w.RowsInScope
  | .block b => b.source.RowsInScope ∧ ∀ w ∈ b.body, w.rowTables = [] ∧ w.RowsInScope

/-! ## What grounded statements use -/

section Grounded

variable {schema : Schema} {qs : List Query.AliasedPattern} {recorded : Range → List String}
  {temps : List (String × List String)}

theorem Operand.TakesFrom.readsRow {o : Operand} (h : o.TakesFrom []) : o.readsRow = false := by
  induction o with
  | literal l => rfl
  | loopVar name => rfl
  | rowColumn column => exact absurd h List.not_mem_nil
  | nodeWith table column value ih => exact ih h

theorem Write.Grounded.rowTables {w : Write} (h : w.Grounded temps) :
    ∀ table ∈ w.rowTables, table ∈ temps.map Prod.fst := by
  intro table htable
  cases w with
  | update t assignments test =>
    cases test with
    | equals column value => cases htable
    | idAmong column t =>
      obtain rfl := List.mem_singleton.mp htable
      obtain ⟨-, outputs, hmem, -⟩ := h
      exact List.mem_map_of_mem hmem
  | insertEdge values rows =>
    cases rows with
    | none => cases htable
    | some t =>
      obtain rfl := List.mem_singleton.mp htable
      obtain ⟨outputs, hmem, -⟩ := h
      exact List.mem_map_of_mem hmem

theorem Write.Grounded.rowsInScope {w : Write} (h : w.Grounded temps) : w.RowsInScope := by
  cases w with
  | update t assignments test =>
    refine ⟨fun a ha => (h.1 a ha).readsRow, ?_⟩
    cases test with
    | equals column value => exact h.2.readsRow
    | idAmong column t => exact trivial
  | insertEdge values rows =>
    rintro rfl v hv
    exact (h v hv).readsRow

theorem Select.Grounded.rowsInScope {range : String → Range} {s : Select}
    (h : s.Grounded schema temps qs recorded range) : s.RowsInScope :=
  h.references.mono (fun _ _ hx _ => hx.1) fun _ _ => trivial

/-- A grounded select statement reads tables of the schema and temporary tables. -/
theorem Select.Grounded.tables {range : String → Range} {s : Select}
    (h : s.Grounded schema temps qs recorded range) :
    ∀ table ∈ s.tables, table ∈ schema.tableNames ∨ table ∈ temps.map Prod.fst := by
  intro table htable
  obtain ⟨x, hx, rfl⟩ := List.mem_map.mp htable
  obtain ⟨hrange, hof⟩ := h.ranges x hx
  rw [← hrange]
  revert hof
  cases range x.name with
  | nodes => exact fun _ => .inl (Schema.NodeTable.mem_tableNames (.inl rfl))
  | labelled e =>
    rintro ⟨p, -, -, he⟩
    exact .inl (Schema.NodeTable.mem_tableNames (.inr ⟨e, Schema.mem_of_labelTable he, rfl⟩))
  | edges => exact fun _ => .inl schema.edgesTable_mem_tableNames
  | typedEdges types => exact fun _ => .inl schema.edgesTable_mem_tableNames
  | temp t outputs => exact fun ht => .inr (List.mem_map_of_mem ht)

/-- Apart from rows, a write only uses tables of the schema. -/
def Write.Stores (schema : Schema) (w : Write) : Prop :=
  ∀ table ∈ w.tables, table ∈ schema.tableNames ∨ table ∈ w.rowTables

@[inherit_doc Write.Stores]
def Statement.Stores (schema : Schema) : Statement → Prop
  | .write w => w.Stores schema
  | .block b => ∀ w ∈ b.body, w.Stores schema
  | _ => True

theorem Statement.Grounded.rowsInScope {s : Statement} (h : s.Grounded schema qs recorded temps) :
    s.RowsInScope := by
  cases s with
  | select s => exact h.choose_spec.rowsInScope
  | createTemp table s => exact h.choose_spec.rowsInScope
  | write w => exact Write.Grounded.rowsInScope h
  | block b =>
    obtain ⟨⟨range, hsource⟩, -, hbody⟩ := h
    refine ⟨hsource.rowsInScope, fun w hw => ⟨?_, ?_⟩⟩
    · exact List.eq_nil_iff_forall_not_mem.mpr fun t ht =>
        List.not_mem_nil ((hbody w hw).rowTables t ht)
    · exact (hbody w hw).rowsInScope

theorem Statement.Grounded.tables {s : Statement} (h : s.Grounded schema qs recorded temps)
    (hs : s.Stores schema) :
    ∀ table ∈ s.tables, table ∈ schema.tableNames ∨ table ∈ temps.map Prod.fst := by
  intro table htable
  cases s with
  | select s => exact h.choose_spec.tables table htable
  | createTemp t s => exact h.choose_spec.tables table htable
  | write w => exact (hs table htable).imp_right (Write.Grounded.rowTables h table)
  | block b =>
    obtain ⟨⟨range, hsource⟩, -, hbody⟩ := h
    rcases List.mem_append.mp htable with htable | htable
    · exact hsource.tables table htable
    · obtain ⟨w, hw, htable⟩ := List.mem_flatMap.mp htable
      refine .inl ((hs w hw table htable).resolve_right fun hrow => ?_)
      exact List.not_mem_nil ((hbody w hw).rowTables table hrow)

end Grounded

end Relational

open Relational (Operand RowTest Select Source Statement Write)

variable {w : Write} {table x : String}

/-- The statement in place `i` makes the temporary table. -/
def MakesAt (statements : List Statement) (i : Nat) (table : String) : Prop :=
  ∃ select, statements[i]? = some (.createTemp table select)

/-- Every temporary table of a script is made once, before the statements that use it, and is read by
one of them; and rows are only referred to where they are gone through. -/
structure OrderedTemps (schema : Schema) (statements : List Statement) : Prop where
  made : ∀ i s, statements[i]? = some s → ∀ table ∈ s.tables, table ∉ schema.tableNames →
    ∃ j < i, MakesAt statements j table
  once : ∀ i j table, MakesAt statements i table → MakesAt statements j table → i = j
  read : ∀ i table, MakesAt statements i table →
    ∃ j s, i < j ∧ statements[j]? = some s ∧ table ∈ s.tables
  rows : ∀ s ∈ statements, s.RowsInScope

/-! ## Places of statements -/

/-- Each statement of a grounded script sees the temporary tables of the statements before it. -/
theorem GroundedScript.getElem? {schema : Schema} {qs : List Query.AliasedPattern}
    {recorded : Range → List String} {statements : List Statement} :
    ∀ {temps : List (String × List String)} {i : Nat} {s : Statement},
      GroundedScript schema qs recorded temps statements → statements[i]? = some s →
        s.Grounded schema qs recorded (temps ++ (statements.take i).flatMap Statement.created) := by
  induction statements with
  | nil =>
    intro temps i s _ hs
    cases hs
  | cons first rest ih =>
    intro temps i s h hs
    cases i with
    | zero =>
      cases hs
      simpa using h.1
    | succ i =>
      have hrest := ih h.2 (List.getElem?_cons_succ ▸ hs)
      simpa using hrest

/-- The names of the temporary tables that statements make, in order. -/
def madeNames (statements : List Statement) : List String :=
  (statements.flatMap Statement.created).map Prod.fst

theorem exists_makesAt {statements : List Statement} {i : Nat}
    (h : table ∈ madeNames (statements.take i)) : ∃ j < i, MakesAt statements j table := by
  obtain ⟨⟨t, outputs⟩, hmem, rfl⟩ := List.mem_map.mp h
  obtain ⟨s, hs, hcreated⟩ := List.mem_flatMap.mp hmem
  obtain ⟨j, hj⟩ := List.mem_iff_getElem?.mp hs
  rw [List.getElem?_take] at hj
  split at hj
  · rename_i hlt
    refine ⟨j, hlt, ?_⟩
    cases s with
    | createTemp name select =>
      cases List.mem_singleton.mp hcreated
      exact ⟨select, hj⟩
    | select s => cases hcreated
    | write w => cases hcreated
    | block b => cases hcreated
  · cases hj

/-- When no name is made twice, a table is made in one place. -/
theorem eq_of_makesAt {statements : List Statement} (h : (madeNames statements).Nodup) {i j : Nat}
    (hi : MakesAt statements i table) (hj : MakesAt statements j table) : i = j := by
  rw [madeNames, List.map_flatMap, List.nodup_flatMap] at h
  obtain ⟨select, hi⟩ := hi
  obtain ⟨select', hj⟩ := hj
  obtain ⟨hilt, hi⟩ := List.getElem?_eq_some_iff.mp hi
  obtain ⟨hjlt, hj⟩ := List.getElem?_eq_some_iff.mp hj
  have hapart : ∀ {m n : Nat} (hm : m < statements.length) (hn : n < statements.length), m < n →
      table ∈ (statements[m].created).map Prod.fst → table ∉ (statements[n].created).map Prod.fst :=
    fun hm hn hlt hleft hright =>
      List.pairwise_iff_getElem.mp h.2 _ _ hm hn hlt hleft hright
  have hmem : table ∈ (statements[i].created).map Prod.fst := by
    rw [hi]
    exact List.mem_cons_self
  have hmem' : table ∈ (statements[j].created).map Prod.fst := by
    rw [hj]
    exact List.mem_cons_self
  by_contra hne
  rcases Nat.lt_or_gt_of_ne hne with hlt | hlt
  · exact hapart hilt hjlt hlt hmem hmem'
  · exact hapart hjlt hilt hlt hmem' hmem

/-- Every table that one of the statements makes is read by a statement behind it. -/
def MadeAreRead : List Statement → Prop
  | [] => True
  | s :: rest => (∀ made ∈ s.created, ∃ r ∈ rest, made.1 ∈ r.tables) ∧ MadeAreRead rest

theorem madeAreRead_writes : ∀ ws : List Write, MadeAreRead (ws.map .write)
  | [] => trivial
  | _ :: ws => ⟨by simp [Statement.created], madeAreRead_writes ws⟩

theorem MadeAreRead.exists_read {statements : List Statement} (h : MadeAreRead statements) :
    ∀ {i : Nat} {table : String}, MakesAt statements i table →
      ∃ j s, i < j ∧ statements[j]? = some s ∧ table ∈ s.tables := by
  induction statements with
  | nil =>
    rintro i table ⟨select, hi⟩
    cases hi
  | cons first rest ih =>
    rintro i table ⟨select, hi⟩
    cases i with
    | zero =>
      cases hi
      obtain ⟨r, hr, htable⟩ := h.1 _ (List.mem_singleton_self _)
      obtain ⟨j, hj⟩ := List.mem_iff_getElem?.mp hr
      exact ⟨j + 1, r, by omega, hj, htable⟩
    | succ i =>
      obtain ⟨j, s, hlt, hj, htable⟩ := ih h.2 ⟨select, hi⟩
      exact ⟨j + 1, s, by omega, hj, htable⟩

/-! ## The tables of writes -/

namespace LoopEnv

variable {env : LoopEnv} {schema : Schema}

theorem tables_elementAs (type : ColumnType) : (env.elementAs type).tables = [] := by
  unfold elementAs
  split
  · rfl
  · rfl

theorem tables_value {type : ColumnType} {e : Query.Expr} {o : Operand}
    (h : env.value type e = .ok o) : o.tables = [] := by
  rcases value_cases h with rfl | ⟨v, rfl⟩
  · exact tables_elementAs type
  · rfl

theorem tables_idOf (hkey : env.key.table ∈ schema.tableNames) {o : Operand}
    (h : env.idOf x = .ok o) : ∀ table ∈ o.tables, table ∈ schema.tableNames := by
  intro table htable
  rcases idOf_cases h with ⟨-, rfl⟩ | rfl | ⟨c, hc, rfl⟩
  · rw [tables_elementAs] at htable
    cases htable
  · rw [Operand.tables, tables_elementAs] at htable
    exact List.mem_singleton.mp htable ▸ hkey
  · split at htable
    · cases htable
    · cases htable

theorem stores_update {items : List Query.Assignment} (h : env.update schema items x = .ok w) :
    w.Stores schema := by
  obtain ⟨t, test, columns, assignments, rfl, htarget, hcolumns, hassign⟩ := update_cases h
  intro table htable
  rcases List.mem_append.mp htable with htable | htable
  · rcases List.mem_cons.mp htable with rfl | htable
    · exact .inl (Schema.mem_tableNames_of_columnsOfTable hcolumns)
    · obtain ⟨a, ha, htable⟩ := List.mem_flatMap.mp htable
      obtain ⟨c, -, e, -, hvalue⟩ := hassign a ha
      rw [tables_value hvalue] at htable
      cases htable
  · rcases target_cases htarget with rfl | ⟨c, -, rfl⟩
    · rw [RowTest.tables, tables_elementAs] at htable
      cases htable
    · split at htable
      · rename_i hsome
        rw [if_pos hsome]
        exact .inr htable
      · cases htable

theorem stores_insertEdge (hkey : env.key.table ∈ schema.tableNames) {p : Query.Pattern}
    (h : env.insertEdge schema p = .ok w) : w.Stores schema := by
  obtain ⟨type, -, source, target, sourceId, targetId, properties, -, hsource, htarget, hproperties,
    rfl⟩ := insertEdge_cases h
  intro table htable
  rcases List.mem_append.mp htable with htable | htable
  · left
    rcases List.mem_cons.mp htable with rfl | htable
    · exact schema.edgesTable_mem_tableNames
    · obtain ⟨v, hv, htable⟩ := List.mem_flatMap.mp htable
      simp only [List.mem_cons] at hv
      rcases hv with rfl | rfl | rfl | hv
      · exact tables_idOf hkey hsource table htable
      · exact tables_idOf hkey htarget table htable
      · cases htable
      · obtain ⟨c, -, e, -, hvalue⟩ := hproperties v hv
        rw [tables_value hvalue] at htable
        cases htable
  · exact .inr htable

theorem stores_writes (hkey : env.key.table ∈ schema.tableNames) {actions : List Query.Action}
    {ws : List Write} (h : env.writes schema actions = .ok ws) :
    ∀ w ∈ ws, w.Stores schema := by
  intro w hw
  rcases mem_writes h hw with ⟨items, x, -, -, hw⟩ | ⟨p, -, hw⟩
  · exact stores_update hw
  · exact stores_insertEdge hkey hw

/-- **A write of another variable than the element reads the rows.** -/
theorem rows_mem_tables {v : Value} {c : ResultColumn} (hv : env.element = some v)
    (hrows : env.rows = some table) (hx : x ≠ env.name) (hc : env.columns.lookup x = some c)
    (h : (∃ items, env.update schema items x = .ok w) ∨
      ∃ p, x ∈ p.nodeNames ∧ env.insertEdge schema p = .ok w) : table ∈ w.tables := by
  rcases h with ⟨items, h⟩ | ⟨p, hp, h⟩
  · obtain ⟨t, test, columns, assignments, rfl, htarget, -⟩ := update_cases h
    rw [target, if_neg hx, hc, hv, hrows] at htarget
    cases htarget
    exact List.mem_append_right _ (List.mem_singleton_self table)
  · obtain ⟨type, -, source, target, sourceId, targetId, properties, hnames, -, -, -, rfl⟩ :=
      insertEdge_cases h
    have hread : env.rowsFor [source, target] = some table := by
      have hmem : x ∈ [source, target] := by simpa using (hnames x).mp hp
      rw [rowsFor, hv, if_pos, hrows]
      rw [Option.isSome_some, Bool.true_and, List.any_eq_true]
      exact ⟨x, hmem, by rw [hc]; rfl⟩
    refine List.mem_append_right _ ?_
    rw [hread]
    exact List.mem_singleton_self table

end LoopEnv

/-! ## Compiled queries -/

/-- The output columns that are found belong to the names that were looked up. -/
theorem Plan.map_fst_outputs {p : Plan} {names : List String}
    {columns : List (String × ResultColumn)} (h : p.outputs names = .ok columns) :
    columns.map Prod.fst = names := by
  have hall := Except.forall₂_of_mapM h
  clear h
  induction hall with
  | nil => rfl
  | @cons x c xs cs hx _ ih =>
    rw [List.map_cons, ih]
    split at hx
    · cases hx
      rfl
    · cases hx

theorem Plan.exists_lookup_of_outputs {p : Plan} {names : List String}
    {columns : List (String × ResultColumn)} (h : p.outputs names = .ok columns) (hx : x ∈ names) :
    ∃ c, columns.lookup x = some c := by
  rw [← map_fst_outputs h] at hx
  obtain ⟨⟨y, c⟩, hmem, rfl⟩ := List.mem_map.mp hx
  rw [← Option.ne_none_iff_exists']
  intro hnone
  exact absurd (List.lookup_eq_none_iff.mp hnone _ hmem) (by simp)

/-- A plan over a temporary table reads just this table. -/
theorem Plan.tables_ofRelation {schema : Schema} {name : String} {r : Relation}
    {condition : Option Query.Expr} {p : Query.Projection} {plan : Plan}
    (h : ofClauses schema [(name, r)] [.reading name condition] p = .ok plan) :
    plan.select.tables = [r.name] := by
  obtain ⟨projected, compiled, -, hselect⟩ := selects_reading h
  rw [Select.tables, hselect.sources]
  rfl

namespace Compiler

open Query (Loop)

variable {c : Compiler} {k k' : Nat} {q : Query} {p : Prepared} {statements : List Statement}

theorem PreparesTo.origins (h : c.PreparesTo k q p k') :
    ∀ col ∈ p.final.projection, ∀ o ∈ col.origin, o.table ∈ c.schema.tableNames := by
  cases h with
  | plain _ hplan => exact Plan.origins_ofClauses (by simp) hplan
  | staged _ hfirst hfinal =>
    refine Plan.origins_ofClauses ?_ hfinal
    simpa [Plan.relation] using Plan.origins_ofClauses (by simp) hfirst

theorem PreparesTo.stores (h : c.PreparesTo k q p k') :
    ∀ s ∈ p.setup, s.Stores c.schema := by
  intro s hs
  cases h with
  | plain => cases hs
  | staged =>
    obtain rfl := List.mem_singleton.mp hs
    exact trivial

theorem mem_tableNames_elementKey {schema : Schema} {source : ResultColumn} (type : ColumnType)
    (h : ∀ o ∈ source.origin, o.table ∈ schema.tableNames) :
    (source.elementKey type).table ∈ schema.tableNames := by
  cases horigin : source.origin with
  | none =>
    rw [ResultColumn.elementKey, horigin]
    exact Schema.NodeTable.mem_tableNames (.inl rfl)
  | some o =>
    rw [ResultColumn.elementKey, horigin]
    exact h o horigin

/-- **Apart from rows, all tables that are written are tables of the schema.** -/
theorem CompilesTo.stores (h : c.CompilesTo k q statements k') :
    ∀ s ∈ statements, s.Stores c.schema := by
  have hdefault : ({} : ElementKey).table ∈ c.schema.tableNames :=
    Schema.NodeTable.mem_tableNames (.inl rfl)
  intro s hs
  cases h with
  | prepared _ hp =>
    rcases List.mem_append.mp hs with hs | hs
    · exact (preparesTo_of_prepare hp).stores s hs
    · obtain rfl := List.mem_singleton.mp hs
      exact trivial
  | unrolled _ _ _ _ _ hwrites =>
    obtain ⟨v, -, ws, w, hv, hw, rfl⟩ := exists_writes_of_mem hwrites hs
    exact LoopEnv.stores_writes hdefault hv w hw
  | unrolledRows _ _ hbefore _ _ _ hwrites =>
    rcases List.mem_append.mp hs with hs | hs
    · exact (preparesTo_of_prepare hbefore).stores s hs
    · rcases List.mem_cons.mp hs with rfl | hs
      · exact trivial
      · obtain ⟨v, -, ws, w, hv, hw, rfl⟩ := exists_writes_of_mem hwrites hs
        exact LoopEnv.stores_writes hdefault hv w hw
  | iterated _ _ hbefore _ hsource hbody =>
    rcases List.mem_append.mp hs with hs | hs
    · exact (preparesTo_of_prepare hbefore).stores s hs
    · obtain rfl := List.mem_singleton.mp hs
      refine LoopEnv.stores_writes (mem_tableNames_elementKey _ ?_) hbody
      exact (preparesTo_of_prepare hbefore).origins _ (Scope.mem_of_key? hsource)

/-! ## Names that are taken -/

theorem madeNames_append (xs ys : List Statement) :
    madeNames (xs ++ ys) = madeNames xs ++ madeNames ys := by
  rw [madeNames, List.flatMap_append, List.map_append]
  rfl

theorem madeNames_writes (ws : List Write) : madeNames (ws.map .write) = [] := by
  simp [madeNames, List.flatMap_map, Statement.created]

/-- The names were taken from the supply at different times, the last time at `k'`. -/
def Takes (c : Compiler) (k' : Nat) (names : List String) : Prop :=
  ∃ ns : List Nat, ns.Nodup ∧ (∀ n ∈ ns, n ≤ k') ∧ names = ns.map c.tempAt

theorem PreparesTo.takes (h : c.PreparesTo k q p k') : c.Takes k' (madeNames p.setup) := by
  cases h with
  | plain => exact ⟨[], by simp, by simp, rfl⟩
  | staged => exact ⟨[k + 1], by simp, by simp, rfl⟩

theorem CompilesTo.takes (h : c.CompilesTo k q statements k') :
    c.Takes k' (madeNames statements) := by
  cases h with
  | prepared _ hp =>
    rw [Prepared.statements, madeNames_append]
    simpa [madeNames, Statement.created] using (preparesTo_of_prepare hp).takes
  | unrolled =>
    rw [madeNames_writes]
    exact ⟨[], by simp, by simp, rfl⟩
  | @unrolledRows _ _ _ k₁ _ _ _ _ _ hbefore =>
    obtain ⟨ns, hnodup, hle, hnames⟩ := (preparesTo_of_prepare hbefore).takes
    refine ⟨ns ++ [k₁ + 1], ?_, fun n hn => ?_, ?_⟩
    · refine List.nodup_append.mpr ⟨hnodup, by simp, fun a ha b hb => ?_⟩
      have := hle a ha
      have := List.mem_singleton.mp hb
      omega
    · rcases List.mem_append.mp hn with hn | hn
      · have := hle n hn
        omega
      · have := List.mem_singleton.mp hn
        omega
    · rw [madeNames_append, hnames, List.map_append, ← List.singleton_append, madeNames_append,
        madeNames_writes]
      rfl
  | iterated _ _ hbefore =>
    rw [madeNames_append]
    simpa [madeNames, Statement.created] using (preparesTo_of_prepare hbefore).takes

theorem tempAt_injective (h : Function.Injective c.tempSuffix) : Function.Injective c.tempAt := by
  intro m n he
  have hlists := congrArg String.toList he
  simp only [tempAt, Relational.tempName, String.toList_append, List.append_assoc,
    List.append_cancel_left_eq] at hlists
  exact h (String.toList_inj.mp hlists)

/-! ## Tables that are read -/

/-- The table of a first stage is read by any statement that reads what the final plan reads. -/
theorem PreparesTo.madeAreRead (h : c.PreparesTo k q p k') {s : Statement} {rest : List Statement}
    (hs : ∀ table ∈ p.final.select.tables, table ∈ s.tables) (hrest : MadeAreRead (s :: rest)) :
    MadeAreRead (p.setup ++ s :: rest) := by
  cases h with
  | plain => exact hrest
  | staged _ _ hfinal =>
    refine ⟨fun made hmade => ⟨s, List.mem_cons_self, hs _ ?_⟩, hrest⟩
    cases List.mem_singleton.mp hmade
    rw [Plan.tables_ofRelation hfinal]
    exact List.mem_singleton_self _

/-- **The rows of a loop are read**: its actions use at least one variable that they hold. -/
theorem exists_write_reads_rows {l : Loop} {columns : List (String × ResultColumn)}
    {elements : List Value} {writes : List (List Write)}
    (hcolumns : p.final.outputs l.outerNames = .ok columns) (hne : columns ≠ [])
    (helements : elements ≠ [])
    (hwrites : elements.mapM (fun v => (unrolledEnv l columns table v).writes c.schema l.actions) =
      .ok writes) : ∃ w ∈ writes.flatten, table ∈ w.tables := by
  obtain ⟨⟨x, col⟩, hcol⟩ := List.exists_mem_of_ne_nil columns hne
  have hx : x ∈ l.outerNames := Plan.map_fst_outputs hcolumns ▸ List.mem_map_of_mem hcol
  obtain ⟨col', hlookup⟩ := Plan.exists_lookup_of_outputs hcolumns hx
  obtain ⟨hused, hname⟩ := List.mem_filter.mp (Query.mem_firstAppearances.mp hx)
  obtain ⟨a, ha, hused⟩ := List.mem_flatMap.mp hused
  obtain ⟨v, hv⟩ := List.exists_mem_of_ne_nil elements helements
  obtain ⟨ws, hws, hrun⟩ := Except.exists_result_of_mem_mapM hwrites hv
  obtain ⟨w, hw, hcase⟩ := LoopEnv.exists_write hrun ha hused
  refine ⟨w, List.mem_flatten.mpr ⟨ws, hws, hw⟩, ?_⟩
  exact LoopEnv.rows_mem_tables rfl rfl (bne_iff_ne.mp hname) hlookup hcase

theorem CompilesTo.madeAreRead (h : c.CompilesTo k q statements k') : MadeAreRead statements := by
  cases h with
  | prepared _ hp =>
    exact (preparesTo_of_prepare hp).madeAreRead (fun _ htable => htable)
      ⟨by simp [Statement.created], trivial⟩
  | unrolled => exact madeAreRead_writes _
  | unrolledRows _ _ hbefore hcolumns hne helements hwrites =>
    refine (preparesTo_of_prepare hbefore).madeAreRead (fun _ htable => htable)
      ⟨fun made hmade => ?_, madeAreRead_writes _⟩
    cases List.mem_singleton.mp hmade
    obtain ⟨w, hw, htable⟩ := exists_write_reads_rows hcolumns hne helements hwrites
    exact ⟨.write w, List.mem_map_of_mem hw, htable⟩
  | iterated _ _ hbefore =>
    exact (preparesTo_of_prepare hbefore).madeAreRead (fun _ htable => List.mem_append_left _ htable)
      ⟨by simp [Statement.created], trivial⟩

/-! ## Texts -/

/-- **Temporary tables are made once, before they are used, and never in vain.**  In the statements of
a text that compiles, every table that a statement uses and that the schema does not have is made by
one statement before it, every table that is made is read by a later statement, and rows are only
referred to where a select statement goes through them. -/
theorem orderedTemps_of_compile (hsupply : Function.Injective c.tempSuffix)
    {d : Schema.Declaration} (hschema : Schema.build d = .ok c.schema) {text : String}
    (h : (c.compile text).run.run k = (.ok statements, k')) : OrderedTemps c.schema statements := by
  obtain ⟨q, k₁, -, hquery⟩ := Compile.run_bind_eq_ok.mp h
  have hcompiles := compilesTo_of_compileQuery hquery
  have hgrounded := hcompiles.grounded (Schema.complete_of_build hschema)
  refine ⟨fun i s hs table htable hstored => ?_, fun i j table hi hj => ?_,
    fun i table hi => hcompiles.madeAreRead.exists_read hi, fun s hs => ?_⟩
  · have hstores := hcompiles.stores s (List.mem_of_getElem? hs)
    have htables := (hgrounded.getElem? hs).tables hstores table htable
    exact exists_makesAt (htables.resolve_left hstored)
  · obtain ⟨ns, hnodup, -, hnames⟩ := hcompiles.takes
    have hapart : (madeNames statements).Nodup := hnames ▸ hnodup.map (tempAt_injective hsupply)
    exact eq_of_makesAt hapart hi hj
  · obtain ⟨i, hi⟩ := List.mem_iff_getElem?.mp hs
    exact (hgrounded.getElem? hi).rowsInScope

/-- A compiler that numbers its temporary tables. -/
def numberingCompiler : Compiler := { peopleCompiler with tempSuffix := Numeral.natural }

/-- A loop behind a condition. -/
def nestedText : String :=
  "MATCH (n:Person) WITH n WHERE n.age > 1 FOREACH (i IN [1, 2] | SET n.age = i)"

/-- The rows that the loop goes through are made from a table that is made first. -/
theorem orderedTemps_of_compile_nested :
    ∃ statements k', (numberingCompiler.compile nestedText).run.run 0 = (.ok statements, k') ∧
      madeNames statements = ["with_temp_1", "with_temp_2"] ∧
      OrderedTemps numberingCompiler.schema statements := by
  have hmade : ((numberingCompiler.compile nestedText).run.run 0).1.toOption.map madeNames =
      some ["with_temp_1", "with_temp_2"] := by decide +kernel
  obtain ⟨statements, hrun, hmade⟩ := Option.map_eq_some_iff.mp hmade
  obtain ⟨k', hrun⟩ := Compile.exists_run_of_toOption hrun
  have hsupply : Function.Injective numberingCompiler.tempSuffix := fun m n h =>
    toDigits_injective (String.ofList_inj.mp h)
  exact ⟨statements, k', hrun, hmade, orderedTemps_of_compile hsupply build_peopleDeclaration hrun⟩

end Compiler

end GraphSql
