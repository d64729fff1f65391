import GraphSql.Proofs.Compiler.Statements
import GraphSql.Proofs.Compiler.Writes
import GraphSql.Proofs.Query.Parsed
import GraphSql.Proofs.Scope.Wordy
import GraphSql.Proofs.Script.Render

/-!
# Compiled statements have words for names

The names of the statements that a text is compiled to come from the text, from the schema and from
the supply of names for temporary tables.  When all of these are words, every statement is plain
(`Compiler.plain_of_compile`).
-/

namespace GraphSql

open Query (Loop Matching Projection)
open Relational (Operand RowTest Statement Write)

variable {schema : Schema} {table : String}

/-! ## Actions -/

namespace LoopEnv

variable {env : LoopEnv} {x : String}

/-- What the variables of the actions stand for has words for names.  The name of the element is only
written when it is the variable of a block. -/
structure WordyNames (env : LoopEnv) : Prop where
  name : env.element = none → Wordy env.name
  table : Wordy env.key.table
  column : Wordy env.key.column
  columns : ∀ p ∈ env.columns, Wordy p.1 ∧ Wordy p.2.name
  rows : ∀ table ∈ env.rows, Wordy table

theorem WordyNames.elementAs (h : env.WordyNames) (type : ColumnType) :
    (env.elementAs type).All Wordy := by
  unfold LoopEnv.elementAs
  split
  · exact trivial
  · rename_i hnone
    exact h.name hnone

theorem WordyNames.lookup (h : env.WordyNames) {c : ResultColumn}
    (hc : env.columns.lookup x = some c) : Wordy x ∧ Wordy c.name := by
  obtain ⟨before, after, he, -⟩ := List.lookup_eq_some_iff.mp hc
  exact h.columns (x, c) (by simp [he])

theorem WordyNames.value (h : env.WordyNames) {type : ColumnType} {e : Query.Expr} {o : Operand}
    (ho : env.value type e = .ok o) : o.All Wordy := by
  rcases value_cases ho with rfl | ⟨v, rfl⟩
  · exact h.elementAs type
  · exact trivial

theorem WordyNames.idOf (h : env.WordyNames) {o : Operand} (ho : env.idOf x = .ok o) :
    o.All Wordy := by
  rcases idOf_cases ho with ⟨-, rfl⟩ | rfl | ⟨c, hc, rfl⟩
  · exact h.elementAs _
  · exact ⟨h.table, h.column, h.elementAs _⟩
  · split
    · exact (h.lookup hc).2
    · exact (h.lookup hc).1

theorem WordyNames.target (h : env.WordyNames) {test : RowTest}
    (ht : env.target x = .ok (table, test)) : test.All Wordy := by
  rcases target_cases ht with rfl | ⟨c, hc, rfl⟩
  · exact ⟨h.column, h.elementAs _⟩
  · split
    · exact ⟨(h.lookup hc).2, Scope.wordy_getD h.rows (by decide)⟩
    · exact ⟨by decide, (h.lookup hc).1⟩

/-- The tables that can be updated are tables of the schema. -/
theorem wordy_of_columnsOfTable {columns : List Column} (hschema : schema.WordyNames)
    (h : schema.columnsOfTable table = .ok columns) : Wordy table ∧ WordyColumns columns := by
  unfold Schema.columnsOfTable at h
  split_ifs at h with h1 h2
  · cases h
    exact ⟨by rw [h1]; decide, hschema.nodes⟩
  · cases h
    exact ⟨by rw [h2]; decide, hschema.edges⟩
  · split at h
    · rename_i e he
      cases h
      obtain ⟨hmem, htable⟩ := (⟨List.mem_of_find?_eq_some he, by simpa using List.find?_some he⟩ :
        e ∈ schema.labelTables ∧ e.table = table)
      exact ⟨htable ▸ (hschema.labels e hmem).1, (hschema.labels e hmem).2⟩
    · cases h

theorem WordyNames.rowsFor (h : env.WordyNames) (names : List String) :
    ∀ table ∈ env.rowsFor names, Wordy table := by
  unfold LoopEnv.rowsFor
  split
  · exact h.rows
  · simp

/-- Columns of a table and values for them. -/
theorem WordyNames.assignments (h : env.WordyNames) {columns : List Column}
    {assignments : List (String × Operand)} (hcolumns : WordyColumns columns)
    (ha : ∀ a ∈ assignments, ∃ c ∈ columns, ∃ e, a.1 = c.name ∧ env.value c.type e = .ok a.2) :
    ∀ a ∈ assignments, Wordy a.1 ∧ a.2.All Wordy := by
  intro a hmem
  obtain ⟨c, hc, e, hname, hvalue⟩ := ha a hmem
  rw [hname]
  exact ⟨hcolumns c hc, h.value hvalue⟩

theorem WordyNames.writes (h : env.WordyNames) (hschema : schema.WordyNames)
    {actions : List Query.Action} {ws : List Write}
    (hws : env.writes schema actions = .ok ws) : ∀ w ∈ ws, w.All Wordy := by
  intro w hw
  rcases mem_writes hws hw with ⟨items, x, -, -, hw⟩ | ⟨p, -, hw⟩
  · obtain ⟨table, test, columns, assignments, rfl, htarget, hcolumns, hassign⟩ := update_cases hw
    obtain ⟨htable, hcolumns⟩ := wordy_of_columnsOfTable hschema hcolumns
    exact ⟨htable, h.assignments hcolumns hassign, h.target htarget⟩
  · obtain ⟨type, htype, source, target, sourceId, targetId, properties, -, hsource, htarget,
      hproperties, rfl⟩ := insertEdge_cases hw
    obtain ⟨hstart, hfinish, htypeColumn⟩ := wordy_coreEdge
    refine ⟨fun v hv => ?_, h.rowsFor _⟩
    simp only [List.mem_cons] at hv
    rcases hv with rfl | rfl | rfl | hv
    · exact ⟨hstart, h.idOf hsource⟩
    · exact ⟨hfinish, h.idOf htarget⟩
    · exact ⟨htypeColumn, trivial⟩
    · exact h.assignments (hschema.types type htype) hproperties v hv

end LoopEnv

/-! ## Queries -/

namespace Compiler

/-- The names of the tables and columns of the schema and of temporary tables are words. -/
structure WordyNames (c : Compiler) : Prop where
  schema : c.schema.WordyNames
  tempStart : Wordy c.tempStart
  tempSuffix : ∀ k, Wordy (c.tempSuffix k)

variable {c : Compiler} (hc : c.WordyNames)

theorem wordy_of_outputs {plan : Plan} (hplan : plan.WordyNames) {names : List String}
    {columns : List (String × ResultColumn)} (hnames : ∀ x ∈ names, Wordy x)
    (h : plan.outputs names = .ok columns) : ∀ p ∈ columns, Wordy p.1 ∧ Wordy p.2.name := by
  intro p hp
  obtain ⟨hx, houtput⟩ := Plan.mem_outputs h p hp
  exact ⟨hnames p.1 hx, hplan.output houtput⟩

/-- A node is found by its id in the table of all nodes. -/
theorem wordy_elementKey_default : Wordy ({} : ElementKey).table ∧ Wordy ({} : ElementKey).column := by
  decide

/-- The element of a loop in a block is identified by the table and column that it was read from. -/
theorem wordy_elementKey {source : ResultColumn} (h : source.WordyNames) (type : ColumnType) :
    Wordy (source.elementKey type).table ∧ Wordy (source.elementKey type).column := by
  rcases source with ⟨_, _, _, _, _, _, _, _ | ⟨table, column⟩⟩
  · exact wordy_elementKey_default
  · obtain ⟨htable, hcolumn⟩ := h.origin _ rfl
    exact ⟨htable, Scope.wordy_getD hcolumn (by decide)⟩

include hc

theorem WordyNames.temp (h : c.NamesTemp table) : Wordy table := by
  obtain ⟨k, rfl⟩ := h
  exact wordy_tempName hc.tempStart (hc.tempSuffix k)

/-- Plans of words read temporary tables of words. -/
theorem keeps_wordyNames : c.Keeps Wordy (Query.Expr.Named Wordy) Plan.WordyNames where
  first hms hp h := Plan.wordyNames_ofClauses hc.schema (by simp) hms hp h
  second {before _ _ condition _} hbefore htable hcondition hp h := by
    have hreading : Matching.Named Wordy (.reading before.firstName condition) := by
      refine ⟨fun q hq => ?_, hcondition⟩
      obtain rfl := List.mem_singleton.mp hq
      exact ⟨⟨by simpa using hbefore.firstName, by simp, by simp⟩, by simp⟩
    refine Plan.wordyNames_ofClauses hc.schema ?_ (by simpa using hreading) hp h
    simpa using hbefore.relation (hc.temp htable)

/-- A statement that comes from plans and loops of words is plain. -/
theorem plain_of_emits {s : Statement} (h : c.Emits Plan.WordyNames (Loop.Named Wordy) s) :
    s.Plain := by
  cases h with
  | select hplan => exact hplan.select
  | createTemp htable hplan => exact ⟨hc.temp htable, hplan.select⟩
  | write hplan hl hcolumns hrows hws hw =>
    have hcolumns := wordy_of_outputs hplan hl.outerNames hcolumns
    obtain ⟨htable, hcolumn⟩ := wordy_elementKey_default
    refine LoopEnv.WordyNames.writes ?_ hc.schema hws _ hw
    exact ⟨fun hnone => (by cases hnone), htable, hcolumn, hcolumns,
      fun table htable => hc.temp (hrows table htable)⟩
  | @block plan l columns name source body hplan hl hcolumns hsource hbody =>
    have hcolumns := wordy_of_outputs hplan hl.outerNames hcolumns
    have hsource := hplan.projection source (Scope.mem_of_key? hsource)
    obtain ⟨htable, hcolumn⟩ := wordy_elementKey hsource (source.type.getD .text)
    refine ⟨fun v hv => ?_, hplan.select, ?_⟩
    · rcases List.mem_cons.mp hv with rfl | hv
      · exact ⟨hl.name, hsource.name⟩
      · obtain ⟨p, hp, rfl⟩ := List.mem_map.mp hv
        exact hcolumns p hp
    · refine LoopEnv.WordyNames.writes ?_ hc.schema hbody
      exact ⟨fun _ => hl.name, htable, hcolumn, hcolumns, fun _ hnone => by cases hnone⟩

/-- **All statements of a text are plain.** -/
theorem plain_of_compile {text : String} {k k' : Nat} {statements : List Statement}
    (h : (c.compile text).run.run k = (.ok statements, k')) : ∀ s ∈ statements, s.Plain := by
  obtain ⟨q, hq, hcompiles⟩ := compilesTo_of_compile h
  have hnamed := Query.named_of_parse (fun _ => Query.wordy_of_isName) hq
  intro s hs
  exact plain_of_emits hc (hcompiles.emits (keeps_wordyNames hc) (fun _ => Iff.rfl)
    (fun x hx _ => hnamed x hx) (fun l hl => hnamed _ hl) s hs)

end Compiler

end GraphSql
