import GraphSql.Proofs.Compiler.CollectedLists
import GraphSql.Proofs.Compiler.Writes
import GraphSql.Proofs.Compiler.WrittenColumns
import GraphSql.Proofs.Schema.TableNames
import GraphSql.Proofs.Scope.KnownTypes

/-!
# Types of loop variables

The block of a loop declares a variable for the element and compares it with the column of a node table
from which the elements were read (`LoopEnv.key_of_matches`).  Its type, the table and the column are
defaulted one by one: to text, to the table of all nodes and to the id.  Since types and origins fit
together (`Schema.Known`), a known type is that of the column that the variable is compared with, as long
as the names of tables tell which tables they are.  A type that is not known is the only other way to go
wrong, but then it always does: a text is compared with an id (`Compiler.elementType_of_compileQuery`).
-/

namespace GraphSql

open Query (Action Loop)
open Relational (Block BlockVariable Operand RowTest Statement Write)

variable {table column x : String}

/-! ## Types by the names of tables -/

namespace Schema

variable {s : Schema}

/-- The type of a column of the table with the given name. -/
def typeIn? (s : Schema) (table column : String) : Option ColumnType :=
  (s.columnsOfTable table).toOption.bind fun columns => Column.typeOf? columns column

theorem columnsOfTable_nodes (s : Schema) : s.columnsOfTable nodesTable = .ok s.nodeColumns :=
  if_pos rfl

theorem typeIn?_of_columnsOfTable {columns : List Column} {d : Column}
    (h : s.columnsOfTable table = .ok columns) (hdistinct : Column.Distinct columns)
    (hd : d ∈ columns) : s.typeIn? table d.name = some d.type := by
  rw [typeIn?, h]
  exact hdistinct.typeOf? hd

theorem typeIn?_nodeId (h : s.Merged) : s.typeIn? nodesTable nodeId = some .bigint :=
  typeIn?_of_columnsOfTable (d := idColumn) s.columnsOfTable_nodes h.nodes.1 h.nodes.2

theorem TablesIdentified.typeIn? (hs : s.TablesIdentified) (h : s.Merged) {columns : List Column}
    {d : Column} (hcolumns : s.NodeColumns table columns) (hd : d ∈ columns) :
    s.typeIn? table d.name = some d.type := by
  refine typeIn?_of_columnsOfTable ?_ (h.nodeColumns hcolumns).1 hd
  rcases hcolumns with ⟨rfl, rfl⟩ | ⟨l, e, he, rfl, rfl⟩
  · exact s.columnsOfTable_nodes
  · exact hs.columns l e he

end Schema

/-! ## What the element is compared with -/

/-- A write compares the variable of a block for `x` with a column of a table: to find the rows to
update, or to find a node. -/
inductive Relational.Write.Matches (x : String) : Write → String → String → Prop
  | row {table column : String} {assignments : List (String × Operand)} :
      Matches x (.update table assignments (.equals column (.loopVar x))) table column
  | node {w : Write} {c table column : String} :
      (c, Operand.nodeWith table column (.loopVar x)) ∈ w.entries → Matches x w table column

/-- A write uses the variable of a block for `x` as a node with the given key: it compares the variable
with the key, or the key is an id and the variable an end of a new edge. -/
def Relational.Write.Uses (x : String) (w : Write) (table column : String) : Prop :=
  w.Matches x table column ∨ column = Schema.nodeId ∧
    ∃ c ∈ [Schema.edgeSource, Schema.edgeTarget], (c, Operand.loopVar x) ∈ w.entries

/-- The column that finds the rows to update, and its table, when they are compared with the variable
for `x`. -/
def Relational.Write.rowKey? (x : String) : Write → Option (String × String)
  | .update table _ (.equals column (.loopVar y)) => if y = x then some (table, column) else none
  | _ => none

theorem Relational.Write.matches_of_rowKey? {w : Write} (h : w.rowKey? x = some (table, column)) :
    w.Matches x table column := by
  unfold rowKey? at h
  split at h
  · split at h
    · rename_i hx
      cases h
      rw [hx]
      exact .row
    · cases h
  · cases h

namespace LoopEnv

variable {env : LoopEnv} {schema : Schema} {o : Operand}

theorem value_ne_nodeWith (henv : env.element = none) {type : ColumnType} {e : Query.Expr} :
    env.value type e ≠ .ok (.nodeWith table column o) := by
  intro h
  rcases value_cases h with h | ⟨v, h⟩
  · rw [elementAs, henv] at h
    cases h
  · cases h

/-- The row to update is found by the key of the element, or by the id of another variable. -/
theorem target_cases_of_block (henv : env.element = none) {test : RowTest}
    (h : env.target x = .ok (table, test)) :
    (x = env.name ∧ table = env.key.table ∧ test = .equals env.key.column (.loopVar env.name)) ∨
      x ≠ env.name ∧ test = .equals Schema.nodeId (.loopVar x) := by
  unfold target at h
  split at h
  · rename_i hx
    cases h
    rw [elementAs, henv]
    exact .inl ⟨hx, rfl, rfl⟩
  · rename_i hx
    split at h
    · cases h
    · rw [henv] at h
      cases h
      exact .inr ⟨hx, rfl⟩

theorem idOf_name (henv : env.element = none) (h : env.idOf env.name = .ok o) :
    (env.key.column = Schema.nodeId ∧ o = .loopVar env.name) ∨
      o = .nodeWith env.key.table env.key.column (.loopVar env.name) := by
  rw [idOf, if_pos rfl, elementAs, henv] at h
  dsimp only at h
  split at h
  · rename_i hcolumn
    cases h
    exact .inl ⟨hcolumn, rfl⟩
  · cases h
    exact .inr rfl

theorem key_of_idOf (henv : env.element = none) (h : env.idOf x = .ok (.nodeWith table column o)) :
    table = env.key.table ∧ column = env.key.column := by
  rcases idOf_cases h with ⟨-, h⟩ | h | ⟨c, -, h⟩
  · rw [elementAs, henv] at h
    cases h
  · cases h
    exact ⟨rfl, rfl⟩
  · rw [henv] at h
    cases h

/-- **The element is compared with nothing but its key.** -/
theorem key_of_matches (henv : env.element = none) {actions : List Action} {ws : List Write}
    (h : env.writes schema actions = .ok ws) {w : Write} (hw : w ∈ ws)
    (hmatches : w.Matches env.name table column) :
    table = env.key.table ∧ column = env.key.column := by
  rcases mem_writes h hw with ⟨items, x, -, -, hupdate⟩ | ⟨p, -, hedge⟩
  · obtain ⟨table', test, columns, assignments, rfl, htarget, -, hvalues⟩ := update_cases hupdate
    cases hmatches with
    | row =>
      rcases target_cases_of_block henv htarget with ⟨-, rfl, htest⟩ | ⟨hx, htest⟩
      · cases htest
        exact ⟨rfl, rfl⟩
      · cases htest
        exact absurd rfl hx
    | node hmem =>
      obtain ⟨c, -, e, -, hvalue⟩ := hvalues _ hmem
      exact absurd hvalue (value_ne_nodeWith henv)
  · obtain ⟨type, -, source, target, sourceId, targetId, properties, -, hsource, htarget, hvalues,
      rfl⟩ := insertEdge_cases hedge
    cases hmatches with
    | node hmem =>
      simp only [Write.entries, List.mem_cons, Prod.mk.injEq] at hmem
      rcases hmem with ⟨-, rfl⟩ | ⟨-, rfl⟩ | ⟨-, hliteral⟩ | hmem
      · exact key_of_idOf henv hsource
      · exact key_of_idOf henv htarget
      · cases hliteral
      · obtain ⟨c, -, e, -, hvalue⟩ := hvalues _ hmem
        exact absurd hvalue (value_ne_nodeWith henv)

theorem uses_of_idOf (henv : env.element = none) {c : String} {values : List (String × Operand)}
    {rows : Option String} (h : env.idOf env.name = .ok o)
    (hc : c ∈ [Schema.edgeSource, Schema.edgeTarget]) (hmem : (c, o) ∈ values) :
    (Write.insertEdge values rows).Uses env.name env.key.table env.key.column := by
  rcases idOf_name henv h with ⟨hcolumn, rfl⟩ | rfl
  · exact .inr ⟨hcolumn, c, hc, hmem⟩
  · exact .inl (.node hmem)

/-- **The element is used with its key** when an action has it for a node. -/
theorem exists_uses (henv : env.element = none) {actions : List Action} {ws : List Write}
    (h : env.writes schema actions = .ok ws) {a : Action} (ha : a ∈ actions)
    (hname : env.name ∈ a.nodeNames) : ∃ w ∈ ws, w.Uses env.name env.key.table env.key.column := by
  obtain ⟨w, hw, ⟨items, hupdate⟩ | ⟨p, hp, hedge⟩⟩ := exists_write h ha hname
  · obtain ⟨table, test, columns, assignments, rfl, htarget, -, -⟩ := update_cases hupdate
    rcases target_cases_of_block henv htarget with ⟨-, rfl, rfl⟩ | ⟨hx, -⟩
    · exact ⟨_, hw, .inl .row⟩
    · exact absurd rfl hx
  · obtain ⟨type, -, source, target, sourceId, targetId, properties, hends, hsource, htarget, -,
      rfl⟩ := insertEdge_cases hedge
    refine ⟨_, hw, ?_⟩
    rcases (hends env.name).mp hp with rfl | rfl
    · exact uses_of_idOf henv hsource List.mem_cons_self List.mem_cons_self
    · exact uses_of_idOf henv htarget (List.mem_cons_of_mem _ List.mem_cons_self)
        (List.mem_cons_of_mem _ List.mem_cons_self)

end LoopEnv

/-! ## Blocks -/

/-- A block matches the element of a loop on a key: it declares a variable of the type of the key for the
element first, compares this variable with nothing but the key, and uses it with the key when an action
has the element for a node. -/
structure Relational.Block.MatchesOn (b : Block) (l : Loop) (key : ElementKey) : Prop where
  declared : ∃ element others, b.declared = element :: others ∧ element.name = l.name ∧
    element.type = key.type
  only : ∀ w ∈ b.body, ∀ table column, w.Matches l.name table column →
    table = key.table ∧ column = key.column
  used : ∀ a ∈ l.actions, l.name ∈ a.nodeNames → ∃ w ∈ b.body, w.Uses l.name key.table key.column

namespace Compiler

variable {c : Compiler} {k k' : Nat} {q : Query} {statements : List Statement} {b : Block}
  {source : ResultColumn}

/-- The block of a loop over a column of the query before it, with all that was checked on the way. -/
inductive Iterates (c : Compiler) (k : Nat) (q : Query) (l : Loop) (source : ResultColumn) :
    Block → Prop
  | block {before : Query} {prepared : Prepared} {k₁ : Nat} {columns : List (String × ResultColumn)}
      {name : String} {body : List Write} : EndsInLoop q l before →
      (c.prepare before).run.run k = (.ok prepared, k₁) →
      prepared.final.outputs l.outerNames = .ok columns → l.source = .var name →
      prepared.final.output? name = some source →
      source.origin.map Origin.table ≠ some Schema.edgesTable →
      (blockEnv l columns source).writes c.schema l.actions = .ok body →
      Iterates c k q l source
        { declared := blockVariables l source columns, source := prepared.final.select, body }

theorem block_notMem_setup {prepared : Prepared} (h : (c.prepare q).run.run k = (.ok prepared, k')) :
    .block b ∉ prepared.setup := by
  cases preparesTo_of_prepare h with
  | plain => simp
  | staged => simp

/-- **A block comes from a loop at the end**, over a column of the query before it. -/
theorem exists_iterates (h : (c.compileQuery q).run.run k = (.ok statements, k'))
    (hb : .block b ∈ statements) : ∃ l source, c.Iterates k q l source b := by
  cases compilesTo_of_compileQuery h with
  | prepared _ hp => simp [Prepared.statements, block_notMem_setup hp] at hb
  | unrolled => simp at hb
  | unrolledRows _ _ hbefore => simp [block_notMem_setup hbefore] at hb
  | iterated _ hends hbefore hcolumns hsource hbody hname horigin =>
    rcases List.mem_append.mp hb with hb | hb
    · exact absurd hb (block_notMem_setup hbefore)
    · cases List.mem_singleton.mp hb
      exact ⟨_, _, .block hends hbefore hcolumns hname hsource horigin hbody⟩

theorem known_of_prepare (hschema : c.schema.Merged) {prepared : Prepared}
    (h : (c.prepare q).run.run k = (.ok prepared, k')) :
    ∀ col ∈ prepared.final.projection, c.schema.Known col.type col.origin := by
  cases preparesTo_of_prepare h with
  | plain _ hplan => exact Plan.known_ofClauses hschema (by simp) hplan
  | staged _ hfirst hfinal =>
    refine Plan.known_ofClauses hschema ?_ hfinal
    intro p hp
    obtain rfl := List.mem_singleton.mp hp
    exact Plan.known_ofClauses hschema (by simp) hfirst

/-- A known type is that of the key; one that is not known is taken for text, and the key for an id. -/
theorem typeIn?_elementKey {s : Schema} (hschema : s.Merged)
    (hknown : s.Known source.type source.origin)
    (hedges : source.origin.map Origin.table ≠ some Schema.edgesTable) {key : ElementKey}
    (hkey : key = source.elementKey (source.type.getD .text)) :
    (s.TablesIdentified →
        (s.typeIn? key.table key.column = some key.type ↔ source.type ≠ none)) ∧
      (source.type = none → key = ⟨Schema.nodesTable, Schema.nodeId, .text⟩) := by
  have hid := Schema.typeIn?_nodeId hschema
  subst hkey
  rw [ResultColumn.elementKey]
  generalize source.type = known at hknown ⊢
  generalize source.origin = origin at hknown hedges ⊢
  cases hknown with
  -- here all three defaults meet, and only two of them fit together
  | unknown => exact ⟨fun _ => by simp [hid], fun _ => rfl⟩
  | number => exact ⟨fun _ => by simp [hid], fun h => by cases h⟩
  | column hcolumns hd =>
    refine ⟨fun hs => ?_, fun h => by cases h⟩
    have htype := hs.typeIn? hschema hcolumns hd
    simp [htype]
  | edge => exact absurd rfl hedges

theorem Iterates.matchesOn {l : Loop} (h : c.Iterates k q l source b) :
    b.MatchesOn l (source.elementKey (source.type.getD .text)) := by
  obtain ⟨-, -, -, -, -, -, hbody⟩ := h
  exact ⟨⟨_, _, rfl, rfl, rfl⟩, fun w hw _ _ => LoopEnv.key_of_matches rfl hbody hw,
    fun a ha => LoopEnv.exists_uses rfl hbody ha⟩

theorem Iterates.known {l : Loop} (h : c.Iterates k q l source b) (hschema : c.schema.Merged) :
    c.schema.Known source.type source.origin ∧
      source.origin.map Origin.table ≠ some Schema.edgesTable := by
  obtain ⟨-, hprepared, -, -, hsource, hedges, -⟩ := h
  exact ⟨known_of_prepare hschema hprepared source (Scope.mem_of_key? hsource), hedges⟩

/-- **When a loop compares like with like.**  The block of a loop goes over a column of the query before
it, and its writes match the element on a key.  For a schema whose table names tell the tables, the
element is declared with the type of its key just when the type of that column is known.  Otherwise it is
declared as a text, and its key is the id of a node, which is a number. -/
theorem elementType_of_compileQuery {d : Schema.Declaration}
    (hbuild : Schema.build d = .ok c.schema)
    (h : (c.compileQuery q).run.run k = (.ok statements, k')) (hb : .block b ∈ statements) :
    ∃ l source key, c.Iterates k q l source b ∧ b.MatchesOn l key ∧
      (c.schema.TablesIdentified →
        (c.schema.typeIn? key.table key.column = some key.type ↔ source.type ≠ none)) ∧
      (source.type = none → key = ⟨Schema.nodesTable, Schema.nodeId, .text⟩ ∧
        c.schema.typeIn? Schema.nodesTable Schema.nodeId = some .bigint) := by
  have hschema := Schema.merged_of_build hbuild
  obtain ⟨l, source, hiterates⟩ := exists_iterates h hb
  obtain ⟨hknown, hedges⟩ := hiterates.known hschema
  obtain ⟨htype, hunknown⟩ := typeIn?_elementKey hschema hknown hedges rfl
  exact ⟨l, source, _, hiterates, hiterates.matchesOn, htype,
    fun hnone => ⟨hunknown hnone, Schema.typeIn?_nodeId hschema⟩⟩

/-- The first block among statements. -/
def firstBlock? (statements : List Statement) : Option Block :=
  statements.findSome? fun s =>
    match s with
    | .block b => some b
    | _ => none

theorem block_mem_of_firstBlock? (h : firstBlock? statements = some b) : .block b ∈ statements := by
  obtain ⟨s, hs, hfound⟩ := List.exists_of_findSome?_eq_some h
  cases s with
  | block b' =>
    cases hfound
    exact hs
  | select _ => cases hfound
  | createTemp _ _ => cases hfound
  | write _ => cases hfound

theorem tablesIdentified_people : peopleCompiler.schema.TablesIdentified := by
  refine ⟨by decide +kernel, fun l e he => ?_⟩
  have hmem : e ∈ peopleCompiler.schema.labelTables := Schema.mem_of_labelTable he
  obtain rfl := List.mem_singleton.mp hmem
  exact Except.eq_ok_of_toOption (by decide +kernel)

theorem exists_block_of_toOption {x : Compile (List Statement)} {α : Type} {f : Block → α} {a : α}
    (h : ((x.run.run k).1.toOption.bind fun ss => (firstBlock? ss).map f) = some a) :
    ∃ ss k' b, x.run.run k = (.ok ss, k') ∧ .block b ∈ ss ∧ f b = a := by
  obtain ⟨ss, hss, h⟩ := Option.bind_eq_some_iff.mp h
  obtain ⟨b, hb, h⟩ := Option.map_eq_some_iff.mp h
  obtain ⟨k', hrun⟩ := Compile.exists_run_of_toOption hss
  exact ⟨ss, k', b, hrun, block_mem_of_firstBlock? hb, h⟩

/-- The query `MATCH (n:Person) WITH collect(n.age) AS ages FOREACH (x IN ages | SET x.name = 'old')`. -/
def agesLoop : Query :=
  [.matching personsClause,
    .passing { items := [⟨.call "collect" false [.property (.var "n") "age"], some "ages"⟩] },
    .looping ⟨"x", .var "ages", [.set [⟨"x", "name", .text "old"⟩]]⟩]

theorem elementType_of_compileQuery_ages :
    Schema.build peopleDeclaration = .ok peopleCompiler.schema ∧
      peopleCompiler.schema.TablesIdentified ∧ ∃ statements k' b l key,
        (peopleCompiler.compileQuery agesLoop).run.run 0 = (.ok statements, k') ∧
        .block b ∈ statements ∧ b.body.map (Write.rowKey? "x") = [some ("person", "age")] ∧
        b.MatchesOn l key ∧ key.type = .int ∧
        peopleCompiler.schema.typeIn? key.table key.column = some .int := by
  have hfacts : ((peopleCompiler.compileQuery agesLoop).run.run 0).1.toOption.bind (fun statements =>
      (firstBlock? statements).map fun b =>
        (b.declared.map BlockVariable.type, b.body.map (Write.rowKey? "x"))) =
      some ([.int], [some ("person", "age")]) := by decide +kernel
  obtain ⟨statements, k', b, hrun, hb, hfacts⟩ := exists_block_of_toOption hfacts
  obtain ⟨htypes, hkeys⟩ := Prod.mk.inj hfacts
  obtain ⟨l, source, key, -, hmatches, htype, hunknown⟩ :=
    elementType_of_compileQuery build_peopleDeclaration hrun hb
  obtain ⟨element, others, hdeclared, -, helement⟩ := hmatches.declared
  have hint : key.type = .int := by
    rw [hdeclared, List.map_cons] at htypes
    rw [← helement]
    exact (List.cons.inj htypes).1
  refine ⟨build_peopleDeclaration, tablesIdentified_people, statements, k', b, l, key, hrun, hb, hkeys,
    hmatches, hint, hint ▸ (htype tablesIdentified_people).mpr fun hnone => ?_⟩
  rw [(hunknown hnone).1] at hint
  cases hint

/-- A loop over computed values. -/
def computedText : String :=
  "MATCH (n:Person) WITH n.age + 1 AS x FOREACH (i IN x | SET i.label = 'a')"

/-- **A text is compared with an id** when the loop goes over computed values. -/
theorem text_against_id_of_computed :
    ∃ statements k' b, (peopleCompiler.compile computedText).run.run 0 = (.ok statements, k') ∧
      .block b ∈ statements ∧ b.declared.map BlockVariable.type = [.text] ∧
      (∃ w ∈ b.body, w.Matches "i" "nodes" "id") ∧
      peopleCompiler.schema.typeIn? "nodes" "id" = some .bigint := by
  have hfacts : ((peopleCompiler.compile computedText).run.run 0).1.toOption.bind (fun statements =>
      (firstBlock? statements).map fun b =>
        (b.declared.map BlockVariable.type, b.body.map (Write.rowKey? "i"))) =
      some ([.text], [some ("nodes", "id")]) := by decide +kernel
  obtain ⟨statements, k', b, hrun, hb, hfacts⟩ := exists_block_of_toOption hfacts
  obtain ⟨htypes, hkeys⟩ := Prod.mk.inj hfacts
  refine ⟨statements, k', b, hrun, hb, htypes, ?_, ?_⟩
  · obtain ⟨w, hw, hkey⟩ := List.mem_map.mp (hkeys ▸ List.mem_singleton_self _)
    exact ⟨w, hw, Write.matches_of_rowKey? hkey⟩
  · exact Schema.typeIn?_nodeId (Schema.merged_of_build build_peopleDeclaration)

end Compiler

end GraphSql
