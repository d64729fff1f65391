import GraphSql.Proofs.Compiler.Unrolled

/-!
# Columns of writes

A write gives one value to each column that it names, but it can name a column more than once, and is
then refused when it is run.  Keys are looked up without regard to case and each of them names the column
that it finds, so that the columns of a write are the keys of its assignments or properties, case apart
(`LoopEnv.columnKeys_of_action`).  Nothing keeps the keys apart: two of them can differ only in
case, assignments to one variable can repeat a key, and a property can have the name of one of the three
columns that every new edge gets.  `Compiler.columnKeys_of_compileQuery` says which columns the writes
of a loop name, and that these are the only ways to name one twice.
-/

namespace GraphSql

open Query (Action Assignment Loop)
open Relational (Operand Statement Write)

/-! ## The keys of actions -/

/-- For each write that an action becomes, the keys that its columns are looked up with, case apart:
those of the assignments to one variable, or those of a new edge behind the columns that every edge
has. -/
def Query.Action.keyLists : Action → List (List String)
  | .set items => (Query.firstAppearances (items.map Assignment.name)).map fun x =>
      (items.filter fun a => a.name == x).map fun a => Text.lower a.key
  | .create p =>
      [[Schema.edgeSource, Schema.edgeTarget, Schema.edgeType].map Text.lower ++
        p.hops.flatMap fun hop =>
          (hop.relationship.properties.getD []).map fun property => Text.lower property.1]

/-! ## Writes of actions -/

theorem Column.lower_of_find? {columns : List Column} {key : String} {c : Column}
    (h : Column.find? columns key = some c) : Text.lower c.name = Text.lower key := by
  have hsame := List.find?_some h
  exact beq_iff_eq.mp hsame

namespace LoopEnv

variable {env : LoopEnv} {schema : Schema}

theorem lower_of_assigned {table : String} {columns : List Column} {a : Assignment}
    {e : String × Operand} (h : env.assigned table columns a = .ok e) :
    Text.lower e.1 = Text.lower a.key := by
  obtain ⟨c, hc, hname, -⟩ := assigned_cases h
  exact hname ▸ Column.lower_of_find? hc

theorem lower_of_edgeProperty {type : Schema.TypeTable} {property : String × Query.Expr}
    {e : String × Operand} (h : env.edgeProperty type property = .ok e) :
    Text.lower e.1 = Text.lower property.1 := by
  obtain ⟨c, hc, hname, -⟩ := edgeProperty_cases h
  exact hname ▸ Column.lower_of_find? hc

theorem columnKeys_of_update {items : List Assignment} {x : String} {w : Write}
    (h : env.update schema items x = .ok w) :
    w.columnKeys = (items.filter fun a => a.name == x).map fun a => Text.lower a.key := by
  obtain ⟨⟨table, test⟩, -, h⟩ := Except.bind_eq_ok.mp h
  obtain ⟨columns, -, h⟩ := Except.bind_eq_ok.mp h
  obtain ⟨assignments, hassign, h⟩ := Except.bind_eq_ok.mp h
  cases h
  exact Except.map_eq_of_mapM hassign fun a e => lower_of_assigned

theorem columnKeys_of_insertEdge {p : Query.Pattern} {w : Write}
    (h : env.insertEdge schema p = .ok w) : [w.columnKeys] = (Action.create p).keyLists := by
  unfold insertEdge at h
  split at h
  · rename_i hop hhops
    split at h
    · cases h
    · split at h
      obtain ⟨type, -, h⟩ := Except.bind_eq_ok.mp h
      obtain ⟨sourceId, -, h⟩ := Except.bind_eq_ok.mp h
      obtain ⟨targetId, -, h⟩ := Except.bind_eq_ok.mp h
      obtain ⟨properties, hproperties, h⟩ := Except.bind_eq_ok.mp h
      cases h
      have hkeys := Except.map_eq_of_mapM hproperties fun a e => lower_of_edgeProperty
      rw [Action.keyLists, hhops, List.flatMap_singleton, ← hkeys]
      rfl
    · cases h
  · cases h

/-- **The columns of the writes of an action are its keys**, case apart. -/
theorem columnKeys_of_action {a : Action} {ws : List Write} (h : env.action schema a = .ok ws) :
    ws.map Write.columnKeys = a.keyLists := by
  cases a with
  | set items => exact Except.map_eq_of_mapM h fun x w => columnKeys_of_update
  | create p =>
    obtain ⟨w, hw, h⟩ := Except.bind_eq_ok.mp h
    cases h
    exact columnKeys_of_insertEdge hw

theorem columnKeys_of_writes {actions : List Action} {ws : List Write}
    (h : env.writes schema actions = .ok ws) :
    ws.map Write.columnKeys = actions.flatMap Action.keyLists := by
  obtain ⟨groups, hgroups, h⟩ := Except.bind_eq_ok.mp h
  cases h
  rw [List.map_flatten, Except.map_eq_of_mapM hgroups fun a ws => columnKeys_of_action, List.flatMap_def]

end LoopEnv

/-! ## Writes of a loop -/

/-- The text of a new edge: the columns of its entries, and then their values. -/
theorem Relational.Write.render_insertEdge (values : List (String × Operand)) (rows : Option String) :
    (Write.insertEdge values rows).render =
      "INSERT INTO " ++ Schema.edgesTable ++ " (" ++ Text.join ", " (values.map Prod.fst) ++ ") " ++
        (rows.map fun table => "SELECT " ++ Text.join ", " (values.map fun e => e.2.render) ++
          " FROM " ++ table ++ " " ++ rowsName ++ ";").getD
            ("VALUES (" ++ Text.join ", " (values.map fun e => e.2.render) ++ ");") := by
  cases rows with
  | none => rfl
  | some table => rfl

/-- How often the actions of a loop are written: for each element of a list that is written out, or once
in a block. -/
def Query.Loop.rounds (l : Loop) : Nat :=
  match l.source with
  | .list es => es.length
  | _ => 1

namespace Compiler

variable {c : Compiler} {k k' : Nat} {q : Query} {l : Loop} {statements : List Statement}

theorem flatMap_writes_write (ws : List Write) :
    (ws.map Statement.write).flatMap Statement.writes = ws := by
  induction ws with
  | nil => rfl
  | cons w ws ih => rw [List.map_cons, List.flatMap_cons, ih]; rfl

theorem writes_setup {prepared : Prepared} (h : (c.prepare q).run.run k = (.ok prepared, k')) :
    prepared.setup.flatMap Statement.writes = [] := by
  cases preparesTo_of_prepare h with
  | plain => rfl
  | staged => rfl

theorem columnKeys_of_elements {env : Value → LoopEnv} {elements : List Value}
    {writes : List (List Write)}
    (h : elements.mapM (fun v => (env v).writes c.schema l.actions) = .ok writes) :
    writes.flatten.map Write.columnKeys =
      (List.replicate elements.length (l.actions.flatMap Action.keyLists)).flatten := by
  have hkeys : writes.map (List.map Write.columnKeys) =
      elements.map fun _ => l.actions.flatMap Action.keyLists :=
    Except.map_eq_of_mapM h fun _ _ => LoopEnv.columnKeys_of_writes
  rw [List.map_flatten, hkeys, List.map_const']

theorem length_of_elementsOf? {elements : List Value} (h : elementsOf? l = some elements) :
    elements.length = l.rounds := by
  unfold elementsOf? at h
  split at h
  · rename_i es hes
    rw [Loop.rounds, hes]
    exact Query.Expr.length_of_values? h
  · cases h

/-- **The actions of a loop decide which columns its writes name**, round by round. -/
theorem columnKeys_of_compilesTo (h : c.CompilesTo k q statements k')
    (hl : q.getLast? = some (.looping l)) :
    (statements.flatMap Statement.writes).map Write.columnKeys =
      (List.replicate l.rounds (l.actions.flatMap Action.keyLists)).flatten := by
  cases h with
  | prepared hshape _ => exact absurd (Query.shape_of_getLast? hl) hshape
  | @unrolled l' _ _ _ _ elements _ _ hends _ _ _ hwrites helements =>
    obtain rfl : l' = l := by
      cases hends.1.symm.trans hl
      rfl
    rw [flatMap_writes_write, ← length_of_elementsOf? helements]
    exact columnKeys_of_elements hwrites
  | @unrolledRows l' _ _ _ _ elements _ _ hends hbefore _ _ _ hwrites helements =>
    obtain rfl : l' = l := by
      cases hends.1.symm.trans hl
      rfl
    rw [List.flatMap_append, List.flatMap_cons, writes_setup hbefore, flatMap_writes_write,
      ← length_of_elementsOf? helements]
    exact columnKeys_of_elements hwrites
  | @iterated l' _ _ _ _ _ _ _ _ hends hbefore _ _ hbody hsource =>
    obtain rfl : l' = l := by
      cases hends.1.symm.trans hl
      rfl
    have hrounds : l'.rounds = 1 := by rw [Loop.rounds, hsource]
    rw [List.flatMap_append, writes_setup hbefore, List.flatMap_singleton, hrounds]
    show List.map Write.columnKeys _ = _
    rw [List.nil_append, List.replicate_one, List.flatten_singleton]
    exact LoopEnv.columnKeys_of_writes hbody

/-- **When a write names a column twice.**  The writes of a loop name, once for each element of a list
that is written out or once in a block, the columns that the keys of its actions find.  So if there are
any writes, each of them names every column once exactly when the keys of each action are different, case
apart: those of the assignments to one variable, and those of a new edge together with its two ends and
its type.  The text of a new edge has the columns of its entries and their values, one for each. -/
theorem columnKeys_of_compileQuery (h : (c.compileQuery q).run.run k = (.ok statements, k'))
    (hl : q.getLast? = some (.looping l)) :
    (statements.flatMap Statement.writes).map Write.columnKeys =
        (List.replicate l.rounds (l.actions.flatMap Action.keyLists)).flatten ∧
      ((∀ w ∈ statements.flatMap Statement.writes, w.NamesOnce) ↔
        statements.flatMap Statement.writes = [] ∨
          ∀ keys ∈ l.actions.flatMap Action.keyLists, keys.Nodup) ∧
      ∀ values rows, Write.insertEdge values rows ∈ statements.flatMap Statement.writes →
        (Write.insertEdge values rows).render =
          "INSERT INTO " ++ Schema.edgesTable ++ " (" ++ Text.join ", " (values.map Prod.fst) ++
            ") " ++
            (rows.map fun table => "SELECT " ++ Text.join ", " (values.map fun e => e.2.render) ++
              " FROM " ++ table ++ " " ++ Relational.rowsName ++ ";").getD
                ("VALUES (" ++ Text.join ", " (values.map fun e => e.2.render) ++ ");") := by
  have hn := columnKeys_of_compilesTo (compilesTo_of_compileQuery h) hl
  refine ⟨hn, ?_, fun values rows _ => Write.render_insertEdge values rows⟩
  have honce : (∀ w ∈ statements.flatMap Statement.writes, w.NamesOnce) ↔
      ∀ keys ∈ (List.replicate l.rounds (l.actions.flatMap Action.keyLists)).flatten, keys.Nodup := by
    rw [← hn, List.forall_mem_map]
    rfl
  by_cases hnone : statements.flatMap Statement.writes = []
  · simp [hnone]
  · have hpos : l.rounds ≠ 0 := by
      intro hzero
      rw [hzero] at hn
      exact hnone (List.map_eq_nil_iff.mp hn)
    have hsame : ∀ keys, keys ∈ (List.replicate l.rounds (l.actions.flatMap Action.keyLists)).flatten ↔
        keys ∈ l.actions.flatMap Action.keyLists := by
      intro keys
      rw [List.mem_flatten]
      constructor
      · rintro ⟨group, hgroup, hkeys⟩
        rwa [List.eq_of_mem_replicate hgroup] at hkeys
      · intro hkeys
        exact ⟨_, List.mem_replicate.mpr ⟨hpos, rfl⟩, hkeys⟩
    rw [honce, or_iff_right hnone]
    simp only [hsame]

/-- The loop `FOREACH (x IN ['y', 'z'] | SET a.name = x, b.NAME = 'known', b.label = x
CREATE (a)-[:KNOWS {Since: 1}]->(b))`. -/
def greetingLoop : Loop where
  name := "x"
  source := .list [.text "y", .text "z"]
  actions := [
    .set [⟨"a", "name", .var "x"⟩, ⟨"b", "NAME", .text "known"⟩, ⟨"b", "label", .var "x"⟩],
    .create ⟨{ name := some "a" },
      [⟨{ types := ["KNOWS"], direction := .outgoing, properties := some [("Since", .integer 1)] },
        { name := some "b" }⟩]⟩]

theorem columnKeys_of_compileQuery_greeting :
    ∃ statements k',
      (acquaintances.compileQuery [knowingClause, .looping greetingLoop]).run.run 0 =
        (.ok statements, k') ∧
      List.getLast? [knowingClause, .looping greetingLoop] = some (.looping greetingLoop) ∧
      (statements.flatMap Statement.writes).map Write.columnKeys =
        [["name"], ["name", "label"], ["idl", "idr", "type", "since"],
          ["name"], ["name", "label"], ["idl", "idr", "type", "since"]] ∧
      ∀ w ∈ statements.flatMap Statement.writes, w.NamesOnce := by
  have hsome : ((acquaintances.compileQuery
      [knowingClause, .looping greetingLoop]).run.run 0).1.toOption.isSome = true := by
    decide +kernel
  obtain ⟨statements, hstatements⟩ := Option.isSome_iff_exists.mp hsome
  obtain ⟨k', hrun⟩ := Compile.exists_run_of_toOption hstatements
  obtain ⟨hkeys, honce, -⟩ := columnKeys_of_compileQuery hrun rfl
  refine ⟨statements, k', hrun, rfl, hkeys.trans ?_, honce.mpr (.inr ?_)⟩
  · decide +kernel
  · decide +kernel

/-- People who know each other since some year. -/
def datingCompiler : Compiler where
  schema := Schema.ofEntries [⟨"Person", [Schema.idColumn, ⟨"name", .text⟩]⟩]
    [⟨"KNOWS", [⟨"since", .int⟩]⟩] none none

/-- A loop that makes an edge with one property in two spellings. -/
def twoDatesText : String :=
  "MATCH (a:Person), (b:Person) FOREACH (x IN [1] | " ++
    "CREATE (a)-[:KNOWS {since: 1, SINCE: 2}]->(b))"

/-- **A column is named twice** when a property is spelled in two ways. -/
theorem since_twice_of_twoDates :
    ∃ statements k', (datingCompiler.compile twoDatesText).run.run 0 = (.ok statements, k') ∧
      statements.map Statement.render =
        ["CREATE TEMP TABLE with_temp_00000000000000000000000000000001 AS " ++
            "SELECT a.id AS a_id, a.name AS a_name, b.id AS b_id, b.name AS b_name " ++
            "FROM person a CROSS JOIN person b;",
          "INSERT INTO edges (idl, idr, type, since, since) " ++
            "SELECT src.a_id, src.b_id, 'KNOWS', 1, 2 " ++
            "FROM with_temp_00000000000000000000000000000001 src;"] ∧
      ∃ w ∈ statements.flatMap Statement.writes, ¬w.NamesOnce := by
  have hfacts : ((datingCompiler.compile twoDatesText).run.run 0).1.toOption.map (fun statements =>
      (statements.map Statement.render,
        (statements.flatMap Statement.writes).map Write.columnKeys)) =
      some (["CREATE TEMP TABLE with_temp_00000000000000000000000000000001 AS " ++
            "SELECT a.id AS a_id, a.name AS a_name, b.id AS b_id, b.name AS b_name " ++
            "FROM person a CROSS JOIN person b;",
          "INSERT INTO edges (idl, idr, type, since, since) " ++
            "SELECT src.a_id, src.b_id, 'KNOWS', 1, 2 " ++
            "FROM with_temp_00000000000000000000000000000001 src;"],
        [["idl", "idr", "type", "since", "since"]]) := by decide +kernel
  obtain ⟨statements, hstatements, hfacts⟩ := Option.map_eq_some_iff.mp hfacts
  obtain ⟨k', hrun⟩ := Compile.exists_run_of_toOption hstatements
  obtain ⟨htexts, hkeys⟩ := Prod.mk.inj hfacts
  refine ⟨statements, k', hrun, htexts, ?_⟩
  obtain ⟨w, hw, hcolumns⟩ := List.mem_map.mp (hkeys ▸ List.mem_singleton_self _)
  refine ⟨w, hw, ?_⟩
  rw [Write.NamesOnce, hcolumns]
  decide

end Compiler

end GraphSql
