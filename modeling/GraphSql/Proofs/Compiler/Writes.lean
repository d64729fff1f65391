import GraphSql.Compiler.Loop
import GraphSql.Proofs.Compiler.Results
import GraphSql.Proofs.Query.Shape
import GraphSql.Proofs.Schema

/-!
# What actions become

Every write of a loop is an update or a new edge (`mem_writes`), and its values are literals, the
element, or what identifies another variable (`value_cases`, `idOf_cases`).  Everything about writes
is derived from these facts.
-/

namespace GraphSql.Relational

/-! ## What a write names -/

/-- The columns of a write, each with its value. -/
def Write.entries : Write → List (String × Operand)
  | .update _ assignments _ => assignments
  | .insertEdge values _ => values

/-- The names of the columns of a write, case apart. -/
def Write.columnKeys (w : Write) : List String := w.entries.map fun e => Text.lower e.1

/-- No column is named twice, not even in another case. -/
def Write.NamesOnce (w : Write) : Prop := w.columnKeys.Nodup

/-- The writes that a statement runs. -/
def Statement.writes : Statement → List Write
  | .select _ => []
  | .createTemp _ _ => []
  | .write w => [w]
  | .block b => b.body

end GraphSql.Relational

namespace GraphSql.LoopEnv

open Relational (Literal Operand RowTest Write)

variable {env : LoopEnv} {schema : Schema} {x : String}

/-! ## Values -/

theorem value_cases {type : ColumnType} {e : Query.Expr} {o : Operand}
    (h : env.value type e = .ok o) :
    o = env.elementAs type ∨ ∃ v, o = .literal (Literal.ofValueAs type v) := by
  unfold value at h
  dsimp only at h
  split at h
  · split at h
    · cases h
      exact .inl rfl
    · split at h
      · cases h
        exact .inr ⟨_, rfl⟩
      · cases h
  · split at h
    · cases h
      exact .inr ⟨_, rfl⟩
    · cases h

/-- What identifies a variable: the element itself or the node that it points to, or a column of the
rows before the loop, which a block keeps in a variable. -/
theorem idOf_cases {o : Operand} (h : env.idOf x = .ok o) :
    (env.key.column = Schema.nodeId ∧ o = env.elementAs env.key.type) ∨
      o = .nodeWith env.key.table env.key.column (env.elementAs env.key.type) ∨
      ∃ c, env.columns.lookup x = some c ∧
        o = if env.element.isSome then .rowColumn c.name else .loopVar x := by
  unfold idOf at h
  split at h
  · dsimp only at h
    split at h
    · rename_i hcolumn
      cases h
      exact .inl ⟨hcolumn, rfl⟩
    · cases h
      exact .inr (.inl rfl)
  · split at h
    · cases h
    · rename_i c hc
      cases h
      exact .inr (.inr ⟨c, hc, rfl⟩)

theorem target_cases {table : String} {test : RowTest} (h : env.target x = .ok (table, test)) :
    test = .equals env.key.column (env.elementAs env.key.type) ∨
      ∃ c, env.columns.lookup x = some c ∧
        test = if env.element.isSome then .idAmong c.name (env.rows.getD "")
          else .equals Schema.nodeId (.loopVar x) := by
  unfold target at h
  split at h
  · cases h
    exact .inl rfl
  · split at h
    · cases h
    · rename_i c hc
      refine .inr ⟨c, hc, ?_⟩
      dsimp only at h
      split at h
      · rename_i hsome
        cases h
        rw [if_pos hsome]
      · rename_i hnone
        cases h
        rw [if_neg hnone]

/-! ## Writes -/

theorem assigned_cases {table : String} {columns : List Column} {a : Query.Assignment}
    {e : String × Operand} (h : env.assigned table columns a = .ok e) :
    ∃ c, Column.find? columns a.key = some c ∧ e.1 = c.name ∧ env.value c.type a.value = .ok e.2 := by
  unfold assigned at h
  split at h
  · cases h
  · rename_i c hc
    obtain ⟨o, ho, h⟩ := Except.bind_eq_ok.mp h
    cases h
    exact ⟨c, hc, rfl, ho⟩

theorem edgeProperty_cases {type : Schema.TypeTable} {property : String × Query.Expr}
    {e : String × Operand} (h : env.edgeProperty type property = .ok e) :
    ∃ c, Column.find? type.columns property.1 = some c ∧ e.1 = c.name ∧
      env.value c.type property.2 = .ok e.2 := by
  unfold edgeProperty at h
  split at h
  · cases h
  · rename_i c hc
    obtain ⟨o, ho, h⟩ := Except.bind_eq_ok.mp h
    cases h
    exact ⟨c, hc, rfl, ho⟩

theorem update_cases {items : List Query.Assignment} {w : Write}
    (h : env.update schema items x = .ok w) :
    ∃ table test columns assignments, w = .update table assignments test ∧
      env.target x = .ok (table, test) ∧ schema.columnsOfTable table = .ok columns ∧
      ∀ a ∈ assignments, ∃ c ∈ columns, ∃ e, a.1 = c.name ∧ env.value c.type e = .ok a.2 := by
  obtain ⟨⟨table, test⟩, htarget, h⟩ := Except.bind_eq_ok.mp h
  obtain ⟨columns, hcolumns, h⟩ := Except.bind_eq_ok.mp h
  obtain ⟨assignments, hassign, h⟩ := Except.bind_eq_ok.mp h
  cases h
  refine ⟨table, test, columns, assignments, rfl, htarget, hcolumns, ?_⟩
  intro a ha
  obtain ⟨item, -, ha⟩ := Except.exists_of_mem_mapM hassign ha
  obtain ⟨c, hc, hname, hvalue⟩ := assigned_cases ha
  exact ⟨c, List.mem_of_find?_eq_some hc, item.value, hname, hvalue⟩

theorem name_of_bareName? {n : Query.NodePattern} (h : bareName? n = some x) : n.name = some x := by
  unfold bareName? at h
  split at h
  · exact h
  · cases h

theorem insertEdge_cases {p : Query.Pattern} {w : Write} (h : env.insertEdge schema p = .ok w) :
    ∃ type ∈ schema.typeTables, ∃ source target sourceId targetId properties,
      (∀ x, x ∈ p.nodeNames ↔ x = source ∨ x = target) ∧
      env.idOf source = .ok sourceId ∧ env.idOf target = .ok targetId ∧
      (∀ a ∈ properties, ∃ c ∈ type.columns, ∃ e, a.1 = c.name ∧ env.value c.type e = .ok a.2) ∧
      w = .insertEdge ((Schema.edgeSource, sourceId) :: (Schema.edgeTarget, targetId) ::
        (Schema.edgeType, .literal (.text type.name)) :: properties)
          (env.rowsFor [source, target]) := by
  unfold insertEdge at h
  split at h
  · rename_i hop hhops
    split at h
    · cases h
    · rename_i left right _ hleft hright _
      have hnames : p.nodeNames = [left, right] := by
        simp [Query.Pattern.nodeNames, Query.Pattern.nodes, hhops, name_of_bareName? hleft,
          name_of_bareName? hright]
      split at h
      rename_i source target hends
      obtain ⟨type, htype, h⟩ := Except.bind_eq_ok.mp h
      obtain ⟨sourceId, hsource, h⟩ := Except.bind_eq_ok.mp h
      obtain ⟨targetId, htarget, h⟩ := Except.bind_eq_ok.mp h
      obtain ⟨properties, hproperties, h⟩ := Except.bind_eq_ok.mp h
      cases h
      refine ⟨type, Schema.mem_of_typeTable htype, source, target, sourceId,
        targetId, properties, fun x => ?_, hsource, htarget, fun a ha => ?_, rfl⟩
      · rw [hnames, List.mem_cons, List.mem_singleton]
        split at hends
        · cases hends
          exact or_comm
        · cases hends
          exact Iff.rfl
      · obtain ⟨property, -, ha⟩ := Except.exists_of_mem_mapM hproperties ha
        obtain ⟨c, hc, hname, hvalue⟩ := edgeProperty_cases ha
        exact ⟨c, List.mem_of_find?_eq_some hc, property.2, hname, hvalue⟩
    · cases h
  · cases h

/-- **A write is an update or a new edge**, and comes from one of the actions. -/
theorem mem_writes {actions : List Query.Action} {ws : List Write}
    (h : env.writes schema actions = .ok ws) {w : Write} (hw : w ∈ ws) :
    (∃ items x, .set items ∈ actions ∧ x ∈ items.map Query.Assignment.name ∧
        env.update schema items x = .ok w) ∨
      ∃ p, .create p ∈ actions ∧ env.insertEdge schema p = .ok w := by
  obtain ⟨groups, hgroups, h⟩ := Except.bind_eq_ok.mp h
  cases h
  obtain ⟨group, hgroup, hw⟩ := List.mem_flatten.mp hw
  obtain ⟨action, hmem, haction⟩ := Except.exists_of_mem_mapM hgroups hgroup
  cases action with
  | set items =>
    obtain ⟨x, hx, hupdate⟩ := Except.exists_of_mem_mapM haction hw
    exact .inl ⟨items, x, hmem, Query.firstAppearances_subset _ hx, hupdate⟩
  | create p =>
    obtain ⟨edge, hedge, haction⟩ := Except.bind_eq_ok.mp haction
    cases haction
    obtain rfl := List.mem_singleton.mp hw
    exact .inr ⟨p, hmem, hedge⟩

/-- **Every node of an action is written**: by an update of its own, or as an end of a new edge. -/
theorem exists_write {actions : List Query.Action} {ws : List Write}
    (h : env.writes schema actions = .ok ws) {a : Query.Action} (ha : a ∈ actions)
    (hx : x ∈ a.nodeNames) :
    ∃ w ∈ ws, (∃ items, env.update schema items x = .ok w) ∨
      ∃ p, x ∈ p.nodeNames ∧ env.insertEdge schema p = .ok w := by
  obtain ⟨groups, hgroups, h⟩ := Except.bind_eq_ok.mp h
  cases h
  obtain ⟨group, hgroup, haction⟩ := Except.exists_result_of_mem_mapM hgroups ha
  cases a with
  | set items =>
    obtain ⟨w, hw, hupdate⟩ := Except.exists_result_of_mem_mapM haction
      (Query.mem_firstAppearances.mpr hx)
    exact ⟨w, List.mem_flatten.mpr ⟨group, hgroup, hw⟩, .inl ⟨items, hupdate⟩⟩
  | create p =>
    obtain ⟨edge, hedge, haction⟩ := Except.bind_eq_ok.mp haction
    cases haction
    exact ⟨edge, List.mem_flatten.mpr ⟨_, hgroup, List.mem_singleton_self edge⟩, .inr ⟨p, hx, hedge⟩⟩

end GraphSql.LoopEnv
