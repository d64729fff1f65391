import GraphSql.Proofs.Outcome
import GraphSql.Scope.Projection

/-!
# What a scope hands out

A name or a property becomes a column of its variable, the row of an edge, or a column of a derived
relation; an item of a projection becomes such columns or one column that is compiled
(`Scope.Outputs`).  The lemmas here list these results once, and what holds of everything that a
scope hands out is shown along these lists.
-/

namespace GraphSql

variable {e : Query.Expr}

/-- A call of a function with the given arguments, or with a star and none. -/
def Query.Expr.Calls (f : String) (args : List Query.Expr) (e : Query.Expr) : Prop :=
  (∃ distinct, e = .call f distinct args) ∨ e = .callStar f ∧ args = []

theorem Query.Expr.Calls.ne_name {f : String} {args : List Query.Expr} (h : e.Calls f args) :
    (∀ x, e ≠ .var x) ∧ ∀ x key, e ≠ .property (.var x) key := by
  rcases h with ⟨distinct, rfl⟩ | ⟨rfl, -⟩
  · exact ⟨nofun, nofun⟩
  · exact ⟨nofun, nofun⟩

namespace Scope

open Relational (Expr)

variable {s : Scope} {c : ResultColumn} {cs : List ResultColumn} {x : String} {r : Resolved}
  {items : List Query.ReturnItem} {p : Projected} {name scope : String}

/-! ## Bindings -/

theorem mem_of_node? {n : BoundNode} (h : s.node? x = some n) : n ∈ s.nodes ∧ n.name = x :=
  ⟨List.mem_of_find?_eq_some h, by simpa using List.find?_some h⟩

theorem mem_of_edge? {e : BoundEdge} (h : s.edge? x = some e) : e ∈ s.edges ∧ e.name = x :=
  ⟨List.mem_of_find?_eq_some h, by simpa using List.find?_some h⟩

theorem mem_of_whole? {r : Relation} (h : r.whole? name = some c) : c ∈ r.columns :=
  List.mem_of_find?_eq_some h

theorem mem_of_property? {r : Relation} {key : String} (h : r.property? name key = some c) :
    c ∈ r.columns :=
  List.mem_of_find?_eq_some h

theorem mem_of_key? {r : Relation} (h : r.key? name = some c) : c ∈ r.columns := by
  unfold Relation.key? at h
  split at h
  · rename_i hp
    cases h
    exact mem_of_property? hp
  · exact mem_of_whole? h

theorem exists_node_of_mem_derived {p : String × Relation} (h : p ∈ s.derived) :
    ∃ n ∈ s.nodes, n.name = p.1 ∧ n.source = .derived p.2 := by
  obtain ⟨n, hn, hsource⟩ := List.mem_filterMap.mp h
  refine ⟨n, hn, ?_⟩
  cases hs : n.source with
  | stored table columns labels => simp [hs, NodeSource.relation?] at hsource
  | derived relation =>
    rw [hs] at hsource
    cases hsource
    exact ⟨rfl, rfl⟩

/-- A variable with columns of its own is a node over a table, or an edge. -/
theorem stored?_cases {table : String} {columns : List Column}
    (h : s.stored? x = some (table, columns)) :
    (∃ n labels, s.node? x = some n ∧ n.source = .stored table columns labels) ∨
      s.node? x = none ∧ ∃ e, s.edge? x = some e ∧ Schema.edgesTable = table ∧
        e.columns = columns := by
  unfold stored? at h
  split at h
  · rename_i n hn
    split at h
    · rename_i labels hsource
      cases h
      exact .inl ⟨n, labels, hn, hsource⟩
    · cases h
  · rename_i hnone
    obtain ⟨e, he, hpair⟩ := Option.map_eq_some_iff.mp h
    cases hpair
    exact .inr ⟨hnone, e, he, rfl, rfl⟩

/-! ## Names and properties -/

theorem lookupDerived_eq_ok (h : s.lookupDerived x = .ok r) :
    ∃ p ∈ s.derived, ∃ c, p.2.key? x = some c ∧ r = c.resolved p.1 := by
  unfold lookupDerived at h
  split at h
  · rename_i hfound
    cases h
    obtain ⟨p, hp, hfound⟩ := List.exists_of_findSome?_eq_some hfound
    obtain ⟨c, hc, rfl⟩ := Option.map_eq_some_iff.mp hfound
    exact ⟨p, hp, c, hc, rfl⟩
  · cases h

theorem lookupName_eq_ok (h : s.lookupName x = .ok r) :
    (∃ n table columns labels, s.node? x = some n ∧ n.source = .stored table columns labels ∧
        r = { expr := .column x Schema.nodeId, type := some .bigint,
              origin := some ⟨table, some Schema.nodeId⟩ }) ∨
      (∃ e, s.edge? x = some e ∧
        r = { expr := edgeRow x, origin := some ⟨Schema.edgesTable, none⟩ }) ∨
      ∃ p ∈ s.derived, ∃ c, p.2.key? x = some c ∧ r = c.resolved p.1 := by
  unfold lookupName at h
  split at h
  · rename_i n hn
    split at h
    · rename_i table columns labels hsource
      cases h
      exact .inl ⟨n, table, columns, labels, hn, hsource, rfl⟩
    · exact .inr (.inr (lookupDerived_eq_ok h))
  · split at h
    · rename_i e he
      cases h
      exact .inr (.inl ⟨e, he, rfl⟩)
    · exact .inr (.inr (lookupDerived_eq_ok h))

theorem lookupProperty_eq_ok {key : String} (h : s.lookupProperty x key = .ok r) :
    (∃ table columns c, s.stored? x = some (table, columns) ∧ Column.find? columns key = some c ∧
        r = { expr := .column x c.name, type := some c.type
              origin := some ⟨table, some c.name⟩ }) ∨
      ∃ p ∈ s.derived, ∃ c, p.2.property? x key = some c ∧ r = c.resolved p.1 := by
  unfold lookupProperty at h
  split at h
  · rename_i table columns hstored
    split at h
    · rename_i c hc
      cases h
      exact .inl ⟨table, columns, c, hstored, hc, rfl⟩
    · cases h
  · split at h
    · rename_i hfound
      cases h
      obtain ⟨p, hp, hfound⟩ := List.exists_of_findSome?_eq_some hfound
      obtain ⟨c, hc, rfl⟩ := Option.map_eq_some_iff.mp hfound
      exact .inr ⟨p, hp, c, hc, rfl⟩
    · cases h

theorem operand_eq_ok {x : Except Error Expr} (h : s.operand e x = .ok r) :
    (∃ name, e = .var name ∧ s.lookupName name = .ok r) ∨
      (∃ name key, e = .property (.var name) key ∧ s.lookupProperty name key = .ok r) ∨
      ∃ a, x = .ok a ∧ r = { expr := a } := by
  unfold operand at h
  split at h
  · rename_i name
    exact .inl ⟨name, rfl, h⟩
  · rename_i name key
    exact .inr (.inl ⟨name, key, rfl, h⟩)
  · obtain ⟨a, ha, rfl⟩ := Except.map_eq_ok.mp h
    exact .inr (.inr ⟨a, ha, rfl⟩)

/-- A literal is written as its value, everything else as it was. -/
theorem typed_eq_ok {type : Option ColumnType} {x : Except Error Expr} {a : Expr}
    (h : typed e type x = .ok a) :
    (∃ v, e.value? = some v ∧ a = .literal (.ofValueFor type v)) ∨ e.value? = none ∧ x = .ok a := by
  unfold typed at h
  split at h
  · rename_i v hv
    cases h
    exact .inl ⟨v, hv, rfl⟩
  · rename_i hnone
    exact .inr ⟨hnone, h⟩

/-- A comparison compiles its sides, and a list on the right of a membership test by its elements.
Which of the three is done does not depend on the scope. -/
theorem compile_compare_cases (op : Query.Comparison) (l r : Query.Expr) :
    (∃ es, op = .isIn ∧ r = .list es ∧ ∀ s : Scope, s.compile (.compare op l r) = (do
        let left ← s.operand l (s.compile l)
        return .inList left.expr (← s.compileTyped left.type es))) ∨
      (op = .isIn ∧ (∀ es, r ≠ .list es) ∧ ∀ s : Scope, s.compile (.compare op l r) = (do
        let left ← s.operand l (s.compile l)
        let right ← s.operand r (s.compile r)
        return .equalsAny left.expr right.expr)) ∨
      op ≠ .isIn ∧ ∀ s : Scope, s.compile (.compare op l r) = (do
        let left ← s.operand l (s.compile l)
        let right ← s.operand r (s.compile r)
        let leftExpr ← typed l right.type (.ok left.expr)
        let rightExpr ← typed r left.type (.ok right.expr)
        return comparison op leftExpr rightExpr) := by
  by_cases hop : op = .isIn
  · subst hop
    by_cases hlist : ∃ es, r = .list es
    · obtain ⟨es, rfl⟩ := hlist
      exact .inl ⟨es, rfl, rfl, fun s => by rw [compile]⟩
    · have hne : ∀ es, r ≠ .list es := fun es he => hlist ⟨es, he⟩
      refine .inr (.inl ⟨rfl, hne, fun s => ?_⟩)
      rw [compile]
      exact hne
  · refine .inr (.inr ⟨hop, fun s => ?_⟩)
    rw [compile]
    · exact fun _ he => absurd he hop
    · exact hop

/-! ## Output columns -/

/-- The columns of a variable: those of its table, or what a derived relation has for its name. -/
inductive VariableColumn (s : Scope) (x scope : String) : ResultColumn → Prop
  | stored {table : String} {columns : List Column} {d : Column}
      (hstored : s.stored? x = some (table, columns)) (hd : d ∈ columns) :
      VariableColumn s x scope
        { name := scope ++ "_" ++ d.name, expr := .column x d.name, scopeName := some scope
          key := some d.name, type := some d.type, origin := some ⟨table, some d.name⟩ }
  | whole {p : String × Relation} {d : ResultColumn} (hp : p ∈ s.derived)
      (hd : p.2.whole? x = some d) (hnone : s.stored? x = none) :
      VariableColumn s x scope
        { name := scope, expr := .column p.1 d.name, scopeName := some scope, type := d.type
          isList := d.isList, origin := d.origin }
  | member {p : String × Relation} {d : ResultColumn} (hp : p ∈ s.derived)
      (hd : d ∈ p.2.properties x) (hnone : s.stored? x = none) :
      VariableColumn s x scope
        { name := scope ++ "_" ++ d.key.getD "", expr := .column p.1 d.name
          scopeName := some scope, key := d.key, type := d.type, isList := d.isList
          origin := d.origin }

theorem VariableColumn.scopeName (h : s.VariableColumn x scope c) : c.scopeName = some scope := by
  cases h with
  | stored => rfl
  | whole => rfl
  | member => rfl

theorem variableColumn_of_derived (hnone : s.stored? x = none) {p : String × Relation}
    (hp : p ∈ s.derived) (h : derivedColumns x scope p.1 p.2 = some cs) :
    ∀ c ∈ cs, s.VariableColumn x scope c := by
  intro c hc
  unfold derivedColumns at h
  split at h
  · rename_i d hd
    cases h
    obtain rfl := List.mem_singleton.mp hc
    exact .whole hp hd hnone
  · split at h
    · cases h
    · cases h
      obtain ⟨d, hd, rfl⟩ := List.mem_map.mp hc
      exact .member hp hd hnone

theorem variableColumn_of_mem (h : s.variableColumns x scope = .ok cs) :
    ∀ c ∈ cs, s.VariableColumn x scope c := by
  intro c hc
  unfold variableColumns at h
  split at h
  · rename_i table columns hstored
    cases h
    obtain ⟨d, hd, rfl⟩ := List.mem_map.mp hc
    exact .stored hstored hd
  · rename_i hnone
    split at h
    · rename_i hfound
      cases h
      obtain ⟨p, hp, hfound⟩ := List.exists_of_findSome?_eq_some hfound
      exact variableColumn_of_derived hnone hp hfound c hc
    · cases h

/-- The output columns of an item, with the names that they want; `index` is the place of the
item. -/
inductive Outputs (s : Scope) (index : Nat) (item : Query.ReturnItem) : ResultColumn → Prop
  | named {x : String} {c : ResultColumn} (hitem : item.expr = .var x)
      (hc : s.VariableColumn x (item.asName.getD x) c) : Outputs s index item c
  | property {x key : String} {r : Resolved} (hitem : item.expr = .property (.var x) key)
      (hr : s.lookupProperty x key = .ok r) :
      Outputs s index item
        { name := item.asName.getD key, expr := r.expr, scopeName := some (item.asName.getD x),
          key := if item.asName.isSome then none else some key, type := r.type, isList := r.isList,
          origin := r.origin }
  | aggregate {f : String} {a : Aggregate} {args : List Query.Expr} {argument : Option Resolved}
      {expr : Expr} (hcall : item.expr.Calls f args) (ha : Aggregate.ofName? f = some a)
      (hargument : args.head?.mapM s.resolve = .ok argument)
      (hexpr : s.compile item.expr = .ok expr) :
      Outputs s index item
        { name := item.asName.getD a.name, expr, scopeName := item.asName,
          type := aggregateType a argument, aggregate := some a, isList := a = .collect,
          origin := aggregateOrigin a argument }
  | call {f : String} {args : List Query.Expr} {expr : Expr}
      (hcall : item.expr.Calls f args) (hf : Aggregate.ofName? f = none)
      (hexpr : s.compile item.expr = .ok expr) :
      Outputs s index item
        { name := item.asName.getD (Text.lower f), expr, scopeName := item.asName }
  | other {expr : Expr} (hvar : ∀ x, item.expr ≠ .var x)
      (hproperty : ∀ x key, item.expr ≠ .property (.var x) key)
      (hcall : ∀ f args, ¬ item.expr.Calls f args) (hexpr : s.compile item.expr = .ok expr) :
      Outputs s index item
        { name := item.asName.getD ("expr" ++ Numeral.natural index), expr,
          scopeName := item.asName }

section

variable {index : Nat} {item : Query.ReturnItem}

theorem outputs_of_callColumn {f : String} {args : List Query.Expr} (hcall : item.expr.Calls f args)
    (h : s.callColumn f item.expr args item.asName = .ok c) : Outputs s index item c := by
  unfold callColumn at h
  split at h
  · rename_i a ha
    obtain ⟨argument, hargument, h⟩ := Except.bind_eq_ok.mp h
    obtain ⟨expr, hexpr, h⟩ := Except.bind_eq_ok.mp h
    cases h
    exact .aggregate hcall ha hargument hexpr
  · rename_i hf
    obtain ⟨expr, hexpr, h⟩ := Except.bind_eq_ok.mp h
    cases h
    exact .call hcall hf hexpr

/-- A name gives the columns of its variable, every other item one column. -/
theorem itemColumns_cases (h : s.itemColumns index item = .ok cs) :
    (∃ x, item.expr = .var x ∧ s.variableColumns x (item.asName.getD x) = .ok cs) ∨
      (∀ x, item.expr ≠ .var x) ∧ ∃ c, cs = [c] ∧ Outputs s index item c := by
  unfold itemColumns at h
  split at h
  · rename_i x hitem
    exact .inl ⟨x, hitem, h⟩
  · rename_i x key hitem
    obtain ⟨r, hr, h⟩ := Except.bind_eq_ok.mp h
    exact .inr ⟨by simp [hitem], _, (Except.pure_eq_ok.mp h).symm, .property hitem hr⟩
  · rename_i f distinct args hitem
    obtain ⟨d, hd, h⟩ := Except.bind_eq_ok.mp h
    exact .inr ⟨by simp [hitem], d, (Except.pure_eq_ok.mp h).symm,
      outputs_of_callColumn (.inl ⟨distinct, hitem⟩) (hitem ▸ hd)⟩
  · rename_i f hitem
    obtain ⟨d, hd, h⟩ := Except.bind_eq_ok.mp h
    exact .inr ⟨by simp [hitem], d, (Except.pure_eq_ok.mp h).symm,
      outputs_of_callColumn (.inr ⟨hitem, rfl⟩) (hitem ▸ hd)⟩
  · rename_i hvar hproperty hcall hstar
    obtain ⟨d, hd, h⟩ := Except.bind_eq_ok.mp h
    obtain ⟨expr, hexpr, hd⟩ := Except.bind_eq_ok.mp hd
    cases hd
    refine .inr ⟨hvar, _, (Except.pure_eq_ok.mp h).symm,
      .other hvar hproperty (fun f args hcalls => ?_) hexpr⟩
    rcases hcalls with ⟨distinct, hitem⟩ | ⟨hitem, -⟩
    · exact hcall f distinct args hitem
    · exact hstar f hitem

theorem outputs_of_itemColumns (h : s.itemColumns index item = .ok cs) :
    ∀ c ∈ cs, Outputs s index item c := by
  rcases itemColumns_cases h with ⟨x, hitem, h⟩ | ⟨-, c, rfl, hc⟩
  · exact fun c hc => .named hitem (variableColumn_of_mem h c hc)
  · simpa using hc

theorem Outputs.variableColumn (h : Outputs s index item c) (hitem : item.expr = .var x) :
    s.VariableColumn x (item.asName.getD x) c := by
  cases h with
  | named he hc =>
    cases he.symm.trans hitem
    exact hc
  | property he => cases he.symm.trans hitem
  | aggregate hcall => exact absurd hitem (hcall.ne_name.1 x)
  | call hcall => exact absurd hitem (hcall.ne_name.1 x)
  | other hvar => exact absurd hitem (hvar x)

theorem Outputs.compile_expr (h : Outputs s index item c) (hitem : ∀ x, item.expr ≠ .var x) :
    s.compile item.expr = .ok c.expr := by
  cases h with
  | named he => exact absurd he (hitem _)
  | property he hr =>
    rw [he, compile, hr]
    rfl
  | aggregate _ _ _ hexpr => exact hexpr
  | call _ _ hexpr => exact hexpr
  | other _ _ _ hexpr => exact hexpr

/-- An item that is not a name gives one column, with what the item is compiled to. -/
theorem compile_of_itemColumns (hitem : ∀ x, item.expr ≠ .var x)
    (h : s.itemColumns index item = .ok cs) : ∃ c, cs = [c] ∧ s.compile item.expr = .ok c.expr := by
  rcases itemColumns_cases h with ⟨x, hvar, -⟩ | ⟨-, c, hcs, hc⟩
  · exact absurd hvar (hitem x)
  · exact ⟨c, hcs, hc.compile_expr hitem⟩

end

/-- Making names unique changes nothing but the names. -/
theorem exists_of_mem_freshColumns {c : ResultColumn} :
    ∀ {cs : List ResultColumn} {taken : List String}, c ∈ freshColumns taken cs →
      ∃ d ∈ cs, ∃ taken, c = { d with name := Relational.freshName d.name taken }
  | [], _, h => by simp [freshColumns] at h
  | d :: ds, taken, h => by
    rcases List.mem_cons.mp h with rfl | h
    · exact ⟨d, List.mem_cons_self, taken, rfl⟩
    · obtain ⟨e, he, hc⟩ := exists_of_mem_freshColumns h
      exact ⟨e, List.mem_cons_of_mem d he, hc⟩

theorem exists_outputs_of_mem_columns (h : s.project items = .ok p) :
    ∀ c ∈ p.columns, ∃ item ∈ items, ∃ index d taken, Outputs s index item d ∧
      c = { d with name := Relational.freshName d.name taken } := by
  refine Except.foldlM_induction (fun p : Projected => ∀ c ∈ p.columns, ∃ item ∈ items,
    ∃ index d taken, Outputs s index item d ∧
      c = { d with name := Relational.freshName d.name taken }) ?_ (by simp) h
  intro p hcolumns item hitem p' hstep c hc
  obtain ⟨wanted, hwanted, hstep⟩ := Except.bind_eq_ok.mp hstep
  cases hstep
  rcases List.mem_append.mp hc with hc | hc
  · exact hcolumns c hc
  · obtain ⟨d, hd, taken, hc⟩ := exists_of_mem_freshColumns hc
    exact ⟨item.1, List.fst_mem_of_mem_zipIdx hitem, item.2, d, taken,
      outputs_of_itemColumns hwanted d hd, hc⟩

/-- The keys of a projection are columns. -/
theorem exists_column_of_mem_keys (h : s.project items = .ok p) :
    ∀ e ∈ p.keys, ∃ c ∈ p.columns, e = c.expr := by
  refine Except.foldlM_induction (fun p : Projected => ∀ e ∈ p.keys, ∃ c ∈ p.columns, e = c.expr) ?_
    (by simp) h
  intro p hkeys item _ p' hstep e he
  obtain ⟨wanted, -, hstep⟩ := Except.bind_eq_ok.mp hstep
  cases hstep
  have hcases : e ∈ p.keys ∨
      e ∈ (freshColumns (p.columns.map ResultColumn.name) wanted).map ResultColumn.expr := by
    dsimp only at he
    split at he
    · exact .inl he
    · exact List.mem_append.mp he
  rcases hcases with he | he
  · obtain ⟨c, hc, rfl⟩ := hkeys e he
    exact ⟨c, List.mem_append_left _ hc, rfl⟩
  · obtain ⟨c, hc, rfl⟩ := List.mem_map.mp he
    exact ⟨c, List.mem_append_right _ hc, rfl⟩

/-- Every column of a projection is an output of one of its items under a name that is free, and the
keys are columns. -/
theorem exists_outputs_of_project (h : s.project items = .ok p) :
    (∀ c ∈ p.columns, ∃ item ∈ items, ∃ index d taken, Outputs s index item d ∧
        c = { d with name := Relational.freshName d.name taken }) ∧
      ∀ e ∈ p.keys, ∃ c ∈ p.columns, e = c.expr :=
  ⟨exists_outputs_of_mem_columns h, exists_column_of_mem_keys h⟩

end Scope

end GraphSql
