import GraphSql.Proofs.Compiler.TempTables
import GraphSql.Proofs.Letters
import GraphSql.Proofs.Scope.Aliases

/-!
# Loops and the ids of nodes

The nodes that the actions of a loop name are found by columns of the query before the loop: by the
id property of a name, or else by its whole value.  Such a column holds ids of nodes when the
projections before the loop give the name to nodes, to their ids, or to the least or greatest of these
(`Query.passesNode`); it can hold anything when they give it to something else.

`Scope.Identifies` says that a scope hands out ids of nodes for the given names.  It holds of the
variables of patterns, and a projection keeps it for the names that pass nodes on
(`Scope.Identifies.project`), so it holds of both stages of a query.
-/

namespace GraphSql

variable {d : Schema.Declaration} {name : String}

/-! ## Names that pass nodes on -/

namespace Query

/-- Whether an expression stands for a node or its id; `isNode` tells which names stand for nodes. -/
def Expr.isNodeId (isNode : String → Bool) : Expr → Bool
  | .var x => isNode x
  | .property (.var x) key => isNode x && Text.sameName key Schema.nodeId
  | _ => false

/-- The least and the greatest of some ids are ids as well. -/
def Expr.picksNodeId (isNode : String → Bool) : Expr → Bool
  | .call f _ (e :: _) =>
    (Aggregate.ofName? f == some .min || Aggregate.ofName? f == some .max) && e.isNodeId isNode
  | e => e.isNodeId isNode

/-- Whether an item that gives something to the name `x` gives a node to it.  Without a new name, a
property stays a property of its variable. -/
def ReturnItem.passesNode (isNode : String → Bool) (x : String) (i : ReturnItem) : Bool :=
  match i.asName with
  | some a => a != x || i.expr.picksNodeId isNode
  | none =>
    match i.expr with
    | .var y => y != x || isNode y
    | .property (.var y) _ => y != x || isNode y
    | _ => true

def Projection.passesNode (isNode : String → Bool) (p : Projection) (x : String) : Bool :=
  p.items.all fun i => i.passesNode isNode x

/-- Whether the name `x` stands for nodes behind the last projection of a query. -/
def passesNode (q : Query) (x : String) : Bool :=
  match q.plain?, q.staged? with
  | some (ms, p), _ => p.passesNode (nodeNames ms).contains x
  | none, some (ms, w, p) =>
    p.passesNode (w.toProjection.passesNode (nodeNames ms).contains) x
  | none, none => false

variable {isNode : String → Bool} {x : String} {i : ReturnItem}

/-- What is given to a name by `AS` has to be an id. -/
theorem ReturnItem.picksNodeId_of_asName (ha : i.asName = some x)
    (h : i.passesNode isNode x = true) : i.expr.picksNodeId isNode = true := by
  rw [passesNode, ha] at h
  simpa using h

theorem ReturnItem.isNode_of_var {y : String} (he : i.expr = .var y) (hx : i.asName.getD y = x)
    (h : i.passesNode isNode x = true) : isNode y = true := by
  cases ha : i.asName with
  | some a =>
    rw [ha, Option.getD_some] at hx
    have hpick := picksNodeId_of_asName (hx ▸ ha) h
    rw [he] at hpick
    exact hpick
  | none =>
    rw [ha, Option.getD_none] at hx
    rw [passesNode, ha, he] at h
    simpa [hx] using h

/-- A property that is given to a name is an id, or stays a property of a node. -/
theorem ReturnItem.isNode_of_property {y key : String} (he : i.expr = .property (.var y) key)
    (hx : i.asName.getD y = x) (h : i.passesNode isNode x = true) :
    isNode y = true ∧ (i.asName.isSome = true → Text.sameName key Schema.nodeId = true) := by
  cases ha : i.asName with
  | some a =>
    rw [ha, Option.getD_some] at hx
    have hpick := picksNodeId_of_asName (hx ▸ ha) h
    rw [he] at hpick
    obtain ⟨hy, hkey⟩ := Bool.and_eq_true_iff.mp hpick
    exact ⟨hy, fun _ => hkey⟩
  | none =>
    rw [ha, Option.getD_none] at hx
    rw [passesNode, ha, he] at h
    exact ⟨by simpa [hx] using h, by simp⟩

theorem Expr.cases_of_picksNodeId {e : Expr} (h : e.picksNodeId isNode = true) :
    (∃ y, e = .var y) ∨ (∃ y key, e = .property (.var y) key) ∨ ∃ f args, e.Calls f args := by
  unfold picksNodeId at h
  split at h
  · exact .inr (.inr ⟨_, _, .inl ⟨_, rfl⟩⟩)
  · unfold isNodeId at h
    split at h
    · exact .inl ⟨_, rfl⟩
    · exact .inr (.inl ⟨_, _, rfl⟩)
    · cases h

/-- A call that picks an id picks it from its first argument. -/
theorem Expr.Calls.picksNodeId {e : Expr} {f : String} {args : List Expr} (hcall : e.Calls f args)
    (h : e.picksNodeId isNode = true) : ∃ a rest, args = a :: rest ∧ a.isNodeId isNode = true ∧
      (Aggregate.ofName? f = some .min ∨ Aggregate.ofName? f = some .max) := by
  rcases hcall with ⟨distinct, rfl⟩ | ⟨rfl, -⟩
  · cases args with
    | nil => cases h
    | cons a rest =>
      rw [Expr.picksNodeId, Bool.and_eq_true, Bool.or_eq_true, beq_iff_eq, beq_iff_eq] at h
      exact ⟨a, rest, rfl, h.2, h.1⟩
  · cases h

end Query

/-! ## Scopes that hand out ids -/

/-- A single value that was read from the id of a table of nodes. -/
def IsNodeId (schema : Schema) (isList : Bool) (origin : Option Origin) : Prop :=
  isList = false ∧ ∃ table, schema.NodeTable table ∧ origin = some ⟨table, some Schema.nodeId⟩

/-- A column with a whole value or with the id of one. -/
def ResultColumn.Identifying (c : ResultColumn) : Prop :=
  ∀ k ∈ c.key, Text.sameName k Schema.nodeId = true

theorem ResultColumn.identifying_of_none {c : ResultColumn} (h : c.key = none) : c.Identifying := by
  rw [Identifying, h]
  simp

theorem ResultColumn.identifying_of_some {c : ResultColumn} {k : String} (h : c.key = some k)
    (hid : Text.sameName k Schema.nodeId = true) : c.Identifying := by
  rw [Identifying, h]
  rintro _ ⟨⟩
  exact hid

/-- The columns that identify what the given names stand for hold ids of nodes. -/
def Identified (schema : Schema) (isNode : String → Bool) (columns : List ResultColumn) : Prop :=
  ∀ x, isNode x = true → ∀ c ∈ columns, c.scopeName = some x → c.Identifying →
    IsNodeId schema c.isList c.origin

namespace Relation

variable {r : Relation} {x : String} {c : ResultColumn}

theorem whole?_eq_some (h : r.whole? x = some c) :
    c ∈ r.columns ∧ c.scopeName = some x ∧ c.key = none := by
  have htest := List.find?_some h
  rw [Bool.and_eq_true, beq_iff_eq, beq_iff_eq] at htest
  exact ⟨List.mem_of_find?_eq_some h, htest⟩

theorem property?_eq_some {key : String} (h : r.property? x key = some c) :
    c ∈ r.columns ∧ c.scopeName = some x ∧ ∃ k, c.key = some k ∧ Text.sameName k key = true := by
  have htest := List.find?_some h
  rw [Bool.and_eq_true, beq_iff_eq] at htest
  refine ⟨List.mem_of_find?_eq_some h, htest.1, ?_⟩
  cases hkey : c.key with
  | none => simp [hkey] at htest
  | some k =>
    rw [hkey] at htest
    exact ⟨k, rfl, (Bool.and_eq_true_iff.mp htest.2).2⟩

theorem key?_eq_some (h : r.key? x = some c) :
    c ∈ r.columns ∧ c.scopeName = some x ∧ c.Identifying := by
  unfold key? at h
  split at h
  · rename_i hproperty
    cases h
    obtain ⟨hmem, hscope, k, hkey, hid⟩ := property?_eq_some hproperty
    exact ⟨hmem, hscope, ResultColumn.identifying_of_some hkey hid⟩
  · obtain ⟨hmem, hscope, hkey⟩ := whole?_eq_some h
    exact ⟨hmem, hscope, ResultColumn.identifying_of_none hkey⟩

theorem mem_properties (h : c ∈ r.properties x) :
    c ∈ r.columns ∧ c.scopeName = some x ∧ ∃ k, c.key = some k := by
  obtain ⟨hmem, htest⟩ := List.mem_filter.mp h
  rw [Bool.and_eq_true, beq_iff_eq, Option.isSome_iff_exists] at htest
  exact ⟨hmem, htest⟩

end Relation

namespace Scope

variable {schema : Schema} {s : Scope} {isNode : String → Bool} {x : String}

/-- For the given names a scope hands out ids of nodes, as a whole and as their id property. -/
structure Identifies (schema : Schema) (s : Scope) (isNode : String → Bool) : Prop where
  name {x : String} {r : Resolved} : isNode x = true → s.lookupName x = .ok r →
    IsNodeId schema r.isList r.origin
  property {x key : String} {r : Resolved} : isNode x = true →
    Text.sameName key Schema.nodeId = true → s.lookupProperty x key = .ok r →
      IsNodeId schema r.isList r.origin
  columns {x scope : String} {c : ResultColumn} : isNode x = true →
    s.VariableColumn x scope c → c.Identifying → IsNodeId schema c.isList c.origin

theorem Identifies.resolve (h : s.Identifies schema isNode) {e : Query.Expr} {r : Resolved}
    (he : e.isNodeId isNode = true) (hr : s.resolve e = .ok r) :
    IsNodeId schema r.isList r.origin := by
  unfold Query.Expr.isNodeId at he
  split at he
  · exact h.name he hr
  · obtain ⟨hx, hkey⟩ := Bool.and_eq_true_iff.mp he
    exact h.property hx hkey hr
  · cases he

/-- The least and the greatest of some ids are ids. -/
theorem Identifies.aggregate (h : s.Identifies schema isNode) {e : Query.Expr} {a : Aggregate}
    {argument : Option Resolved} (ha : a = .min ∨ a = .max) (he : e.isNodeId isNode = true)
    (hargument : (some e).mapM s.resolve = .ok argument) :
    IsNodeId schema (a = .collect) (aggregateOrigin a argument) := by
  obtain ⟨r, hr, hargument⟩ := Except.bind_eq_ok.mp hargument
  cases hargument
  have hid := h.resolve he hr
  rcases ha with rfl | rfl
  · exact ⟨rfl, hid.2⟩
  · exact ⟨rfl, hid.2⟩

theorem Identifies.outputs (h : s.Identifies schema isNode) {index : Nat}
    {item : Query.ReturnItem} {c : ResultColumn} (hitem : item.passesNode isNode x = true)
    (hc : Outputs s index item c) (hscope : c.scopeName = some x) (hid : c.Identifying) :
    IsNodeId schema c.isList c.origin := by
  cases hc with
  | named hexpr hc =>
    have hname := Option.some.inj (hc.scopeName.symm.trans hscope)
    exact h.columns (Query.ReturnItem.isNode_of_var hexpr hname hitem) hc hid
  | @property y key r hexpr hr =>
    obtain ⟨hy, hkey⟩ := Query.ReturnItem.isNode_of_property hexpr (Option.some.inj hscope) hitem
    refine h.property hy ?_ hr
    by_cases hsome : item.asName.isSome = true
    · exact hkey hsome
    · exact hid key (by simp [hsome])
  | aggregate hcall ha hargument =>
    obtain ⟨e, rest, rfl, he, hname⟩ :=
      hcall.picksNodeId (Query.ReturnItem.picksNodeId_of_asName hscope hitem)
    rw [ha] at hname
    exact h.aggregate (hname.imp Option.some.inj Option.some.inj) he hargument
  | call hcall hf =>
    obtain ⟨e, rest, -, -, hname⟩ :=
      hcall.picksNodeId (Query.ReturnItem.picksNodeId_of_asName hscope hitem)
    rw [hf] at hname
    rcases hname with hname | hname <;> cases hname
  | other hvar hproperty hcall =>
    have hpick := Query.ReturnItem.picksNodeId_of_asName hscope hitem
    rcases Query.Expr.cases_of_picksNodeId hpick with ⟨y, he⟩ | ⟨y, key, he⟩ | ⟨f, args, he⟩
    · exact absurd he (hvar y)
    · exact absurd he (hproperty y key)
    · exact absurd he (hcall f args)

/-- **Projections pass ids on**, under the names that they give to nodes. -/
theorem Identifies.project (h : s.Identifies schema isNode) {p : Query.Projection}
    {projected : Projected} (hp : s.project p.items = .ok projected) :
    Identified schema (p.passesNode isNode) projected.columns := by
  intro x hx c hc hscope hid
  obtain ⟨item, hitem, index, d, taken, hd, rfl⟩ := (exists_outputs_of_project hp).1 c hc
  have hnode := h.outputs (List.all_eq_true.mp hx item hitem) hd hscope hid
  exact hnode

/-! ## Both stages -/

/-- The variables of node patterns are bound to nodes. -/
theorem mem_nodes_of_mem_nodeNames {ms : List Query.Matching}
    (h : addPatterns schema {} (ms.flatMap Query.Matching.patterns) = .ok s)
    (hx : x ∈ Query.nodeNames ms) : x ∈ s.nodes.map BoundNode.name := by
  obtain ⟨m, hm, hx⟩ := List.mem_flatMap.mp (Query.mem_firstAppearances.mp hx)
  obtain ⟨p, hp, hx⟩ := List.mem_flatMap.mp hx
  obtain ⟨n, hn, hnode⟩ := List.mem_filterMap.mp hx
  have hpatterns := Query.map_pattern_aliasedPatterns 0 (ms.flatMap Query.Matching.patterns)
  obtain ⟨q, hq, rfl⟩ : ∃ q ∈ (Query.aliasedPatterns 0 (ms.flatMap Query.Matching.patterns)).1,
      q.pattern = p := by
    rw [← List.mem_map, hpatterns]
    exact List.mem_flatMap.mpr ⟨m, hm, hp⟩
  have hplace : some x ∈ q.nodePlaces.map Prod.fst := by
    rw [q.map_fst_nodePlaces, ← hnode]
    exact List.mem_map_of_mem hn
  obtain ⟨a, ha, hname⟩ := List.mem_map.mp hplace
  have hmem : a ∈ (Query.aliasedPatterns 0 (ms.flatMap Query.Matching.patterns)).1.flatMap
      Query.AliasedPattern.nodePlaces := List.mem_flatMap.mpr ⟨q, hq, ha⟩
  have halias : a.2 = x := (aliased_aliasedPatterns 0 _).eq_variable
    ((Query.AliasedPattern.nodePlaces_sublist_places _).subset hmem) hname
  exact ((binds_of_addPatterns h).nodes x).mpr (.inr (halias ▸ List.mem_map_of_mem hmem))

/-- Variables that range over tables of nodes are identified by the ids of the tables. -/
theorem Ranged.identifies (hschema : Schema.build d = .ok schema) (h : s.Ranged schema [])
    (hbound : ∀ x, isNode x = true → x ∈ s.nodes.map BoundNode.name) :
    s.Identifies schema isNode where
  name := by
    intro x r hx hr
    obtain ⟨table, columns, hover⟩ := h.exists_overNodes (hbound x hx)
    rw [hover.lookupName] at hr
    cases hr
    obtain ⟨-, n, labels, hn, hsource⟩ := hover
    exact ⟨rfl, table, h.nodeTable hn hsource, rfl⟩
  property := by
    intro x key r hx hkey hr
    obtain ⟨table, columns, hover⟩ := h.exists_overNodes (hbound x hx)
    rw [lookupProperty, hover.stored?] at hr
    obtain ⟨hcolumns, n, labels, hn, hsource⟩ := hover
    dsimp only at hr
    split at hr
    · rename_i e he
      have hsame : Text.sameName e.name key = true :=
        List.find?_some (p := fun d : Column => Text.sameName d.name key) he
      have hid := Schema.eq_idColumn hschema hcolumns (List.mem_of_find?_eq_some he)
        (Text.sameName_trans hsame hkey)
      cases hr
      exact ⟨rfl, table, h.nodeTable hn hsource, by rw [hid]; rfl⟩
    · cases hr
  columns := by
    intro x scope c hx hc hid
    obtain ⟨table, columns, hover⟩ := h.exists_overNodes (hbound x hx)
    have hstored := hover.stored?
    obtain ⟨hcolumns, n, labels, hn, hsource⟩ := hover
    cases hc with
    | @stored table' columns' e hstored' he =>
      cases hstored.symm.trans hstored'
      have hid := Schema.eq_idColumn hschema hcolumns he (hid e.name rfl)
      exact ⟨rfl, table, h.nodeTable hn hsource, by rw [hid]; rfl⟩
    | whole _ _ hnone => cases hnone.symm.trans hstored
    | member _ _ hnone => cases hnone.symm.trans hstored

/-- A relation whose columns hold ids hands them on. -/
theorem identifies_reading (name : String) {r : Relation} (h : Identified schema isNode r.columns) :
    (reading name r).Identifies schema isNode where
  name := by
    intro x resolved hx hr
    obtain ⟨c, hc, rfl⟩ := lookupName_reading_eq_ok hr
    obtain ⟨hmem, hscope, hid⟩ := Relation.key?_eq_some hc
    exact h x hx c hmem hscope hid
  property := by
    intro x key resolved hx hkey hr
    obtain ⟨c, hc, rfl⟩ := lookupProperty_reading_eq_ok hr
    obtain ⟨hmem, hscope, k, hk, hsame⟩ := Relation.property?_eq_some hc
    exact h x hx c hmem hscope
      (ResultColumn.identifying_of_some hk (Text.sameName_trans hsame hkey))
  columns := by
    intro x scope c hx hc hid
    rcases variableColumn_reading_cases hc with ⟨d, hd, rfl⟩ | ⟨d, hd, rfl⟩
    · obtain ⟨hmem, hscope, hkey⟩ := Relation.whole?_eq_some hd
      exact h x hx d hmem hscope (ResultColumn.identifying_of_none hkey)
    · obtain ⟨hmem, hscope, -⟩ := Relation.mem_properties hd
      exact h x hx d hmem hscope hid

end Scope

namespace Plan

variable {schema : Schema} {p : Query.Projection} {plan : Plan}

theorem identified_ofClauses (hschema : Schema.build d = .ok schema) {ms : List Query.Matching}
    (h : ofClauses schema [] ms p = .ok plan) :
    Identified schema (p.passesNode (Query.nodeNames ms).contains) plan.projection := by
  obtain ⟨s, projected, compiled, select, hs, hselect, rfl⟩ := ofClauses_eq_ok.mp h
  have hs' := (Scope.ranged_of_addPatterns hs).identifies hschema fun x hx =>
    Scope.mem_nodes_of_mem_nodeNames hs (List.contains_iff_mem.mp hx)
  exact hs'.project hselect.project_eq

theorem identified_ofRelation {isNode : String → Bool} {r : Relation}
    {condition : Option Query.Expr} (hr : Identified schema isNode r.columns)
    (h : ofClauses schema [(name, r)] [.reading name condition] p = .ok plan) :
    Identified schema (p.passesNode isNode) plan.projection := by
  obtain ⟨projected, compiled, hcolumns, hselect⟩ := selects_reading h
  rw [hcolumns]
  exact (Scope.identifies_reading name hr).project hselect.project_eq

end Plan

namespace Query

def Clause.looping? : Clause → Option Loop
  | .looping l => some l
  | _ => none

theorem Clause.looping?_eq_some {c : Clause} {l : Loop} (h : c.looping? = some l) :
    c = .looping l := by
  cases c with
  | looping l' =>
    cases h
    rfl
  | _ => cases h

/-- **Right behind a match clause all names stand for nodes.** -/
theorem passesNode_of_matching {q q' : Query} {m : Matching}
    (hlast : q.getLast? = some (.matching m)) (h : beforeLoop? q = some q')
    (hparts : (∃ ms p, q'.plain? = some (ms, p)) ∨ ∃ ms w p, q'.staged? = some (ms, w, p))
    (x : String) : q'.passesNode x = true := by
  rw [beforeLoop?, hlast] at h
  dsimp only at h
  split at h
  · cases h
  · cases h
    rcases hparts with ⟨ms, p, hplain⟩ | ⟨ms, w, p, hstaged⟩
    · obtain ⟨hms, hp⟩ := List.append_inj' (plain?_eq_some hplain) rfl
      have hmatched : q.filterMap Clause.matching? = ms := by
        rw [hms, List.filterMap_map]
        exact List.filterMap_some
      rw [passesNode, hplain]
      rw [hmatched] at hp
      cases hp
      refine List.all_eq_true.mpr fun i hi => ?_
      obtain ⟨y, hy, rfl⟩ := List.mem_map.mp hi
      simp [ReturnItem.passesNode, hy]
    · have hsplit := staged?_eq_some hstaged
      rw [← List.singleton_append (x := Clause.passing w), ← List.append_assoc] at hsplit
      obtain ⟨hq, -⟩ := List.append_inj' hsplit rfl
      rw [hq, List.getLast?_append] at hlast
      cases hlast

end Query

/-! ## Where ids are wanted -/

namespace Relational

def Operand.rowColumn? : Operand → Option String
  | .rowColumn column => some column
  | _ => none

def Operand.loopVar? : Operand → Option String
  | .loopVar name => some name
  | _ => none

/-- The values that a write compares with the id of a node, or enters as an end of an edge. -/
def Write.idOperands : Write → List Operand
  | .update _ _ (.equals column o) => if column = Schema.nodeId then [o] else []
  | .update _ _ (.idAmong column _) => [.rowColumn column]
  | .insertEdge values _ =>
    (values.filter fun v => v.1 == Schema.edgeSource || v.1 == Schema.edgeTarget).map Prod.snd

/-- The columns of the query before a loop that a statement takes ids from.  A block keeps them in
variables, of which the one for the element is left out. -/
def Statement.idColumns (element : String) : Statement → List String
  | .write w => w.idOperands.filterMap Operand.rowColumn?
  | .block b =>
    (b.declared.filter fun v => v.name != element &&
      ((b.body.flatMap Write.idOperands).filterMap Operand.loopVar?).contains v.name).map
        BlockVariable.column
  | _ => []

end Relational

open Relational (Literal Operand Statement Write)

variable {o : Operand}

/-- What stands for the element: a literal of a list that is written out, or the variable of a block. -/
inductive IsElement (l : Query.Loop) : Operand → Prop
  | literal {elements : List Value} {v : Value} (type : ColumnType) :
      Compiler.elementsOf? l = some elements → v ∈ elements →
      IsElement l (.literal (Literal.ofValueAs type v))
  | current {name : String} : l.source = .var name → IsElement l (.loopVar l.name)

/-- What the write `w` of a loop uses as the id of a node: the element or the node that is looked up by
it, or an output column of the query before the loop, which a block keeps in a variable.  A literal is
used when a property of a new edge goes by the name of one of its ends. -/
inductive IsIdOperand (l : Query.Loop) (before : Plan) (w : Write) : Operand → Prop
  | element {o : Operand} : IsElement l o → IsIdOperand l before w o
  | lookedUp {o : Operand} (table column : String) : IsElement l o →
      IsIdOperand l before w (.nodeWith table column o)
  | row {x : String} {col : ResultColumn} : x ∈ l.outerNames → before.output? x = some col →
      IsIdOperand l before w (.rowColumn col.name)
  | kept {x : String} {col : ResultColumn} : x ∈ l.outerNames → before.output? x = some col →
      IsIdOperand l before w (.loopVar x)
  | property (v : Literal) : ¬ w.NamesOnce → IsIdOperand l before w (.literal v)

theorem IsIdOperand.exists_output {l : Query.Loop} {before : Plan} {w : Write}
    (h : IsIdOperand l before w o) {column : String} (ho : o.rowColumn? = some column) :
    ∃ x ∈ l.outerNames, ∃ col, before.output? x = some col ∧ col.name = column := by
  cases h with
  | element helement =>
    cases helement with
    | literal => cases ho
    | current => cases ho
  | lookedUp => cases ho
  | row hx hcol =>
    cases ho
    exact ⟨_, hx, _, hcol, rfl⟩
  | kept => cases ho
  | property => cases ho

/-- A new edge whose property goes by the name of an end names it twice. -/
theorem Relational.Write.not_namesOnce_of_end {sourceId targetId type : Operand}
    {properties : List (String × Operand)} {rows : Option String} {v : String × Operand}
    (hv : v ∈ properties) (hname : v.1 = Schema.edgeSource ∨ v.1 = Schema.edgeTarget) :
    ¬(Write.insertEdge ((Schema.edgeSource, sourceId) :: (Schema.edgeTarget, targetId) ::
      (Schema.edgeType, type) :: properties) rows).NamesOnce := by
  intro honce
  rw [NamesOnce, columnKeys, entries, List.map_cons, List.map_cons, List.map_cons,
    List.nodup_cons, List.nodup_cons] at honce
  have hkey : Text.lower v.1 ∈ properties.map fun e => Text.lower e.1 :=
    List.mem_map_of_mem (f := fun e : String × Operand => Text.lower e.1) hv
  rcases hname with hname | hname
  · rw [hname] at hkey
    exact honce.1 (List.mem_cons_of_mem _ (List.mem_cons_of_mem _ hkey))
  · rw [hname] at hkey
    exact honce.2.1 (List.mem_cons_of_mem _ hkey)

namespace LoopEnv

variable {env : LoopEnv} {schema : Schema} {l : Query.Loop} {before : Plan}

/-- The variables of the actions stand for the element of a loop and for output columns of the query
before it. -/
structure Serves (env : LoopEnv) (l : Query.Loop) (before : Plan) : Prop where
  element : ∀ type, IsElement l (env.elementAs type)
  columns : ∀ p ∈ env.columns, p.1 ∈ l.outerNames ∧ before.output? p.1 = some p.2

theorem Serves.idOperand_of_idOf (henv : env.Serves l before) (w : Write) {x : String}
    (h : env.idOf x = .ok o) : IsIdOperand l before w o := by
  rcases idOf_cases h with ⟨-, rfl⟩ | rfl | ⟨col, hcol, rfl⟩
  · exact .element (henv.element _)
  · exact .lookedUp _ _ (henv.element _)
  · obtain ⟨hx, houtput⟩ := henv.columns (x, col) (mem_of_lookup hcol)
    split
    · exact .row hx houtput
    · exact .kept hx houtput

/-- **Every id that a write uses is that of the element or comes from the query before the loop.** -/
theorem Serves.idOperands (henv : env.Serves l before) {actions : List Query.Action}
    {ws : List Write} (h : env.writes schema actions = .ok ws) {w : Write} (hw : w ∈ ws)
    (ho : o ∈ w.idOperands) : IsIdOperand l before w o := by
  rcases mem_writes h hw with ⟨items, x, -, -, hw⟩ | ⟨p, -, hw⟩
  · obtain ⟨table, test, columns, assignments, rfl, htarget, -⟩ := update_cases hw
    rcases target_cases htarget with rfl | ⟨col, hcol, rfl⟩
    · rw [Write.idOperands] at ho
      split at ho
      · obtain rfl := List.mem_singleton.mp ho
        exact .element (henv.element _)
      · cases ho
    · obtain ⟨hx, houtput⟩ := henv.columns (x, col) (mem_of_lookup hcol)
      split at ho
      · obtain rfl := List.mem_singleton.mp ho
        exact .row hx houtput
      · rw [Write.idOperands, if_pos rfl] at ho
        obtain rfl := List.mem_singleton.mp ho
        exact .kept hx houtput
  · obtain ⟨type, -, source, target, sourceId, targetId, properties, -, hsource, htarget, hproperties,
      rfl⟩ := insertEdge_cases hw
    obtain ⟨v, hv, rfl⟩ := List.mem_map.mp ho
    obtain ⟨hv, hname⟩ := List.mem_filter.mp hv
    rw [Bool.or_eq_true, beq_iff_eq, beq_iff_eq] at hname
    simp only [List.mem_cons] at hv
    rcases hv with rfl | rfl | rfl | hv
    · exact henv.idOperand_of_idOf _ hsource
    · exact henv.idOperand_of_idOf _ htarget
    · have htype : ¬(Schema.edgeType = Schema.edgeSource ∨ Schema.edgeType = Schema.edgeTarget) := by
        decide
      exact absurd hname htype
    · obtain ⟨c, -, e, -, hvalue⟩ := hproperties v hv
      rcases value_cases hvalue with hvalue | ⟨u, hvalue⟩ <;> rw [hvalue]
      · exact .element (henv.element _)
      · exact .property _ (Write.not_namesOnce_of_end hv hname)

end LoopEnv

/-! ## Loops that are compiled -/

namespace Compiler

open Query (Loop)

variable {c : Compiler} {k k' : Nat} {q : Query} {statements : List Statement}
  {columns : List (String × ResultColumn)}

theorem passesNode_finalProjection (isNode : String → Bool) (w : Query.WithProjection)
    (p : Query.Projection) : (finalProjection w p).passesNode isNode = p.passesNode isNode := by
  unfold finalProjection
  split
  · rfl
  · rfl

theorem PreparesTo.identified (hschema : Schema.build d = .ok c.schema) {p : Prepared}
    (h : c.PreparesTo k q p k') : Identified c.schema q.passesNode p.final.projection := by
  intro x hx
  cases h with
  | plain hparts hplan =>
    rw [Query.passesNode, hparts] at hx
    exact Plan.identified_ofClauses hschema hplan x hx
  | staged hparts hfirst hfinal =>
    rw [Query.passesNode, Query.plain?_of_staged? hparts, hparts] at hx
    have hstage := Plan.identified_ofRelation (Plan.identified_ofClauses hschema hfirst) hfinal
    rw [passesNode_finalProjection] at hstage
    exact hstage x hx

/-- A loop finds the nodes of the query before it by output columns of that query.  Such a column
holds ids of nodes when its name passes nodes on, and all names do so right behind a match clause. -/
structure ReachesNodes (schema : Schema) (q : Query) (l : Loop) (q' : Query) (before : Plan)
    (statements : List Statement) : Prop where
  output : ∀ x ∈ l.outerNames, ∃ col, before.output? x = some col ∧
    (q'.passesNode x = true → IsNodeId schema col.isList col.origin)
  matched : ∀ m, q.dropLast.getLast? = some (.matching m) → ∀ x, q'.passesNode x = true
  uses : ∀ s ∈ statements, ∀ column ∈ s.idColumns l.name,
    ∃ x ∈ l.outerNames, ∃ col, before.output? x = some col ∧ col.name = column
  ids : ∀ s ∈ statements, ∀ w ∈ s.writes, ∀ o ∈ w.idOperands, IsIdOperand l before w o

/-- What a statement behind a loop is asked for by `ReachesNodes`. -/
def TakesIds (l : Loop) (before : Plan) (s : Statement) : Prop :=
  (∀ column ∈ s.idColumns l.name,
    ∃ x ∈ l.outerNames, ∃ col, before.output? x = some col ∧ col.name = column) ∧
  ∀ w ∈ s.writes, ∀ o ∈ w.idOperands, IsIdOperand l before w o

theorem PreparesTo.takesIds {p : Prepared} (h : c.PreparesTo k q p k') (l : Loop) (before : Plan) :
    ∀ s ∈ p.setup, TakesIds l before s := by
  intro s hs
  cases h with
  | plain => cases hs
  | staged =>
    obtain rfl := List.mem_singleton.mp hs
    exact ⟨fun _ h => absurd h List.not_mem_nil, fun _ h => absurd h List.not_mem_nil⟩

theorem serves_unrolledEnv {l : Loop} {before : Plan}
    (hcolumns : before.outputs l.outerNames = .ok columns) {elements : List Value}
    (helements : elementsOf? l = some elements) (rows : Option String) {v : Value}
    (hv : v ∈ elements) : (unrolledEnv l columns rows v).Serves l before where
  element type := .literal type helements hv
  columns := Plan.mem_outputs hcolumns

theorem serves_blockEnv {l : Loop} {before : Plan}
    (hcolumns : before.outputs l.outerNames = .ok columns) (hname : l.source = .var name)
    (source : ResultColumn) : (blockEnv l columns source).Serves l before where
  element _ := .current hname
  columns := Plan.mem_outputs hcolumns

/-- The ids of unrolled writes come from the elements and from the columns that identify variables. -/
theorem takesIds_of_unrolled {l : Loop} {before : Plan}
    (hcolumns : before.outputs l.outerNames = .ok columns) {elements : List Value}
    (helements : elementsOf? l = some elements) {rows : Option String} {writes : List (List Write)}
    (hwrites : elements.mapM (fun v => (unrolledEnv l columns rows v).writes c.schema l.actions) =
      .ok writes) {s : Statement} (hs : s ∈ writes.flatten.map .write) : TakesIds l before s := by
  obtain ⟨v, hv, ws, w, hws, hw, rfl⟩ := exists_writes_of_mem hwrites hs
  have henv := serves_unrolledEnv hcolumns helements rows hv
  constructor
  · intro column hcolumn
    obtain ⟨o, ho, hcolumn⟩ := List.mem_filterMap.mp hcolumn
    exact (henv.idOperands hws hw ho).exists_output hcolumn
  · intro w' hw' o ho
    obtain rfl := List.mem_singleton.mp hw'
    exact henv.idOperands hws hw ho

/-- The variables of a block, that of the element apart, hold columns that identify variables. -/
theorem takesIds_of_block {l : Loop} {before : Plan}
    (hcolumns : before.outputs l.outerNames = .ok columns) (hname : l.source = .var name)
    {source : ResultColumn} {select : Relational.Select} {body : List Write}
    (hbody : (blockEnv l columns source).writes c.schema l.actions = .ok body) :
    TakesIds l before (.block { declared := blockVariables l source columns
                                source := select, body }) := by
  constructor
  · intro column hcolumn
    obtain ⟨v, hv, rfl⟩ := List.mem_map.mp hcolumn
    obtain ⟨hv, htest⟩ := List.mem_filter.mp hv
    have hne : v.name ≠ l.name := bne_iff_ne.mp (Bool.and_eq_true_iff.mp htest).1
    rcases List.mem_cons.mp hv with rfl | hv
    · exact absurd rfl hne
    · obtain ⟨⟨x, col⟩, hcol, rfl⟩ := List.mem_map.mp hv
      obtain ⟨hx, houtput⟩ := Plan.mem_outputs hcolumns _ hcol
      exact ⟨x, hx, col, houtput, rfl⟩
  · intro w hw o ho
    exact (serves_blockEnv hcolumns hname source).idOperands hbody hw ho

theorem CompilesTo.exists_loop (h : c.CompilesTo k q statements k') (hloop : q.shape = .loop) :
    ∃ l q' before k₁ columns, EndsInLoop q l q' ∧
      (c.prepare q').run.run k = (.ok before, k₁) ∧
      before.final.outputs l.outerNames = .ok columns ∧
      ∀ s ∈ statements, TakesIds l before.final s := by
  cases h with
  | prepared hshape => exact absurd hloop hshape
  | unrolled _ hends hbefore hcolumns _ hwrites helements =>
    exact ⟨_, _, _, _, _, hends, hbefore, hcolumns, fun s hs =>
      takesIds_of_unrolled hcolumns helements hwrites hs⟩
  | unrolledRows _ hends hbefore hcolumns _ _ hwrites helements =>
    refine ⟨_, _, _, _, _, hends, hbefore, hcolumns, fun s hs => ?_⟩
    rcases List.mem_append.mp hs with hs | hs
    · exact (preparesTo_of_prepare hbefore).takesIds _ _ s hs
    · rcases List.mem_cons.mp hs with rfl | hs
      · exact ⟨fun _ h => absurd h List.not_mem_nil, fun _ h => absurd h List.not_mem_nil⟩
      · exact takesIds_of_unrolled hcolumns helements hwrites hs
  | iterated _ hends hbefore hcolumns _ hbody hname =>
    refine ⟨_, _, _, _, _, hends, hbefore, hcolumns, fun s hs => ?_⟩
    rcases List.mem_append.mp hs with hs | hs
    · exact (preparesTo_of_prepare hbefore).takesIds _ _ s hs
    · obtain rfl := List.mem_singleton.mp hs
      exact takesIds_of_block hcolumns hname hbody

/-- **A loop writes through the ids of nodes, as far as its names pass nodes on.**  The variables that
its actions use as nodes, that of the element apart, are output columns of the query before it, and
its statements take ids from these columns only; all other ids are the element, or looked up by it.  The
column of a name that passes nodes on is no list, and was read from the id of a table of nodes. -/
theorem reachesNodes_of_compile {d : Schema.Declaration} (hschema : Schema.build d = .ok c.schema)
    {text : String} (hq : Query.parse text = .ok q) (hloop : q.shape = .loop)
    (h : (c.compile text).run.run k = (.ok statements, k')) :
    ∃ l q' before k₁, EndsInLoop q l q' ∧ (c.prepare q').run.run k = (.ok before, k₁) ∧
      ReachesNodes c.schema q l q' before.final statements := by
  obtain ⟨q₀, hq₀, hcompiles⟩ := compilesTo_of_compile h
  cases hq.symm.trans hq₀
  obtain ⟨l, q', before, k₁, columns, hends, hbefore, hcolumns, huses⟩ := hcompiles.exists_loop hloop
  have hprepares := preparesTo_of_prepare hbefore
  refine ⟨l, q', before, k₁, hends, hbefore, fun x hx => ?_, fun m hm => ?_,
    fun s hs => (huses s hs).1, fun s hs => (huses s hs).2⟩
  · rw [← Plan.map_fst_outputs hcolumns] at hx
    obtain ⟨⟨y, col⟩, hcol, rfl⟩ := List.mem_map.mp hx
    obtain ⟨-, houtput⟩ := Plan.mem_outputs hcolumns _ hcol
    obtain ⟨hmem, hscope, hid⟩ := Relation.key?_eq_some houtput
    exact ⟨col, houtput, fun hnode => hprepares.identified hschema y hnode col hmem hscope hid⟩
  · refine Query.passesNode_of_matching hm hends.2 ?_
    cases hprepares with
    | plain hparts => exact .inl ⟨_, _, hparts⟩
    | staged hparts => exact .inr ⟨_, _, _, hparts⟩

/-- A loop over nodes whose ids go by a name of their own. -/
def idsText : String :=
  "MATCH (n:Person) WITH n.id AS x WHERE x > 1 FOREACH (i IN [1] | SET x.name = 'a')"

/-- The name of an id is passed through both stages, and the loop takes its ids from there. -/
theorem reachesNodes_of_compile_renamed :
    ∃ q statements k', Query.parse idsText = .ok q ∧ q.shape = .loop ∧
      (peopleCompiler.compile idsText).run.run 0 = (.ok statements, k') ∧
      (Query.beforeLoop? q.dropLast).map (Query.passesNode · "x") = some true ∧
      statements.flatMap (Statement.idColumns "i") = ["x"] ∧
      ∃ l q' before k₁, EndsInLoop q l q' ∧
        (peopleCompiler.prepare q').run.run 0 = (.ok before, k₁) ∧
        ReachesNodes peopleCompiler.schema q l q' before.final statements := by
  have hfacts : ((Query.parse idsText).toOption.bind fun q =>
      ((peopleCompiler.compile idsText).run.run 0).1.toOption.map fun statements =>
        (q.shape, (Query.beforeLoop? q.dropLast).map (Query.passesNode · "x"),
          statements.flatMap (Statement.idColumns "i"))) = some (.loop, some true, ["x"]) := by
    decide +kernel
  obtain ⟨q, hq, hfacts⟩ := Option.bind_eq_some_iff.mp hfacts
  obtain ⟨statements, hrun, hfacts⟩ := Option.map_eq_some_iff.mp hfacts
  have hq := Except.eq_ok_of_toOption hq
  obtain ⟨k', hrun⟩ := Compile.exists_run_of_toOption hrun
  rw [Prod.mk.injEq, Prod.mk.injEq] at hfacts
  obtain ⟨hshape, hpasses, hids⟩ := hfacts
  exact ⟨q, statements, k', hq, hshape, hrun, hpasses, hids,
    reachesNodes_of_compile build_peopleDeclaration hq hshape hrun⟩

/-- A loop over numbers in place of nodes. -/
def numbersText : String :=
  "MATCH (n:Person) WITH n.age AS x FOREACH (i IN [1] | SET x.name = 'a')"

/-- A name can also stand for a number: the loop then updates the nodes whose ids happen to be the
ages of others. -/
theorem not_isNodeId_of_loop_over_age :
    ∃ q l q' before k₁ statements k' col, Query.parse numbersText = .ok q ∧ EndsInLoop q l q' ∧
      (peopleCompiler.prepare q').run.run 0 = (.ok before, k₁) ∧
      (peopleCompiler.compile numbersText).run.run 0 = (.ok statements, k') ∧
      l.outerNames = ["x"] ∧ before.final.output? "x" = some col ∧
      statements.flatMap (Statement.idColumns l.name) = [col.name] ∧
      col.origin = some ⟨"person", some "age"⟩ ∧
      ¬ IsNodeId peopleCompiler.schema col.isList col.origin := by
  have hfacts : ((Query.parse numbersText).toOption.bind fun q =>
      (q.getLast?.bind Query.Clause.looping?).bind fun l =>
        (Query.beforeLoop? q.dropLast).bind fun q' =>
          ((peopleCompiler.prepare q').run.run 0).1.toOption.bind fun before =>
            ((peopleCompiler.compile numbersText).run.run 0).1.toOption.bind fun statements =>
              (before.final.output? "x").map fun col => (l.outerNames, col.origin,
                decide (statements.flatMap (Statement.idColumns l.name) = [col.name]))) =
      some (["x"], some ⟨"person", some "age"⟩, true) := by decide +kernel
  obtain ⟨q, hq, hfacts⟩ := Option.bind_eq_some_iff.mp hfacts
  obtain ⟨l, hl, hfacts⟩ := Option.bind_eq_some_iff.mp hfacts
  obtain ⟨last, hlast, hl⟩ := Option.bind_eq_some_iff.mp hl
  obtain rfl := Query.Clause.looping?_eq_some hl
  obtain ⟨q', hbefore, hfacts⟩ := Option.bind_eq_some_iff.mp hfacts
  obtain ⟨before, hprepare, hfacts⟩ := Option.bind_eq_some_iff.mp hfacts
  obtain ⟨statements, hrun, hfacts⟩ := Option.bind_eq_some_iff.mp hfacts
  obtain ⟨col, hcol, hfacts⟩ := Option.map_eq_some_iff.mp hfacts
  obtain ⟨k₁, hprepare⟩ := Compile.exists_run_of_toOption hprepare
  obtain ⟨k', hrun⟩ := Compile.exists_run_of_toOption hrun
  rw [Prod.mk.injEq, Prod.mk.injEq, decide_eq_true_eq] at hfacts
  obtain ⟨hnames, horigin, hids⟩ := hfacts
  refine ⟨q, l, q', before, k₁, statements, k', col, Except.eq_ok_of_toOption hq, ⟨hlast, hbefore⟩,
    hprepare, hrun, hnames, hcol, hids, horigin, ?_⟩
  rintro ⟨-, table, -, hid⟩
  rw [horigin] at hid
  injection hid with hid
  injection hid with _ hid
  exact absurd (Option.some.inj hid) (by decide)

end Compiler

end GraphSql
