import GraphSql.Proofs.Query.Respelled
import GraphSql.Proofs.Schema.Labels
import GraphSql.Proofs.Scope.Failures
import GraphSql.Proofs.Scope.Texts

/-!
# Scopes over tables with other names

Two runs over schemas whose tables correspond, but may have other names, for patterns that are spelled
alike.  What becomes of a value, of a variable and of a scope differs only in the names of tables and in
the spelling of the labels that are kept with node variables (`Resolved.Retabled`, `Scope.Retabled`); the
names of tables stand in origins and sources only.  So all expressions come out equal, and a projection
has the same columns but for their origins (`Scope.NamesRetabled.project`).

Which tables correspond is a parameter `T`.  All that is asked of it is gathered in `Schema.Retabled`:
labels are mapped to tables that correspond and have the same columns.  If reading fails, it does so on
both sides, and for the same kind of reason (`Scope.Retabled.related_addPatterns`).
-/

namespace GraphSql

open Except (Related)
open Query (SameLabels NodePattern Hop Pattern Properties)
open Relational (Source)

/-- Two errors that put the same thing at fault. -/
def Error.SameKind (e f : Error) : Prop := e.kind = f.kind

theorem Error.SameKind.refl (e : Error) : e.SameKind e := rfl

section Relations

variable (T : String → String → Prop)

/-- Two origins in tables that correspond. -/
structure Origin.Retabled (o p : Origin) : Prop where
  table : T o.table p.table
  column : o.column = p.column

/-- Two operands with origins that correspond. -/
inductive Resolved.Retabled : Resolved → Resolved → Prop
  | mk (r : Resolved) {o : Option Origin} (h : Option.Rel (Origin.Retabled T) r.origin o) :
      Retabled r { r with origin := o }

/-- Two output columns with origins that correspond. -/
inductive ResultColumn.Retabled : ResultColumn → ResultColumn → Prop
  | mk (c : ResultColumn) {o : Option Origin} (h : Option.Rel (Origin.Retabled T) c.origin o) :
      Retabled c { c with origin := o }

/-- Two derived relations with columns that correspond. -/
inductive Relation.Retabled : Relation → Relation → Prop
  | mk (name : String) {cs ds : List ResultColumn} (h : List.Forall₂ (ResultColumn.Retabled T) cs ds) :
      Retabled ⟨name, cs⟩ ⟨name, ds⟩

/-- Two node sources in tables that correspond. -/
inductive NodeSource.Retabled : NodeSource → NodeSource → Prop
  | stored {x y : String} (h : T x y) (columns : List Column) {ls ms : List String}
      (hlabels : SameLabels ls ms) : Retabled (.stored x columns ls) (.stored y columns ms)
  | derived {r r' : Relation} (h : Relation.Retabled T r r') : Retabled (.derived r) (.derived r')

/-- Two node bindings with sources that correspond. -/
structure BoundNode.Retabled (m n : BoundNode) : Prop where
  name : m.name = n.name
  source : NodeSource.Retabled T m.source n.source
  filters : m.filters = n.filters

/-- Two sources of a select statement: the same one, or tables that correspond. -/
structure Relational.Source.Retabled (a b : Source) : Prop where
  table : a.table = b.table ∨ T a.table b.table
  name : a.name = b.name
  join : a.join = b.join

/-- Two named relations that correspond. -/
def Relation.RetabledAs (a b : String × Relation) : Prop := a.1 = b.1 ∧ Relation.Retabled T a.2 b.2

/-- Two scopes with nodes, relations and sources that correspond. -/
structure Scope.Retabled (s t : Scope) : Prop where
  relations : List.Forall₂ (Relation.RetabledAs T) s.relations t.relations
  nodes : List.Forall₂ (BoundNode.Retabled T) s.nodes t.nodes
  edges : s.edges = t.edges
  sources : List.Forall₂ (Source.Retabled T) s.sources t.sources
  conditions : s.conditions = t.conditions
  anonymous : s.anonymous = t.anonymous

/-- Names are resolved in both scopes to values with origins that correspond. -/
structure Scope.NamesRetabled (s t : Scope) : Prop where
  name : ∀ x, Related Error.SameKind (Resolved.Retabled T) (s.lookupName x) (t.lookupName x)
  property : ∀ x key, Related Error.SameKind (Resolved.Retabled T) (s.lookupProperty x key)
    (t.lookupProperty x key)
  columns : ∀ x scope, Related Error.SameKind (List.Forall₂ (ResultColumn.Retabled T))
    (s.variableColumns x scope) (t.variableColumns x scope)

/-- Two schemas with the same columns and types, for queries with labels that satisfy `P`: these are
mapped to tables that correspond, with the same columns. -/
structure Schema.Retabled (P : List String → Prop) (s t : Schema) : Prop where
  labels : ∀ ls, P ls → Related Error.SameKind
    (fun e f : Schema.LabelTable => T e.table f.table ∧ e.columns = f.columns)
    (s.labelTable (.names ls)) (t.labelTable (.names ls))
  types : s.typeTables = t.typeTables
  nodes : s.nodeColumns = t.nodeColumns
  edges : s.edgeColumns = t.edgeColumns
  nodesTable : T Schema.nodesTable Schema.nodesTable
  edgesTable : T Schema.edgesTable Schema.edgesTable

end Relations

variable {T : String → String → Prop}

theorem Resolved.Retabled.parallel {r r' : Resolved} (h : r.Retabled T r') :
    Resolved.Parallel .column (Origin.Retabled T) r r' := by
  cases h with
  | mk ho => exact ⟨r.origin, by rw [r.expr.mapColumns_column], ho⟩

theorem ResultColumn.retabled_iff_parallel {c d : ResultColumn} :
    c.Retabled T d ↔ ResultColumn.Parallel .column (Origin.Retabled T) c d := by
  constructor
  · rintro ⟨ho⟩
    exact ⟨c.origin, by rw [c.expr.mapColumns_column], ho⟩
  · rintro ⟨o, rfl, ho⟩
    rw [d.expr.mapColumns_column]
    exact .mk _ ho

theorem NodeSource.Retabled.table {a b : NodeSource} (h : a.Retabled T b) :
    a.table = b.table ∨ T a.table b.table := by
  cases h with
  | stored hxy _ _ => exact .inr hxy
  | derived hr =>
    cases hr
    exact .inl rfl

theorem NodeSource.Retabled.labels {a b : NodeSource} (h : a.Retabled T b) :
    SameLabels a.labels b.labels := by
  cases h with
  | stored _ _ hlabels => exact hlabels
  | derived _ => exact .refl []

/-! ## Lookup in relations -/

theorem ResultColumn.Retabled.resolved {c d : ResultColumn} (h : c.Retabled T d) (source : String) :
    (c.resolved source).Retabled T (d.resolved source) := by
  cases h with
  | mk h => exact .mk _ h

namespace Relation.Retabled

variable {r r' : Relation}

theorem columns (h : Relation.Retabled T r r') :
    List.Forall₂ (ResultColumn.Retabled T) r.columns r'.columns := by
  cases h with
  | mk _ h => exact h

/-- A test that does not look at origins finds columns that correspond. -/
theorem rel_find? (h : Relation.Retabled T r r') {p : ResultColumn → Bool}
    (hp : ∀ (c : ResultColumn) o, p { c with origin := o } = p c) :
    Option.Rel (ResultColumn.Retabled T) (r.columns.find? p) (r'.columns.find? p) := by
  refine h.columns.rel_find? fun c d hcd => ?_
  cases hcd with
  | mk _ => exact (hp c _).symm

theorem rel_whole? (h : Relation.Retabled T r r') (x : String) :
    Option.Rel (ResultColumn.Retabled T) (r.whole? x) (r'.whole? x) :=
  h.rel_find? fun _ _ => rfl

theorem rel_property? (h : Relation.Retabled T r r') (x key : String) :
    Option.Rel (ResultColumn.Retabled T) (r.property? x key) (r'.property? x key) :=
  h.rel_find? fun _ _ => rfl

theorem rel_key? (h : Relation.Retabled T r r') (x : String) :
    Option.Rel (ResultColumn.Retabled T) (r.key? x) (r'.key? x) := by
  have hproperty := h.rel_property? x Schema.nodeId
  rw [key?, key?]
  generalize r.property? x Schema.nodeId = a at hproperty ⊢
  generalize r'.property? x Schema.nodeId = b at hproperty ⊢
  cases hproperty with
  | none => exact h.rel_whole? x
  | some hcd => exact .some hcd

theorem properties (h : Relation.Retabled T r r') (x : String) :
    List.Forall₂ (ResultColumn.Retabled T) (r.properties x) (r'.properties x) := by
  refine List.rel_filter (fun c d hcd => ?_) h.columns
  cases hcd with
  | mk _ => exact Iff.rfl

end Relation.Retabled

/-! ## Lookup in scopes -/

namespace Scope

variable {s t : Scope}

namespace Retabled

theorem edge?_eq (h : s.Retabled T t) (x : String) : t.edge? x = s.edge? x := by
  rw [edge?, edge?, h.edges]

theorem rel_node? (h : s.Retabled T t) (x : String) :
    Option.Rel (BoundNode.Retabled T) (s.node? x) (t.node? x) :=
  h.nodes.rel_find? fun m n hmn => by rw [hmn.name]

theorem isSome_node? (h : s.Retabled T t) (x : String) : (t.node? x).isSome = (s.node? x).isSome := by
  have hnode := h.rel_node? x
  generalize s.node? x = m at hnode ⊢
  generalize t.node? x = n at hnode ⊢
  cases hnode <;> rfl

theorem derived (h : s.Retabled T t) :
    List.Forall₂ (Relation.RetabledAs T) s.derived t.derived := by
  refine List.rel_filterMap (fun m n hmn => ?_) h.nodes
  have hsource := hmn.source
  rw [hmn.name]
  generalize m.source = a at hsource ⊢
  generalize n.source = b at hsource ⊢
  cases hsource with
  | stored _ _ _ => exact .none
  | derived hr => exact .some ⟨rfl, hr⟩

theorem rel_stored? (h : s.Retabled T t) (hedges : T Schema.edgesTable Schema.edgesTable) (x : String) :
    Option.Rel (fun a b => T a.1 b.1 ∧ a.2 = b.2) (s.stored? x) (t.stored? x) := by
  have hnode := h.rel_node? x
  rw [stored?, stored?, h.edge?_eq]
  generalize s.node? x = m at hnode ⊢
  generalize t.node? x = n at hnode ⊢
  cases hnode with
  | none =>
    cases s.edge? x with
    | none => exact .none
    | some e => exact .some ⟨hedges, rfl⟩
  | @some m n hmn =>
    have hsource := hmn.source
    dsimp only
    generalize m.source = a at hsource ⊢
    generalize n.source = b at hsource ⊢
    cases hsource with
    | stored hxy _ _ => exact .some ⟨hxy, rfl⟩
    | derived _ => exact .none

/-- The column of each relation that a name is read from. -/
theorem rel_resolved (h : s.Retabled T t) {f g : Relation → Option ResultColumn}
    (hfg : ∀ r r', Relation.Retabled T r r' → Option.Rel (ResultColumn.Retabled T) (f r) (g r')) :
    Option.Rel (Resolved.Retabled T)
      (s.derived.findSome? fun a => (f a.2).map (·.resolved a.1))
      (t.derived.findSome? fun b => (g b.2).map (·.resolved b.1)) := by
  refine h.derived.rel_findSome? ?_
  rintro ⟨source, r⟩ ⟨_, r'⟩ ⟨rfl, hr⟩
  have hfound := hfg r r' hr
  dsimp only
  generalize f r = a at hfound ⊢
  generalize g r' = b at hfound ⊢
  cases hfound with
  | none => exact .none
  | some hcd => exact .some (hcd.resolved source)

theorem related_lookupProperty (h : s.Retabled T t) (hedges : T Schema.edgesTable Schema.edgesTable)
    (x key : String) : Related Error.SameKind (Resolved.Retabled T) (s.lookupProperty x key)
      (t.lookupProperty x key) := by
  have hstored := h.rel_stored? hedges x
  have hfound := h.rel_resolved fun r r' hr => hr.rel_property? x key
  rw [lookupProperty, lookupProperty]
  generalize s.stored? x = a at hstored ⊢
  generalize t.stored? x = b at hstored ⊢
  cases hstored with
  | @some a b hab =>
    obtain ⟨table, columns⟩ := a
    obtain ⟨table', _⟩ := b
    obtain ⟨htable, rfl⟩ := hab
    dsimp only at htable ⊢
    cases Column.find? columns key with
    | none => exact .error rfl
    | some c => exact .ok (.mk _ (.some ⟨htable, rfl⟩))
  | none =>
    dsimp only
    generalize s.derived.findSome? _ = c at hfound ⊢
    generalize t.derived.findSome? _ = d at hfound ⊢
    cases hfound with
    | none => exact .error rfl
    | some hcd => exact .ok hcd

theorem related_lookupDerived (h : s.Retabled T t) (x : String) :
    Related Error.SameKind (Resolved.Retabled T) (s.lookupDerived x) (t.lookupDerived x) := by
  have hfound := h.rel_resolved fun r r' hr => hr.rel_key? x
  rw [lookupDerived, lookupDerived]
  generalize s.derived.findSome? _ = c at hfound ⊢
  generalize t.derived.findSome? _ = d at hfound ⊢
  cases hfound with
  | none => exact .error rfl
  | some hcd => exact .ok hcd

theorem related_lookupName (h : s.Retabled T t) (hedges : T Schema.edgesTable Schema.edgesTable)
    (x : String) : Related Error.SameKind (Resolved.Retabled T) (s.lookupName x) (t.lookupName x) := by
  have hnode := h.rel_node? x
  rw [lookupName, lookupName, h.edge?_eq]
  generalize s.node? x = m at hnode ⊢
  generalize t.node? x = n at hnode ⊢
  cases hnode with
  | none =>
    cases s.edge? x with
    | none => exact h.related_lookupDerived x
    | some e => exact .ok (.mk _ (.some ⟨hedges, rfl⟩))
  | @some m n hmn =>
    have hsource := hmn.source
    dsimp only
    generalize m.source = a at hsource ⊢
    generalize n.source = b at hsource ⊢
    cases hsource with
    | stored hxy _ _ => exact .ok (.mk _ (.some ⟨hxy, rfl⟩))
    | derived _ => exact h.related_lookupDerived x

end Retabled

theorem storedColumns_retabled {x y : String} (h : T x y) (name scope : String) (columns : List Column) :
    List.Forall₂ (ResultColumn.Retabled T) (storedColumns name scope x columns)
      (storedColumns name scope y columns) := by
  rw [storedColumns, storedColumns, List.forall₂_map_left_iff, List.forall₂_map_right_iff]
  exact List.forall₂_same.mpr fun c _ => .mk _ (.some ⟨h, rfl⟩)

theorem rel_derivedColumns {r r' : Relation} (h : Relation.Retabled T r r') (name scope source : String) :
    Option.Rel (List.Forall₂ (ResultColumn.Retabled T)) (derivedColumns name scope source r)
      (derivedColumns name scope source r') := by
  have hwhole := h.rel_whole? name
  have hproperties := h.properties name
  rw [derivedColumns, derivedColumns]
  generalize r.whole? name = a at hwhole ⊢
  generalize r'.whole? name = b at hwhole ⊢
  cases hwhole with
  | some hcd =>
    cases hcd with
    | mk ho => exact .some (.cons (.mk _ ho) .nil)
  | none =>
    dsimp only
    generalize r.properties name = cs at hproperties ⊢
    generalize r'.properties name = ds at hproperties ⊢
    cases hproperties with
    | nil => exact .none
    | cons hcd hrest =>
      refine .some ?_
      rw [List.forall₂_map_left_iff, List.forall₂_map_right_iff]
      refine (List.Forall₂.cons hcd hrest).imp fun c d hcd => ?_
      cases hcd with
      | mk ho => exact .mk _ ho

theorem Retabled.related_variableColumns (h : s.Retabled T t)
    (hedges : T Schema.edgesTable Schema.edgesTable) (x scope : String) :
    Related Error.SameKind (List.Forall₂ (ResultColumn.Retabled T)) (s.variableColumns x scope)
      (t.variableColumns x scope) := by
  have hstored := h.rel_stored? hedges x
  have hfound : Option.Rel (List.Forall₂ (ResultColumn.Retabled T))
      (s.derived.findSome? fun a => derivedColumns x scope a.1 a.2)
      (t.derived.findSome? fun b => derivedColumns x scope b.1 b.2) := by
    refine h.derived.rel_findSome? ?_
    rintro ⟨source, r⟩ ⟨_, r'⟩ ⟨rfl, hr⟩
    exact rel_derivedColumns hr x scope source
  rw [variableColumns, variableColumns]
  generalize s.stored? x = a at hstored ⊢
  generalize t.stored? x = b at hstored ⊢
  cases hstored with
  | @some a b hab =>
    obtain ⟨table, columns⟩ := a
    obtain ⟨table', _⟩ := b
    obtain ⟨htable, rfl⟩ := hab
    exact .ok (storedColumns_retabled htable x scope columns)
  | none =>
    dsimp only
    generalize s.derived.findSome? _ = c at hfound ⊢
    generalize t.derived.findSome? _ = d at hfound ⊢
    cases hfound with
    | none => exact .error rfl
    | some hcd => exact .ok hcd

/-- **Names are resolved in the same way** in scopes over tables that correspond. -/
theorem Retabled.names (h : s.Retabled T t) (hedges : T Schema.edgesTable Schema.edgesTable) :
    s.NamesRetabled T t where
  name := h.related_lookupName hedges
  property := h.related_lookupProperty hedges
  columns := h.related_variableColumns hedges

/-! ## Expressions and projections -/

/-- Two projections with columns that correspond. -/
structure Projected.Retabled (T : String → String → Prop) (p q : Projected) : Prop where
  columns : List.Forall₂ (ResultColumn.Retabled T) p.columns q.columns
  keys : p.keys = q.keys

/-- What does not look at origins is seen alike of columns that correspond. -/
theorem map_eq_of_retabled {α : Type} {f : ResultColumn → α}
    (hf : ∀ (c : ResultColumn) o, f { c with origin := o } = f c) {cs ds : List ResultColumn}
    (h : List.Forall₂ (ResultColumn.Retabled T) cs ds) : cs.map f = ds.map f := by
  refine map_eq_of_forall₂ h fun c d hcd => ?_
  cases hcd with
  | mk _ => exact (hf c _).symm

namespace NamesRetabled

theorem parallel (h : s.NamesRetabled T t) :
    Parallel .column (Origin.Retabled T) (.related Error.SameKind) (fun _ => True) s t where
  refused _ := .error rfl
  name x _ := (h.name x).mono fun _ _ => Resolved.Retabled.parallel
  property x _ key := (h.property x key).mono fun _ _ => Resolved.Retabled.parallel
  columns x _ scope := (h.columns x scope).mono fun _ _ hcs =>
    hcs.imp fun _ _ => ResultColumn.retabled_iff_parallel.mp

theorem compile (h : s.NamesRetabled T t) (e : Query.Expr) :
    Related Error.SameKind Eq (s.compile e) (t.compile e) :=
  (h.parallel.compile e fun _ _ => trivial).mono fun _ b hab => hab ▸ b.mapColumns_column

theorem compileAll (h : s.NamesRetabled T t) (es : List Query.Expr) :
    Related Error.SameKind Eq (s.compileAll es) (t.compileAll es) :=
  (h.parallel.compileAll es fun _ _ => trivial).mono fun _ bs hbs =>
    hbs ▸ Relational.Expr.mapColumnsAll_column bs

theorem propertyConditions (h : s.NamesRetabled T t) (x : String) (properties : Option Properties) :
    Related Error.SameKind Eq (s.propertyConditions x properties)
      (t.propertyConditions x properties) := by
  have hentry : ∀ p ∈ properties.getD [],
      Related Error.SameKind Eq (s.propertyCondition x p) (t.propertyCondition x p) := fun p _ =>
    (h.parallel.propertyCondition trivial fun _ _ => trivial).mono fun _ b hab =>
      hab ▸ b.mapColumns_column
  have hall := Related.mapM_self hentry
  rw [List.forall₂_eq_eq_eq] at hall
  exact hall

theorem project (h : s.NamesRetabled T t) (items : List Query.ReturnItem) :
    Related Error.SameKind (Projected.Retabled T) (s.project items) (t.project items) := by
  refine (h.parallel.project fun _ _ _ _ => trivial).mono fun p q hpq => ?_
  refine ⟨hpq.columns.imp fun _ _ => ResultColumn.retabled_iff_parallel.mpr, ?_⟩
  rw [← hpq.keys, List.map_congr_left fun e _ => e.mapColumns_column, List.map_id']

theorem sortKey (h : s.NamesRetabled T t) {cs ds : List ResultColumn}
    (hcs : List.Forall₂ (ResultColumn.Retabled T) cs ds) (key : Query.SortKey) :
    Related Error.SameKind Eq (s.sortKey cs key) (t.sortKey ds key) := by
  have hparallel := hcs.imp fun _ _ => ResultColumn.retabled_iff_parallel.mp
  refine (h.parallel.sortKey hparallel (.inl fun _ _ => trivial)).mono fun a b hab => ?_
  rw [← hab, Relational.OrderItem.mapColumns, b.expr.mapColumns_column]

end NamesRetabled

/-! ## Patterns -/

namespace Retabled

theorem putNode (h : s.Retabled T t) {m n : BoundNode} (hmn : m.Retabled T n) :
    (s.putNode m).Retabled T (t.putNode n) :=
  { h with nodes := forall₂_putBy hmn (fun a b hab => by rw [hab.name, hmn.name]) h.nodes }

theorem putEdge (h : s.Retabled T t) (e : BoundEdge) : (s.putEdge e).Retabled T (t.putEdge e) :=
  { h with edges := by rw [Scope.putEdge, Scope.putEdge, h.edges] }

theorem addConditions (h : s.Retabled T t) (cs : List Relational.Expr) :
    (s.addConditions cs).Retabled T (t.addConditions cs) :=
  { h with conditions := by rw [Scope.addConditions, Scope.addConditions, h.conditions] }

theorem addSource (h : s.Retabled T t) {a b : Source} (hab : a.Retabled T b) :
    (s.addSource a).Retabled T (t.addSource b) :=
  { h with sources := List.rel_append h.sources (.cons hab .nil) }

theorem addJoin (h : s.Retabled T t) (edge : String) (on : Relational.Expr × Relational.Expr)
    {m n : BoundNode} (hmn : m.Retabled T n) (isNew : Bool) :
    (s.addJoin edge on m isNew).Retabled T (t.addJoin edge on n isNew) := by
  rw [Scope.addJoin, Scope.addJoin]
  split
  · exact (h.addSource ⟨.inl rfl, rfl, rfl⟩).addSource ⟨hmn.source.table, hmn.name, rfl⟩
  · exact h.addSource ⟨.inl rfl, rfl, rfl⟩

theorem nameFor (h : s.Retabled T t) (kind : String) (variableName : Option String) :
    ∃ name s₀ t₀, s.nameFor kind variableName = (name, s₀) ∧
      t.nameFor kind variableName = (name, t₀) ∧ s₀.Retabled T t₀ := by
  cases variableName with
  | some name => exact ⟨name, s, t, rfl, rfl, h⟩
  | none =>
    refine ⟨_, { s with anonymous := s.anonymous + 1 }, { t with anonymous := s.anonymous + 1 }, rfl,
      by rw [Scope.nameFor, h.anonymous], { h with anonymous := rfl }⟩

end Retabled

/-- The outcomes of adding a node to two scopes. -/
structure NodesRetabled (T : String → String → Prop) (a b : Scope × BoundNode × Bool) : Prop where
  scope : a.1.Retabled T b.1
  node : a.2.1.Retabled T b.2.1
  isNew : a.2.2 = b.2.2

end Scope

namespace Schema.Retabled

variable {P : List String → Prop} {schema schema' : Schema}

theorem refl (schema : Schema) : schema.Retabled Eq (fun _ => True) schema :=
  ⟨fun _ _ => .refl .refl (fun _ => ⟨rfl, rfl⟩) _, rfl, rfl, rfl, rfl, rfl⟩

/-- Labels are looked up as sets, without regard to the case of ASCII letters. -/
theorem related_labelTable (h : schema.Retabled T P schema') {ls ms : List String}
    (hlabels : SameLabels ls ms) (hP : P ls) :
    Related Error.SameKind (fun e f : LabelTable => T e.table f.table ∧ e.columns = f.columns)
      (schema.labelTable (.names ls)) (schema'.labelTable (.names ms)) := by
  have hkeys : ∀ x, x ∈ LabelRef.key (.names ls) ↔ x ∈ LabelRef.key (.names ms) := by
    intro x
    rw [mem_key, mem_key]
    exact hlabels.mem_map (fun _ _ => labelMember_of_folded) _
  have hfind : schema'.labelTable? (.names ls) = schema'.labelTable? (.names ms) := by
    simp only [labelTable?, LabelRef.same, sameMembers_congr (fun _ => Iff.rfl) hkeys]
  have hrelated := h.labels ls hP
  generalize schema.labelTable (.names ls) = x at hrelated ⊢
  rw [labelTable, hfind] at hrelated
  rw [labelTable]
  cases hm : schema'.labelTable? (.names ms) with
  | some e =>
    rw [hm] at hrelated
    exact hrelated
  | none =>
    rw [hm] at hrelated
    cases hrelated with
    | error he => exact .error he

theorem related_typeTable (h : schema.Retabled T P schema') {type type' : String}
    (htype : folded type = folded type') :
    Related Error.SameKind Eq (schema.typeTable type) (schema'.typeTable type') := by
  have hfind : schema.typeTable? type = schema'.typeTable? type' := by
    simp only [typeTable?, Text.sameName, Text.lower_of_folded htype, h.types]
  rw [typeTable, typeTable, hfind]
  cases schema'.typeTable? type' with
  | some e => exact .ok rfl
  | none => exact .error rfl

theorem related_edgeTypes (h : schema.Retabled T P schema') {types types' : List String}
    (htypes : List.Forall₂ (fun x y => folded x = folded y) types types') :
    Related Error.SameKind Eq (Scope.edgeTypes schema types) (Scope.edgeTypes schema' types') := by
  have hempty : types.isEmpty = types'.isEmpty := by
    cases htypes <;> rfl
  rw [Scope.edgeTypes, Scope.edgeTypes, hempty, h.edges]
  split
  · exact .ok rfl
  · have hstep : ∀ x y, folded x = folded y →
        Related Error.SameKind Eq (schema.typeTable x) (schema'.typeTable y) :=
      fun _ _ => h.related_typeTable
    refine (Related.mapM hstep htypes).bind fun es ds hes => ?_
    rw [List.forall₂_eq_eq_eq] at hes
    rw [hes]
    exact .ok rfl

end Schema.Retabled

namespace Scope.Retabled

variable {P : List String → Prop} {schema schema' : Schema} {s t : Scope}

theorem related_nodeSource (h : s.Retabled T t) (hschema : schema.Retabled T P schema')
    (name : String) {ls ms : List String} (hlabels : SameLabels ls ms) (hP : ls ≠ [] → P ls) :
    Related Error.SameKind (NodeSource.Retabled T) (nodeSource schema s name ls)
      (nodeSource schema' t name ms) := by
  have hrelation := h.relations.rel_lookup name
  rw [nodeSource, nodeSource, ← hlabels.isEmpty_eq]
  generalize s.relations.lookup name = a at hrelation ⊢
  generalize t.relations.lookup name = b at hrelation ⊢
  cases hrelation with
  | some hr =>
    dsimp only
    split
    · exact .ok (.derived hr)
    · exact .error rfl
  | none =>
    dsimp only
    split
    · rw [hschema.nodes]
      exact .ok (.stored hschema.nodesTable _ (.refl []))
    · rename_i hne
      refine (hschema.related_labelTable hlabels (hP fun hnil => hne (by rw [hnil]; rfl))).bind ?_
      rintro e f ⟨htable, hcolumns⟩
      rw [hcolumns]
      exact .ok (.stored htable _ hlabels)

theorem related_addNode (h : s.Retabled T t) (hschema : schema.Retabled T P schema')
    {p q : NodePattern} (hpq : p.Respelled q) (hP : p.labels ≠ [] → P p.labels) :
    Related Error.SameKind (NodesRetabled T) (addNode schema s p) (addNode schema' t q) := by
  obtain ⟨name, s₀, t₀, hs, ht, h₀⟩ := h.nameFor "n" p.name
  rw [hpq.name] at ht
  have hnode := h₀.rel_node? name
  unfold addNode
  rw [hs, ht, ← hpq.properties]
  dsimp only
  generalize s₀.node? name = m at hnode ⊢
  generalize t₀.node? name = n at hnode ⊢
  cases hnode with
  | @some m n hmn =>
    -- a variable that is read again has to have the same set of labels
    have hsame : sameLabels q.labels n.source.labels = sameLabels p.labels m.source.labels :=
      Schema.sameMembers_congr
        (fun x => (hpq.labels.mem_map (fun _ _ => Text.lower_of_folded) x).symm)
        fun x => (hmn.source.labels.mem_map (fun _ _ => Text.lower_of_folded) x).symm
    dsimp only
    rw [hsame, ← hpq.labels.isEmpty_eq]
    split
    · exact .error rfl
    · refine ((h₀.names hschema.edgesTable).propertyConditions name p.properties).bind ?_
      rintro filters _ rfl
      have hbound : BoundNode.Retabled T { m with filters := m.filters ++ filters }
          { n with filters := n.filters ++ filters } := ⟨hmn.name, hmn.source, by rw [hmn.filters]⟩
      exact .ok ⟨(h₀.putNode hbound).addConditions filters, hbound, rfl⟩
  | none =>
    dsimp only
    rw [h₀.edge?_eq]
    split
    · exact .error rfl
    · refine (h₀.related_nodeSource hschema name hpq.labels hP).bind fun source source' hsource => ?_
      have hput := h₀.putNode (m := { name, source }) (n := { name, source := source' })
        ⟨rfl, hsource, rfl⟩
      refine ((hput.names hschema.edgesTable).propertyConditions name p.properties).bind ?_
      rintro filters _ rfl
      have hbound : BoundNode.Retabled T { name, source, filters } { name, source := source', filters } :=
        ⟨rfl, hsource, rfl⟩
      exact .ok ⟨(hput.putNode hbound).addConditions filters, hbound, rfl⟩

theorem related_addHop (h : s.Retabled T t) (hschema : schema.Retabled T P schema')
    (source : String) {hop hop' : Hop} (hhop : hop.Respelled hop')
    (hP : hop.node.labels ≠ [] → P hop.node.labels) :
    Related Error.SameKind (fun a b => a.1.Retabled T b.1 ∧ a.2 = b.2) (addHop schema s source hop)
      (addHop schema' t source hop') := by
  obtain ⟨name, s₀, t₀, hs, ht, h₀⟩ := h.nameFor "e" hop.relationship.name
  rw [hhop.relationship.name] at ht
  unfold addHop
  dsimp only
  rw [hs, ht, ← hhop.relationship.properties, ← hhop.relationship.direction]
  dsimp only
  rw [h₀.edge?_eq, h₀.isSome_node?]
  split
  · exact .error rfl
  · refine (hschema.related_edgeTypes hhop.relationship.types).bind ?_
    rintro ⟨columns, types⟩ _ rfl
    refine ((h₀.putEdge _).related_addNode hschema hhop.node hP).bind ?_
    rintro ⟨s₁, m, isNew⟩ ⟨t₁, n, _⟩ ⟨h₁, hmn, rfl⟩
    dsimp only at h₁ hmn ⊢
    rw [← hmn.name]
    refine ((h₁.names hschema.edgesTable).property source Schema.nodeId).bind ?_
    rintro sourceKey _ ⟨⟩
    refine ((h₁.names hschema.edgesTable).property m.name Schema.nodeId).bind ?_
    rintro targetKey _ ⟨⟩
    have hready := ((h₁.addJoin name (joinConditions hop.relationship.direction name sourceKey.expr
      targetKey.expr) hmn isNew).addConditions (typeConditions name types)).putEdge
        { name, source, target := m.name, direction := hop.relationship.direction, types, columns }
    refine ((hready.names hschema.edgesTable).propertyConditions name hop.relationship.properties).bind ?_
    rintro filters _ rfl
    exact .ok ⟨(hready.putEdge _).addConditions filters, rfl⟩

theorem related_addHops (hschema : schema.Retabled T P schema') {hops hops' : List Hop}
    (hhops : List.Forall₂ Hop.Respelled hops hops')
    (hP : ∀ hop ∈ hops, hop.node.labels ≠ [] → P hop.node.labels) :
    ∀ {s t : Scope} {source : String}, s.Retabled T t →
      Related Error.SameKind (Scope.Retabled T) (addHops schema s source hops)
        (addHops schema' t source hops') := by
  induction hhops with
  | nil => exact fun h => .ok h
  | cons hhop _ ih =>
    intro s t source h
    rw [addHops, addHops]
    refine (h.related_addHop hschema source hhop (hP _ List.mem_cons_self)).bind ?_
    rintro ⟨s₁, target⟩ ⟨t₁, _⟩ ⟨h₁, rfl⟩
    exact ih (fun _ hmem => hP _ (List.mem_cons_of_mem _ hmem)) h₁

theorem related_addPattern (h : s.Retabled T t) (hschema : schema.Retabled T P schema')
    {p q : Pattern} (hpq : p.Respelled q) (hP : ∀ n ∈ p.nodes, n.labels ≠ [] → P n.labels) :
    Related Error.SameKind (Scope.Retabled T) (addPattern schema s p) (addPattern schema' t q) := by
  refine (h.related_addNode hschema hpq.first (hP p.first List.mem_cons_self)).bind ?_
  rintro ⟨s₁, m, isNew⟩ ⟨t₁, n, _⟩ ⟨h₁, hmn, rfl⟩
  dsimp only at h₁ hmn ⊢
  rw [← hmn.name]
  refine related_addHops hschema hpq.hops
    (fun hop hhop => hP hop.node (List.mem_cons_of_mem _ (List.mem_map_of_mem hhop))) ?_
  split
  · exact h₁.addSource ⟨hmn.source.table, rfl, rfl⟩
  · exact h₁

/-- **Patterns that are spelled alike make scopes over tables that correspond**, or fail for the same kind
of reason. -/
theorem related_addPatterns (h : s.Retabled T t) (hschema : schema.Retabled T P schema')
    {ps qs : List Pattern} (hpqs : List.Forall₂ Pattern.Respelled ps qs)
    (hP : ∀ p ∈ ps, ∀ n ∈ p.nodes, n.labels ≠ [] → P n.labels) :
    Related Error.SameKind (Scope.Retabled T) (addPatterns schema s ps)
      (addPatterns schema' t qs) :=
  Related.foldlM (fun _ _ hpq _ _ hst => hst.related_addPattern hschema hpq.2 hpq.1)
    (List.forall₂_and_left _ _ |>.mpr ⟨hP, hpqs⟩) h

end Scope.Retabled

end GraphSql
