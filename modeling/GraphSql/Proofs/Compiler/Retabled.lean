import GraphSql.Proofs.Compiler.LetterCase
import GraphSql.Proofs.Compiler.Results
import GraphSql.Proofs.Scope.Retabled

/-!
# Statements over tables with other names

Two queries that are spelled alike, compiled side by side for two schemas whose tables correspond, have
statements that differ only in the names of tables (`Statement.Retabled`), or both are refused, and in the
same way (`Compiler.alike_compileQuery_retabled`).  Where tables correspond only to themselves, the statements are
the same (`Statement.Retabled.eq`).
-/

namespace GraphSql

open Except (Related)
open Query (Matching Projection WithProjection Loop NodePattern Pattern Action Assignment)
open Relational (Operand RowTest Write Block Select Statement)

variable {ms ns : List Matching} {q : Query} {p : Plan}

/-! ## Refusals -/

/-- Two refusals of the same sort; errors put the same thing at fault. -/
inductive Refusal.Alike : Refusal → Refusal → Prop
  | unsupported : Alike .unsupported .unsupported
  | malformed : Alike .malformed .malformed
  | failed {e f : Error} : e.SameKind f → Alike (.failed e) (.failed f)

theorem Refusal.Alike.refl (r : Refusal) : r.Alike r := by
  cases r with
  | unsupported => exact .unsupported
  | malformed => exact .malformed
  | failed e => exact .failed (.refl e)

/-- Errors of the same kind are caught alike. -/
theorem Refusal.Alike.caught {r s : Refusal} (h : r.Alike s) (kind : Error.Kind)
    (answer : Refusal) :
    (Refusal.caught kind answer r).Alike (Refusal.caught kind answer s) := by
  cases h with
  | unsupported => exact .unsupported
  | malformed => exact .malformed
  | @failed e f he =>
    rw [Refusal.caught, Refusal.caught, show e.kind = f.kind from he]
    split
    · exact .refl answer
    · exact .failed he

/-! ## Two runs of a compiler -/

namespace Compile

variable {α β γ δ : Type} {R : α → β → Prop} {S : γ → δ → Prop} {x : Compile α} {y : Compile β}

/-- From the same supply of names, both computations take the same names; they are refused in the same
way, or both succeed and `R` relates the results. -/
def Alike (R : α → β → Prop) (x : Compile α) (y : Compile β) : Prop :=
  ∀ k, (x.run.run k).2 = (y.run.run k).2 ∧
    Related Refusal.Alike R (x.run.run k).1 (y.run.run k).1

theorem Alike.pure {a : α} {b : β} (h : R a b) : Alike R (pure a : Compile α) (pure b) :=
  fun _ => ⟨rfl, .ok h⟩

theorem Alike.throw (r : Refusal) : Alike R (throw r : Compile α) (throw r) :=
  fun _ => ⟨rfl, .error (.refl r)⟩

theorem Alike.refl {R : α → α → Prop} (h : ∀ a, R a a) (x : Compile α) : Alike R x x :=
  fun _ => ⟨rfl, .refl .refl h _⟩

theorem Alike.mono {R' : α → β → Prop} (h : Alike R x y) (hR : ∀ a b, R a b → R' a b) :
    Alike R' x y :=
  fun k => ⟨(h k).1, (h k).2.mono hR⟩

theorem Alike.raise {x : Except Error α} {y : Except Error β}
    (h : Related Error.SameKind R x y) : Alike R (raise x) (raise y) := by
  refine fun _ => ⟨rfl, ?_⟩
  cases h with
  | ok hab => exact .ok hab
  | error he => exact .error (.failed he)

theorem Alike.catching (h : Alike R x y) (kind : Error.Kind) (answer : Refusal) :
    Alike R (x.catching kind answer) (y.catching kind answer) := by
  intro k
  obtain ⟨hk, hresult⟩ := h k
  refine ⟨hk, ?_⟩
  rw [run_catching, run_catching]
  generalize (x.run.run k).1 = a at hresult ⊢
  generalize (y.run.run k).1 = b at hresult ⊢
  cases hresult with
  | ok hab => exact .ok hab
  | error he => exact .error (he.caught kind answer)

theorem Alike.bind {f : α → Compile γ} {g : β → Compile δ} (h : Alike R x y)
    (hfg : ∀ a b, R a b → Alike S (f a) (g b)) : Alike S (x >>= f) (y >>= g) := by
  intro k
  obtain ⟨hk, hresult⟩ := h k
  rw [run_bind, run_bind]
  generalize x.run.run k = a at hk hresult ⊢
  generalize y.run.run k = b at hk hresult ⊢
  obtain ⟨a, k₁⟩ := a
  obtain ⟨b, _⟩ := b
  obtain rfl : k₁ = _ := hk
  cases hresult with
  | ok hab => exact hfg _ _ hab k₁
  | error he => exact ⟨rfl, .error he⟩

end Compile

/-! ## Tables that correspond -/

section Relations

variable (T : String → String → Prop)

/-- Two select statements with sources that correspond. -/
structure Relational.Select.Retabled (a b : Select) : Prop where
  sources : List.Forall₂ (Relational.Source.Retabled T) a.sources b.sources
  rest : { a with sources := b.sources } = b

/-- Two values of writes that correspond. -/
inductive Relational.Operand.Retabled : Operand → Operand → Prop
  | refl (a : Operand) : Retabled a a
  | nodeWith {x y : String} (h : T x y) (column : String) {a b : Operand} (hab : Retabled a b) :
      Retabled (.nodeWith x column a) (.nodeWith y column b)

/-- Two columns with values that correspond. -/
def Relational.Operand.RetabledAs (a b : String × Operand) : Prop :=
  a.1 = b.1 ∧ Operand.Retabled T a.2 b.2

/-- Two tests of rows with values that correspond. -/
inductive Relational.RowTest.Retabled : RowTest → RowTest → Prop
  | refl (a : RowTest) : Retabled a a
  | equals (column : String) {a b : Operand} (h : Operand.Retabled T a b) :
      Retabled (.equals column a) (.equals column b)

/-- Two writes to tables that correspond. -/
inductive Relational.Write.Retabled : Write → Write → Prop
  | update {x y : String} (h : T x y) {as bs : List (String × Operand)}
      (has : List.Forall₂ (Operand.RetabledAs T) as bs) {a b : RowTest} (hab : RowTest.Retabled T a b) :
      Retabled (.update x as a) (.update y bs b)
  | insertEdge {as bs : List (String × Operand)} (has : List.Forall₂ (Operand.RetabledAs T) as bs)
      (rows : Option String) : Retabled (.insertEdge as rows) (.insertEdge bs rows)

/-- Two blocks with select statements and writes that correspond. -/
structure Relational.Block.Retabled (a b : Block) : Prop where
  declared : a.declared = b.declared
  source : Select.Retabled T a.source b.source
  body : List.Forall₂ (Write.Retabled T) a.body b.body

/-- Two statements that differ only in the names of tables that correspond. -/
inductive Relational.Statement.Retabled : Statement → Statement → Prop
  | select {a b : Select} (h : Select.Retabled T a b) : Retabled (.select a) (.select b)
  | createTemp (table : String) {a b : Select} (h : Select.Retabled T a b) :
      Retabled (.createTemp table a) (.createTemp table b)
  | write {a b : Write} (h : Write.Retabled T a b) : Retabled (.write a) (.write b)
  | block {a b : Block} (h : Block.Retabled T a b) : Retabled (.block a) (.block b)

/-- Two plans with nodes, columns and select statements that correspond. -/
structure Plan.Retabled (p q : Plan) : Prop where
  nodes : List.Forall₂ (BoundNode.Retabled T) p.nodes q.nodes
  projection : List.Forall₂ (ResultColumn.Retabled T) p.projection q.projection
  select : Select.Retabled T p.select q.select

/-- Two prepared queries with statements that correspond. -/
structure Prepared.Retabled (p q : Prepared) : Prop where
  setup : List.Forall₂ (Statement.Retabled T) p.setup q.setup
  final : Plan.Retabled T p.final q.final

/-- Two named output columns that correspond. -/
def ResultColumn.RetabledAs (a b : String × ResultColumn) : Prop :=
  a.1 = b.1 ∧ ResultColumn.Retabled T a.2 b.2

/-- What the variables of two loops stand for corresponds. -/
structure LoopEnv.Retabled (env env' : LoopEnv) : Prop where
  name : env.name = env'.name
  table : T env.key.table env'.key.table
  key : { env.key with table := env'.key.table } = env'.key
  element : env.element = env'.element
  columns : List.Forall₂ (ResultColumn.RetabledAs T) env.columns env'.columns
  rows : env.rows = env'.rows

/-- Tables that correspond have the same columns, and none but itself corresponds to the table of all
edges.  Only loops ask for this, which find a table by its name. -/
structure Schema.ColumnsRetabled (s t : Schema) : Prop where
  columns : ∀ x y, T x y → Related Error.SameKind Eq (s.columnsOfTable x) (t.columnsOfTable y)
  isEdges : ∀ x y, T x y → (x = Schema.edgesTable ↔ y = Schema.edgesTable)

end Relations

variable {T : String → String → Prop} {P : List String → Prop} {schema schema' : Schema}

theorem Schema.ColumnsRetabled.refl (schema : Schema) : schema.ColumnsRetabled Eq schema := by
  refine ⟨?_, ?_⟩
  · rintro x _ rfl
    exact .refl .refl (fun _ => rfl) _
  · rintro x _ rfl
    exact Iff.rfl

/-! ## Plans -/

theorem Scope.Retabled.related_selectOver {s t : Scope} (h : s.Retabled T t)
    (hedges : T Schema.edgesTable Schema.edgesTable) (conditions : List Query.Expr) (p : Projection) :
    Related Error.SameKind
      (fun a b => List.Forall₂ (ResultColumn.Retabled T) a.1 b.1 ∧ Select.Retabled T a.2 b.2)
      (Plan.selectOver s conditions p) (Plan.selectOver t conditions p) := by
  have hnames := h.names hedges
  have hoption : ∀ o : Option Query.Expr,
      Related Error.SameKind Eq (o.mapM s.compile) (o.mapM t.compile) := by
    intro o
    cases o with
    | none => exact .ok rfl
    | some e =>
      refine (hnames.compile e).bind ?_
      rintro a _ rfl
      exact .ok rfl
  refine (hnames.project p.items).bind fun p₁ p₂ hp => ?_
  refine (hnames.compileAll conditions).bind ?_
  rintro compiled _ rfl
  refine (Related.mapM_self fun k _ => hnames.sortKey hp.columns k).bind
    fun orderBy orderBy' horder => ?_
  rw [List.forall₂_eq_eq_eq] at horder
  subst horder
  refine (hoption p.skip).bind ?_
  rintro offset _ rfl
  refine (hoption p.limit).bind ?_
  rintro limit _ rfl
  have hitems : p₁.columns.map ResultColumn.item = p₂.columns.map ResultColumn.item :=
    Scope.map_eq_of_retabled (fun _ _ => rfl) hp.columns
  refine .ok ⟨hp.columns, h.sources, ?_⟩
  rw [hp.keys, h.conditions, hitems]

theorem Plan.related_ofClauses (hschema : schema.Retabled T P schema')
    {relations relations' : List (String × Relation)}
    (hrelations : List.Forall₂ (Relation.RetabledAs T) relations relations')
    (hms : List.Forall₂ Matching.Respelled ms ns)
    (hP : ∀ m ∈ ms, ∀ p ∈ m.patterns, ∀ n ∈ p.nodes, n.labels ≠ [] → P n.labels) (p : Projection) :
    Related Error.SameKind (Plan.Retabled T) (ofClauses schema relations ms p)
      (ofClauses schema' relations' ns p) := by
  have hstart : Scope.Retabled T { relations } { relations := relations' } :=
    ⟨hrelations, .nil, rfl, .nil, rfl, rfl⟩
  have hpatterns : List.Forall₂ Pattern.Respelled (ms.flatMap Matching.patterns)
      (ns.flatMap Matching.patterns) :=
    List.rel_flatMap hms fun _ _ hmn => hmn.patterns
  have hlabels : ∀ p ∈ ms.flatMap Matching.patterns, ∀ n ∈ p.nodes, n.labels ≠ [] → P n.labels := by
    intro p hp
    obtain ⟨m, hm, hp⟩ := List.mem_flatMap.mp hp
    exact hP m hm p hp
  have hconditions : ns.filterMap Matching.condition = ms.filterMap Matching.condition := by
    clear hP hpatterns hlabels
    induction hms with
    | nil => rfl
    | cons hmn _ ih => rw [List.filterMap_cons, List.filterMap_cons, hmn.condition, ih]
  rw [ofClauses, ofClauses, hconditions]
  refine (hstart.related_addPatterns hschema hpatterns hlabels).bind fun s t hst => ?_
  refine (hst.related_selectOver hschema.edgesTable _ p).bind ?_
  rintro ⟨columns, select⟩ ⟨columns', select'⟩ ⟨hcolumns, hselect⟩
  exact .ok ⟨hst.nodes, hcolumns, hselect⟩

theorem Plan.Retabled.rel_output? {q : Plan} (h : p.Retabled T q) (x : String) :
    Option.Rel (ResultColumn.Retabled T) (p.output? x) (q.output? x) :=
  (Relation.Retabled.mk "" h.projection).rel_key? x

theorem Plan.Retabled.firstName_eq {q : Plan} (h : p.Retabled T q) : q.firstName = p.firstName := by
  have hnodes := h.nodes
  rw [firstName, firstName]
  generalize p.nodes = ms at hnodes ⊢
  generalize q.nodes = ns at hnodes ⊢
  cases hnodes with
  | nil => rfl
  | cons hmn _ => exact hmn.name.symm

/-! ## Actions -/

/-- The table that an output column was read from, or that of all nodes. -/
theorem ResultColumn.Retabled.originTable {c d : ResultColumn} (h : c.Retabled T d)
    (hnodes : T Schema.nodesTable Schema.nodesTable) :
    T ((c.origin.map Origin.table).getD Schema.nodesTable)
      ((d.origin.map Origin.table).getD Schema.nodesTable) := by
  cases h with
  | mk ho =>
    dsimp only
    generalize c.origin = o at ho ⊢
    cases ho with
    | none => exact hnodes
    | some hop => exact hop.table

theorem ResultColumn.Retabled.elementKey {c d : ResultColumn} (h : c.Retabled T d)
    (hnodes : T Schema.nodesTable Schema.nodesTable) (type : ColumnType) :
    T (c.elementKey type).table (d.elementKey type).table ∧
      { c.elementKey type with table := (d.elementKey type).table } = d.elementKey type := by
  refine ⟨h.originTable hnodes, ?_⟩
  have hcolumn : (c.origin.bind Origin.column).getD Schema.nodeId =
      (d.origin.bind Origin.column).getD Schema.nodeId := by
    cases h with
    | mk ho =>
      dsimp only
      generalize c.origin = o at ho ⊢
      cases ho with
      | none => rfl
      | some hop => rw [Option.bind_some, Option.bind_some, hop.column]
  rw [ResultColumn.elementKey, ResultColumn.elementKey, hcolumn]

namespace LoopEnv.Retabled

variable {env env' : LoopEnv}

theorem elementAs_eq (h : env.Retabled T env') (type : ColumnType) :
    env'.elementAs type = env.elementAs type := by
  rw [elementAs, elementAs, h.element, h.name]

theorem value_eq (h : env.Retabled T env') (type : ColumnType) (e : Query.Expr) :
    env'.value type e = env.value type e := by
  simp only [value, h.elementAs_eq, h.name]

theorem key_eq (h : env.Retabled T env') :
    env'.key.column = env.key.column ∧ env'.key.type = env.key.type := by
  rw [← h.key]
  exact ⟨rfl, rfl⟩

theorem rel_lookup (h : env.Retabled T env') (x : String) :
    Option.Rel (ResultColumn.Retabled T) (env.columns.lookup x) (env'.columns.lookup x) :=
  List.Forall₂.rel_lookup h.columns x

theorem related_idOf (h : env.Retabled T env') (x : String) :
    Related Error.SameKind (Operand.Retabled T) (env.idOf x) (env'.idOf x) := by
  have hcolumn := h.rel_lookup x
  rw [idOf, idOf, h.elementAs_eq, h.key_eq.1, h.key_eq.2, ← h.name, ← h.element]
  split
  · dsimp only
    split
    · exact .ok (.refl _)
    · exact .ok (.nodeWith h.table _ (.refl _))
  · generalize env.columns.lookup x = a at hcolumn ⊢
    generalize env'.columns.lookup x = b at hcolumn ⊢
    cases hcolumn with
    | none => exact .error rfl
    | some hcd =>
      cases hcd
      exact .ok (.refl _)

theorem rowsFor_eq (h : env.Retabled T env') (names : List String) :
    env'.rowsFor names = env.rowsFor names := by
  have hlookup : ∀ x, (env'.columns.lookup x).isSome = (env.columns.lookup x).isSome := by
    intro x
    have hcolumn := h.rel_lookup x
    generalize env.columns.lookup x = a at hcolumn ⊢
    generalize env'.columns.lookup x = b at hcolumn ⊢
    cases hcolumn <;> rfl
  simp only [rowsFor, hlookup, h.element, h.rows]

theorem related_target (h : env.Retabled T env') (hnodes : T Schema.nodesTable Schema.nodesTable)
    (x : String) :
    Related Error.SameKind (fun a b => T a.1 b.1 ∧ RowTest.Retabled T a.2 b.2) (env.target x)
      (env'.target x) := by
  have hcolumn := h.rel_lookup x
  rw [target, target, h.elementAs_eq, h.key_eq.1, h.key_eq.2, ← h.name, ← h.element, ← h.rows]
  split
  · exact .ok ⟨h.table, .refl _⟩
  · generalize env.columns.lookup x = a at hcolumn ⊢
    generalize env'.columns.lookup x = b at hcolumn ⊢
    cases hcolumn with
    | none => exact .error rfl
    | some hcd =>
      have htable := hcd.originTable hnodes
      cases hcd
      dsimp only at htable ⊢
      split
      · exact .ok ⟨htable, .refl _⟩
      · exact .ok ⟨htable, .refl _⟩

theorem related_assigned (h : env.Retabled T env') (x y : String) (columns : List Column)
    (a : Assignment) : Related Error.SameKind (Operand.RetabledAs T) (env.assigned x columns a)
      (env'.assigned y columns a) := by
  rw [assigned, assigned]
  cases Column.find? columns a.key with
  | none => exact .error rfl
  | some c =>
    dsimp only
    rw [h.value_eq]
    refine (Related.refl .refl (fun _ => rfl) (env.value c.type a.value)).bind ?_
    rintro value _ rfl
    exact .ok ⟨rfl, .refl value⟩

theorem related_update (h : env.Retabled T env') (hschema : schema.Retabled T P schema')
    (htables : schema.ColumnsRetabled T schema') (items : List Assignment) (x : String) :
    Related Error.SameKind (Write.Retabled T) (env.update schema items x)
      (env'.update schema' items x) := by
  refine (h.related_target hschema.nodesTable x).bind ?_
  rintro ⟨table, test⟩ ⟨table', test'⟩ ⟨htable, htest⟩
  dsimp only at htable htest ⊢
  refine (htables.columns table table' htable).bind ?_
  rintro columns _ rfl
  refine (Related.mapM_self fun a _ => h.related_assigned table table' columns a).bind
    fun as bs has => ?_
  exact .ok (.update htable has htest)

theorem bareName?_eq {p q : NodePattern} (h : p.Respelled q) : bareName? p = bareName? q := by
  rw [bareName?, bareName?, h.labels.isEmpty_eq, h.properties, h.name]

theorem related_insertEdge (h : env.Retabled T env') (hschema : schema.Retabled T P schema')
    {p q : Pattern} (hpq : p.Respelled q) :
    Related Error.SameKind (Write.Retabled T) (env.insertEdge schema p)
      (env'.insertEdge schema' q) := by
  have hproperty : ∀ type, env'.edgeProperty type = env.edgeProperty type := by
    intro type
    funext property
    simp only [edgeProperty, h.value_eq]
  have hsame : ∀ as : List (String × Operand), List.Forall₂ (Operand.RetabledAs T) as as :=
    fun as => List.forall₂_same.mpr fun a _ => ⟨rfl, .refl a.2⟩
  have hhops := hpq.hops
  rw [insertEdge, insertEdge, bareName?_eq hpq.first]
  generalize p.hops = hops at hhops ⊢
  generalize q.hops = hops' at hhops ⊢
  cases hhops with
  | nil => exact .error rfl
  | @cons hop hop' _ _ hhop hrest =>
    cases hrest with
    | cons _ _ => exact .error rfl
    | nil =>
      have htypes := hhop.relationship.types
      dsimp only
      rw [bareName?_eq hhop.node, ← hhop.relationship.direction, ← hhop.relationship.properties]
      simp only [hproperty, h.rowsFor_eq]
      generalize hop.relationship.types = types at htypes ⊢
      generalize hop'.relationship.types = types' at htypes ⊢
      generalize bareName? q.first = left
      generalize bareName? hop'.node = right
      cases htypes with
      | nil => exact .error rfl
      | cons htype hmore =>
        cases hmore with
        | cons _ _ => exact .error rfl
        | nil =>
          cases left with
          | none => exact .error rfl
          | some left =>
            cases right with
            | none => exact .error rfl
            | some right =>
              cases hop.relationship.direction with
              | both => exact .error rfl
              | _ =>
                refine (hschema.related_typeTable htype).bind ?_
                rintro type _ rfl
                refine (h.related_idOf _).bind fun source source' hsource => ?_
                refine (h.related_idOf _).bind fun target target' htarget => ?_
                refine (Related.refl .refl (fun _ => rfl) _).bind ?_
                rintro properties _ rfl
                refine .ok (.insertEdge ?_ _)
                exact .cons ⟨rfl, hsource⟩ (.cons ⟨rfl, htarget⟩ (hsame _))

/-- **What is done for an element is written to tables that correspond.** -/
theorem related_writes (h : env.Retabled T env') (hschema : schema.Retabled T P schema')
    (htables : schema.ColumnsRetabled T schema') {actions actions' : List Action}
    (hactions : List.Forall₂ Action.Respelled actions actions') :
    Related Error.SameKind (List.Forall₂ (Write.Retabled T)) (env.writes schema actions)
      (env'.writes schema' actions') := by
  have hstep : ∀ a b : Action, a.Respelled b → Related Error.SameKind (List.Forall₂ (Write.Retabled T))
      (env.action schema a) (env'.action schema' b) := by
    intro a b hab
    cases hab with
    | set items => exact Related.mapM_self fun x _ => h.related_update hschema htables items x
    | create hpq => exact (h.related_insertEdge hschema hpq).bind fun _ _ hw => .ok (.cons hw .nil)
  exact (Related.mapM hstep hactions).bind fun wss vss hws => .ok (List.rel_flatten hws)

end LoopEnv.Retabled

/-! ## Stages -/

/-- The labels of the node patterns of match clauses, pattern by pattern. -/
def Query.labels (q : Query) : List (List String) :=
  (q.filterMap Clause.matching?).flatMap fun m =>
    m.patterns.flatMap fun p => p.nodes.map NodePattern.labels

/-- All labels of the node patterns of match clauses satisfy `P`. -/
def Query.LabelsIn (P : List String → Prop) (q : Query) : Prop := ∀ ls ∈ q.labels, ls ≠ [] → P ls

theorem Query.labelsIn_iff : q.LabelsIn P ↔
    ∀ m, .matching m ∈ q → ∀ p ∈ m.patterns, ∀ n ∈ p.nodes, n.labels ≠ [] → P n.labels := by
  have hmem : ∀ m, m ∈ q.filterMap Clause.matching? ↔ .matching m ∈ q := by
    intro m
    rw [List.mem_filterMap]
    constructor
    · rintro ⟨c, hc, hm⟩
      cases c <;> cases hm
      exact hc
    · exact fun hm => ⟨.matching m, hm, rfl⟩
  constructor
  · intro h m hm p hp n hn
    refine h _ (List.mem_flatMap.mpr ⟨m, (hmem m).mpr hm, ?_⟩)
    exact List.mem_flatMap.mpr ⟨p, hp, List.mem_map_of_mem hn⟩
  · intro h ls hls
    obtain ⟨m, hm, hls⟩ := List.mem_flatMap.mp hls
    obtain ⟨p, hp, hls⟩ := List.mem_flatMap.mp hls
    obtain ⟨n, hn, rfl⟩ := List.mem_map.mp hls
    exact h m ((hmem m).mp hm) p hp n hn

/-- The same compiler for another schema. -/
def Compiler.withSchema (c : Compiler) (schema : Schema) : Compiler := { c with schema }

theorem Prepared.Retabled.statements {p q : Prepared} (h : p.Retabled T q) :
    List.Forall₂ (Statement.Retabled T) p.statements q.statements :=
  List.rel_append h.setup (.cons (.select h.final.select) .nil)

namespace Compiler

open Compile (Alike)

variable {c : Compiler} {before before' : Prepared} {r : Query} {l m : Loop}

theorem alike_plan_retabled (hschema : c.schema.Retabled T P schema')
    {relations relations' : List (String × Relation)}
    (hrelations : List.Forall₂ (Relation.RetabledAs T) relations relations')
    (hms : List.Forall₂ Matching.Respelled ms ns)
    (hP : ∀ m ∈ ms, ∀ p ∈ m.patterns, ∀ n ∈ p.nodes, n.labels ≠ [] → P n.labels) (p : Projection) :
    Alike (Plan.Retabled T) (c.plan relations ms p) ((c.withSchema schema').plan relations' ns p) :=
  .raise (Plan.related_ofClauses hschema hrelations hms hP p)

theorem alike_tempTable (schema : Schema) : Alike Eq c.tempTable (c.withSchema schema).tempTable :=
  Alike.refl (fun _ => rfl) c.tempTable

theorem alike_prepareStages_retabled (hschema : c.schema.Retabled T P schema')
    (hms : List.Forall₂ Matching.Respelled ms ns)
    (hP : ∀ m ∈ ms, ∀ p ∈ m.patterns, ∀ n ∈ p.nodes, n.labels ≠ [] → P n.labels)
    (w : WithProjection) (p : Projection) :
    Alike (Prepared.Retabled T) (c.prepareStages ms w p)
      ((c.withSchema schema').prepareStages ns w p) := by
  unfold prepareStages
  split
  · exact .throw _
  · refine (alike_plan_retabled hschema .nil hms hP w.toProjection).bind fun first first' hfirst => ?_
    refine (alike_tempTable schema').bind ?_
    rintro table _ rfl
    dsimp only
    rw [hfirst.firstName_eq]
    have hrelations : List.Forall₂ (Relation.RetabledAs T) [(first.firstName, first.relation table)]
        [(first.firstName, first'.relation table)] :=
      .cons ⟨rfl, .mk table hfirst.projection⟩ .nil
    refine (alike_plan_retabled hschema hrelations (List.forall₂_same.mpr fun m _ => .refl m) ?_ _).bind
      fun _ _ hfinal => ?_
    · simp [Pattern.nodes]
    · exact .pure ⟨.cons (.createTemp table hfirst.select) .nil, hfinal⟩

theorem alike_prepare_retabled (hschema : c.schema.Retabled T P schema') (h : q.Respelled r)
    (hq : q.LabelsIn P) :
    Alike (Prepared.Retabled T) (c.prepare q) ((c.withSchema schema').prepare r) := by
  have hplain := h.rel_plain?
  have hstaged := h.rel_staged?
  rw [prepare, prepare, h.shape_eq, prepareStaged, prepareStaged]
  cases r.shape with
  | loop => exact .throw _
  | staged =>
    dsimp only
    generalize hd : q.staged? = d at hstaged ⊢
    generalize r.staged? = e at hstaged ⊢
    cases hstaged with
    | none => exact .throw _
    | @some d e hparts =>
      obtain ⟨ms, w, p⟩ := d
      obtain ⟨ns, _⟩ := e
      obtain ⟨hms, rfl⟩ := hparts
      refine alike_prepareStages_retabled hschema hms (fun m hm => Query.labelsIn_iff.mp hq m ?_) w p
      rw [Query.staged?_eq_some hd]
      exact List.mem_append_left _ (List.mem_map_of_mem hm)
  | plain =>
    dsimp only
    generalize ha : q.plain? = a at hplain ⊢
    generalize r.plain? = b at hplain ⊢
    cases hplain with
    | none => exact .throw _
    | @some a b hparts =>
      obtain ⟨ms, p⟩ := a
      obtain ⟨ns, _⟩ := b
      obtain ⟨hms, rfl⟩ := hparts
      refine (alike_plan_retabled hschema .nil hms (fun m hm => Query.labelsIn_iff.mp hq m ?_) p).bind
        fun _ _ hplan => ?_
      · rw [Query.plain?_eq_some ha]
        exact List.mem_append_left _ (List.mem_map_of_mem hm)
      · exact .pure ⟨.nil, hplan⟩

/-! ## Loops -/

theorem related_outputs {q : Plan} (h : p.Retabled T q) (names : List String) :
    Related Error.SameKind (List.Forall₂ (ResultColumn.RetabledAs T)) (p.outputs names)
      (q.outputs names) := by
  refine Related.mapM_self fun x _ => ?_
  have hcolumn := h.rel_output? x
  generalize p.output? x = a at hcolumn ⊢
  generalize q.output? x = b at hcolumn ⊢
  cases hcolumn with
  | none => exact .error rfl
  | some hcd => exact .ok ⟨rfl, hcd⟩

theorem alike_unroll_retabled (hschema : c.schema.Retabled T P schema')
    (htables : c.schema.ColumnsRetabled T schema') (hbefore : before.Retabled T before')
    {columns columns' : List (String × ResultColumn)}
    (hcolumns : List.Forall₂ (ResultColumn.RetabledAs T) columns columns') (h : l.Respelled m)
    (elements : List Value) :
    Alike (List.Forall₂ (Statement.Retabled T)) (c.unroll before columns l elements)
      ((c.withSchema schema').unroll before' columns' m elements) := by
  have hempty : columns'.isEmpty = columns.isEmpty := by
    cases hcolumns <;> rfl
  have hwrites : ∀ rows, Related Error.SameKind (List.Forall₂ (List.Forall₂ (Write.Retabled T)))
      (elements.mapM fun v => LoopEnv.writes ⟨l.name, {}, some v, columns, rows⟩ c.schema l.actions)
      (elements.mapM fun v => LoopEnv.writes ⟨m.name, {}, some v, columns', rows⟩ schema' m.actions) := by
    refine fun rows => Related.mapM_self fun v _ => ?_
    have henv : LoopEnv.Retabled T ⟨l.name, {}, some v, columns, rows⟩
        ⟨m.name, {}, some v, columns', rows⟩ :=
      ⟨h.name, hschema.nodesTable, rfl, rfl, hcolumns, rfl⟩
    exact henv.related_writes hschema htables h.actions
  have hstatements : ∀ {wss vss : List (List Write)},
      List.Forall₂ (List.Forall₂ (Write.Retabled T)) wss vss →
      List.Forall₂ (Statement.Retabled T) (wss.flatten.map .write) (vss.flatten.map .write) := by
    intro wss vss h
    rw [List.forall₂_map_left_iff, List.forall₂_map_right_iff]
    exact (List.rel_flatten h).imp fun _ _ hw => .write hw
  unfold unroll
  rw [hempty]
  split
  · exact (Alike.raise (hwrites none)).bind fun wss vss h => .pure (hstatements h)
  · refine (alike_tempTable schema').bind ?_
    rintro table _ rfl
    refine (Alike.raise (hwrites (some table))).bind fun wss vss h => .pure ?_
    refine List.rel_append (List.rel_append hbefore.setup ?_) (hstatements h)
    exact .cons (.createTemp table hbefore.final.select) .nil

/-- Whether a value was read from the table of all edges is the same on both sides. -/
theorem fromEdges_iff (htables : schema.ColumnsRetabled T schema') {a b : ResultColumn} (h : a.Retabled T b) :
    a.origin.map Origin.table = some Schema.edgesTable ↔
      b.origin.map Origin.table = some Schema.edgesTable := by
  cases h with
  | mk ho =>
    dsimp only
    generalize a.origin = o at ho ⊢
    cases ho with
    | none => exact Iff.rfl
    | some hop =>
      rw [Option.map_some, Option.map_some, Option.some.injEq, Option.some.injEq]
      exact htables.isEdges _ _ hop.table

theorem related_iterate_retabled (hschema : c.schema.Retabled T P schema')
    (htables : c.schema.ColumnsRetabled T schema') (hbefore : before.Retabled T before')
    {columns columns' : List (String × ResultColumn)}
    (hcolumns : List.Forall₂ (ResultColumn.RetabledAs T) columns columns') (h : l.Respelled m)
    (x : String) :
    Related Error.SameKind (List.Forall₂ (Statement.Retabled T)) (c.iterate before columns l x)
      ((c.withSchema schema').iterate before' columns' m x) := by
  have hsource := hbefore.final.rel_output? x
  unfold iterate
  rw [← h.name]
  generalize before.final.output? x = a at hsource ⊢
  generalize before'.final.output? x = b at hsource ⊢
  cases hsource with
  | none => exact .error rfl
  | @some a b hab =>
    dsimp only
    simp only [← fromEdges_iff htables hab]
    split
    · exact .error rfl
    · have hkey := hab.elementKey hschema.nodesTable
      cases hab with
      | mk _ =>
        have henv : LoopEnv.Retabled T
            { name := l.name, key := a.elementKey (a.type.getD .text), element := none, columns }
            { name := l.name, key := ResultColumn.elementKey _ (a.type.getD .text), element := none,
              columns := columns' } :=
          ⟨rfl, (hkey _).1, (hkey _).2, rfl, hcolumns, rfl⟩
        refine (henv.related_writes hschema htables h.actions).bind fun body body' hbody => ?_
        refine .ok (List.rel_append hbefore.setup (.cons (.block ⟨?_, hbefore.final.select, hbody⟩) .nil))
        refine congrArg (List.cons _) (map_eq_of_forall₂ hcolumns ?_)
        rintro ⟨x, c⟩ ⟨_, d⟩ ⟨rfl, hcd⟩
        cases hcd
        rfl

theorem alike_compileLoop_retabled (hschema : c.schema.Retabled T P schema')
    (htables : c.schema.ColumnsRetabled T schema') (hbefore : before.Retabled T before')
    (h : l.Respelled m) :
    Alike (List.Forall₂ (Statement.Retabled T)) (c.compileLoop before l)
      ((c.withSchema schema').compileLoop before' m) := by
  unfold compileLoop
  rw [← h.outerNames, ← h.source]
  refine (Alike.raise (related_outputs hbefore.final l.outerNames)).bind
    fun columns columns' hcolumns => ?_
  split
  · split
    · exact alike_unroll_retabled hschema htables hbefore hcolumns h _
    · exact .throw _
  · exact .raise (related_iterate_retabled hschema htables hbefore hcolumns h _)
  · exact .throw _

theorem alike_compileLooping_retabled (hschema : c.schema.Retabled T P schema')
    (htables : c.schema.ColumnsRetabled T schema') (h : q.Respelled r) (hq : q.LabelsIn P) :
    Alike (List.Forall₂ (Statement.Retabled T)) (c.compileLooping q)
      ((c.withSchema schema').compileLooping r) := by
  have hlast := h.rel_getLast?
  have hbefore := h.dropLast
  have hempty : q.dropLast.isEmpty = r.dropLast.isEmpty := by
    rw [Bool.eq_iff_iff, List.isEmpty_iff_length_eq_zero, List.isEmpty_iff_length_eq_zero,
      hbefore.length_eq]
  unfold compileLooping
  generalize q.getLast? = a at hlast ⊢
  generalize r.getLast? = b at hlast ⊢
  cases hlast with
  | none => exact .throw _
  | some hcd =>
    cases hcd with
    | matching _ => exact .throw _
    | passing w => exact .throw _
    | returning p => exact .throw _
    | looping hloop =>
      dsimp only
      rw [hempty, hbefore.any_isLooping]
      split
      · exact .throw _
      · split
        · exact .throw _
        · have hquery := hbefore.rel_beforeLoop?
          generalize hr : Query.beforeLoop? q.dropLast = before at hquery ⊢
          generalize Query.beforeLoop? r.dropLast = before' at hquery ⊢
          cases hquery with
          | none => exact .throw _
          | some hqr =>
            refine (alike_prepare_retabled hschema hqr (Query.labelsIn_iff.mpr fun m hm => ?_)).bind
              fun p p' hp => (alike_compileLoop_retabled hschema htables hp hloop).catching _ _
            exact Query.labelsIn_iff.mp hq m
              ((List.dropLast_sublist q).subset (Query.matching_mem_of_beforeLoop? hr hm))

/-- **Queries that are spelled alike have statements over tables that correspond**, each for its schema, or
they are refused in the same way. -/
theorem alike_compileQuery_retabled (hschema : c.schema.Retabled T P schema') (h : q.Respelled r)
    (hq : q.LabelsIn P) (htables : r.shape = .loop → c.schema.ColumnsRetabled T schema') :
    Alike (List.Forall₂ (Statement.Retabled T)) (c.compileQuery q)
      ((c.withSchema schema').compileQuery r) := by
  have hplain : Alike (List.Forall₂ (Statement.Retabled T)) (do return (← c.prepare q).statements)
      (do return (← (c.withSchema schema').prepare r).statements) :=
    (alike_prepare_retabled hschema h hq).bind fun _ _ hp => .pure hp.statements
  rw [compileQuery, compileQuery, h.shape_eq]
  cases hshape : r.shape with
  | loop => exact alike_compileLooping_retabled hschema (htables hshape) h hq
  | plain => exact hplain
  | staged => exact hplain

@[inherit_doc alike_compileQuery_retabled]
theorem alike_compile_retabled (hschema : c.schema.Retabled T P schema') {text : String}
    (htext : ∀ q, parse text = .ok q →
      q.LabelsIn P ∧ (q.shape = .loop → c.schema.ColumnsRetabled T schema')) :
    Alike (List.Forall₂ (Statement.Retabled T)) (c.compile text)
      ((c.withSchema schema').compile text) := by
  rw [compile, compile]
  cases hq : parse text with
  | error r => exact .throw r
  | ok q => exact alike_compileQuery_retabled hschema (.refl q) (htext q hq).1 (htext q hq).2

end Compiler

/-! ## Tables that correspond only to themselves -/

namespace Relational

theorem Select.Retabled.eq (hT : ∀ x y, T x y → x = y) {a b : Select} (h : a.Retabled T b) : a = b := by
  have hsources : a.sources = b.sources := by
    rw [← List.forall₂_eq_eq_eq]
    refine h.sources.imp fun x y hxy => ?_
    obtain ⟨table, name, join⟩ := x
    obtain ⟨table', name', join'⟩ := y
    obtain ⟨htable, rfl, rfl⟩ := hxy
    obtain rfl : table = table' := htable.elim id (hT _ _)
    rfl
  rw [← h.rest, ← hsources]

theorem Operand.Retabled.eq (hT : ∀ x y, T x y → x = y) {a b : Operand} (h : a.Retabled T b) : a = b := by
  induction h with
  | refl _ => rfl
  | nodeWith hxy _ _ ih => rw [hT _ _ hxy, ih]

theorem Operand.eq_of_retabledAs (hT : ∀ x y, T x y → x = y) {as bs : List (String × Operand)}
    (h : List.Forall₂ (Operand.RetabledAs T) as bs) : as = bs := by
  rw [← List.forall₂_eq_eq_eq]
  exact h.imp fun _ _ hab => Prod.ext hab.1 (hab.2.eq hT)

theorem RowTest.Retabled.eq (hT : ∀ x y, T x y → x = y) {a b : RowTest} (h : a.Retabled T b) : a = b := by
  cases h with
  | refl _ => rfl
  | equals _ hab => rw [hab.eq hT]

theorem Write.Retabled.eq (hT : ∀ x y, T x y → x = y) {a b : Write} (h : a.Retabled T b) : a = b := by
  cases h with
  | update hxy has hab => rw [hT _ _ hxy, Operand.eq_of_retabledAs hT has, hab.eq hT]
  | insertEdge has _ => rw [Operand.eq_of_retabledAs hT has]

theorem Block.Retabled.eq (hT : ∀ x y, T x y → x = y) {a b : Block} (h : a.Retabled T b) : a = b := by
  obtain ⟨declared, source, body⟩ := a
  obtain ⟨declared', source', body'⟩ := b
  obtain ⟨rfl, hsource, hbody⟩ := h
  obtain rfl : source = source' := hsource.eq hT
  have hwrites : List.Forall₂ Eq body body' := hbody.imp fun _ _ hw => hw.eq hT
  rw [List.forall₂_eq_eq_eq] at hwrites
  rw [hwrites]

/-- **Where tables correspond only to themselves, statements do.** -/
theorem Statement.Retabled.eq (hT : ∀ x y, T x y → x = y) {a b : Statement} (h : a.Retabled T b) :
    a = b := by
  cases h with
  | select h => rw [h.eq hT]
  | createTemp _ h => rw [h.eq hT]
  | write h => rw [h.eq hT]
  | block h => rw [h.eq hT]

end Relational

end GraphSql
