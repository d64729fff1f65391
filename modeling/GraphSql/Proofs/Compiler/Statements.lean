import GraphSql.Proofs.Compiler.Derivation

/-!
# How statements come about

Every statement that a query is compiled to is the select statement of a plan, a temporary table that
is made from one, a write of a loop over a list that is written out, or the block of a loop over a
list that a plan returns.  `Compiler.Emits` lists these four with all that is known of their parts.

The plans are made of the clauses of the query, in one stage or in two.  So a property of plans that
the clauses give in both cases (`Compiler.Keeps`) holds of every plan that a statement comes from
(`Compiler.CompilesTo.emits`).
-/

namespace GraphSql

open Query (Loop Matching Projection WithProjection)
open Relational (Statement Write)

namespace Compiler

/-- The given name is one of a temporary table. -/
def NamesTemp (c : Compiler) (table : String) : Prop :=
  ∃ k, table = c.tempAt k

/-- `X` holds of every plan of clauses whose names satisfy `P` and whose expressions satisfy `E`, and
of every plan that reads the result of such a plan from a temporary table. -/
structure Keeps (c : Compiler) (P : String → Prop) (E : Query.Expr → Prop) (X : Plan → Prop) :
    Prop where
  first {ms : List Matching} {p : Projection} {plan : Plan} : (∀ m ∈ ms, m.Holds P E) →
    p.Holds P E → Plan.ofClauses c.schema [] ms p = .ok plan → X plan
  second {before plan : Plan} {table : String} {condition : Option Query.Expr} {p : Projection} :
    X before → c.NamesTemp table → (∀ e ∈ condition, E e) → p.Holds P E →
      Plan.ofClauses c.schema [(before.firstName, before.relation table)]
        [.reading before.firstName condition] p = .ok plan →
      X plan

/-- The statements that come from plans with `X` and loops with `L`. -/
inductive Emits (c : Compiler) (X : Plan → Prop) (L : Loop → Prop) : Statement → Prop
  | select {plan : Plan} : X plan → Emits c X L (.select plan.select)
  | createTemp {table : String} {plan : Plan} : c.NamesTemp table → X plan →
      Emits c X L (.createTemp table plan.select)
  | write {plan : Plan} {l : Loop} {columns : List (String × ResultColumn)} {v : Value}
      {rows : Option String} {ws : List Write} {w : Write} : X plan → L l →
      plan.outputs l.outerNames = .ok columns → (∀ table ∈ rows, c.NamesTemp table) →
      (unrolledEnv l columns rows v).writes c.schema l.actions = .ok ws → w ∈ ws →
      Emits c X L (.write w)
  | block {plan : Plan} {l : Loop} {columns : List (String × ResultColumn)} {name : String}
      {source : ResultColumn} {body : List Write} : X plan → L l →
      plan.outputs l.outerNames = .ok columns → plan.output? name = some source →
      (blockEnv l columns source).writes c.schema l.actions = .ok body →
      Emits c X L (.block { declared := blockVariables l source columns, source := plan.select, body })

variable {c : Compiler} {P : String → Prop} {E : Query.Expr → Prop} {X : Plan → Prop}
  {L : Loop → Prop} {k k' : Nat} {q : Query}

/-! ## Prepared queries -/

/-- All plans of a prepared query satisfy `X`. -/
structure Prepares (c : Compiler) (X : Plan → Prop) (p : Prepared) : Prop where
  setup : ∀ s ∈ p.setup, ∃ table plan, c.NamesTemp table ∧ X plan ∧ s = .createTemp table plan.select
  final : X p.final

theorem Prepares.emits_setup {p : Prepared} (h : c.Prepares X p) : ∀ s ∈ p.setup, c.Emits X L s := by
  intro s hs
  obtain ⟨table, plan, htable, hplan, rfl⟩ := h.setup s hs
  exact .createTemp htable hplan

theorem Prepares.emits_statements {p : Prepared} (h : c.Prepares X p) :
    ∀ s ∈ p.statements, c.Emits X L s := by
  intro s hs
  rcases List.mem_append.mp hs with hs | hs
  · exact h.emits_setup s hs
  · obtain rfl := List.mem_singleton.mp hs
    exact .select h.final

theorem PreparesTo.prepares {p : Prepared} (h : c.PreparesTo k q p k') (hc : c.Keeps P E X)
    (hq : ∀ x ∈ q, x.isLooping = false → x.Holds P E) : c.Prepares X p := by
  cases h with
  | @plain ms p _ hplain hplan =>
    have hclauses := Query.plain?_eq_some hplain
    have hms : ∀ m ∈ ms, m.Holds P E := fun m hm => hq (.matching m) (by simp [hclauses, hm]) rfl
    have hp : p.Holds P E := hq (.returning p) (by simp [hclauses]) rfl
    exact ⟨by simp, hc.first hms hp hplan⟩
  | @staged ms w p first _ hstaged hfirst hfinal =>
    have hclauses := Query.staged?_eq_some hstaged
    have hms : ∀ m ∈ ms, m.Holds P E := fun m hm => hq (.matching m) (by simp [hclauses, hm]) rfl
    have hw : w.Holds P E := hq (.passing w) (by simp [hclauses]) rfl
    have hp : p.Holds P E := hq (.returning p) (by simp [hclauses]) rfl
    have hprojection : (finalProjection w p).Holds P E := by
      unfold finalProjection
      split
      · exact ⟨hp.items, hw.projection.orderBy, hp.skip, hp.limit⟩
      · exact hp
    have hbefore := hc.first hms hw.projection hfirst
    refine ⟨fun s hs => ⟨_, first, ⟨k + 1, rfl⟩, hbefore, List.mem_singleton.mp hs⟩, ?_⟩
    exact hc.second hbefore ⟨k + 1, rfl⟩ hw.condition hprojection hfinal

/-! ## Queries -/

theorem emits_writes {plan : Plan} (hplan : X plan) {l : Loop} (hl : L l)
    {columns : List (String × ResultColumn)} (hcolumns : plan.outputs l.outerNames = .ok columns)
    {rows : Option String} (hrows : ∀ table ∈ rows, c.NamesTemp table) {elements : List Value}
    {writes : List (List Write)} (hwrites : elements.mapM (fun v =>
      (unrolledEnv l columns rows v).writes c.schema l.actions) = .ok writes) :
    ∀ s ∈ writes.flatten.map .write, c.Emits X L s := by
  intro s hs
  obtain ⟨v, -, ws, w, hws, hw, rfl⟩ := exists_writes_of_mem hwrites hs
  exact .write hplan hl hcolumns hrows hws hw

/-- **Every statement of a query comes from one of its plans.** -/
theorem CompilesTo.emits {statements : List Statement} (h : c.CompilesTo k q statements k')
    (hc : c.Keeps P E X) (hvar : ∀ x, E (.var x) ↔ P x)
    (hq : ∀ x ∈ q, x.isLooping = false → x.Holds P E) (hloops : ∀ l, .looping l ∈ q → L l) :
    ∀ s ∈ statements, c.Emits X L s := by
  have hends {l : Loop} {q' : Query} (h : EndsInLoop q l q') {before : Prepared} {k₁ : Nat}
      (hbefore : (c.prepare q').run.run k = (.ok before, k₁)) : L l ∧ c.Prepares X before := by
    have hclauses := fun x hx => hq x ((List.dropLast_sublist q).subset hx)
    exact ⟨hloops l (List.mem_of_getLast? h.1),
      (preparesTo_of_prepare hbefore).prepares hc (Query.holds_of_beforeLoop? hvar hclauses h.2)⟩
  cases h with
  | prepared _ hp => exact ((preparesTo_of_prepare hp).prepares hc hq).emits_statements
  | unrolled _ hl hbefore hcolumns _ hwrites =>
    obtain ⟨hl, hbefore⟩ := hends hl hbefore
    exact emits_writes hbefore.final hl hcolumns (by simp) hwrites
  | unrolledRows _ hl hbefore hcolumns _ _ hwrites =>
    obtain ⟨hl, hbefore⟩ := hends hl hbefore
    intro s hs
    rcases List.mem_append.mp hs with hs | hs
    · exact hbefore.emits_setup s hs
    · rcases List.mem_cons.mp hs with rfl | hs
      · exact .createTemp ⟨_, rfl⟩ hbefore.final
      · refine emits_writes hbefore.final hl hcolumns ?_ hwrites s hs
        rintro _ ⟨⟩
        exact ⟨_, rfl⟩
  | iterated _ hl hbefore hcolumns hsource hbody =>
    obtain ⟨hl, hbefore⟩ := hends hl hbefore
    intro s hs
    rcases List.mem_append.mp hs with hs | hs
    · exact hbefore.emits_setup s hs
    · obtain rfl := List.mem_singleton.mp hs
      exact .block hbefore.final hl hcolumns hsource hbody

end Compiler

end GraphSql
