import GraphSql.Proofs.Compiler.NodeIds
import GraphSql.Proofs.Letters
import GraphSql.Proofs.Query.Parsed

/-!
# Names and letter case

The variables of a query are told apart by the case of their letters, but the database reads names
without regard to the case of ASCII letters (`folded`).  The names that a select statement introduces
are those of different variables and of different places without a variable, so they are different;
the same goes for the variables that a block declares (`Statement.Distinct`).  To the database they are
different as long as no variable of the query differs in letter case only from another one or from the
name of a place without a variable (`distinctNames_of_compile`).  Nothing in the compiler makes up for
two variables that do (`not_nodup_folded_of_compile`).
-/

namespace GraphSql

/-- Names stay different when no two that can occur are read as one. -/
theorem nodup_folded {V : String → Prop} {names : List String} (hnames : names.Nodup)
    (hV : ∀ x ∈ names, V x) (hapart : ∀ x y, V x → V y → folded x = folded y → x = y) :
    (names.map folded).Nodup :=
  hnames.map_on fun x hx y hy => hapart x y (hV x hx) (hV y hy)

namespace Query

/-! ## The variables of a query -/

/-- The variables of the patterns of a match clause. -/
def Matching.variables (m : Matching) : List String :=
  m.patterns.flatMap fun p => p.variables.filterMap id

/-- The variables of the patterns of all match clauses. -/
def patternVariables (q : Query) : List String :=
  (q.filterMap Clause.matching?).flatMap Matching.variables

/-- The variables of all loops: those of the elements and those that the actions use as nodes. -/
def loopVariables (q : Query) : List String :=
  (q.filterMap Clause.looping?).flatMap fun l => l.name :: l.actions.flatMap Action.nodeNames

/-- No variable of a pattern differs in letter case only from another one, or from the name of a place
without a variable. -/
def PatternsApart (q : Query) : Prop :=
  ∀ x ∈ q.patternVariables, ∀ y, y ∈ q.patternVariables ∨ Numbered y → folded x = folded y → x = y

/-- No two variables of a loop differ in letter case only. -/
def LoopsApart (q : Query) : Prop :=
  ∀ x ∈ q.loopVariables, ∀ y ∈ q.loopVariables, folded x = folded y → x = y

theorem mem_patternVariables {q : Query} {m : Matching} (hm : .matching m ∈ q) {x : String}
    (hx : x ∈ m.variables) : x ∈ q.patternVariables :=
  List.mem_flatMap.mpr ⟨m, List.mem_filterMap.mpr ⟨_, hm, rfl⟩, hx⟩

/-- The names of places without a variable have no capital letters. -/
theorem folded_of_numbered {x : String} (h : Numbered x) : folded x = x.toList := by
  obtain ⟨kind, hkind, digits, -, hdigits, rfl⟩ := h
  have hdigit : digits.map Char.toLower = digits := by
    refine (List.map_congr_left fun d hd => ?_).trans (List.map_id digits)
    have hdigit := hdigits d hd
    have hlower := forall_isIdentifierChar (p := fun d => !d.isDigit || d.toLower == d)
      (by decide +kernel) (c := d) (by simp [isIdentifierChar, Char.isAlphanum, hdigit])
    simpa [hdigit] using hlower
  simp only [List.mem_cons, List.not_mem_nil, or_false] at hkind
  rcases hkind with rfl | rfl
  · simp [folded, hdigit]
  · simp [folded, hdigit]

theorem PatternsApart.eq {q : Query} (h : q.PatternsApart) {x y : String}
    (hx : x ∈ q.patternVariables ∨ Numbered x) (hy : y ∈ q.patternVariables ∨ Numbered y)
    (he : folded x = folded y) : x = y := by
  rcases hx with hx | hx
  · exact h x hx y hy he
  · rcases hy with hy | hy
    · exact (h y hy x (.inr hx) he.symm).symm
    · rw [folded_of_numbered hx, folded_of_numbered hy] at he
      exact String.toList_inj.mp he

/-- Variables that do not start like the names of places without a variable are only to be compared
with each other. -/
theorem patternsApart_of_head {q : Query}
    (h : ∀ x ∈ q.patternVariables, ∀ y ∈ q.patternVariables, folded x = folded y → x = y)
    (hhead : ∀ x ∈ q.patternVariables, (folded x).head? ≠ some '_') : q.PatternsApart := by
  rintro x hx y (hy | hy) he
  · exact h x hx y hy he
  · refine absurd ?_ (hhead x hx)
    rw [he, folded_of_numbered hy]
    obtain ⟨kind, -, digits, -, -, rfl⟩ := hy
    simp

/-- The query before a loop has no match clauses of its own. -/
theorem matching_mem_of_beforeLoop? {q q' : Query} (h : beforeLoop? q = some q') {m : Matching}
    (hm : .matching m ∈ q') : .matching m ∈ q := by
  unfold beforeLoop? at h
  split at h
  · split at h
    · cases h
      refine (List.dropLast_sublist q).subset ?_
      simpa using hm
    · cases h
      simpa using hm
  · split at h
    · cases h
    · cases h
      simpa using hm
  · cases h
    exact hm

theorem nodup_firstAppearances (xs : List String) : (firstAppearances xs).Nodup := by
  refine List.foldlRecOn (motive := List.Nodup) xs _ List.nodup_nil fun seen hseen x _ => ?_
  split
  · exact hseen
  · rename_i hx
    refine List.nodup_append.mpr ⟨hseen, List.nodup_singleton x, fun y hy z hz he => hx ?_⟩
    rw [List.contains_iff_mem, ← List.mem_singleton.mp hz, ← he]
    exact hy

end Query

open Query (Loop Matching Projection)
open Relational (Select Statement)

/-- The names that a select statement introduces. -/
def Relational.Select.aliases (s : Select) : List String := s.sources.map Relational.Source.name

/-- The names that a select statement introduces are different, and each is a variable of a pattern or
the name of a place without one. -/
structure Relational.Select.Distinct (q : Query) (s : Select) : Prop where
  nodup : s.aliases.Nodup
  mem : ∀ x ∈ s.aliases, x ∈ q.patternVariables ∨ Query.Numbered x

/-! ## Plans -/

namespace Plan

variable {schema : Schema} {relations : List (String × Relation)} {ms : List Matching}
  {p : Projection} {plan : Plan}

/-- A name at a place is the variable there, or the place has none. -/
theorem mem_variables_of_place {a : Option String × String}
    (ha : a ∈ (Query.aliasedPatterns 0 (ms.flatMap Matching.patterns)).1.flatMap
      Query.AliasedPattern.places) : a.2 ∈ ms.flatMap Matching.variables ∨ Query.Numbered a.2 := by
  rcases place_cases ha with ⟨m, hm, q, hq, ha⟩ | ⟨kind, hkind, j, ha⟩
  · exact .inl (List.mem_flatMap.mpr ⟨m, hm, List.mem_flatMap.mpr
      ⟨q, hq, List.mem_filterMap.mpr ⟨_, ha, rfl⟩⟩⟩)
  · exact .inr (ha ▸ Scope.numbered_natural hkind j)

/-- **A select statement introduces what its plan binds**, each name once. -/
theorem aliases_ofClauses (h : Plan.ofClauses schema relations ms p = .ok plan) :
    plan.select.aliases.Nodup ∧ ∀ x, x ∈ plan.select.aliases ↔
      (∃ n ∈ plan.nodes, n.name = x) ∨ ∃ e ∈ plan.edges, e.name = x := by
  obtain ⟨s, projected, compiled, select, hs, hselect, rfl⟩ := ofClauses_eq_ok.mp h
  have hintroduces := Scope.introduces_of_addPatterns hs
  have hperm := hintroduces.names_perm
  rw [← hselect.sources] at hperm
  exact ⟨hperm.nodup_iff.mpr hintroduces.nodup, fun x => hperm.mem_iff.trans Scope.mem_names⟩

/-- A plan of patterns has a first node. -/
theorem firstName_mem (hms : ms.flatMap Matching.patterns ≠ [])
    (h : Plan.ofClauses schema relations ms p = .ok plan) :
    ∃ n ∈ plan.nodes, n.name = plan.firstName := by
  have hfresh := freshAliases h
  cases hpatterns : ms.flatMap Matching.patterns with
  | nil => exact absurd hpatterns hms
  | cons first rest =>
    rw [hpatterns] at hfresh
    have hstart := (hfresh.nodes _).mpr ⟨_, List.mem_flatMap.mpr ⟨_, List.mem_cons_self,
      List.mem_cons_self⟩, rfl⟩
    unfold firstName
    cases hnodes : plan.nodes with
    | nil =>
      rw [hnodes] at hstart
      cases hstart
    | cons n ns => exact ⟨n, List.mem_cons_self, rfl⟩

end Plan

/-! ## Statements -/

namespace Relational.Statement

/-- The select statements with a list of sources that stand in a statement. -/
def selects : Statement → List Select
  | .select s => [s]
  | .createTemp _ s => [s]
  | .write _ => []
  | .block b => [b.source]

/-- The variables of the query that a statement declares variables for. -/
def declared : Statement → List String
  | .block b => b.declared.map BlockVariable.name
  | _ => []

/-- The names that a statement introduces are different, and come from the query. -/
structure Distinct (q : Query) (st : Statement) : Prop where
  selects : ∀ s ∈ st.selects, s.Distinct q
  nodup : st.declared.Nodup
  declared : ∀ x ∈ st.declared, x ∈ q.loopVariables

variable {q : Query} {st : Statement}

theorem distinct_select {s : Select} (h : s.Distinct q) : Distinct q (.select s) :=
  ⟨by simpa [Statement.selects] using h, by simp [Statement.declared], by simp [Statement.declared]⟩

theorem distinct_createTemp {table : String} {s : Select} (h : s.Distinct q) :
    Distinct q (.createTemp table s) :=
  ⟨by simpa [Statement.selects] using h, by simp [Statement.declared], by simp [Statement.declared]⟩

theorem distinct_write (w : Write) : Distinct q (.write w) :=
  ⟨by simp [Statement.selects], by simp [Statement.declared], by simp [Statement.declared]⟩

theorem Distinct.nodup_folded_aliases (h : st.Distinct q) (hq : q.PatternsApart) :
    ∀ s ∈ st.selects, (s.aliases.map folded).Nodup := fun s hs =>
  nodup_folded (h.selects s hs).nodup (h.selects s hs).mem fun _ _ => hq.eq

theorem Distinct.nodup_folded_declared (h : st.Distinct q) (hq : q.LoopsApart) :
    (st.declared.map fun x => folded (blockVariable x)).Nodup := by
  have hnodup := nodup_folded h.nodup h.declared fun x y hx hy => hq x hx y hy
  have hstart : (fun x => folded (blockVariable x)) = fun x => folded "fe_" ++ folded x := by
    funext x
    exact folded_append "fe_" x
  rw [hstart]
  simpa [Function.comp_def] using hnodup.map (List.append_right_injective (folded "fe_"))

end Relational.Statement

/-! ## Compiled queries -/

namespace Compiler

variable {c : Compiler} {k k' : Nat} {q : Query}

/-- A plan of match clauses introduces names of these clauses. -/
theorem distinct_ofClauses {ms : List Matching} {p : Projection} {plan : Plan}
    (hms : ∀ m ∈ ms, .matching m ∈ q) (h : Plan.ofClauses c.schema [] ms p = .ok plan) :
    plan.select.Distinct q := by
  obtain ⟨hnodup, hmem⟩ := Plan.aliases_ofClauses h
  refine ⟨hnodup, fun x hx => ?_⟩
  obtain ⟨a, ha, rfl⟩ := Plan.exists_place_of_mem_names h ((hmem x).mp hx)
  refine (Plan.mem_variables_of_place ha).imp_left fun hx => ?_
  obtain ⟨m, hm, hx⟩ := List.mem_flatMap.mp hx
  exact Query.mem_patternVariables (hms m hm) hx

/-- In the second stage there is one name, and the first stage has introduced it. -/
theorem distinct_ofRelation {first plan : Plan} {table : String} {condition : Option Query.Expr}
    {p : Projection} (hfirst : first.select.Distinct q)
    (hname : first.firstName ∈ first.select.aliases)
    (h : Plan.ofClauses c.schema [(first.firstName, first.relation table)]
      [.reading first.firstName condition] p = .ok plan) :
    plan.select.Distinct q := by
  obtain ⟨projected, compiled, -, hselect⟩ := Plan.selects_reading h
  have haliases : plan.select.aliases = [first.firstName] := by
    rw [Select.aliases, hselect.sources]
    rfl
  constructor
  · rw [haliases]
    exact List.nodup_singleton _
  · rw [haliases]
    simpa using hfirst.mem _ hname

/-- **The select statements of a prepared query introduce different names.** -/
theorem PreparesTo.distinct {q' : Query} {p : Prepared} (hsub : ∀ m, .matching m ∈ q' → .matching m ∈ q)
    (hne : ∀ m, .matching m ∈ q → m.patterns ≠ []) (h : c.PreparesTo k q' p k') :
    p.final.select.Distinct q ∧ ∀ st ∈ p.setup, st.Distinct q := by
  cases h with
  | plain hparts hplan =>
    have hmem := Query.plain?_eq_some hparts
    refine ⟨distinct_ofClauses (fun m hm => hsub m ?_) hplan, by simp⟩
    simp [hmem, hm]
  | @staged ms w p first final hparts hfirst hfinal =>
    have hmem := Query.staged?_eq_some hparts
    have hms : ∀ m ∈ ms, .matching m ∈ q := fun m hm => hsub m (by simp [hmem, hm])
    have hpatterns : ms.flatMap Matching.patterns ≠ [] := by
      cases ms with
      | nil =>
        rw [hmem] at hparts
        cases hparts
      | cons m ms => simp [hne m (hms m List.mem_cons_self)]
    have hdistinct := distinct_ofClauses hms hfirst
    have hname : first.firstName ∈ first.select.aliases :=
      ((Plan.aliases_ofClauses hfirst).2 _).mpr (.inl (Plan.firstName_mem hpatterns hfirst))
    refine ⟨distinct_ofRelation hdistinct hname hfinal, fun st hst => ?_⟩
    obtain rfl := List.mem_singleton.mp hst
    exact Statement.distinct_createTemp hdistinct

theorem EndsInLoop.matching_mem {l : Loop} {q' : Query} (h : EndsInLoop q l q') :
    ∀ m, .matching m ∈ q' → .matching m ∈ q := fun _ hm =>
  (List.dropLast_sublist q).subset (Query.matching_mem_of_beforeLoop? h.2 hm)

/-- A block declares the variable of the element and the outer ones, each once. -/
theorem distinct_block {l : Loop} {q' : Query} {before : Prepared} {source : ResultColumn}
    {columns : List (String × ResultColumn)} {body : List Relational.Write}
    (hends : EndsInLoop q l q') (hbefore : before.final.select.Distinct q)
    (hcolumns : before.final.outputs l.outerNames = .ok columns) :
    Statement.Distinct q (.block { declared := blockVariables l source columns
                                   source := before.final.select
                                   body }) := by
  have hdeclared : (blockVariables l source columns).map Relational.BlockVariable.name =
      l.name :: l.outerNames := by
    rw [← Plan.map_fst_outputs hcolumns]
    simp [blockVariables]
  refine ⟨fun s hs => List.mem_singleton.mp hs ▸ hbefore, ?_, fun x hx => ?_⟩
  · rw [Statement.declared, hdeclared]
    refine List.nodup_cons.mpr ⟨fun hmem => ?_, Query.nodup_firstAppearances _⟩
    have hne := List.of_mem_filter (Query.firstAppearances_subset _ hmem)
    simp at hne
  · rw [Statement.declared, hdeclared] at hx
    refine List.mem_flatMap.mpr
      ⟨l, List.mem_filterMap.mpr ⟨_, List.mem_of_getLast? hends.1, rfl⟩, ?_⟩
    refine (List.mem_cons.mp hx).elim (fun hx => hx ▸ List.mem_cons_self) fun hx => ?_
    exact List.mem_cons_of_mem _ (List.mem_of_mem_filter (Query.firstAppearances_subset _ hx))

theorem CompilesTo.distinct {statements : List Statement} (h : c.CompilesTo k q statements k')
    (hne : ∀ m, .matching m ∈ q → m.patterns ≠ []) : ∀ st ∈ statements, st.Distinct q := by
  cases h with
  | prepared _ hp =>
    obtain ⟨hfinal, hsetup⟩ := (preparesTo_of_prepare hp).distinct (fun _ hm => hm) hne
    intro st hst
    rcases List.mem_append.mp hst with hst | hst
    · exact hsetup st hst
    · obtain rfl := List.mem_singleton.mp hst
      exact Statement.distinct_select hfinal
  | unrolled _ _ _ _ _ hwrites =>
    intro st hst
    obtain ⟨-, -, -, w, -, -, rfl⟩ := exists_writes_of_mem hwrites hst
    exact Statement.distinct_write w
  | unrolledRows _ hends hbefore _ _ _ hwrites =>
    obtain ⟨hfinal, hsetup⟩ := (preparesTo_of_prepare hbefore).distinct hends.matching_mem hne
    intro st hst
    rcases List.mem_append.mp hst with hst | hst
    · exact hsetup st hst
    · rcases List.mem_cons.mp hst with rfl | hst
      · exact Statement.distinct_createTemp hfinal
      · obtain ⟨-, -, -, w, -, -, rfl⟩ := exists_writes_of_mem hwrites hst
        exact Statement.distinct_write w
  | iterated _ hends hbefore hcolumns _ _ =>
    obtain ⟨hfinal, hsetup⟩ := (preparesTo_of_prepare hbefore).distinct hends.matching_mem hne
    intro st hst
    rcases List.mem_append.mp hst with hst | hst
    · exact hsetup st hst
    · obtain rfl := List.mem_singleton.mp hst
      exact distinct_block hends hfinal hcolumns

/-- **The names of a select statement are different, and so are the variables of a block.**  To the
database they are different too, unless variables of the query differ in letter case only, or one of
them differs so from the name of a place without a variable. -/
theorem distinctNames_of_compile {text : String} {statements : List Statement}
    (h : (c.compile text).run.run k = (.ok statements, k')) :
    ∃ q, Query.parse text = .ok q ∧ (∀ st ∈ statements, st.Distinct q) ∧
      (q.PatternsApart → ∀ st ∈ statements, ∀ s ∈ st.selects, (s.aliases.map folded).Nodup) ∧
      (q.LoopsApart → ∀ st ∈ statements,
        (st.declared.map fun x => folded (Relational.blockVariable x)).Nodup) := by
  obtain ⟨q, hq, hcompiles⟩ := compilesTo_of_compile h
  have hformed := (Query.holds_of_parse (fun _ _ => trivial) Query.Closed.named hq).2
  have hdistinct := hcompiles.distinct fun m hm => (hformed _ hm).2
  exact ⟨q, hq, hdistinct, fun hapart st hst => (hdistinct st hst).nodup_folded_aliases hapart,
    fun hapart st hst => (hdistinct st hst).nodup_folded_declared hapart⟩

/-- A query with three node patterns, one of them without a variable, and a loop. -/
def collectedText : String :=
  "MATCH (n:Person)-->(m), (:Person) WITH collect(n.id) AS ns, m.id AS m " ++
    "FOREACH (x IN ns | SET x.age = 1 SET m.age = 2)"

theorem distinctNames_of_compile_collected :
    ∃ statements k' q, (peopleCompiler.compile collectedText).run.run 0 = (.ok statements, k') ∧
      Query.parse collectedText = .ok q ∧ q.PatternsApart ∧ q.LoopsApart ∧
      (statements.flatMap Statement.selects).map Select.aliases = [["n", "_e0", "m", "_n1"]] ∧
      statements.map Statement.declared = [["x", "m"]] ∧ (∀ st ∈ statements, st.Distinct q) ∧
      (∀ st ∈ statements, ∀ s ∈ st.selects, (s.aliases.map folded).Nodup) ∧
      ∀ st ∈ statements, (st.declared.map fun x => folded (Relational.blockVariable x)).Nodup := by
  have hfacts : (((peopleCompiler.compile collectedText).run.run 0).1.toOption.bind fun statements =>
      (Query.parse collectedText).toOption.map fun q =>
        ((statements.flatMap Statement.selects).map Select.aliases,
          statements.map Statement.declared, q.patternVariables, q.loopVariables)) =
      some ([["n", "_e0", "m", "_n1"]], [["x", "m"]], ["n", "m"], ["x", "x", "m"]) := by
    decide +kernel
  obtain ⟨statements, hrun, hfacts⟩ := Option.bind_eq_some_iff.mp hfacts
  obtain ⟨q, hq, hfacts⟩ := Option.map_eq_some_iff.mp hfacts
  obtain ⟨k', hrun⟩ := Compile.exists_run_of_toOption hrun
  have hq := Except.eq_ok_of_toOption hq
  simp only [Prod.mk.injEq] at hfacts
  obtain ⟨haliases, hdeclared, hvariables, hloop⟩ := hfacts
  have hpatterns : q.PatternsApart := by
    refine Query.patternsApart_of_head ?_ ?_
    · rw [hvariables]
      decide
    · rw [hvariables]
      decide
  have hloops : q.LoopsApart := by
    rw [Query.LoopsApart, hloop]
    decide
  obtain ⟨q', hq', hdistinct, hselects, hblocks⟩ := distinctNames_of_compile hrun
  cases hq.symm.trans hq'
  exact ⟨statements, k', q, hrun, hq, hpatterns, hloops, haliases, hdeclared, hdistinct,
    hselects hpatterns, hblocks hloops⟩

/-- The block of a script that is a single one. -/
def onlyBlock? : List Statement → Option Relational.Block
  | [.block b] => some b
  | _ => none

theorem onlyBlock?_eq_some {statements : List Statement} {b : Relational.Block}
    (h : onlyBlock? statements = some b) : statements = [.block b] := by
  unfold onlyBlock? at h
  split at h
  · cases h
    rfl
  · cases h

/-- A query with two variables that differ in letter case only. -/
def capitalText : String :=
  "MATCH (n:Person), (N:Person) WITH collect(n.id) AS ns, N.id AS N " ++
    "FOREACH (n IN ns | SET n.age = 1 SET N.age = 2)"

/-- **Two variables that differ in letter case only become one name of the database**, in the sources
of a select statement and among the variables of a block. -/
theorem not_nodup_folded_of_compile :
    ∃ b k', (peopleCompiler.compile capitalText).run.run 0 = (.ok [.block b], k') ∧
      b.source.aliases = ["n", "N"] ∧ ¬ (b.source.aliases.map folded).Nodup ∧
      b.declared.map Relational.BlockVariable.name = ["n", "N"] ∧
      ¬ ((Statement.block b).declared.map fun x => folded (Relational.blockVariable x)).Nodup := by
  have hfacts : (((peopleCompiler.compile capitalText).run.run 0).1.toOption.bind fun statements =>
      (onlyBlock? statements).map fun b =>
        (b.source.aliases, b.declared.map Relational.BlockVariable.name)) =
      some (["n", "N"], ["n", "N"]) := by decide +kernel
  obtain ⟨statements, hstatements, hfacts⟩ := Option.bind_eq_some_iff.mp hfacts
  obtain ⟨b, hb, hnames⟩ := Option.map_eq_some_iff.mp hfacts
  rw [onlyBlock?_eq_some hb] at hstatements
  obtain ⟨k', hrun⟩ := Compile.exists_run_of_toOption hstatements
  rw [Prod.mk.injEq] at hnames
  obtain ⟨haliases, hdeclared⟩ := hnames
  refine ⟨b, k', hrun, haliases, ?_, hdeclared, ?_⟩
  · rw [haliases]
    decide
  · rw [Statement.declared, hdeclared]
    decide

end Compiler

end GraphSql
