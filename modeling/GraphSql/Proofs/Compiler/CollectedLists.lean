import GraphSql.Proofs.Compiler.Provenance
import GraphSql.Proofs.Scope.Comparisons

/-!
# Lists that are compared with collected columns

In the condition of a projection in the middle a name can stand for a list that was collected.  A
literal next to it takes the type of the column, which is the type of one element.  As a single value
of this type a list of such elements cannot be read, so it becomes `NULL`
(`Relational.Literal.ofValueAs_list`), and no comparison with it is ever true
(`Compiler.losesLists_of_prepare`).
-/

namespace GraphSql

open Relational (Comparator Literal)

/-! ## Collected columns -/

namespace Scope

variable {s : Scope}

/-- **Without derived relations the columns that are marked as lists are collected.** -/
theorem Outputs.collects (hderived : s.derived = []) {index : Nat} {item : Query.ReturnItem}
    {c : ResultColumn} (hc : Outputs s index item c) (hlist : c.isList = true) :
    ∃ distinct arguments, c.expr = .call Aggregate.collect.sql distinct arguments := by
  cases hc with
  | named _ hc =>
    cases hc with
    | stored => cases hlist
    | whole hp =>
      rw [hderived] at hp
      cases hp
    | member hp =>
      rw [hderived] at hp
      cases hp
  | property _ hr =>
    rcases lookupProperty_eq_ok hr with ⟨table, columns, d, -, -, rfl⟩ | ⟨p, hp, -⟩
    · cases hlist
    · rw [hderived] at hp
      cases hp
  | @aggregate f a _ _ _ hcall ha _ hexpr =>
    obtain rfl : a = .collect := of_decide_eq_true hlist
    rcases hcall with ⟨distinct, hitem⟩ | ⟨hitem, -⟩
    · rw [hitem] at hexpr
      obtain ⟨arguments, -, hexpr⟩ := compile_call_eq_ok hexpr
      rw [functionName_of_ofName? ha] at hexpr
      exact ⟨_, arguments, hexpr⟩
    · rw [hitem, compile, functionName_of_ofName? ha] at hexpr
      exact ⟨false, [.star], (Except.ok.inj hexpr).symm⟩
  | call => cases hlist
  | other => cases hlist

end Scope

theorem Plan.call_of_isList {schema : Schema} {ms : List Query.Matching} {p : Query.Projection}
    {plan : Plan} (h : ofClauses schema [] ms p = .ok plan) :
    ∀ c ∈ plan.projection, c.isList = true →
      ∃ distinct arguments, c.expr = .call Aggregate.collect.sql distinct arguments := by
  obtain ⟨s, projected, compiled, select, hs, hselect, rfl⟩ := ofClauses_eq_ok.mp h
  have hderived := (Scope.stored_of_addPatterns hs).derived_eq_nil
  intro c hc hlist
  obtain ⟨item, -, index, d, taken, hd, rfl⟩ :=
    (Scope.exists_outputs_of_project hselect.project_eq).1 c hc
  have hcollects := hd.collects hderived hlist
  exact hcollects

/-! ## Literals -/

namespace Relational.Literal

def isNull : Literal → Bool
  | .null => true
  | _ => false

/-- What can be read as an array of texts is no element of one. -/
theorem element?_eq_none {v : Value} (h : (ofValueAs .textArray v).isNull = false) :
    element? v = none := by
  cases v with
  | list vs => rfl
  | row vs => rfl
  | _ => cases h

/-- **A list of values of a type is no value of this type.** -/
theorem ofValueAs_list {type : ColumnType} {vs : List Value} (hne : vs ≠ [])
    (h : ∀ v ∈ vs, (ofValueAs type v).isNull = false) : ofValueAs type (.list vs) = .null := by
  cases type with
  | int => rfl
  | bigint => rfl
  | text => rfl
  | textArray =>
    obtain ⟨v, vs, rfl⟩ := List.exists_cons_of_ne_nil hne
    have hfirst : element? v = none := element?_eq_none (h v List.mem_cons_self)
    have hall : (v :: vs).mapM element? = none := by
      rw [List.mapM_cons, hfirst]
      rfl
    show (((v :: vs).mapM element?).map textArray).getD .null = .null
    rw [hall]
    rfl

end Relational.Literal

/-! ## Comparisons of a final stage -/

namespace Scope

variable {name x : String} {r : Relation} {key : ResultColumn} {op : Query.Comparison}
  {comparator : Comparator} {es : List Query.Expr} {vs : List Value} {b : Relational.Expr}

/-- Both sides of a comparison take each other's types. -/
theorem compile_comparator_eq_ok {s : Scope} {left right : Query.Expr}
    (hop : op.comparator? = some comparator) (h : s.compile (.compare op left right) = .ok b) :
    ∃ x y x' y', s.operand left (s.compile left) = .ok x ∧
      s.operand right (s.compile right) = .ok y ∧ typed left y.type (.ok x.expr) = .ok x' ∧
      typed right x.type (.ok y.expr) = .ok y' ∧ b = .compare comparator x' y' := by
  have hcomparison : ∀ a b, comparison op a b = .compare comparator a b := by
    intro a b
    cases op <;> cases hop <;> rfl
  obtain ⟨x, hx, ⟨es, ys, rfl, -⟩ | ⟨y, hy, ⟨rfl, -⟩ | ⟨-, x', y', hx', hy', rfl⟩⟩⟩ :=
    compile_compare_eq_ok h
  · cases hop
  · cases hop
  · exact ⟨x, y, x', y', hx, hy, hx', hy', hcomparison x' y'⟩

theorem typed_list (hvs : Query.Expr.values? es = some vs) (type : Option ColumnType)
    (other : Except Error Relational.Expr) :
    typed (.list es) type other = .ok (.literal (.ofValueFor type (.list vs))) := by
  rw [typed, Query.Expr.value?, hvs]
  rfl

/-- A list of literals behind a name takes the type of the column that the name stands for. -/
theorem compile_name_list (hkey : r.key? x = some key) (hop : op.comparator? = some comparator)
    (hvs : Query.Expr.values? es = some vs)
    (h : (reading name r).compile (.compare op (.var x) (.list es)) = .ok b) :
    b = .compare comparator (.column name key.name)
      (.literal (.ofValueFor key.type (.list vs))) := by
  obtain ⟨left, right, left', right', hleft, -, hleft', hright', rfl⟩ :=
    compile_comparator_eq_ok hop h
  cases hleft.symm.trans (lookupName_reading name hkey)
  cases hleft'
  cases hright'.symm.trans (typed_list hvs _ _)
  rfl

/-- A list of literals in front of a name takes the type of the column that the name stands for. -/
theorem compile_list_name (hkey : r.key? x = some key) (hop : op.comparator? = some comparator)
    (hvs : Query.Expr.values? es = some vs)
    (h : (reading name r).compile (.compare op (.list es) (.var x)) = .ok b) :
    b = .compare comparator (.literal (.ofValueFor key.type (.list vs)))
      (.column name key.name) := by
  obtain ⟨left, right, left', right', -, hright, hleft', hright', rfl⟩ :=
    compile_comparator_eq_ok hop h
  cases hright.symm.trans (lookupName_reading name hkey)
  cases hright'
  cases hleft'.symm.trans (typed_list hvs _ _)
  rfl

/-- If a name for collected values of some type is compared with a list of such values, then it is
compared with `NULL`. -/
def LosesLists (name : String) (r : Relation) (d : Query.Expr) (b : Relational.Expr) : Prop :=
  ∀ op comparator x key type es vs, op.comparator? = some comparator → r.key? x = some key →
    key.isList = true → key.type = some type → Query.Expr.values? es = some vs → vs ≠ [] →
    (∀ v ∈ vs, (Literal.ofValueAs type v).isNull = false) →
      (d = .compare op (.var x) (.list es) →
        b = .compare comparator (.column name key.name) (.literal .null)) ∧
      (d = .compare op (.list es) (.var x) →
        b = .compare comparator (.literal .null) (.column name key.name))

theorem losesLists_of_compile {d : Query.Expr} (h : (reading name r).compile d = .ok b) :
    LosesLists name r d b := by
  intro op comparator x key type es vs hop hkey _ htype hvs hne hcoerced
  have hnull : Literal.ofValueFor key.type (.list vs) = .null := by
    rw [htype]
    exact Literal.ofValueAs_list hne hcoerced
  refine ⟨?_, ?_⟩
  · rintro rfl
    rw [compile_name_list hkey hop hvs h, hnull]
  · rintro rfl
    rw [compile_list_name hkey hop hvs h, hnull]

end Scope

/-! ## Both stages -/

namespace Compiler

open Query (Matching Projection WithProjection)
open Relational (Statement)

variable {c : Compiler} {k k' : Nat} {q : Query} {ms : List Matching} {w : WithProjection}
  {p : Projection} {prepared : Prepared}

/-- **A list that is compared with collected values is lost.**  A query in two stages is prepared.
The columns of its temporary table that are marked as lists are collected, and for each comparison in
the condition of the projection in the middle the final statement has one in the same place.  When a
name for collected values of some type is compared there with a list of one or more values, each of
which can be read as this type, then `NULL` is written for the list, on either side and with every
operator. -/
theorem losesLists_of_prepare (hparts : q.staged? = some (ms, w, p))
    (h : (c.prepare q).run.run k = (.ok prepared, k')) :
    ∃ first table, Plan.ofClauses c.schema [] ms w.toProjection = .ok first ∧
      prepared.setup = [.createTemp table first.select] ∧
      (∀ x key, (first.relation table).key? x = some key → key.isList = true →
        ∃ distinct arguments, key.expr = .call Aggregate.collect.sql distinct arguments) ∧
      List.Forall₂ (Scope.LosesLists first.firstName (first.relation table))
        (Query.Expr.comparisonsAll w.condition.toList)
        (Relational.Expr.comparisonsAll prepared.final.select.conditions) := by
  obtain ⟨first, final, hfirst, hfinal, rfl⟩ := (preparesTo_of_prepare h).stages hparts
  refine ⟨first, c.tempAt (k + 1), hfirst, rfl, fun x key hkey => ?_, ?_⟩
  · exact Plan.call_of_isList hfirst key (Scope.mem_of_key? hkey)
  · obtain ⟨projected, compiled, -, hselect⟩ := Plan.selects_reading hfinal
    have hcompares := Scope.comparisonsAll_of_compileAll hselect.compileAll_eq
    rw [hselect.conditions]
    exact List.Forall₂.imp (fun _ _ hd => Scope.losesLists_of_compile hd) hcompares

def personsClause : Matching where
  patterns := [⟨{ name := some "n", labels := ["Person"] }, []⟩]

/-- The projection `collect(n.age) AS ages WHERE NOT (ages = [1, '2']) OR [-3] < ages`. -/
def agesPassing : WithProjection where
  items := [⟨.call "collect" false [.property (.var "n") "age"], some "ages"⟩]
  condition := some (.binary .or
    (.not (.compare .eq (.var "ages") (.list [.integer 1, .text "2"])))
    (.compare .lt (.list [.negate (.integer 3)]) (.var "ages")))

def agesReturning : Projection where
  items := [⟨.var "ages", none⟩]

def agesQuery : Query := [.matching personsClause, .passing agesPassing, .returning agesReturning]

/-- The collected ages are compared with `NULL` from both sides. -/
theorem losesLists_of_prepare_ages :
    agesQuery.staged? = some ([personsClause], agesPassing, agesReturning) ∧
      ∃ prepared k' first table key,
        (peopleCompiler.prepare agesQuery).run.run 0 = (.ok prepared, k') ∧
        Plan.ofClauses peopleCompiler.schema [] [personsClause] agesPassing.toProjection = .ok first ∧
        prepared.setup = [.createTemp table first.select] ∧
        (first.relation table).key? "ages" = some key ∧ key.isList = true ∧ key.type = some .int ∧
        (∃ distinct arguments, key.expr = .call Aggregate.collect.sql distinct arguments) ∧
        prepared.final.select.body =
          "SELECT n.ages FROM with_temp_00000000000000000000000000000001 n " ++
            "WHERE (NOT (n.ages = NULL) OR NULL < n.ages)" ∧
        Relational.Expr.comparisonsAll prepared.final.select.conditions =
          [.compare .eq (.column "n" "ages") (.literal .null),
            .compare .lt (.literal .null) (.column "n" "ages")] := by
  have hfacts : (((peopleCompiler.prepare agesQuery).run.run 0).1.toOption.bind fun prepared =>
      (Plan.ofClauses peopleCompiler.schema [] [personsClause]
        agesPassing.toProjection).toOption.bind fun first =>
          ((first.relation "").key? "ages").map fun key =>
            (key.isList, key.type, first.firstName, key.name, prepared.final.select.body)) =
      some (true, some .int, "n", "ages",
        "SELECT n.ages FROM with_temp_00000000000000000000000000000001 n " ++
          "WHERE (NOT (n.ages = NULL) OR NULL < n.ages)") := by decide +kernel
  obtain ⟨prepared, hprepared, hfacts⟩ := Option.bind_eq_some_iff.mp hfacts
  obtain ⟨first, hfirst, hfacts⟩ := Option.bind_eq_some_iff.mp hfacts
  obtain ⟨key, hkey, hfacts⟩ := Option.map_eq_some_iff.mp hfacts
  simp only [Prod.mk.injEq] at hfacts
  obtain ⟨hlist, htype, hname, hcolumn, hbody⟩ := hfacts
  obtain ⟨k', hrun⟩ := Compile.exists_run_of_toOption hprepared
  have hfirst := Except.eq_ok_of_toOption hfirst
  obtain ⟨first', table, hfirst', hsetup, hcollects, hloses⟩ := losesLists_of_prepare rfl hrun
  cases hfirst.symm.trans hfirst'
  refine ⟨rfl, prepared, k', first, table, key, hrun, hfirst, hsetup, hkey, hlist, htype,
    hcollects "ages" key hkey hlist, hbody, ?_⟩
  obtain ⟨a, rest, hequal, hrest, hcomparisons⟩ := List.forall₂_cons_left_iff.mp hloses
  obtain ⟨b, none, hless, hnone, rfl⟩ := List.forall₂_cons_left_iff.mp hrest
  cases hnone
  have hequal := (hequal .eq .eq "ages" key .int _ _ rfl hkey hlist htype rfl (by decide)
    (by decide +kernel)).1 rfl
  have hless := (hless .lt .lt "ages" key .int _ _ rfl hkey hlist htype rfl (by decide)
    (by decide +kernel)).2 rfl
  rw [hcomparisons, hequal, hless, hname, hcolumn]

/-- A query for the collected names if they are two given ones. -/
def twoNamesText : String :=
  "MATCH (n:Person) WITH collect(n.name) AS names WHERE names = ['a', 'b'] RETURN names"

/-- **Collected names are compared with `NULL`**, although both elements of the list are texts. -/
theorem null_of_twoNames :
    (∃ statements k', (peopleCompiler.compile twoNamesText).run.run 0 = (.ok statements, k') ∧
      statements.map Statement.render =
        ["CREATE TEMP TABLE with_temp_00000000000000000000000000000001 AS " ++
            "SELECT array_agg(n.name) AS names FROM person n;",
          "SELECT n.names FROM with_temp_00000000000000000000000000000001 n " ++
            "WHERE n.names = NULL;"]) ∧
      ["a", "b"].map (fun t => (Literal.ofValueAs .text (.text t)).render) = ["'a'", "'b'"] := by
  have hrun : ((peopleCompiler.compile twoNamesText).run.run 0).1.toOption.map
      (fun statements => statements.map Statement.render) =
        some ["CREATE TEMP TABLE with_temp_00000000000000000000000000000001 AS " ++
            "SELECT array_agg(n.name) AS names FROM person n;",
          "SELECT n.names FROM with_temp_00000000000000000000000000000001 n " ++
            "WHERE n.names = NULL;"] := by
    decide +kernel
  obtain ⟨statements, hstatements, htext⟩ := Option.map_eq_some_iff.mp hrun
  obtain ⟨k', hrun⟩ := Compile.exists_run_of_toOption hstatements
  exact ⟨⟨statements, k', hrun, htext⟩, by decide⟩

end Compiler

end GraphSql
