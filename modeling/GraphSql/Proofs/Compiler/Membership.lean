import GraphSql.Proofs.Compiler.TextTests
import GraphSql.Proofs.Relational.Members
import GraphSql.Proofs.Scope.Operands

/-!
# Membership in a list of literals

A test whether a column is in a list of literals is compiled to a list of constants.  Each element is
read as the type of the column wants it, just as in an equality of the column with it, and so the test
is true when one of the equalities is (`Scope.members_of_compile`).  Only the empty list is no list in
the statement: nothing can be read between its brackets.
-/

namespace GraphSql

open Relational (Datum Literal constant? members?)

/-- The value that a column of numbers or texts takes a value for. -/
def ColumnType.datum? (t : ColumnType) (v : Value) : Option Datum :=
  match v, t with
  | _, .textArray => none
  | .null, _ => some .null
  | v, .text => v.toText?.map .text
  | v, _ => v.toInteger?.map .integer

namespace Query.Expr

/-- The value that a column takes a literal for. -/
def datumFor? (t : ColumnType) (x : Query.Expr) : Option Datum := x.value?.bind t.datum?

/-- What is written for a literal next to a column. -/
def literalFor (t : ColumnType) (x : Query.Expr) : Literal := .ofValueAs t (x.value?.getD .null)

end Query.Expr

theorem datum?_getD {α : Type} {o : Option α} {f : α → Literal} {g : α → Datum} {d : Datum}
    (hf : ∀ a, (f a).datum? = some (g a)) (h : o.map g = some d) :
    ((o.map f).getD .null).datum? = some d := by
  obtain ⟨a, rfl, rfl⟩ := Option.map_eq_some_iff.mp h
  exact hf a

/-- A literal for a column has the value that the column takes it for. -/
theorem datum?_ofValueAs {t : ColumnType} {v : Value} {d : Datum} (h : t.datum? v = some d) :
    (Literal.ofValueAs t v).datum? = some d := by
  unfold ColumnType.datum? at h
  split at h
  · cases h
  · exact h
  · rw [Literal.ofValueAs]
    · exact datum?_getD (fun _ => rfl) h
    · assumption
  · cases t with
    | text => contradiction
    | textArray => contradiction
    | int =>
      rw [Literal.ofValueAs]
      · exact datum?_getD (fun _ => rfl) h
      · assumption
    | bigint =>
      rw [Literal.ofValueAs]
      · exact datum?_getD (fun _ => rfl) h
      · assumption

namespace Scope

open Relational (Expr)

variable {s : Scope} {e x : Query.Expr} {es : List Query.Expr} {r : Resolved} {t : ColumnType}
  {d : Datum}

theorem operand_of_value? {v : Value} (h : x.value? = some v)
    (compiled : Except Error Expr) :
    s.operand x compiled = compiled.map fun expr => { expr } := by
  cases x with
  | var name => cases h
  | property of key => cases h
  | _ => rfl

theorem datum?_literalFor (h : x.datumFor? t = some d) : (x.literalFor t).datum? = some d := by
  obtain ⟨v, hv, hd⟩ := Option.bind_eq_some_iff.mp h
  rw [Query.Expr.literalFor, hv]
  exact datum?_ofValueAs hd

theorem typed_of_datumFor? (h : (x.datumFor? t).isSome = true)
    (other : Except Error Expr) :
    typed x (some t) other = .ok (.literal (x.literalFor t)) := by
  obtain ⟨d, hd⟩ := Option.isSome_iff_exists.mp h
  obtain ⟨v, hv, -⟩ := Option.bind_eq_some_iff.mp hd
  rw [typed, Query.Expr.literalFor, hv]
  rfl

theorem compileTyped_of_datumFor? (h : ∀ x ∈ es, (x.datumFor? t).isSome = true) :
    s.compileTyped (some t) es = .ok ((es.map (·.literalFor t)).map .literal) ∧
      List.Forall₂ (fun l d => l.datum? = some d) (es.map (·.literalFor t))
        (es.filterMap (·.datumFor? t)) := by
  induction es with
  | nil => exact ⟨rfl, .nil⟩
  | cons x es ih =>
    have hx := h x List.mem_cons_self
    obtain ⟨hes, hliterals⟩ := ih fun y hy => h y (List.mem_cons_of_mem x hy)
    obtain ⟨d, hd⟩ := Option.isSome_iff_exists.mp hx
    refine ⟨?_, ?_⟩
    · rw [compileTyped, typed_of_datumFor? hx, hes]
      rfl
    · rw [List.filterMap_cons_some hd]
      exact .cons (datum?_literalFor hd) hliterals

/-- An equality of a column with a literal. -/
theorem compile_eq_of_datumFor? (h : s.resolve e = .ok r) (htype : r.type = some t)
    (hx : (x.datumFor? t).isSome = true) :
    s.compile (.compare .eq e x) = .ok (.compare .eq r.expr (.literal (x.literalFor t))) := by
  have hvalue : e.value? = none := value?_of_resolve h (by rw [htype]; simp)
  obtain ⟨d, hd⟩ := Option.isSome_iff_exists.mp hx
  obtain ⟨v, hv, -⟩ := Option.bind_eq_some_iff.mp hd
  obtain ⟨a, ha⟩ : s.CanCompile x := canCompile_of_value? hv
  rw [compile]
  · refine Except.bind_eq_ok.mpr ⟨r, h, ?_⟩
    refine Except.bind_eq_ok.mpr ⟨{ expr := a }, by rw [ha, operand_of_value? hv]; rfl, ?_⟩
    refine Except.bind_eq_ok.mpr ⟨r.expr, by rw [typed, hvalue], ?_⟩
    refine Except.bind_eq_ok.mpr ⟨.literal (x.literalFor t), ?_, rfl⟩
    rw [htype]
    exact typed_of_datumFor? hx _
  · exact fun _ hop => absurd hop (by decide)
  · decide

theorem renderAll_map_literal (ls : List Literal) :
    Expr.renderAll (ls.map .literal) = ls.map Literal.render := by
  induction ls with
  | nil => rfl
  | cons l ls ih => rw [List.map_cons, Expr.renderAll, ih]; rfl

theorem render_eq (a b : Expr) :
    (Expr.compare .eq a b).render = a.render ++ " = " ++ b.render := by
  simp only [Expr.render, String.append_assoc]
  rfl

/-- An equality with a literal compares with the value that the column takes it for. -/
theorem equal_iff_of_compile_eq (h : s.resolve e = .ok r) (htype : r.type = some t)
    (hd : x.datumFor? t = some d) (v : Datum) :
    v.equal d = .truth true ↔
      ∃ equality right d', s.compile (.compare .eq e x) = .ok equality ∧
        equality.render = r.expr.render ++ " = " ++ right ∧ constant? right = some d' ∧
        v.equal d' = .truth true := by
  have hcompile := compile_eq_of_datumFor? h htype (Option.isSome_of_mem hd)
  have hvalue : constant? (x.literalFor t).render = some d :=
    Relational.constant?_render (datum?_literalFor hd)
  constructor
  · intro hequal
    exact ⟨_, _, d, hcompile, render_eq r.expr (.literal (x.literalFor t)), hvalue, hequal⟩
  · rintro ⟨equality, right, d', heq, hrender, hright, hequal⟩
    cases hcompile.symm.trans heq
    rw [render_eq] at hrender
    obtain rfl : (x.literalFor t).render = right := (String.append_right_inj _).mp hrender
    cases hvalue.symm.trans hright
    exact hequal

/-- **A test for a list of literals is true when an equality with one of them is.**  For a column of
texts or numbers and literals that it can take, the test is compiled to a list of the values that the
column takes them for, and it is true for a value of the column just when the equality of the column
with one of the literals is.  The only exception is the empty list, whose text cannot be read. -/
theorem members_of_compile (h : s.resolve e = .ok r) (htype : r.type = some t)
    (hes : ∀ x ∈ es, (x.datumFor? t).isSome = true) :
    ∃ condition list, s.compile (.compare .isIn e (.list es)) = .ok condition ∧
      condition.render = r.expr.render ++ list ∧
      members? list = (if es.isEmpty then none else some (es.filterMap (·.datumFor? t))) ∧
      ∀ v : Datum, v.isIn (es.filterMap (·.datumFor? t)) = .truth true ↔
        ∃ x ∈ es, ∃ equality right d, s.compile (.compare .eq e x) = .ok equality ∧
          equality.render = r.expr.render ++ " = " ++ right ∧ constant? right = some d ∧
          v.equal d = .truth true := by
  obtain ⟨hcompile, hliterals⟩ := compileTyped_of_datumFor? (s := s) hes
  refine ⟨.inList r.expr ((es.map (·.literalFor t)).map .literal),
    " IN (" ++ Text.join ", " ((es.map (·.literalFor t)).map Literal.render) ++ ")",
    ?_, ?_, ?_, fun v => ?_⟩
  · rw [compile]
    refine Except.bind_eq_ok.mpr ⟨r, h, ?_⟩
    exact Except.bind_eq_ok.mpr ⟨_, by rw [htype]; exact hcompile, rfl⟩
  · rw [Expr.render, renderAll_map_literal]
    simp only [String.append_assoc]
  · rw [Relational.members?_join hliterals, List.isEmpty_map]
  · rw [Datum.isIn_eq_true]
    constructor
    · rintro ⟨d, hd, hequal⟩
      obtain ⟨x, hx, hd⟩ := List.mem_filterMap.mp hd
      exact ⟨x, hx, (equal_iff_of_compile_eq h htype hd v).mp hequal⟩
    · rintro ⟨x, hx, hequality⟩
      obtain ⟨d, hd⟩ := Option.isSome_iff_exists.mp (hes x hx)
      exact ⟨d, List.mem_filterMap.mpr ⟨x, hx, hd⟩,
        (equal_iff_of_compile_eq h htype hd v).mpr hequality⟩

/-- A text with a comma and a quote, a number below zero and null. -/
def mixedElements : List Query.Expr := [.text "O', x", .negate (.integer 3), .null]

/-- A list for a column of texts, in which the number is a text as well. -/
theorem members_of_compile_mixed :
    ∃ r condition list,
      personScope.resolve (.property (.var "n") "name") = .ok r ∧ r.type = some .text ∧
      personScope.compile (.compare .isIn (.property (.var "n") "name") (.list mixedElements)) =
        .ok condition ∧
      condition.render = "n.name IN ('O'', x', '-3', NULL)" ∧
      condition.render = r.expr.render ++ list ∧
      members? list = some [.text "O', x", .text "-3", .null] ∧
      ∀ v : Datum, v.isIn [.text "O', x", .text "-3", .null] = .truth true ↔
        ∃ x ∈ mixedElements, ∃ equality right d,
          personScope.compile (.compare .eq (.property (.var "n") "name") x) = .ok equality ∧
          equality.render = r.expr.render ++ " = " ++ right ∧ constant? right = some d ∧
          v.equal d = .truth true := by
  have hfacts : ((personScope.resolve (.property (.var "n") "name")).toOption.bind fun r =>
      (personScope.compile (.compare .isIn (.property (.var "n") "name")
        (.list mixedElements))).toOption.map fun condition => (r.type, condition.render)) =
      some (some .text, "n.name IN ('O'', x', '-3', NULL)") := by decide +kernel
  obtain ⟨r, hr, hfacts⟩ := Option.bind_eq_some_iff.mp hfacts
  obtain ⟨condition, hcondition, hfacts⟩ := Option.map_eq_some_iff.mp hfacts
  obtain ⟨htype, hrender⟩ := Prod.mk.inj hfacts
  have hr := Except.eq_ok_of_toOption hr
  have hcondition := Except.eq_ok_of_toOption hcondition
  have hes : ∀ x ∈ mixedElements, (x.datumFor? .text).isSome = true := by decide +kernel
  obtain ⟨condition', list, hcompile, htext, hmembers, hmeans⟩ := members_of_compile hr htype hes
  cases hcondition.symm.trans hcompile
  exact ⟨r, condition, list, hr, htype, hcondition, hrender, htext, hmembers, hmeans⟩

end Scope

namespace Compiler

/-- A query for the persons whose name is in the empty list. -/
def nowhereText : String := "MATCH (n:Person) WHERE n.name IN [] RETURN n.id"

/-- **The empty list is written as brackets with nothing between them**, which is no list. -/
theorem members_of_nowhere :
    ∃ statements k', (peopleCompiler.compile nowhereText).run.run 0 = (.ok statements, k') ∧
      statements.map Relational.Statement.render =
        ["SELECT n.id FROM person n WHERE n.name IN ();"] ∧
      members? " IN ()" = none := by
  have hrun : ((peopleCompiler.compile nowhereText).run.run 0).1.toOption.map
      (fun statements => statements.map Relational.Statement.render) =
        some ["SELECT n.id FROM person n WHERE n.name IN ();"] := by
    decide +kernel
  obtain ⟨statements, hstatements, htext⟩ := Option.map_eq_some_iff.mp hrun
  obtain ⟨k', hrun⟩ := Compile.exists_run_of_toOption hstatements
  exact ⟨statements, k', hrun, htext, by decide⟩

end Compiler

end GraphSql
