import GraphSql.Compiler.Script
import GraphSql.Proofs.Compiler.PassThrough
import GraphSql.Proofs.Relational.Like
import GraphSql.Proofs.Scope.Grouping

/-!
# Looking for a text in a column

A test whether a column contains a text, starts or ends with it is compiled to a comparison with a
pattern, in which the text stands as it is.  Quotes in the text are no harm, since the text is read
back from its literal (`Relational.Affix.textValue?_operand`).  But its signs are taken for those of a
pattern: the comparison means what the test says for the texts without such signs and for no other
ones (`Scope.forall_likes_iff_of_compile`).
-/

namespace GraphSql

open Relational (Affix likes textValue? isPatternSign)

namespace Scope

variable {s : Scope} {e : Query.Expr} {r : Resolved} {op : Query.Comparison} {affix : Affix}

/-- What has a type is no literal. -/
theorem value?_of_resolve (h : s.resolve e = .ok r) (htype : r.type ≠ none) : e.value? = none := by
  rcases operand_eq_ok h with ⟨x, rfl, -⟩ | ⟨x, key, rfl, -⟩ | ⟨a, -, rfl⟩
  · rfl
  · rfl
  · exact absurd rfl htype

/-- A text that is looked for in a column of texts stands in the condition as it is. -/
theorem compile_textTest (h : s.resolve e = .ok r) (htype : r.type = some .text)
    (hop : op.affix? = some affix) (part : String) :
    s.compile (.compare op e (.text part)) = .ok (.like affix r.expr (.literal (.text part))) := by
  have hvalue : e.value? = none := value?_of_resolve h (by rw [htype]; simp)
  have hleft : s.operand e (s.compile e) = .ok r := h
  have hcompare : op ≠ .isIn := by
    rintro rfl
    cases hop
  have hcomparison : ∀ l r, comparison op l r = .like affix l r := by
    intro l r
    cases op <;> cases hop <;> rfl
  rw [compile]
  · refine Except.bind_eq_ok.mpr ⟨r, hleft, ?_⟩
    refine Except.bind_eq_ok.mpr ⟨{ expr := .literal (.text part) }, rfl, ?_⟩
    refine Except.bind_eq_ok.mpr ⟨r.expr, by rw [typed, hvalue], ?_⟩
    refine Except.bind_eq_ok.mpr ⟨.literal (.text part), by rw [htype]; rfl, ?_⟩
    rw [hcomparison]
    rfl
  · exact fun _ he => absurd he hcompare
  · exact hcompare

/-- **Looking for a text means what it says just when the text has no signs of patterns.**  A test of
a column of texts is compiled to a comparison of the column with a pattern.  It finds the texts that
contain the given one, start or end with it, whatever they are, when no `%`, `_` or backslash is in the
given text; otherwise there is a text on which it goes wrong. -/
theorem forall_likes_iff_of_compile (h : s.resolve e = .ok r) (htype : r.type = some .text)
    (hop : op.affix? = some affix) (part : String) :
    ∃ condition right pattern, s.compile (.compare op e (.text part)) = .ok condition ∧
      condition.render = r.expr.render ++ " LIKE " ++ right ∧ textValue? right = some pattern ∧
      ((∀ t : String, likes t pattern = true ↔ affix.Occurs part.toList t.toList) ↔
        ∀ c ∈ part.toList, isPatternSign c = false) := by
  refine ⟨_, _, _, compile_textTest h htype hop part, Affix.renderLike_eq affix _ _,
    Affix.textValue?_operand affix part, ?_⟩
  have hplain : (∀ t, Relational.fits (affix.pattern part.toList) t = true ↔
      affix.Occurs part.toList t) ↔ Relational.Plain part.toList := Relational.forall_fits_iff_plain
  constructor
  · intro hall
    refine hplain.mp fun t => ?_
    have ht := hall (String.ofList t)
    rw [likes, String.toList_ofList, String.toList_ofList] at ht
    exact ht
  · intro hsigns t
    rw [likes, String.toList_ofList]
    exact hplain.mpr hsigns t.toList

/-- The scope of `MATCH (n:Person)`. -/
def personScope : Scope where
  nodes := [{ name := "n", source := .stored "person" [Schema.idColumn, ⟨"name", .text⟩] ["Person"] }]
  sources := [⟨"person", "n", .cross⟩]

/-- A text with a quote is found in the names that start with it, and in no other ones. -/
theorem forall_likes_iff_of_compile_quote :
    ∃ r condition right pattern,
      personScope.resolve (.property (.var "n") "name") = .ok r ∧ r.type = some .text ∧
      personScope.compile (.compare .startsWith (.property (.var "n") "name") (.text "O'")) =
        .ok condition ∧
      condition.render = "n.name LIKE 'O''' || '%'" ∧
      condition.render = r.expr.render ++ " LIKE " ++ right ∧ textValue? right = some pattern ∧
      ∀ t : String, likes t pattern = true ↔ "O'".toList <+: t.toList := by
  have hfacts : ((personScope.resolve (.property (.var "n") "name")).toOption.bind fun r =>
      (personScope.compile (.compare .startsWith (.property (.var "n") "name")
        (.text "O'"))).toOption.map fun condition => (r.type, condition.render)) =
      some (some .text, "n.name LIKE 'O''' || '%'") := by decide +kernel
  obtain ⟨r, hr, hfacts⟩ := Option.bind_eq_some_iff.mp hfacts
  obtain ⟨condition, hcondition, hfacts⟩ := Option.map_eq_some_iff.mp hfacts
  obtain ⟨htype, hrender⟩ := Prod.mk.inj hfacts
  have hr := Except.eq_ok_of_toOption hr
  have hcondition := Except.eq_ok_of_toOption hcondition
  have hop : Query.Comparison.affix? .startsWith = some .start := rfl
  obtain ⟨condition', right, pattern, hcompile, htext, hvalue, hmeans⟩ :=
    forall_likes_iff_of_compile hr htype hop "O'"
  cases hcondition.symm.trans hcompile
  exact ⟨r, condition, right, pattern, hr, htype, hcondition, hrender, htext, hvalue,
    hmeans.mpr (by decide)⟩

end Scope

namespace Compiler

/-- A query for the persons whose name contains `50%`. -/
def percentText : String := "MATCH (n:Person) WHERE n.name CONTAINS '50%' RETURN n.id"

/-- **A percent sign that is looked for stands for any text**: the condition is true for `500`, which
does not contain `50%`. -/
theorem likes_of_percent :
    ∃ statements k' pattern,
      (peopleCompiler.compile percentText).run.run 0 = (.ok statements, k') ∧
      statements.map Relational.Statement.render =
        ["SELECT n.id FROM person n WHERE n.name LIKE '%' || '50%' || '%';"] ∧
      textValue? "'%' || '50%' || '%'" = some pattern ∧ likes "500" pattern = true ∧
      ¬ "50%".toList <:+: "500".toList := by
  have hrun : ((peopleCompiler.compile percentText).run.run 0).1.toOption.map
      (fun statements => statements.map Relational.Statement.render) =
        some ["SELECT n.id FROM person n WHERE n.name LIKE '%' || '50%' || '%';"] := by
    decide +kernel
  obtain ⟨statements, hstatements, htext⟩ := Option.map_eq_some_iff.mp hrun
  obtain ⟨k', hrun⟩ := Compile.exists_run_of_toOption hstatements
  refine ⟨statements, k', "%50%%", hrun, htext, ?_, ?_, ?_⟩
  · decide
  · decide
  · intro h
    have hlast := h.subset (show '%' ∈ "50%".toList by decide)
    exact absurd hlast (by decide)

end Compiler

end GraphSql
