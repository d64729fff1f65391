import GraphSql.Proofs.Compiler.Script
import GraphSql.Proofs.Scope.Outline
import GraphSql.Proofs.Script.Mask

/-!
# Texts do not influence the statement around them

Two queries of match clauses and a projection that differ only in the contents of their texts have
plans of the same shape, or have none for the same reason.  Their statements become equal when every
quoted text is masked (`Plan.masked_ofClauses`), so no text can reach beyond its quotes.

The one exception is a text next to a column of integers, which is written as a number if it can be
read as one; it is excluded by `Plan.textsFit`.  Names stand in the statement as they are, so those of
the schema have to be identifiers and those of the query words, which the grammar sees to.
-/

namespace GraphSql

open Query (Matching Projection aliasedPatterns)
open Relational (masked)

/-- The expressions of match clauses and a projection.  A property of a pattern counts as a
comparison. -/
def Query.clauseExprs (ms : List Matching) (p : Projection) : List Query.Expr :=
  (aliasedPatterns 0 (ms.flatMap Matching.patterns)).1.flatMap Query.AliasedPattern.tests ++
    ms.filterMap Matching.condition ++ p.items.map Query.ReturnItem.expr ++
    p.orderBy.map Query.SortKey.expr ++ p.skip.toList ++ p.limit.toList

namespace Plan

/-- What is known about the types of operands from the variables of a plan. -/
def operandType (plan : Plan) : Query.Expr → Option ColumnType :=
  Scope.operandType { nodes := plan.nodes, edges := plan.edges }

/-- Whether no text of the clauses stands next to a column of integers. -/
def textsFit (plan : Plan) (ms : List Matching) (p : Projection) : Bool :=
  (Query.clauseExprs ms p).all (Query.Expr.textsFit plan.operandType)

/-- Two plans with the same variables over the same tables, the same sources and the same output
columns; conditions and the expressions of the columns may differ. -/
structure SameShape (plan plan' : Plan) : Prop where
  nodes : plan.nodes.map BoundNode.outline = plan'.nodes.map BoundNode.outline
  edges : plan.edges.map BoundEdge.outline = plan'.edges.map BoundEdge.outline
  projection : plan.projection.map ResultColumn.outline = plan'.projection.map ResultColumn.outline
  sources : plan.select.sources = plan'.select.sources

theorem SameShape.join {plan₁ plan₂ plan : Plan} (h₁ : plan₁.SameShape plan)
    (h₂ : plan₂.SameShape plan) : plan₁.SameShape plan₂ where
  nodes := h₁.nodes.trans h₂.nodes.symm
  edges := h₁.edges.trans h₂.edges.symm
  projection := h₁.projection.trans h₂.projection.symm
  sources := h₁.sources.trans h₂.sources.symm

/-! ## Clauses and the same clauses without texts -/

variable {s t : Scope} {P : Prop}

theorem agree_selectOver (h : s.SameNames t) (hsources : s.sources = t.sources)
    (hconditions : P → s.conditions.map Relational.Expr.blank =
      t.conditions.map Relational.Expr.blank) (conditions : List Query.Expr) (p : Projection)
    (hfit : P → ∀ e ∈ conditions ++ p.items.map Query.ReturnItem.expr ++
      p.orderBy.map Query.SortKey.expr ++ p.skip.toList ++ p.limit.toList,
        Query.Expr.textsFit s.operandType e = true) :
    Except.Agree (fun r r' => r.1.map ResultColumn.outline = r'.1.map ResultColumn.outline ∧
        r.2.sources = r'.2.sources ∧ (P → r.2.blank = r'.2.blank))
      (selectOver s conditions p) (selectOver t (conditions.map Query.Expr.blank) p.blank) := by
  simp only [List.mem_append, or_imp, forall_and, List.forall_mem_map, Option.mem_toList] at hfit
  obtain ⟨⟨⟨⟨hconditionsFit, hitemsFit⟩, horderFit⟩, hskipFit⟩, hlimitFit⟩ := hfit
  refine (h.project hitemsFit).bind fun projected projected' hprojected => ?_
  refine (h.compileList hconditionsFit).bind fun cs ds hcs => ?_
  refine (h.sortKeys hprojected.columns horderFit).bind fun is js hij => ?_
  refine (h.compileOption hskipFit).bind fun offset offset' hoffset => ?_
  refine (h.compileOption hlimitFit).bind fun limit limit' hlimit => ?_
  refine .ok ⟨map_eq_of_forall₂ hprojected.columns fun _ _ hc => hc.outline, hsources, fun hP => ?_⟩
  have haggregates : (p.blank.items.any fun i => i.expr.aggregates) =
      p.items.any fun i => i.expr.aggregates := by
    rw [Projection.blank, List.any_map]
    exact congrArg p.items.any (funext fun i => i.expr.aggregates_blank)
  have hgroup : (if p.items.any fun i => i.expr.aggregates then projected.keys else []).map
      Relational.Expr.blank = (if p.blank.items.any fun i => i.expr.aggregates then
        projected'.keys else []).map Relational.Expr.blank := by
    rw [haggregates]
    split
    · exact hprojected.keys hP
    · rfl
  simp only [Relational.Select.blank, hprojected.items hP, List.map_append, hconditions hP, hcs hP,
    hgroup, hij hP, hoffset hP, hlimit hP, hsources]
  rfl

/-- **Clauses and the same clauses with their texts emptied** have plans of the same shape, and their
statements are equal but for their texts. -/
theorem agree_blank (schema : Schema) (ms : List Matching) (p : Projection) :
    Except.Agree (fun plan plan' => plan.SameShape plan' ∧
        (plan.textsFit ms p = true → plan.select.blank = plan'.select.blank))
      (ofClauses schema [] ms p) (ofClauses schema [] (ms.map Matching.blank) p.blank) := by
  unfold ofClauses
  rw [Query.patterns_blank, Query.conditions_blank]
  refine (Scope.agree_addPatterns (ms.flatMap Matching.patterns) rfl).with_results.bind ?_
  rintro s t ⟨houtline, hs, ht⟩
  have hnodes : s.nodes.map BoundNode.outline = t.nodes.map BoundNode.outline :=
    (congrArg Scope.nodes houtline :)
  have hedges : s.edges.map BoundEdge.outline = t.edges.map BoundEdge.outline :=
    (congrArg Scope.edges houtline :)
  have hsources : s.sources = t.sources := (congrArg Scope.sources houtline :)
  let P : Prop := ∀ e ∈ Query.clauseExprs ms p, Query.Expr.textsFit s.operandType e = true
  have hconditions : P → s.conditions.map Relational.Expr.blank =
      t.conditions.map Relational.Expr.blank := by
    intro hfit
    refine Scope.blank_conditions hs ht houtline fun q hq e he => hfit e ?_
    simp only [Query.clauseExprs, List.append_assoc]
    exact List.mem_append_left _ (List.mem_flatMap.mpr ⟨q, hq, he⟩)
  have hselect := agree_selectOver (Scope.sameNames_of_outline houtline) hsources hconditions
    (ms.filterMap Matching.condition) p fun hfit e he => hfit e (by
      simp only [Query.clauseExprs, List.append_assoc] at he ⊢
      exact List.mem_append_right _ he)
  refine hselect.bind ?_
  rintro ⟨columns, select⟩ ⟨columns', select'⟩ ⟨hcolumns, hsame, hblank⟩
  -- what the plan knows about types is what the scope knew
  exact .ok ⟨⟨hnodes, hedges, hcolumns, hsame⟩, fun hfit => hblank (List.all_eq_true.mp hfit)⟩

/-- **The contents of texts do not influence the statement around them.**  Two fillings of the texts of
a query both have no plan, with the same error, or both have one, of the same shape.  If no text stands
next to a column of integers, the statements are equal when their quoted texts are masked. -/
theorem masked_ofClauses {schema : Schema} {ms ms' : List Matching} {p p' : Projection}
    (hschema : schema.Identifiers) (hms : ∀ m ∈ ms, m.Named Wordy) (hp : p.Named Wordy)
    (hclauses : ms.map Matching.blank = ms'.map Matching.blank) (hprojection : p.blank = p'.blank) :
    Except.Agree (fun plan plan' => plan.SameShape plan' ∧
        (plan.textsFit ms p = true → plan'.textsFit ms' p' = true →
          masked plan.select.render = masked plan'.select.render))
      (ofClauses schema [] ms p) (ofClauses schema [] ms' p') := by
  have hfirst := agree_blank schema ms p
  have hsecond := agree_blank schema ms' p'
  rw [← hclauses, ← hprojection] at hsecond
  refine (hfirst.join hsecond).with_results.mono ?_
  rintro plan plan' ⟨⟨blank, ⟨hshape, hselect⟩, hshape', hselect'⟩, hplan, -⟩
  refine ⟨hshape.join hshape', fun hfit hfit' => ?_⟩
  have hwordy := wordyNames_ofClauses hschema.wordyNames (by simp) hms hp hplan
  exact Relational.Select.masked_render hwordy.select ((hselect hfit).trans (hselect' hfit').symm)

/-- The clause `MATCH (n:Person:Admin {name: x})-[r]->(m) WHERE n.name IN [x, y] AND m.id > 3`. -/
def adminClauses (x y : String) : List Matching :=
  [⟨[⟨{ name := some "n", labels := ["Person", "Admin"], properties := some [("name", .text x)] },
      [⟨{ name := some "r", direction := .outgoing }, { name := some "m" }⟩]⟩],
    some (.binary .and (.compare .isIn (.property (.var "n") "name") (.list [.text x, .text y]))
      (.compare .gt (.property (.var "m") "id") (.integer 3)))⟩]

/-- The clause `RETURN coalesce(n.name, x) AS who, count(m) ORDER BY n.name STARTS WITH x`. -/
def adminProjection (x : String) : Projection where
  items := [⟨.call "coalesce" false [.property (.var "n") "name", .text x], some "who"⟩,
    ⟨.call "count" false [.var "m"], none⟩]
  orderBy := [⟨.compare .startsWith (.property (.var "n") "name") (.text x), .ascending⟩]

theorem named_adminClauses (x y : String) : ∀ m ∈ adminClauses x y, m.Named Wordy := by
  have hn : Wordy "n" := by decide
  have hm : Wordy "m" := by decide
  have hname : Wordy "name" := by decide
  intro clause hclause
  obtain rfl := List.mem_singleton.mp hclause
  constructor
  · intro p hp
    obtain rfl := List.mem_singleton.mp hp
    refine ⟨⟨?_, ?_, ?_⟩, ?_⟩
    · rintro _ ⟨⟩
      exact hn
    · change ∀ l ∈ ["Person", "Admin"], Wordy l
      decide
    · rintro _ ⟨⟩
      exact ⟨hname, trivial, trivial⟩
    · intro h hh
      obtain rfl := List.mem_singleton.mp hh
      exact ⟨⟨by decide, nofun, nofun⟩, by decide, nofun, nofun⟩
  · rintro e ⟨⟩
    exact ⟨⟨⟨hn, hname⟩, trivial, trivial, trivial⟩, ⟨hm, by decide⟩, trivial⟩

theorem named_adminProjection (x : String) : (adminProjection x).Named Wordy where
  items i hi := by
    have hn : Wordy "n" := by decide
    have hm : Wordy "m" := by decide
    simp only [adminProjection, List.mem_cons, List.not_mem_nil, or_false] at hi
    rcases hi with rfl | rfl
    · refine ⟨⟨by decide, ⟨hn, by decide⟩, trivial, trivial⟩, ?_⟩
      rintro _ ⟨⟩
      decide
    · exact ⟨⟨by decide, hm, trivial⟩, nofun⟩
  orderBy k hk := by
    have hn : Wordy "n" := by decide
    obtain rfl := List.mem_singleton.mp hk
    exact ⟨⟨hn, by decide⟩, trivial⟩
  skip := nofun
  limit := nofun

/-- The plan of the clauses above. -/
def adminPlan (x y z : String) : Except Error Plan :=
  ofClauses Compiler.adminCompiler.schema [] (adminClauses x y) (adminProjection z)

/-- The second filling has texts that try to end their quotes. -/
theorem masked_ofClauses_admin :
    ∃ plan plan', Compiler.adminCompiler.schema.Identifiers ∧ adminPlan "Ann" "Bo" "A" = .ok plan ∧
      adminPlan "' OR '1' = '1" "?" "';" = .ok plan' ∧
      plan.textsFit (adminClauses "Ann" "Bo") (adminProjection "A") = true ∧
      plan'.textsFit (adminClauses "' OR '1' = '1" "?") (adminProjection "';") = true ∧
      plan'.select.body = "SELECT COALESCE(n.name, ''';') AS who, COUNT(m.id) AS count " ++
        "FROM person_admin n JOIN edges r ON r.idl = n.id JOIN nodes m ON m.id = r.idr " ++
        "WHERE n.name = ''' OR ''1'' = ''1' AND (n.name IN (''' OR ''1'' = ''1', '?') AND m.id > 3) " ++
        "GROUP BY COALESCE(n.name, ''';') ORDER BY n.name LIKE ''';' || '%' ASC" ∧
      plan.SameShape plan' ∧ masked plan.select.render = masked plan'.select.render := by
  have hfacts : (adminPlan "Ann" "Bo" "A").toOption.map (fun plan =>
      plan.textsFit (adminClauses "Ann" "Bo") (adminProjection "A")) = some true := by
    decide +kernel
  have hfacts' : (adminPlan "' OR '1' = '1" "?" "';").toOption.map (fun plan =>
      (plan.textsFit (adminClauses "' OR '1' = '1" "?") (adminProjection "';"), plan.select.body)) =
      some (true, "SELECT COALESCE(n.name, ''';') AS who, COUNT(m.id) AS count " ++
        "FROM person_admin n JOIN edges r ON r.idl = n.id JOIN nodes m ON m.id = r.idr " ++
        "WHERE n.name = ''' OR ''1'' = ''1' AND (n.name IN (''' OR ''1'' = ''1', '?') AND m.id > 3) " ++
        "GROUP BY COALESCE(n.name, ''';') ORDER BY n.name LIKE ''';' || '%' ASC") := by
    decide +kernel
  obtain ⟨plan, hplan, hfit⟩ := Option.map_eq_some_iff.mp hfacts
  obtain ⟨plan', hplan', hfacts'⟩ := Option.map_eq_some_iff.mp hfacts'
  obtain ⟨hfit', hbody⟩ := Prod.mk.inj hfacts'
  have hplan := Except.eq_ok_of_toOption hplan
  have hplan' := Except.eq_ok_of_toOption hplan'
  have hagree : Except.Agree _ (adminPlan "Ann" "Bo" "A") (adminPlan "' OR '1' = '1" "?" "';") :=
    masked_ofClauses Compiler.identifiers_adminCompiler (named_adminClauses "Ann" "Bo")
      (named_adminProjection "A") rfl rfl
  rw [hplan, hplan'] at hagree
  cases hagree with
  | ok h =>
    exact ⟨plan, plan', Compiler.identifiers_adminCompiler, hplan, hplan', hfit, hfit', hbody, h.1,
      h.2 hfit hfit'⟩

end Plan

end GraphSql
