import GraphSql.Proofs.Compiler.PassThrough
import GraphSql.Proofs.Compiler.Refusals

/-!
# Match clauses that are split

Where a match clause ends is of no account.  The patterns of several clauses can stand in one, and one
clause can be cut into several, as long as the patterns keep their order and the condition stays with one
of the pieces.  The plan is the same, or the error is (`Compiler.ofQuery_of_cuts`), and with it everything
that is compiled from it, in two stages and in loops, too.

A query is read one clause at a time, and each clause finds the variables, sources and conditions that
those before it have left (`Plan.clauseByClause`).  The run lemma `Scope.foldlM_addMatching` says that
this comes to the patterns of all clauses one after the other.
-/

namespace GraphSql

open Query (Matching Projection WithProjection Loop)
open Relational (Statement)

/-! ## Clauses one at a time -/

namespace Scope

variable (schema : Schema)

/-- Reads one more match clause: its patterns go to the scope, and its condition behind those of the
clauses before. -/
def addMatching (state : Scope × List Query.Expr) (m : Matching) :
    Except Error (Scope × List Query.Expr) := do
  return (← addPatterns schema state.1 m.patterns, state.2 ++ m.condition.toList)

theorem addPatterns_append (s : Scope) (ps qs : List Query.Pattern) :
    addPatterns schema s (ps ++ qs) =
      addPatterns schema s ps >>= fun t => addPatterns schema t qs :=
  List.foldlM_append

/-- **Match clauses one after the other are their patterns one after the other.** -/
theorem foldlM_addMatching (ms : List Matching) (s : Scope) (conditions : List Query.Expr) :
    ms.foldlM (addMatching schema) (s, conditions) =
      (addPatterns schema s (ms.flatMap Matching.patterns)).map fun t =>
        (t, conditions ++ ms.filterMap Matching.condition) := by
  induction ms generalizing s conditions with
  | nil =>
    rw [List.filterMap_nil, List.append_nil]
    rfl
  | cons m ms ih =>
    rw [List.foldlM_cons, List.flatMap_cons, addPatterns_append, addMatching]
    cases addPatterns schema s m.patterns with
    | error e => rfl
    | ok t =>
      show ms.foldlM (addMatching schema) (t, conditions ++ m.condition.toList) =
        (addPatterns schema t (ms.flatMap Matching.patterns)).map _
      rw [ih, List.append_assoc, List.filterMap_cons]
      cases m.condition with
      | none => rfl
      | some e => rfl

end Scope

namespace Plan

/-- The plan of match clauses that are read one at a time, and of a projection. -/
def clauseByClause (schema : Schema) (relations : List (String × Relation)) (ms : List Matching)
    (p : Projection) : Except Error Plan := do
  let (s, conditions) ← ms.foldlM (Scope.addMatching schema) ({ relations }, [])
  let (projection, select) ← selectOver s conditions p
  return { nodes := s.nodes, edges := s.edges, predicate := conjunction conditions, projection,
           select }

theorem ofClauses_eq_clauseByClause (schema : Schema) (relations : List (String × Relation))
    (ms : List Matching) (p : Projection) :
    ofClauses schema relations ms p = clauseByClause schema relations ms p := by
  rw [ofClauses, clauseByClause, Scope.foldlM_addMatching]
  cases Scope.addPatterns schema { relations } (ms.flatMap Matching.patterns) with
  | error e => rfl
  | ok s => rfl

end Plan

/-! ## Other clauses with the same patterns -/

namespace Query

/-- Two lists of match clauses with the same patterns and conditions, which need not be in the same
clauses. -/
structure Recut (ms ns : List Matching) : Prop where
  patterns : ms.flatMap Matching.patterns = ns.flatMap Matching.patterns
  conditions : ms.filterMap Matching.condition = ns.filterMap Matching.condition

/-- One or more match clauses into which a single one is cut: its patterns are theirs in order, and its
condition, if there is one, is that of one of them. -/
structure Cuts (m : Matching) (ms : List Matching) : Prop where
  ne_nil : ms ≠ []
  patterns : ms.flatMap Matching.patterns = m.patterns
  condition : ms.filterMap Matching.condition = m.condition.toList

theorem Cuts.recut {m : Matching} {ms : List Matching} (h : Cuts m ms) : Recut ms [m] where
  patterns := by rw [h.patterns, List.flatMap_singleton]
  conditions := by
    rw [h.condition, List.filterMap_cons]
    cases m.condition with
    | none => rfl
    | some e => rfl

variable {ms ns : List Matching}

theorem Recut.append (h : Recut ms ns) (ks : List Matching) : Recut (ms ++ ks) (ns ++ ks) where
  patterns := by rw [List.flatMap_append, List.flatMap_append, h.patterns]
  conditions := by rw [List.filterMap_append, List.filterMap_append, h.conditions]

theorem Recut.nodeNames_eq (h : Recut ms ns) : nodeNames ms = nodeNames ns := by
  have hflat : ∀ ks : List Matching, (ks.flatMap fun m => m.patterns.flatMap Pattern.nodeNames) =
      (ks.flatMap Matching.patterns).flatMap Pattern.nodeNames := fun _ => List.flatMap_assoc.symm
  rw [nodeNames, nodeNames, hflat, hflat, h.patterns]

/-! ## Parts of a query -/

theorem shape_matchings (ms : List Matching) (rest : Query) :
    shape (ms.map .matching ++ rest) = shape rest := by
  have hlooping : (ms.map Clause.matching).any Clause.isLooping = false := by
    simp [Clause.isLooping]
  have hpassing : (ms.map Clause.matching).any Clause.isPassing = false := by
    simp [Clause.isPassing]
  rw [shape, shape, List.any_append, List.any_append, hlooping, hpassing, Bool.false_or,
    Bool.false_or]

/-- Match clauses at the front can be taken off when there are none at the end. -/
theorem exists_matchings {rest last : Query} (hlast : ∀ m, Clause.matching m ∉ last)
    (h : ms.map .matching ++ rest = ns.map .matching ++ last) :
    ∃ ks : List Matching, rest = ks.map .matching ++ last := by
  induction ms generalizing ns with
  | nil => exact ⟨ns, h⟩
  | cons m ms ih =>
    cases ns with
    | nil =>
      have hmem : Clause.matching m ∉ last := hlast m
      rw [← (show _ = last from h)] at hmem
      exact absurd List.mem_cons_self hmem
    | cons n ns => exact ih (List.cons.inj h).2

/-- Queries that are taken apart into match clauses and something else behind them: when two queries end
in the same clauses, then either both have no such parts, or the parts differ only in the match clauses in
front. -/
theorem parts_matchings {α : Type} {parts? : Query → Option (List Matching × α)} (last : α → Query)
    (hparts : ∀ q is a, parts? q = some (is, a) → q = is.map .matching ++ last a)
    (happend : ∀ is a, is ≠ [] → parts? (is.map .matching ++ last a) = some (is, a))
    (hlast : ∀ a m, Clause.matching m ∉ last a) (hms : ms ≠ []) (hns : ns ≠ []) (rest : Query) :
    (∃ ks a, parts? (ms.map .matching ++ rest) = some (ms ++ ks, a) ∧
        parts? (ns.map .matching ++ rest) = some (ns ++ ks, a)) ∨
      parts? (ms.map .matching ++ rest) = none ∧ parts? (ns.map .matching ++ rest) = none := by
  by_cases hrest : ∃ (ks : List Matching) (a : α), rest = ks.map .matching ++ last a
  · obtain ⟨ks, a, rfl⟩ := hrest
    refine .inl ⟨ks, a, ?_, ?_⟩
    · rw [← List.append_assoc, ← List.map_append]
      exact happend (ms ++ ks) a (List.append_ne_nil_of_left_ne_nil hms ks)
    · rw [← List.append_assoc, ← List.map_append]
      exact happend (ns ++ ks) a (List.append_ne_nil_of_left_ne_nil hns ks)
  · have hnone : ∀ is : List Matching, parts? (is.map .matching ++ rest) = none := by
      intro is
      rw [Option.eq_none_iff_forall_ne_some]
      rintro ⟨js, a⟩ hq
      obtain ⟨ks, hks⟩ := exists_matchings (hlast a) (hparts _ js a hq)
      exact hrest ⟨ks, a, hks⟩
    exact .inr ⟨hnone ms, hnone ns⟩

theorem beforeLoop?_of_matching {q : Query} {m : Matching} (h : q.getLast? = some (.matching m)) :
    beforeLoop? q = if nodeNames (q.filterMap Clause.matching?) = [] then none
      else some (q ++ [.returning (.ofNames (nodeNames (q.filterMap Clause.matching?)))]) := by
  rw [beforeLoop?, h]
  dsimp only
  split
  · rename_i hnames
    rw [if_pos hnames]
  · rename_i hnames
    rw [if_neg hnames]

theorem filterMap_matchings (ms : List Matching) (rest : Query) :
    (ms.map Clause.matching ++ rest).filterMap Clause.matching? =
      ms ++ rest.filterMap Clause.matching? := by
  rw [List.filterMap_append, List.filterMap_map]
  show ms.filterMap some ++ _ = _
  rw [List.filterMap_some]

/-- A last clause that is no match clause decides by itself what the query before a loop ends in. -/
theorem exists_beforeLoop? {last : Clause} (hlast : ¬∃ m, last = .matching m) (front : Query) :
    ∃ b, ∀ q : Query, beforeLoop? (q ++ (front ++ [last])) = some (q ++ b) := by
  cases last with
  | matching m => exact absurd ⟨m, rfl⟩ hlast
  | passing w =>
    by_cases hkept : (w.condition.isNone && w.orderBy.isEmpty) = true
    · refine ⟨front ++ [.returning w.toProjection], fun q => ?_⟩
      rw [← List.append_assoc, ← List.append_assoc, beforeLoop?, List.getLast?_concat,
        List.dropLast_concat]
      exact if_pos hkept
    · refine ⟨front ++ [.passing w] ++
        [.returning (.ofNames (w.items.filterMap ReturnItem.name?))], fun q => ?_⟩
      rw [← List.append_assoc, ← List.append_assoc, ← List.append_assoc, beforeLoop?,
        List.getLast?_concat]
      exact if_neg hkept
  | returning p =>
    refine ⟨front ++ [.returning p], fun q => ?_⟩
    rw [← List.append_assoc, beforeLoop?, List.getLast?_concat]
  | looping l =>
    refine ⟨front ++ [.looping l], fun q => ?_⟩
    rw [← List.append_assoc, beforeLoop?, List.getLast?_concat]

/-- The query before a loop keeps the match clauses in front. -/
theorem Recut.beforeLoop?_eq (h : Recut ms ns) (hms : ms ≠ []) (hns : ns ≠ []) (rest : Query) :
    ∃ o : Option Query,
      beforeLoop? (ms.map .matching ++ rest) = o.map (ms.map .matching ++ ·) ∧
        beforeLoop? (ns.map .matching ++ rest) = o.map (ns.map .matching ++ ·) := by
  -- after a match clause the node variables of all match clauses count, in front of `rest` and in it
  have hnames := (h.append (rest.filterMap Clause.matching?)).nodeNames_eq
  have hmatching : ∀ m n,
      (ms.map Clause.matching ++ rest).getLast? = some (.matching m) →
      (ns.map Clause.matching ++ rest).getLast? = some (.matching n) →
      ∃ o : Option Query,
        beforeLoop? (ms.map .matching ++ rest) = o.map (ms.map .matching ++ ·) ∧
          beforeLoop? (ns.map .matching ++ rest) = o.map (ns.map .matching ++ ·) := by
    intro m n hm hn
    rw [beforeLoop?_of_matching hm, beforeLoop?_of_matching hn, filterMap_matchings,
      filterMap_matchings, hnames]
    by_cases hnil : nodeNames (ns ++ rest.filterMap Clause.matching?) = []
    · exact ⟨none, if_pos hnil, if_pos hnil⟩
    · rw [if_neg hnil, if_neg hnil, List.append_assoc, List.append_assoc]
      exact ⟨some _, rfl, rfl⟩
  rcases List.eq_nil_or_concat' rest with rfl | ⟨front, last, rfl⟩
  · obtain ⟨is, i, rfl⟩ := (List.eq_nil_or_concat' ms).resolve_left hms
    obtain ⟨js, j, rfl⟩ := (List.eq_nil_or_concat' ns).resolve_left hns
    exact hmatching i j (by simp) (by simp)
  · by_cases hlast : ∃ m, last = .matching m
    · obtain ⟨m, rfl⟩ := hlast
      exact hmatching m m (by simp) (by simp)
    · obtain ⟨b, hb⟩ := exists_beforeLoop? hlast front
      exact ⟨some b, hb _, hb _⟩

end Query

/-! ## Plans and statements -/

open Query (Recut Cuts)

variable {ms ns : List Matching}

theorem Plan.ofClauses_of_recut (h : Recut ms ns) (schema : Schema)
    (relations : List (String × Relation)) (p : Projection) :
    ofClauses schema relations ms p = ofClauses schema relations ns p := by
  rw [ofClauses, ofClauses, h.patterns, h.conditions]

namespace Compiler

variable (c : Compiler)

theorem prepareStages_of_recut (h : Recut ms ns) (w : WithProjection) (p : Projection) :
    c.prepareStages ms w p = c.prepareStages ns w p := by
  rw [prepareStages, prepareStages, plan, plan, Plan.ofClauses_of_recut h]

theorem prepare_of_recut (h : Recut ms ns) (hms : ms ≠ []) (hns : ns ≠ []) (rest : Query) :
    c.prepare (ms.map .matching ++ rest) = c.prepare (ns.map .matching ++ rest) := by
  rw [prepare, prepare, Query.shape_matchings, Query.shape_matchings]
  cases Query.shape rest with
  | loop => rfl
  | plain =>
    rcases Query.parts_matchings (fun p => [.returning p]) (fun _ _ _ => Query.plain?_eq_some)
      (fun _ _ => Query.plain?_append) (by simp) hms hns rest with ⟨ks, p, hm, hn⟩ | ⟨hm, hn⟩
    · rw [hm, hn]
      show (c.plan [] (ms ++ ks) p >>= _) = (c.plan [] (ns ++ ks) p >>= _)
      rw [plan, plan, Plan.ofClauses_of_recut (h.append ks)]
    · rw [hm, hn]
  | staged =>
    show c.prepareStaged _ = c.prepareStaged _
    rcases Query.parts_matchings (fun a : WithProjection × Projection =>
      [.passing a.1, .returning a.2])
      (fun _ _ _ => Query.staged?_eq_some) (fun _ _ => Query.staged?_append) (by simp) hms hns rest
      with ⟨ks, ⟨w, p⟩, hm, hn⟩ | ⟨hm, hn⟩
    · rw [prepareStaged, prepareStaged, hm, hn]
      exact c.prepareStages_of_recut (h.append ks) w p
    · rw [prepareStaged, prepareStaged, hm, hn]

theorem compileLooping_of_recut (h : Recut ms ns) (hms : ms ≠ []) (hns : ns ≠ []) (rest : Query) :
    c.compileLooping (ms.map .matching ++ rest) = c.compileLooping (ns.map .matching ++ rest) := by
  rcases List.eq_nil_or_concat' rest with rfl | ⟨front, last, rfl⟩
  · obtain ⟨is, i, rfl⟩ := (List.eq_nil_or_concat' ms).resolve_left hms
    obtain ⟨js, j, rfl⟩ := (List.eq_nil_or_concat' ns).resolve_left hns
    simp only [compileLooping, List.append_nil, List.map_append, List.map_singleton,
      List.getLast?_concat]
  · rw [← List.append_assoc, ← List.append_assoc, compileLooping, compileLooping,
      List.getLast?_concat, List.getLast?_concat, List.dropLast_concat, List.dropLast_concat]
    cases last with
    | matching m => rfl
    | passing w => rfl
    | returning p => rfl
    | looping l =>
      have hany : ∀ is : List Matching,
          (is.map Query.Clause.matching ++ front).any Query.Clause.isLooping =
            front.any Query.Clause.isLooping := by
        intro is
        simp [Query.Clause.isLooping]
      have hnonempty : ∀ is : List Matching, is ≠ [] →
          (is.map Query.Clause.matching ++ front).isEmpty = false := by
        intro is his
        simp [his]
      obtain ⟨o, hm, hn⟩ := h.beforeLoop?_eq hms hns front
      simp only [hany, hnonempty ms hms, hnonempty ns hns, hm, hn]
      cases o with
      | none => rfl
      | some b => simp only [Option.map_some, c.prepare_of_recut h hms hns b]

theorem compileQuery_of_recut (h : Recut ms ns) (hms : ms ≠ []) (hns : ns ≠ []) (rest : Query) :
    c.compileQuery (ms.map .matching ++ rest) = c.compileQuery (ns.map .matching ++ rest) := by
  rw [compileQuery, compileQuery, Query.shape_matchings, Query.shape_matchings]
  cases Query.shape rest with
  | loop => exact c.compileLooping_of_recut h hms hns rest
  | plain => rw [c.prepare_of_recut h hms hns rest]
  | staged => rw [c.prepare_of_recut h hms hns rest]

/-- **Splitting a match clause changes nothing.**  When a clause is cut into several, a query that goes on
with a projection has the same plan or fails with the same error; it is what comes of reading the pieces
one at a time.  In every other query, too, the pieces can take the place of the clause. -/
theorem ofQuery_of_cuts (schema : Schema) (relations : List (String × Relation)) {m : Matching}
    {ms : List Matching} (h : Cuts m ms) (p : Projection) :
    Plan.ofQuery schema relations (ms.map .matching ++ [.returning p]) =
        Plan.ofQuery schema relations [.matching m, .returning p] ∧
      Plan.ofQuery schema relations [.matching m, .returning p] =
        (Plan.clauseByClause schema relations ms p).map some ∧
      ∀ (c : Compiler) (rest : Query),
        c.compileQuery (ms.map .matching ++ rest) = c.compileQuery (.matching m :: rest) := by
  have hcut := h.recut
  have hwhole : Plan.ofQuery schema relations [.matching m, .returning p] =
      (Plan.clauseByClause schema relations ms p).map some := by
    rw [← Plan.ofClauses_eq_clauseByClause, Plan.ofClauses_of_recut hcut]
    rfl
  refine ⟨?_, hwhole, fun c rest => ?_⟩
  · rw [hwhole, Plan.ofQuery, Query.plain?_append h.ne_nil, ← Plan.ofClauses_eq_clauseByClause]
  · exact c.compileQuery_of_recut hcut h.ne_nil (List.cons_ne_nil m []) rest

/-- The clause `MATCH (a:Person)-->(b), (b)<--(), (c:Person) WHERE c.age > 3`. -/
def meetingsClause : Matching where
  patterns := [
    ⟨{ name := some "a", labels := ["Person"] }, [⟨{ direction := .outgoing }, { name := some "b" }⟩]⟩,
    ⟨{ name := some "b" }, [⟨{ direction := .incoming }, {}⟩]⟩,
    ⟨{ name := some "c", labels := ["Person"] }, []⟩]
  condition := some (.compare .gt (.property (.var "c") "age") (.integer 3))

/-- Three clauses for the three patterns, with the condition behind the first one, where `c` is not
known yet. -/
def meetingsPieces : List Matching :=
  [⟨meetingsClause.patterns.take 1, meetingsClause.condition⟩,
    ⟨(meetingsClause.patterns.drop 1).take 1, none⟩, ⟨meetingsClause.patterns.drop 2, none⟩]

def meetingsProjection : Projection where
  items := [⟨.property (.var "b") "id", none⟩]

/-- The loop `FOREACH (x IN [1] | SET a.age = x)`. -/
def agingLoop : Loop := ⟨"x", .list [.integer 1], [.set [⟨"a", "age", .var "x"⟩]]⟩

theorem ofQuery_of_cuts_meetings :
    Cuts meetingsClause meetingsPieces ∧
      (∃ plan, Plan.ofQuery peopleCompiler.schema []
          (meetingsPieces.map .matching ++ [.returning meetingsProjection]) = .ok (some plan) ∧
        Plan.ofQuery peopleCompiler.schema []
          [.matching meetingsClause, .returning meetingsProjection] = .ok (some plan) ∧
        plan.select.body =
          "SELECT b.id FROM person a JOIN edges _e0 ON _e0.idl = a.id " ++
            "JOIN nodes b ON b.id = _e0.idr JOIN edges _e1 ON _e1.idr = b.id " ++
            "JOIN nodes _n2 ON _n2.id = _e1.idl CROSS JOIN person c WHERE c.age > 3") ∧
      peopleCompiler.compileQuery (meetingsPieces.map .matching ++ [.looping agingLoop]) =
        peopleCompiler.compileQuery [.matching meetingsClause, .looping agingLoop] := by
  have hcuts : Cuts meetingsClause meetingsPieces := ⟨List.cons_ne_nil _ _, rfl, rfl⟩
  have hplan : (Plan.ofQuery peopleCompiler.schema []
      [.matching meetingsClause, .returning meetingsProjection]).toOption.bind (fun o =>
        o.map fun plan => plan.select.body) =
      some ("SELECT b.id FROM person a JOIN edges _e0 ON _e0.idl = a.id " ++
        "JOIN nodes b ON b.id = _e0.idr JOIN edges _e1 ON _e1.idr = b.id " ++
        "JOIN nodes _n2 ON _n2.id = _e1.idl CROSS JOIN person c WHERE c.age > 3") := by
    decide +kernel
  obtain ⟨o, ho, hplan⟩ := Option.bind_eq_some_iff.mp hplan
  obtain ⟨plan, rfl, hbody⟩ := Option.map_eq_some_iff.mp hplan
  have hwhole := Except.eq_ok_of_toOption ho
  obtain ⟨hpieces, -, hcompile⟩ :=
    ofQuery_of_cuts peopleCompiler.schema [] hcuts meetingsProjection
  exact ⟨hcuts, ⟨plan, hpieces.trans hwhole, hwhole, hbody⟩,
    hcompile peopleCompiler [.looping agingLoop]⟩

end Compiler

end GraphSql
