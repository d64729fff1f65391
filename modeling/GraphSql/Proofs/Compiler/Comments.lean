import GraphSql.Proofs.Compiler.Script
import GraphSql.Proofs.Scope.Signs
import GraphSql.Proofs.Script.Comments

/-!
# Statements and comments

Whatever the texts of a query contain, they cannot comment out a part of its statements.  No
statement opens a comment with a slash and a star, and none opens one with two minus signs when the
minus signs of the query stand apart (`Compiler.not_opensComment_of_compile`).  A minus sign right
before another one does open a comment.
-/

namespace GraphSql

open Query (Clause Loop)
open Relational (CommentOpener OpensComment Statement)

namespace Compiler

variable {c : Compiler}

theorem keeps_signsApart :
    c.Keeps (fun _ => True) Query.Expr.SignsApart (fun p => p.select.SignsApart) where
  first hms hp h := Plan.signsApart_ofClauses hms hp h
  second {before _ _ condition _} _ _ hcondition hp h := by
    have hreading : Query.Matching.Holds (fun _ => True) Query.Expr.SignsApart
        (.reading before.firstName condition) := by
      refine ⟨fun q hq => ?_, hcondition⟩
      obtain rfl := List.mem_singleton.mp hq
      exact ⟨⟨by simp, by simp, by simp⟩, by simp⟩
    exact Plan.signsApart_ofClauses (by simpa using hreading) hp h

theorem signsApart_of_emits {L : Loop → Prop} {s : Statement}
    (h : c.Emits (fun p => p.select.SignsApart) L s) : s.SignsApart := by
  cases h with
  | select hplan => exact hplan
  | createTemp _ hplan => exact hplan
  | write => exact trivial
  | block hplan => exact hplan

/-- The minus signs of statements stand apart when those of the query do. -/
theorem CompilesTo.signsApart {q : Query} {k k' : Nat} {statements : List Statement}
    (h : c.CompilesTo k q statements k') (hsigns : q.all Clause.signsApart = true) :
    ∀ s ∈ statements, s.SignsApart := by
  have hclauses : ∀ x ∈ q, x.isLooping = false → x.Holds (fun _ => True) Query.Expr.SignsApart :=
    fun x hx hloop =>
      x.holds_of_signsApart (fun _ => trivial) (List.all_eq_true.mp hsigns x hx) hloop
  have hvar : ∀ x, (Query.Expr.var x).SignsApart ↔ True := fun _ => iff_true_intro rfl
  intro s hs
  exact signsApart_of_emits (L := fun _ => True)
    (h.emits keeps_signsApart hvar hclauses (fun _ _ => trivial) s hs)

/-- **Statements open no comments.**  Outside of quoted texts, no statement of a text has a slash
before a star, and none has two minus signs in a row when no minus sign of the query stands before
another one. -/
theorem not_opensComment_of_compile {c : Compiler} (hschema : c.schema.Identifiers)
    (hstart : Identifier c.tempStart) (hsuffix : ∀ k, Identifier (c.tempSuffix k))
    {text : String} {k k' : Nat} {statements : List Statement}
    (h : (c.compile text).run.run k = (.ok statements, k')) :
    ∃ q, Query.parse text = .ok q ∧
      (∀ s ∈ statements, ¬ OpensComment .block s.render) ∧
      (q.all Clause.signsApart = true → ∀ s ∈ statements, ¬ OpensComment .line s.render) := by
  have hplain := plain_of_compile
    ⟨hschema.wordyNames, hstart.wordy, fun k => (hsuffix k).wordy⟩ h
  obtain ⟨q, hq, hcompiles⟩ := compilesTo_of_compile h
  refine ⟨q, hq, fun s hs => ?_, fun hq s hs => ?_⟩
  · exact s.not_opensComment_render (hplain s hs) (by simp)
  · exact s.not_opensComment_render (hplain s hs) fun _ => hcompiles.signsApart hq s hs

/-- A query in three stages with minus signs, and a text that holds both openers. -/
def dashText : String :=
  "MATCH (n:Person:Admin) WHERE -n.id < 3 - -2 WITH collect(n.id) AS xs WHERE size(xs) > -1 " ++
    "FOREACH (x IN xs | SET x.name = '/*--')"

theorem not_opensComment_of_compile_dashText :
    ∃ statements k', (adminCompiler.compile dashText).run.run 0 = (.ok statements, k') ∧
      statements.length = 2 ∧
      ∀ s ∈ statements, ¬ OpensComment .block s.render ∧ ¬ OpensComment .line s.render := by
  obtain ⟨hlength, hapart⟩ :
      ((adminCompiler.compile dashText).run.run 0).1.toOption.map List.length = some 2 ∧
        (Query.parse dashText).toOption.any (fun q => q.all Clause.signsApart) = true := by
    decide +kernel
  rcases hrun : (adminCompiler.compile dashText).run.run 0 with ⟨e | statements, k'⟩
  · rw [hrun] at hlength
    cases hlength
  · rw [hrun] at hlength
    obtain ⟨q, hq, hblock, hline⟩ := not_opensComment_of_compile identifiers_adminCompiler
      (by decide) identifier_natural hrun
    rw [hq] at hapart
    exact ⟨statements, k', rfl, Option.some.inj hlength,
      fun s hs => ⟨hblock s hs, hline hapart s hs⟩⟩

/-- A minus sign before a minus sign comments out the rest of its statement. -/
theorem opensComment_of_double_minus :
    adminCompiler.schema.Identifiers ∧
      ∃ s k', (adminCompiler.compile "MATCH (n) RETURN - -n.id").run.run 0 = (.ok [s], k') ∧
        s.render = "SELECT --n.id AS expr0 FROM nodes n;" ∧ OpensComment .line s.render := by
  refine ⟨identifiers_adminCompiler, ?_⟩
  have hrender : ((adminCompiler.compile "MATCH (n) RETURN - -n.id").run.run 0).1.toOption.map
      (List.map Statement.render) = some ["SELECT --n.id AS expr0 FROM nodes n;"] := by
    decide +kernel
  rcases hrun : (adminCompiler.compile "MATCH (n) RETURN - -n.id").run.run 0 with
    ⟨e | statements, k'⟩
  · rw [hrun] at hrender
    cases hrender
  · rw [hrun] at hrender
    obtain ⟨s, rfl, htext⟩ := List.map_eq_singleton_iff.mp (Option.some.inj hrender)
    refine ⟨s, k', rfl, htext, ?_⟩
    rw [htext]
    exact ⟨"SELECT ".toList, "n.id AS expr0 FROM nodes n;".toList, by decide, by decide⟩

end Compiler

end GraphSql
