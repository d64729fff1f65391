import GraphSql.Proofs.Compiler.Retabled

/-!
# The spelling of labels and types

Labels are read as sets and types as names, both without regard to the case of ASCII letters.  Two
queries that differ only in how they spell them are compiled to the same statements, with the same names
of temporary tables; or both are refused, and in the same way (`Compiler.alike_of_respelled`).

Both queries are compiled side by side, for the same schema, so that tables correspond only to
themselves.
-/

namespace GraphSql

open Relational (Statement)

theorem eq_of_forall₂_retabled {as bs : List Statement} (h : List.Forall₂ (Statement.Retabled Eq) as bs) :
    as = bs := by
  rw [← List.forall₂_eq_eq_eq]
  exact h.imp fun _ _ hab => hab.eq fun _ _ hxy => hxy

theorem Prepared.Retabled.statements_eq {p q : Prepared} (h : p.Retabled Eq q) :
    p.statements = q.statements :=
  eq_of_forall₂_retabled h.statements

namespace Compiler

open Compile (Alike)

variable (c : Compiler)

theorem alike_prepare {q r : Query} (h : q.Respelled r) :
    Alike (Prepared.Retabled Eq) (c.prepare q) (c.prepare r) :=
  alike_prepare_retabled (.refl c.schema) h fun _ _ _ => trivial

theorem alike_compileLooping {q r : Query} (h : q.Respelled r) :
    Alike Eq (c.compileLooping q) (c.compileLooping r) :=
  (alike_compileLooping_retabled (.refl c.schema) (.refl c.schema) h fun _ _ _ => trivial).mono
    fun _ _ => eq_of_forall₂_retabled

/-- **Labels are read as sets and types as names, without regard to the case of ASCII letters.**  Two
queries that differ only in how they spell labels and types, compiled with the same names of temporary
tables, have the same statements and take the same names, or they are refused in the same way. -/
theorem alike_of_respelled (c : Compiler) {q r : Query} (h : q.Respelled r) :
    Alike Eq (c.compileQuery q) (c.compileQuery r) := by
  have hplain : Alike Eq (do return (← c.prepare q).statements)
      (do return (← c.prepare r).statements) :=
    (c.alike_prepare h).bind fun _ _ hp => .pure hp.statements_eq
  rw [compileQuery, compileQuery, h.shape_eq]
  cases r.shape with
  | loop => exact c.alike_compileLooping h
  | plain => exact hplain
  | staged => exact hplain

/-- People who can be admins and know each other. -/
def acquaintances : Compiler where
  schema := Schema.ofEntries [⟨"Person, Admin", [Schema.idColumn, ⟨"name", .text⟩]⟩]
    [⟨"KNOWS", [⟨"since", .int⟩]⟩] none none

/-- The query `MATCH (a)-[e]->(b) FOREACH (x IN [7] | CREATE (a)-[f {since: x}]->(b))` with the given
labels of `a` and types of `e` and `f`. -/
def meeting (labels : List String) (found made : String) : Query :=
  [.matching { patterns := [⟨{ name := some "a", labels },
      [⟨{ name := some "e", types := [found], direction := .outgoing }, { name := some "b" }⟩]⟩] },
    .looping ⟨"x", .list [.integer 7], [.create ⟨{ name := some "a" },
      [⟨{ types := [made], direction := .outgoing, properties := some [("since", .var "x")] },
        { name := some "b" }⟩]⟩]⟩]

theorem alike_of_respelled_meeting :
    (meeting ["Person", "Admin"] "KNOWS" "KNOWS").Respelled
        (meeting ["ADMIN", "person", "Admin"] "knows" "Knows") ∧
      ((acquaintances.compileQuery (meeting ["Person", "Admin"] "KNOWS" "KNOWS")).run.run
        0).1.toOption.map List.length = some 2 ∧
      Alike Eq (acquaintances.compileQuery (meeting ["Person", "Admin"] "KNOWS" "KNOWS"))
        (acquaintances.compileQuery (meeting ["ADMIN", "person", "Admin"] "knows" "Knows")) := by
  have hspelled : (meeting ["Person", "Admin"] "KNOWS" "KNOWS").Respelled
      (meeting ["ADMIN", "person", "Admin"] "knows" "Knows") := by
    refine .cons (.matching ⟨.cons ⟨⟨rfl, by decide, rfl⟩, .cons ⟨⟨rfl, ?_, rfl, rfl⟩,
      ⟨rfl, .refl _, rfl⟩⟩ .nil⟩ .nil, rfl⟩) (.cons (.looping ⟨rfl, rfl, ?_⟩) .nil)
    · exact .cons (by decide) .nil
    · refine .cons (.create ⟨⟨rfl, .refl _, rfl⟩, .cons ⟨⟨rfl, ?_, rfl, rfl⟩, ⟨rfl, .refl _, rfl⟩⟩
        .nil⟩) .nil
      exact .cons (by decide) .nil
  exact ⟨hspelled, by decide +kernel, alike_of_respelled acquaintances hspelled⟩

end Compiler

end GraphSql
