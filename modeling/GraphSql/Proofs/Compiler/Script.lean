import GraphSql.Proofs.Compiler.Wordy
import GraphSql.Proofs.Schema.Spacing

/-!
# Scripts are cut into their statements

No text of a query can break out of its statement.  Cutting the script of a text at the semicolons
outside of quoted texts and blocks gives back the statements that the text is compiled to, whatever
the quoted texts of the query contain (`Compiler.cutScript_of_compile`).  The names of the schema are
supposed to be identifiers (`Schema.Identifiers`); those of the query are by the grammar.
-/

namespace GraphSql

/-- The labels, types and columns of a schema are identifiers; the labels of a set are separated by a
comma and a blank. -/
structure Schema.Identifiers (s : Schema) : Prop where
  labels : ∀ e ∈ s.labelTables, ∃ names, e.text = Text.join ", " names ∧ ∀ x ∈ names, Identifier x
  types : ∀ e ∈ s.typeTables, Identifier e.name
  labelColumns : ∀ e ∈ s.labelTables, ∀ c ∈ e.columns, Identifier c.name
  typeColumns : ∀ e ∈ s.typeTables, ∀ c ∈ e.columns, Identifier c.name
  nodeColumns : ∀ c ∈ s.nodeColumns, Identifier c.name
  edgeColumns : ∀ c ∈ s.edgeColumns, Identifier c.name

/-! ## Identifiers are words -/

theorem wordy_joinLabels {names : List String} (h : ∀ x ∈ names, Wordy x) :
    ∀ c ∈ Schema.joinLabels (Text.join ", " names).toList, isWordChar c = true := by
  intro c hc
  rw [Schema.joinLabels_join fun x hx hcomma => absurd (h x hx ',' hcomma) (by decide)] at hc
  rcases Text.mem_join hc with hc | ⟨x, hx, hc⟩
  · obtain rfl : c = '_' := List.mem_singleton.mp hc
    decide
  · exact h x hx c hc

theorem Schema.Identifiers.wordyNames {s : Schema} (h : s.Identifiers) : s.WordyNames where
  labels e he := by
    obtain ⟨names, htext, hnames⟩ := h.labels e he
    refine ⟨wordy_lower (wordy_ofList ?_), fun c hc => (h.labelColumns e he c hc).wordy⟩
    rw [htext]
    exact wordy_joinLabels fun x hx => (hnames x hx).wordy
  types e he c hc := (h.typeColumns e he c hc).wordy
  nodes c hc := (h.nodeColumns c hc).wordy
  edges c hc := (h.edgeColumns c hc).wordy

/-! ## Scripts -/

namespace Compiler

open Relational (Statement Whole cutScript)

/-- **Cutting the script of a text gives back its statements.**  Each of them ends in its only
semicolon outside of quoted texts and blocks, and closes all that it opens. -/
theorem cutScript_of_compile {c : Compiler} (hschema : c.schema.Identifiers)
    (hstart : Identifier c.tempStart) (hsuffix : ∀ k, Identifier (c.tempSuffix k))
    {text : String} {k k' : Nat} {statements : List Statement}
    (h : (c.compile text).run.run k = (.ok statements, k')) (hne : statements ≠ []) :
    ∃ script, (c.script text).run.run k = (.ok script, k') ∧
      cutScript script = statements.map Statement.render ∧
      ∀ s ∈ statements, Whole s.render := by
  have hplain := plain_of_compile
    ⟨hschema.wordyNames, hstart.wordy, fun k => (hsuffix k).wordy⟩ h
  refine ⟨Statement.script statements, ?_, Statement.cutScript_script hplain hne,
    fun s hs => Statement.whole_render (hplain s hs)⟩
  exact Compile.run_bind_eq_ok.mpr ⟨statements, k', h, rfl⟩

/-- A table for the labels `Person` and `Admin` together. -/
def adminCompiler : Compiler where
  schema :=
    { labelTables := [⟨"Person, Admin", [⟨"id", .bigint⟩, ⟨"name", .text⟩]⟩]
      typeTables := []
      nodeColumns := Schema.coreNodeColumns
      edgeColumns := Schema.coreEdgeColumns }
  tempStart := "temp"
  tempSuffix := Numeral.natural

/-- A query in three stages whose texts hold quotes, semicolons and dollar signs. -/
def adminText : String :=
  "MATCH (n:Person:Admin) WHERE n.name = 'a;\\'$$' WITH collect(n.id) AS xs WHERE size(xs) > 1 " ++
    "FOREACH (x IN xs | SET x.name = ';$$')"

theorem identifiers_adminCompiler : adminCompiler.schema.Identifiers where
  labels := by
    intro e he
    obtain rfl := List.mem_singleton.mp he
    exact ⟨["Person", "Admin"], by decide, by decide⟩
  types := by decide
  labelColumns := by decide
  typeColumns := by decide
  nodeColumns := by decide
  edgeColumns := by decide

theorem identifier_natural (k : Nat) : Identifier (Numeral.natural k) := by
  intro c hc
  rw [Numeral.natural, String.toList_ofList] at hc
  have hdigit := Nat.isDigit_of_mem_toDigits (by decide) (by decide) hc
  simp [isIdentifierChar, Char.isAlphanum, hdigit]

theorem cutScript_of_compile_adminText :
    ∃ statements k' script,
      (adminCompiler.compile adminText).run.run 0 = (.ok statements, k') ∧ statements.length = 2 ∧
      (adminCompiler.script adminText).run.run 0 = (.ok script, k') ∧
      cutScript script = statements.map Statement.render := by
  have hlength : (match (adminCompiler.compile adminText).run.run 0 with
      | (.ok statements, _) => statements.length
      | (.error _, _) => 0) = 2 := by decide +kernel
  rcases hrun : (adminCompiler.compile adminText).run.run 0 with ⟨e | statements, k'⟩
  · rw [hrun] at hlength
    cases hlength
  · rw [hrun] at hlength
    have hne : statements ≠ [] := by
      rintro rfl
      cases hlength
    obtain ⟨script, hscript, hcut, -⟩ := cutScript_of_compile identifiers_adminCompiler (by decide)
      identifier_natural hrun hne
    exact ⟨statements, k', script, rfl, hlength, hscript, hcut⟩

end Compiler

end GraphSql
