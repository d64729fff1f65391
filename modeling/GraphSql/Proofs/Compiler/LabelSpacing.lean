import GraphSql.Proofs.Compiler.Retabled
import GraphSql.Proofs.Schema.Spacing

/-!
# Blanks around the commas of labels, and statements

What can the blanks around the commas of labels change in the statements of a query?  The names of the
tables of these labels, wherever they stand, and nothing else (`Compiler.alike_of_respaced`).  For a loop
this asks that the same columns are found under both names of a table, as they are where the names of
tables identify tables.
-/

namespace GraphSql

open Except (Related)
open Relational (Statement)

namespace Schema

variable {T : String → String → Prop} {P : List String → Prop} {s t : Schema}

/-- Schemas that differ only in blanks map labels to tables that correspond, if `T` says so of the tables
of the labels in question. -/
theorem Respaced.retabled (h : s.Respaced t) (hnodes : T nodesTable nodesTable)
    (hedges : T edgesTable edgesTable)
    (hT : ∀ ls, P ls → ∀ e f, s.labelTable (.names ls) = .ok e → t.labelTable (.names ls) = .ok f →
      T e.table f.table) : s.Retabled T P t := by
  refine ⟨fun ls hls => ?_, h.types, h.nodes, h.edges, hnodes, hedges⟩
  have hmapped := hT ls hls
  have hrelated := h.related_labelTable (.names ls)
  generalize s.labelTable (.names ls) = x at hmapped hrelated ⊢
  generalize t.labelTable (.names ls) = y at hmapped hrelated ⊢
  cases hrelated with
  | ok hef => exact .ok ⟨hmapped _ _ rfl rfl, hef.columns⟩
  | error he => exact .error (congrArg Error.kind he)

theorem Respaced.columnsRetabled (h : s.Respaced t) (hcolumns : s.SameColumns t)
    (hT : ∀ x y, T x y → s.SameTable t x y) : s.ColumnsRetabled T t := by
  refine ⟨fun x y hxy => ?_, fun x y hxy => ?_⟩
  · rw [h.columnsOfTable_eq hcolumns (hT x y hxy)]
    exact .refl .refl (fun _ => rfl) _
  · cases hT x y hxy with
    | nodes => exact Iff.rfl
    | edges => exact Iff.rfl
    | @labels l e f he hf =>
      have hrelated := h.related_labelTable l
      rw [he, hf] at hrelated
      cases hrelated with
      | ok hef => exact hef.table_eq_edgesTable_iff

end Schema

namespace Compiler

open Compile (Alike)

/-- **Blanks around the commas of labels change the names of tables and nothing else.**  The same labels
are mapped, to tables with the same columns.  The name of a table is the labels in small letters, joined by
underscores, just when the labels are written with a space after each comma and no other blank, and
otherwise it is no identifier.  So statements are the same up to the names of these tables, and they are
the same for labels with tables of the same name. -/
theorem alike_of_respaced {d d' : Schema.Declaration} (h : d.Respaced d') {s : Schema}
    (hs : Schema.build d = .ok s) :
    ∃ t, Schema.build d' = .ok t ∧ s.Respaced t ∧
      (∀ l, Option.Rel Schema.LabelTable.Respaced (s.labelTable? l) (t.labelTable? l)) ∧
      s.NamedBySpacing ∧ t.NamedBySpacing ∧
      ∀ (c : Compiler) (text : String),
        (∀ q, parse text = .ok q → q.shape = .loop → s.SameColumns t) →
        Alike (List.Forall₂ (Statement.Retabled (s.SameTable t))) ((c.withSchema s).compile text)
            ((c.withSchema t).compile text) ∧
          ((∀ q, parse text = .ok q → q.LabelsIn (s.SameName t)) →
            Alike Eq ((c.withSchema s).compile text) ((c.withSchema t).compile text)) := by
  obtain ⟨t, ht, hst⟩ : ∃ t, Schema.build d' = .ok t ∧ s.Respaced t := by
    have hbuilt := Schema.related_build h
    rw [hs] at hbuilt
    generalize Schema.build d' = y at hbuilt ⊢
    cases hbuilt with
    | ok hst => exact ⟨_, rfl, hst⟩
  have hnamed : ∀ u : Schema, u.NamedBySpacing := fun _ _ _ _ _ hnames => hnames.table_iff
  refine ⟨t, ht, hst, hst.rel_labelTable?, hnamed s, hnamed t,
    fun c text hloop => ⟨?_, fun hnames => ?_⟩⟩
  · have hschema : s.Retabled (s.SameTable t) (fun _ => True) t :=
      hst.retabled .nodes .edges fun _ _ _ _ he hf => .labels he hf
    exact alike_compile_retabled (c := c.withSchema s) hschema fun q hq =>
      ⟨fun _ _ _ => trivial, fun hshape => hst.columnsRetabled (hloop q hq hshape) fun _ _ hxy => hxy⟩
  · have hschema : s.Retabled (fun x y => s.SameTable t x y ∧ x = y) (s.SameName t) t :=
      hst.retabled ⟨.nodes, rfl⟩ ⟨.edges, rfl⟩ fun _ hls e f he hf => ⟨.labels he hf, hls e f he hf⟩
    refine (alike_compile_retabled (c := c.withSchema s) hschema fun q hq =>
      ⟨hnames q hq, fun hshape => hst.columnsRetabled (hloop q hq hshape) fun _ _ hxy => hxy.1⟩).mono
        fun as bs has => ?_
    rw [← List.forall₂_eq_eq_eq]
    exact has.imp fun _ _ hab => hab.eq fun _ _ hxy => hxy.2

/-- A label, and this label with another one. -/
def teamDeclaration (text : String) : Schema.Declaration where
  labels := [("Person", .text "name TEXT"), (text, .text "level INT")]

def teamCompiler (text : String) : Compiler where
  schema := .ofEntries
    [⟨"Person", [Schema.idColumn, ⟨"name", .text⟩]⟩, ⟨text, [Schema.idColumn, ⟨"level", .int⟩]⟩] [] none none

/-- A loop over persons with both labels. -/
def levelsText : String :=
  "MATCH (n:Person:Admin) WITH collect(n.id) AS ids FOREACH (x IN ids | SET x.level = 1)"

/-- A query about persons. -/
def namesText : String := "MATCH (n:Person) RETURN n.name"

theorem spaced_personAdmin (before after : List Char) (hbefore : ∀ c ∈ before, Text.isBlank c = true)
    (hafter : ∀ c ∈ after, Text.isBlank c = true) {text : String}
    (htext : text.toList = "Person".toList ++ (before ++ ',' :: (after ++ "Admin".toList))) :
    Schema.Spaced ["Person", "Admin"] text := by
  have hlabels : ∀ x ∈ ["Person", "Admin"], x ≠ "" ∧ Identifier x := by decide
  have hfacts : ∀ x ∈ ["Person", "Admin"], ',' ∉ x.toList ∧ Text.Trimmed x.toList :=
    fun x hx => Schema.identifier_facts (hlabels x hx).2
  have hperson := hfacts "Person" (by decide)
  have hadmin := hfacts "Admin" (by decide)
  refine ⟨hlabels, ?_⟩
  rw [htext]
  exact .cons hperson.1 hperson.2 hbefore hafter (.single hadmin.1 hadmin.2)

theorem respaced_team {text text' : String} (h : Schema.Spaced ["Person", "Admin"] text)
    (h' : Schema.Spaced ["Person", "Admin"] text') :
    (teamDeclaration text).Respaced (teamDeclaration text') :=
  ⟨.cons ⟨.inl rfl, rfl⟩ (.cons ⟨.inr ⟨_, h, h'⟩, rfl⟩ .nil), rfl, rfl, rfl⟩

theorem tablesIdentified_team : ∀ text ∈ ["Person ,Admin", "Person, Admin"],
    (teamCompiler text).schema.TablesIdentified := by
  have hfacts : ∀ text ∈ ["Person ,Admin", "Person, Admin"],
      (teamCompiler text).schema.tableNames.Nodup ∧ ∀ e ∈ (teamCompiler text).schema.labelTables,
        ((teamCompiler text).schema.columnsOfTable e.table).toOption = some e.columns := by decide +kernel
  intro text htext
  refine ⟨(hfacts text htext).1, fun l e he => Except.eq_ok_of_toOption ?_⟩
  exact (hfacts text htext).2 e (Schema.mem_of_labelTable he)

theorem labelsIn_namesText {q : Query} (h : parse namesText = .ok q) :
    q.LabelsIn ((teamCompiler "Person ,Admin").schema.SameName (teamCompiler "Person, Admin").schema) := by
  have hfacts : (parse namesText).toOption.map Query.labels = some [["Person"]] ∧
      ∀ text ∈ ["Person ,Admin", "Person, Admin"],
        ((teamCompiler text).schema.labelTable (.names ["Person"])).toOption.map
          Schema.LabelTable.table = some "person" := by decide +kernel
  have htable : ∀ text ∈ ["Person ,Admin", "Person, Admin"], ∀ e,
      (teamCompiler text).schema.labelTable (.names ["Person"]) = .ok e → e.table = "person" := by
    intro text htext e he
    have hnamed := hfacts.2 text htext
    rw [he] at hnamed
    exact Option.some.inj hnamed
  have hlabels := hfacts.1
  rw [h] at hlabels
  intro ls hls _ e f he hf
  rw [Option.some.inj hlabels] at hls
  obtain rfl := List.mem_singleton.mp hls
  exact (htable _ (by decide) e he).trans (htable _ (by decide) f hf).symm

theorem alike_of_respaced_team :
    (teamDeclaration "Person ,Admin").Respaced (teamDeclaration "Person, Admin") ∧
      Schema.build (teamDeclaration "Person ,Admin") = .ok (teamCompiler "Person ,Admin").schema ∧
      (teamCompiler "Person ,Admin").schema.SameColumns (teamCompiler "Person, Admin").schema ∧
      Alike (List.Forall₂ (Statement.Retabled ((teamCompiler "Person ,Admin").schema.SameTable
          (teamCompiler "Person, Admin").schema)))
        ((teamCompiler "Person ,Admin").compile levelsText)
        ((teamCompiler "Person, Admin").compile levelsText) ∧
      (∃ statement k', ((teamCompiler "Person ,Admin").compile levelsText).run.run 0 =
        (.ok [statement], k')) ∧
      (∀ q, parse namesText = .ok q → q.LabelsIn ((teamCompiler "Person ,Admin").schema.SameName
        (teamCompiler "Person, Admin").schema)) ∧
      Alike Eq ((teamCompiler "Person ,Admin").compile namesText)
        ((teamCompiler "Person, Admin").compile namesText) := by
  have hbuild : ∀ text ∈ ["Person ,Admin", "Person, Admin"],
      Schema.build (teamDeclaration text) = .ok (teamCompiler text).schema := by decide +kernel
  have hrespaced : (teamDeclaration "Person ,Admin").Respaced (teamDeclaration "Person, Admin") :=
    respaced_team (spaced_personAdmin [' '] [] (by decide) (by decide) (by decide))
      (spaced_personAdmin [] [' '] (by decide) (by decide) (by decide))
  obtain ⟨t, ht, hst, -, -, -, halike⟩ := alike_of_respaced hrespaced (hbuild _ (by decide))
  obtain rfl := Except.ok.inj ((hbuild _ (by decide)).symm.trans ht)
  have hcolumns := hst.sameColumns (tablesIdentified_team _ (by decide)) (tablesIdentified_team _ (by decide))
  have hone : (((teamCompiler "Person ,Admin").compile levelsText).run.run 0).1.toOption.map
      List.length = some 1 := by decide +kernel
  obtain ⟨statements, hstatements, hlength⟩ := Option.map_eq_some_iff.mp hone
  obtain ⟨statement, rfl⟩ := List.length_eq_one_iff.mp hlength
  obtain ⟨k', hrun⟩ := Compile.exists_run_of_toOption hstatements
  refine ⟨hrespaced, hbuild _ (by decide), hcolumns, ?_, ⟨statement, k', hrun⟩,
    fun q => labelsIn_namesText, ?_⟩
  · exact (halike (teamCompiler "Person ,Admin") levelsText fun _ _ _ => hcolumns).1
  · exact (halike (teamCompiler "Person ,Admin") namesText fun _ _ _ => hcolumns).2 fun q =>
      labelsIn_namesText

/-- A query about persons with both labels. -/
def levelText : String := "MATCH (n:Person:Admin) RETURN n.level"

/-- **A comma goes into the statement** where no space follows it in the labels, and the query has other
statements than for labels with a space there. -/
theorem compile_ne_of_spacing :
    (teamDeclaration "Person, Admin").Respaced (teamDeclaration "Person,Admin") ∧
      (∀ text ∈ ["Person, Admin", "Person,Admin"],
        Schema.build (teamDeclaration text) = .ok (teamCompiler text).schema) ∧
      ∃ as bs k k', ((teamCompiler "Person, Admin").compile levelText).run.run 0 = (.ok as, k) ∧
        ((teamCompiler "Person,Admin").compile levelText).run.run 0 = (.ok bs, k') ∧
        as.map Statement.render = ["SELECT n.level FROM person_admin n;"] ∧
        bs.map Statement.render = ["SELECT n.level FROM person,admin n;"] := by
  have hfacts : (((teamCompiler "Person, Admin").compile levelText).run.run 0).1.toOption.map
        (List.map Statement.render) = some ["SELECT n.level FROM person_admin n;"] ∧
      (((teamCompiler "Person,Admin").compile levelText).run.run 0).1.toOption.map
        (List.map Statement.render) = some ["SELECT n.level FROM person,admin n;"] := by decide +kernel
  obtain ⟨as, has, hrendered⟩ := Option.map_eq_some_iff.mp hfacts.1
  obtain ⟨bs, hbs, hrendered'⟩ := Option.map_eq_some_iff.mp hfacts.2
  obtain ⟨k, hrun⟩ := Compile.exists_run_of_toOption has
  obtain ⟨k', hrun'⟩ := Compile.exists_run_of_toOption hbs
  refine ⟨?_, by decide +kernel, as, bs, k, k', hrun, hrun', hrendered, hrendered'⟩
  exact respaced_team (spaced_personAdmin [] [' '] (by decide) (by decide) (by decide))
    (spaced_personAdmin [] [] (by decide) (by decide) (by decide))

end Compiler

end GraphSql
