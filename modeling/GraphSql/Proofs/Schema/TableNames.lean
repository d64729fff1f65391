import Mathlib.Data.List.Nodup
import GraphSql.Proofs.Schema
import GraphSql.Proofs.Schema.Labels
import GraphSql.Proofs.Text

/-!
# What the names of tables tell

A set of labels is mapped to a table whose name is the text of the labels in small letters, with
underscores in place of the commas.  This loses information: the table of a label can have the name of
the table of all nodes or of all edges, and the tables of two sets can have the same name, as those of
`A, B` and `A_B` have.  Nothing else can go wrong (`Schema.tablesIdentified_of_build`).  If labels are
identifiers, the names of all tables are different, and the columns of a table are found by its name,
just when none of this happens, and it does not happen when no label has an underscore or the name of one
of the two tables.
-/

namespace GraphSql.Schema

variable {s : Schema} {d : Declaration} {e : LabelTable} {text : String}

/-- The name of a table tells which table it is. -/
structure TablesIdentified (s : Schema) : Prop where
  nodup : s.tableNames.Nodup
  columns : ∀ l e, s.labelTable l = .ok e → s.columnsOfTable e.table = .ok e.columns

/-- No mapped labels have the name of another node table, or of the table of all edges. -/
structure LabelsApart (s : Schema) : Prop where
  unreserved : ∀ e ∈ s.labelTables,
    Text.lower e.text ≠ nodesTable ∧ Text.lower e.text ≠ edgesTable
  joined : ∀ e ∈ s.labelTables, ∀ f ∈ s.labelTables, e.table = f.table → e = f

/-- A label, or labels that are separated by a comma and a blank; each is an identifier. -/
def LabelText (text : String) : Prop :=
  ∃ names, text = Text.join ", " names ∧ ∀ x ∈ names, Identifier x

/-- No label has an underscore or the name of the table of all nodes or of all edges. -/
def Declaration.PlainLabels (d : Declaration) : Prop :=
  ∀ l ∈ d.labels, '_' ∉ l.1.toList ∧ Text.lower l.1 ≠ nodesTable ∧ Text.lower l.1 ≠ edgesTable

instance (d : Declaration) : Decidable d.PlainLabels :=
  inferInstanceAs (Decidable (∀ l ∈ d.labels, _))

/-! ## Characters of labels -/

/-- A property of the separators and of the characters of identifiers is one of labels. -/
theorem LabelText.forall_char (h : LabelText text) {p : Char → Bool} (hcomma : p ',' = true)
    (hblank : p ' ' = true) (hp : ∀ c, isIdentifierChar c = true → p c = true) :
    ∀ c ∈ text.toList, p c = true := by
  obtain ⟨names, rfl, hnames⟩ := h
  have hsep : (", " : String).toList = [',', ' '] := by decide
  intro c hc
  rcases Text.mem_join hc with hc | ⟨x, hx, hc⟩
  · rw [hsep, List.mem_pair] at hc
    rcases hc with rfl | rfl
    · exact hcomma
    · exact hblank
  · exact hp c (hnames x hx c hc)

theorem LabelText.ascii (h : LabelText text) : ∀ c ∈ text.toList, c.toNat < 128 := by
  have hall := h.forall_char (p := fun c => decide (c.toNat < 128)) rfl rfl
    fun c hc => decide_eq_true (ascii_of_isIdentifierChar hc)
  exact fun c hc => of_decide_eq_true (hall c hc)

theorem LabelText.dollar_notMem (h : LabelText text) : '$' ∉ text.toList := by
  have hall := h.forall_char (p := fun c => decide (c ≠ '$')) rfl rfl
    fun c hc => decide_eq_true (not_special_of_isWordChar (isWordChar_of_isIdentifierChar hc)).2.2.1
  exact fun hc => of_decide_eq_true (hall _ hc) rfl

/-- Letter case is no matter of characters that are not letters. -/
theorem toLower_eq_iff {x : Char} (hx : ∀ n < 26, Char.ofNat (97 + n) ≠ x ∧ Char.ofNat (65 + n) ≠ x)
    (c : Char) : c.toLower = x ↔ c = x := by
  have h := apply_toLower (f := fun c => decide (c = x)) (fun n hn => by simp [hx n hn]) c
  exact decide_eq_decide.mp h

theorem notMem_folded {x : Char} (hx : ∀ n < 26, Char.ofNat (97 + n) ≠ x ∧ Char.ofNat (65 + n) ≠ x)
    (h : x ∉ text.toList) : x ∉ folded text := by
  intro hmem
  obtain ⟨c, hc, he⟩ := List.mem_map.mp hmem
  exact h ((toLower_eq_iff hx c).mp he ▸ hc)

/-! ## Underscores for commas -/

theorem joinLabels_cons {c : Char} {cs : List Char} (h : ∀ rest, c = ',' → cs = ' ' :: rest → False) :
    joinLabels (c :: cs) = c :: joinLabels cs := by
  rw [joinLabels]
  exact h

/-- What has no comma stays as it is. -/
theorem joinLabels_append {w : List Char} (h : ',' ∉ w) (cs : List Char) :
    joinLabels (w ++ cs) = w ++ joinLabels cs := by
  induction w with
  | nil => rfl
  | cons c w ih =>
    rw [List.mem_cons, not_or] at h
    rw [List.cons_append, joinLabels_cons fun _ hc _ => h.1 hc.symm, ih h.2, List.cons_append]

theorem mem_of_mem_joinLabels {c : Char} : ∀ {cs : List Char}, c ∈ joinLabels cs → c = '_' ∨ c ∈ cs := by
  intro cs h
  induction cs using joinLabels.induct with
  | case1 => cases h
  | case2 cs ih =>
    rw [joinLabels, List.mem_cons] at h
    rcases h with rfl | h
    · exact .inl rfl
    · exact (ih h).imp id fun hc => List.mem_cons_of_mem _ (List.mem_cons_of_mem _ hc)
  | case3 d cs hne ih =>
    rw [joinLabels_cons hne, List.mem_cons] at h
    rcases h with rfl | h
    · exact .inr List.mem_cons_self
    · exact (ih h).imp id (List.mem_cons_of_mem d)

theorem joinLabels_toLower (cs : List Char) :
    joinLabels (cs.map Char.toLower) = (joinLabels cs).map Char.toLower := by
  induction cs using joinLabels.induct with
  | case1 => rfl
  | case2 cs ih =>
    have hhead : (',' :: ' ' :: cs).map Char.toLower = ',' :: ' ' :: cs.map Char.toLower := rfl
    rw [hhead, joinLabels, joinLabels, ih]
    rfl
  | case3 c cs hne ih =>
    rw [joinLabels_cons hne, List.map_cons, List.map_cons, ← ih, joinLabels_cons]
    intro rest hcomma hblank
    obtain ⟨d, ds, rfl, hd, -⟩ := List.map_eq_cons_iff.mp hblank
    exact hne ds ((toLower_eq_iff (by decide) c).mp hcomma)
      (by rw [(toLower_eq_iff (by decide) d).mp hd])

/-- No information is lost when there is no underscore before. -/
theorem joinLabels_injective {cs ds : List Char} (hcs : '_' ∉ cs) (hds : '_' ∉ ds)
    (h : joinLabels cs = joinLabels ds) : cs = ds := by
  induction cs using joinLabels.induct generalizing ds with
  | case1 =>
    cases ds using joinLabels.fun_cases with
    | case1 => rfl
    | case2 ds => cases h
    | case3 d ds hne =>
      rw [joinLabels_cons hne] at h
      cases h
  | case2 cs ih =>
    rw [joinLabels] at h
    cases ds using joinLabels.fun_cases with
    | case1 => cases h
    | case2 ds =>
      rw [joinLabels, List.cons_inj_right] at h
      simp only [List.mem_cons, not_or] at hcs hds
      rw [ih hcs.2.2 hds.2.2 h]
    | case3 d ds hne =>
      rw [joinLabels_cons hne] at h
      obtain ⟨rfl, -⟩ := List.cons.inj h
      exact absurd List.mem_cons_self hds
  | case3 c cs hne ih =>
    rw [joinLabels_cons hne] at h
    cases ds using joinLabels.fun_cases with
    | case1 => cases h
    | case2 ds =>
      rw [joinLabels] at h
      obtain ⟨rfl, -⟩ := List.cons.inj h
      exact absurd List.mem_cons_self hcs
    | case3 d ds hne' =>
      rw [joinLabels_cons hne'] at h
      obtain ⟨rfl, hrest⟩ := List.cons.inj h
      rw [ih (fun hc => hcs (List.mem_cons_of_mem _ hc)) (fun hd => hds (List.mem_cons_of_mem _ hd))
        hrest]

/-- A name without underscores and commas can only come from itself. -/
theorem joinLabels_eq_iff {cs w : List Char} (hunderscore : '_' ∉ w) (hcomma : ',' ∉ w) :
    joinLabels cs = w ↔ cs = w := by
  constructor
  · rintro rfl
    induction cs using joinLabels.induct with
    | case1 => rfl
    | case2 cs =>
      rw [joinLabels] at hunderscore
      exact absurd List.mem_cons_self hunderscore
    | case3 c cs hne ih =>
      rw [joinLabels_cons hne] at hunderscore hcomma ⊢
      rw [← ih (fun h => hunderscore (List.mem_cons_of_mem c h)) fun h =>
        hcomma (List.mem_cons_of_mem c h)]
  · rintro rfl
    induction cs with
    | nil => rfl
    | cons c cs ih =>
      rw [joinLabels_cons, ih (fun h => hunderscore (List.mem_cons_of_mem c h)) fun h =>
        hcomma (List.mem_cons_of_mem c h)]
      rintro rest rfl -
      exact hcomma List.mem_cons_self

/-! ## Names of tables -/

theorem toList_table (h : ∀ c ∈ e.text.toList, c.toNat < 128) :
    e.table.toList = joinLabels (folded e.text) := by
  have hascii : ∀ c ∈ joinLabels e.text.toList, c.toNat < 128 := by
    intro c hc
    rcases mem_of_mem_joinLabels hc with rfl | hc
    · decide
    · exact h c hc
  rw [LabelTable.table, Text.toList_lower, folded, String.toList_ofList, folded, joinLabels_toLower]
  rw [String.toList_ofList]
  exact hascii

theorem table_eq_iff (h : ∀ c ∈ e.text.toList, c.toNat < 128) {w : String}
    (hunderscore : '_' ∉ w.toList) (hcomma : ',' ∉ w.toList) :
    e.table = w ↔ Text.lower e.text = w := by
  rw [← String.toList_inj, ← String.toList_inj, toList_table h, Text.toList_lower h,
    joinLabels_eq_iff hunderscore hcomma]

/-- The table of labels is not that of a type. -/
theorem table_ne_typeTable (h : LabelText e.text) (f : TypeTable) : e.table ≠ f.table := by
  intro he
  have hdollar : '$' ∈ e.table.toList := by
    rw [he, TypeTable.table, String.toList_append]
    exact List.mem_append_left _ (by decide)
  rw [toList_table h.ascii] at hdollar
  rcases mem_of_mem_joinLabels hdollar with hc | hc
  · exact absurd hc (by decide)
  · exact notMem_folded (by decide) h.dollar_notMem hc

theorem tableNames_eq (s : Schema) : s.tableNames = nodesTable :: edgesTable ::
    (s.labelTables.map LabelTable.table ++ s.typeTables.map TypeTable.table) := by
  simp only [tableNames, tables, List.map_append, List.map_cons, List.map_map, List.cons_append]
  rfl

/-! ## Schemas that are built -/

/-- The entries of a schema are different: no two have the same set of labels, or the same type. -/
structure Keyed (s : Schema) : Prop where
  labels : (s.labelTables.map fun e => { x | x ∈ (LabelRef.text e.text).key }).Nodup
  types : (s.typeTables.map fun e => Text.lower e.name).Nodup

theorem same_iff {l m : LabelRef} : l.same m = true ↔ { x | x ∈ l.key } = { x | x ∈ m.key } := by
  rw [LabelRef.same, sameMembers_iff, Set.ext_iff]
  rfl

/-- **A schema that was built has one entry for each set of labels and for each type**, all of them
declared. -/
theorem keyed_of_build (h : build d = .ok s) :
    s.Keyed ∧ ∀ e ∈ s.labelTables, ∃ l ∈ d.labels, l.1 = e.text := by
  refine ⟨?_, fun e he => ?_⟩
  · obtain ⟨labels, types, nodes, edges, -, -, -, -, rfl⟩ := exists_entries_of_build h
    have hlabel : ∀ e f : LabelTable, LabelRef.same (.text f.text) (.text e.text) = true ↔
        { x | x ∈ (LabelRef.text f.text).key } = { x | x ∈ (LabelRef.text e.text).key } :=
      fun _ _ => same_iff
    have htype : ∀ e f : TypeTable, Text.sameName f.name e.name = true ↔
        Text.lower f.name = Text.lower e.name := fun _ _ => beq_iff_eq
    exact ⟨nodup_foldl_putBy hlabel labels, nodup_foldl_putBy htype types⟩
  · obtain ⟨l, hl, htext, -⟩ := (declared_of_build h).1 e he
    exact ⟨l, hl, htext.symm⟩

theorem Keyed.nodup_labelTables (h : s.Keyed) : s.labelTables.Nodup := h.labels.of_map _

theorem Keyed.nodup_typeNames (h : s.Keyed) : (s.typeTables.map TypeTable.table).Nodup := by
  have hmap : s.typeTables.map TypeTable.table =
      (s.typeTables.map fun e => Text.lower e.name).map ("e$" ++ ·) := by
    rw [List.map_map]
    rfl
  rw [hmap]
  refine h.types.map fun x y (hxy : "e$" ++ x = "e$" ++ y) => ?_
  rw [← String.toList_inj, String.toList_append, String.toList_append] at hxy
  exact String.toList_inj.mp (List.append_cancel_left hxy)

/-- Only labels can make the names of tables coincide. -/
theorem nodup_tableNames_iff (h : s.Keyed) (htext : ∀ e ∈ s.labelTables, LabelText e.text) :
    s.tableNames.Nodup ↔ s.LabelsApart := by
  have hreserved : ∀ e ∈ s.labelTables, ∀ w ∈ [nodesTable, edgesTable],
      e.table = w ↔ Text.lower e.text = w := by
    intro e he w hw
    have hchars : ∀ w ∈ [nodesTable, edgesTable], '_' ∉ w.toList ∧ ',' ∉ w.toList := by decide
    exact table_eq_iff (htext e he).ascii (hchars w hw).1 (hchars w hw).2
  have htypes : ∀ w ∈ [nodesTable, edgesTable], w ∉ s.typeTables.map TypeTable.table := by
    intro w hw hmem
    obtain ⟨f, -, rfl⟩ := List.mem_map.mp hmem
    have hdollar : ∀ w ∈ [nodesTable, edgesTable], '$' ∉ w.toList := by decide
    refine hdollar _ hw ?_
    rw [TypeTable.table, String.toList_append]
    exact List.mem_append_left _ (by decide)
  rw [tableNames_eq, List.nodup_cons, List.nodup_cons, List.nodup_append,
    List.nodup_map_iff_inj_on h.nodup_labelTables]
  constructor
  · rintro ⟨hnodes, hedges, hjoined, -⟩
    refine ⟨fun e he => ⟨fun hlower => hnodes ?_, fun hlower => hedges ?_⟩, hjoined⟩
    · rw [← (hreserved e he _ List.mem_cons_self).mpr hlower]
      exact List.mem_cons_of_mem _ (List.mem_append_left _ (List.mem_map_of_mem he))
    · rw [← (hreserved e he _ (by simp)).mpr hlower]
      exact List.mem_append_left _ (List.mem_map_of_mem he)
  · intro hapart
    have hlabels : ∀ w ∈ [nodesTable, edgesTable], w ∉ s.labelTables.map LabelTable.table := by
      intro w hw hmem
      obtain ⟨e, he, htable⟩ := List.mem_map.mp hmem
      have hlower := (hreserved e he w hw).mp htable
      rcases List.mem_pair.mp hw with rfl | rfl
      · exact (hapart.unreserved e he).1 hlower
      · exact (hapart.unreserved e he).2 hlower
    refine ⟨?_, ?_, hapart.joined, h.nodup_typeNames, ?_⟩
    · rw [List.mem_cons, List.mem_append, not_or, not_or]
      exact ⟨by decide, hlabels _ (by simp), htypes _ (by simp)⟩
    · rw [List.mem_append, not_or]
      exact ⟨hlabels _ (by simp), htypes _ (by simp)⟩
    · intro x hx y hy
      obtain ⟨e, he, rfl⟩ := List.mem_map.mp hx
      obtain ⟨f, -, rfl⟩ := List.mem_map.mp hy
      exact table_ne_typeTable (htext e he) f

/-- The columns of the table of labels are found by its name. -/
theorem LabelsApart.columnsOfTable_eq (h : s.LabelsApart)
    (htext : ∀ e ∈ s.labelTables, LabelText e.text) (he : e ∈ s.labelTables) :
    s.columnsOfTable e.table = .ok e.columns := by
  have hascii := (htext e he).ascii
  have hnodes : e.table ≠ nodesTable := fun htable =>
    (h.unreserved e he).1 ((table_eq_iff hascii (by decide) (by decide)).mp htable)
  have hedges : e.table ≠ edgesTable := fun htable =>
    (h.unreserved e he).2 ((table_eq_iff hascii (by decide) (by decide)).mp htable)
  rw [columnsOfTable, if_neg hnodes, if_neg hedges]
  cases hfind : s.labelTables.find? fun f => f.table == e.table with
  | none => exact absurd (beq_self_eq_true e.table) (List.find?_eq_none.mp hfind e he)
  | some f =>
    have htable : f.table = e.table := by simpa using List.find?_some hfind
    obtain rfl := h.joined f (List.mem_of_find?_eq_some hfind) e he htable
    rfl

/-- Without underscores in labels the names of their tables tell them apart. -/
theorem labelsApart_of_plainLabels (h : build d = .ok s) (hlabels : ∀ l ∈ d.labels, LabelText l.1)
    (hplain : d.PlainLabels) : s.LabelsApart := by
  obtain ⟨hkeyed, hdeclared⟩ := keyed_of_build h
  have hentry : ∀ e ∈ s.labelTables, LabelText e.text ∧ '_' ∉ folded e.text ∧
      Text.lower e.text ≠ nodesTable ∧ Text.lower e.text ≠ edgesTable := by
    intro e he
    obtain ⟨l, hl, htext⟩ := hdeclared e he
    rw [← htext]
    exact ⟨hlabels l hl, notMem_folded (by decide) (hplain l hl).1, (hplain l hl).2⟩
  refine ⟨fun e he => (hentry e he).2.2, fun e he f hf htable => ?_⟩
  have hjoined := congrArg String.toList htable
  rw [toList_table (hentry e he).1.ascii, toList_table (hentry f hf).1.ascii] at hjoined
  have hfolded := joinLabels_injective (hentry e he).2.1 (hentry f hf).2.1 hjoined
  exact List.inj_on_of_nodup_map hkeyed.labels he hf (same_iff.mp (same_of_folded hfolded))

/-- **When the names of tables identify tables.**  For a schema with identifiers for labels, the names
of all tables are different, and the columns of the table of any mapped labels are found by its name,
just when no mapped labels read like the name of the table of all nodes or edges and no two have the same
name once they are joined by underscores.  This is so when no label has an underscore, or the name of one
of the two tables, in it.  The names of types never matter. -/
theorem tablesIdentified_of_build (h : build d = .ok s) (hlabels : ∀ l ∈ d.labels, LabelText l.1) :
    (s.TablesIdentified ↔ s.LabelsApart) ∧ (d.PlainLabels → s.TablesIdentified) := by
  obtain ⟨hkeyed, hdeclared⟩ := keyed_of_build h
  have htext : ∀ e ∈ s.labelTables, LabelText e.text := by
    intro e he
    obtain ⟨l, hl, htext⟩ := hdeclared e he
    exact htext ▸ hlabels l hl
  have hiff : s.TablesIdentified ↔ s.LabelsApart := by
    constructor
    · exact fun hs => (nodup_tableNames_iff hkeyed htext).mp hs.nodup
    · exact fun hapart => ⟨(nodup_tableNames_iff hkeyed htext).mpr hapart,
        fun l e hl => hapart.columnsOfTable_eq htext (mem_of_labelTable hl)⟩
  exact ⟨hiff, fun hplain => hiff.mpr (labelsApart_of_plainLabels h hlabels hplain)⟩

/-- Three sets of labels and a type. -/
def staffDeclaration : Declaration where
  labels := [("Person", .text "name TEXT"), ("Person, Admin", .text "level INT"),
    ("admin", .text "name TEXT")]
  types := [("KNOWS", .text "since INT")]

theorem tablesIdentified_of_build_staff :
    ∃ s, build staffDeclaration = .ok s ∧ (∀ l ∈ staffDeclaration.labels, LabelText l.1) ∧
      staffDeclaration.PlainLabels ∧
      s.tableNames = ["nodes", "edges", "person", "person_admin", "admin", "e$knows"] ∧
      s.TablesIdentified := by
  have hfacts : (build staffDeclaration).toOption.map tableNames =
      some ["nodes", "edges", "person", "person_admin", "admin", "e$knows"] := by decide +kernel
  obtain ⟨s, hs, hnames⟩ := Option.map_eq_some_iff.mp hfacts
  have hbuild := Except.eq_ok_of_toOption hs
  have hlabels : ∀ l ∈ staffDeclaration.labels, LabelText l.1 := by
    intro l hl
    simp only [staffDeclaration, List.mem_cons, List.not_mem_nil, or_false] at hl
    rcases hl with rfl | rfl | rfl
    · exact ⟨["Person"], by decide, by decide⟩
    · exact ⟨["Person", "Admin"], by decide, by decide⟩
    · exact ⟨["admin"], by decide, by decide⟩
  have hplain : staffDeclaration.PlainLabels := by decide +kernel
  exact ⟨s, hbuild, hlabels, hplain, hnames, (tablesIdentified_of_build hbuild hlabels).2 hplain⟩

/-- A label that reads like the name of the table of all nodes. -/
def nodesDeclaration : Declaration where
  labels := [("Nodes", .text "name TEXT")]
  nodeColumns := some (.text "age INT")

/-- **The table of a label can be taken for the table of all nodes**: both have the same name, and under
it the columns of the label are not found. -/
theorem not_tablesIdentified_nodes :
    ∃ s e, build nodesDeclaration = .ok s ∧ (∀ l ∈ nodesDeclaration.labels, LabelText l.1) ∧
      s.tableNames = ["nodes", "edges", "nodes"] ∧ s.labelTable (.text "Nodes") = .ok e ∧
      e.columns = [idColumn, ⟨"name", .text⟩] ∧
      s.columnsOfTable e.table = .ok (coreNodeColumns ++ [⟨"age", .int⟩]) ∧
      ¬s.TablesIdentified := by
  have hfacts : (build nodesDeclaration).toOption.bind (fun s =>
      (s.labelTable (.text "Nodes")).toOption.map fun e =>
        (s.tableNames, e.columns, (s.columnsOfTable e.table).toOption)) =
      some (["nodes", "edges", "nodes"], [idColumn, ⟨"name", .text⟩],
        some (coreNodeColumns ++ [⟨"age", .int⟩])) := by decide +kernel
  obtain ⟨s, hs, hfacts⟩ := Option.bind_eq_some_iff.mp hfacts
  obtain ⟨e, he, hfacts⟩ := Option.map_eq_some_iff.mp hfacts
  obtain ⟨hnames, hfacts⟩ := Prod.mk.inj hfacts
  obtain ⟨hcolumns, hfound⟩ := Prod.mk.inj hfacts
  refine ⟨s, e, Except.eq_ok_of_toOption hs, ?_, hnames, Except.eq_ok_of_toOption he, hcolumns,
    Except.eq_ok_of_toOption hfound, fun h => ?_⟩
  · intro l hl
    obtain rfl := List.mem_singleton.mp hl
    exact ⟨["Nodes"], by decide, by decide⟩
  · have hnodup := h.nodup
    rw [hnames] at hnodup
    exact absurd hnodup (by decide)

end GraphSql.Schema
