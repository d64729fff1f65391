import GraphSql.Proofs.Column
import GraphSql.Proofs.Schema.TableNames

/-!
# The columns of the tables of a schema

Whatever a declaration says, the tables of its schema start with the columns that every table of their
kind has, and no table has two columns with the same name, letter case apart.  Columns of all nodes and
of all edges that are not declared are collected from the labels and types, and the first declaration of a
name gives its type.  The statements that create the tables can be read back
(`ofDefinitions_insideParens`).  All of this is put together in `Schema.conforms_of_build`.
-/

namespace GraphSql.Schema

variable {s : Schema} {d : Declaration}

/-! ## What is built -/

/-- The columns that every table of a kind has are named differently. -/
theorem nodup_core : (Column.lowerNames coreNodeColumns).Nodup ∧
    (Column.lowerNames coreEdgeColumns).Nodup ∧ (Column.lowerNames [idColumn]).Nodup := by
  decide +kernel

/-- Labels that are declared once have their tables in the order of the declaration. -/
theorem forall₂_declared_labels (h : build d = .ok s)
    (hlabels : d.labels.Pairwise fun l m => LabelRef.same (.text l.1) (.text m.1) = false) :
    List.Forall₂ LabelTable.Declared d.labels s.labelTables := by
  obtain ⟨labels, types, nodes, edges, hdeclared, -, -, -, rfl⟩ := exists_entries_of_build h
  have hkeys : labels.Pairwise fun e f => LabelRef.same (.text e.text) (.text f.text) = false :=
    hdeclared.pairwise hlabels fun l e m f he hf hne => by rw [he.1, hf.1]; exact hne
  have hkept : labels.foldl putLabel [] = labels := foldl_putBy_of_pairwise hkeys
  exact hkept.symm ▸ hdeclared

theorem forall₂_declared_types (h : build d = .ok s)
    (htypes : d.types.Pairwise fun l m => Text.sameName l.1 m.1 = false) :
    List.Forall₂ TypeTable.Declared d.types s.typeTables := by
  obtain ⟨labels, types, nodes, edges, -, hdeclared, -, -, rfl⟩ := exists_entries_of_build h
  have hkeys : types.Pairwise fun e f => Text.sameName e.name f.name = false :=
    hdeclared.pairwise htypes fun l e m f he hf hne => by rw [he.1, hf.1]; exact hne
  have hkept : types.foldl putType [] = types := foldl_putBy_of_pairwise hkeys
  exact hkept.symm ▸ hdeclared

/-! ## Names of columns -/

/-- **No table has two columns with the same name**, letter case apart. -/
theorem nodup_lowerNames (h : build d = .ok s) :
    ∀ t ∈ s.tables, (Column.lowerNames t.2).Nodup := by
  obtain ⟨nodes, hnodes, -⟩ := merge_of_build_nodes h
  obtain ⟨edges, hedges, -⟩ := merge_of_build_edges h
  intro t ht
  rw [tables, List.cons_append, List.mem_cons, List.cons_append, List.mem_cons, List.mem_append] at ht
  rcases ht with rfl | rfl | ht | ht
  · exact hnodes ▸ Column.nodup_distinct _
  · exact hedges ▸ Column.nodup_distinct _
  · obtain ⟨e, he, rfl⟩ := List.mem_map.mp ht
    obtain ⟨l, -, -, cs, -, hcolumns⟩ := (declared_of_build h).1 e he
    exact hcolumns ▸ Column.nodup_distinct _
  · obtain ⟨e, -, rfl⟩ := List.mem_map.mp ht
    exact Column.nodup_distinct _

/-! ## Statements that are read back -/

/-- The text between the first opening parenthesis and the next closing one. -/
def insideParens (sql : String) : String :=
  String.ofList (((sql.toList.dropWhile (· ≠ '(')).drop 1).takeWhile (· ≠ ')'))

theorem toNat_of_eq_ofNat {x : Char} {n : Nat} (hx : 0 < x.toNat) (h : x = Char.ofNat n) :
    x.toNat = n := by
  by_cases hn : n.isValidChar
  · rw [h, Char.ofNat, dif_pos hn]
    rfl
  · rw [h, Char.ofNat, dif_neg hn] at hx
    exact absurd hx (by decide)

/-- A character below the letters is the small form of no other. -/
theorem eq_of_mem_lowerChar {x c : Char} (hx : 0 < x.toNat ∧ x.toNat < 65)
    (h : x ∈ Text.lowerChar c) : c = x := by
  unfold Text.lowerChar at h
  split at h
  · have hletters : ∀ n < 26, Char.ofNat (97 + n) ≠ x ∧ Char.ofNat (65 + n) ≠ x := by
      have htoNat : ∀ n < 26, (Char.ofNat (97 + n)).toNat = 97 + n ∧
          (Char.ofNat (65 + n)).toNat = 65 + n := by decide
      intro n hn
      obtain ⟨hsmall, hcapital⟩ := htoNat n hn
      exact ⟨fun he => by subst he; omega, fun he => by subst he; omega⟩
    exact (toLower_eq_iff hletters c).mp (List.mem_singleton.mp h).symm
  · split at h
    · have hdot : ∀ y ∈ ['i', '\u0307'], 65 ≤ y.toNat := by decide
      have := hdot x h
      omega
    · split at h
      · rename_i hrow
        have hrows : ∀ r ∈ Text.smallLetters, 65 ≤ r.2.2.2 := by decide +kernel
        have hlarge := hrows _ (List.mem_of_find?_eq_some hrow)
        dsimp only at hlarge
        have := toNat_of_eq_ofNat hx.1 (List.mem_singleton.mp h)
        omega
      · exact (List.mem_singleton.mp h).symm

/-- Only letters appear when a text is put in small letters. -/
theorem mem_of_mem_lowerAfter {x : Char} (hx : 0 < x.toNat ∧ x.toNat < 65) {cs : List Char} :
    ∀ {before : List Char}, x ∈ Text.lowerAfter before cs → x ∈ cs := by
  induction cs with
  | nil => exact id
  | cons c cs ih =>
    intro before h
    rw [Text.lowerAfter, List.mem_append] at h
    rcases h with h | h
    · split at h
      · have hsigma : ∀ y ∈ ['ς', 'σ'], 65 ≤ y.toNat := by decide
        have hmem : x ∈ ['ς', 'σ'] := by
          rw [List.mem_singleton.mp h, Text.lowerSigma]
          split
          · exact List.mem_cons_self
          · exact List.mem_cons_of_mem _ List.mem_cons_self
        have := hsigma x hmem
        omega
      · exact eq_of_mem_lowerChar hx h ▸ List.mem_cons_self
    · exact List.mem_cons_of_mem c (ih h)

theorem mem_of_mem_lower {x : Char} (hx : 0 < x.toNat ∧ x.toNat < 65) {text : String}
    (h : x ∈ (Text.lower text).toList) : x ∈ text.toList := by
  rw [Text.lower, String.toList_ofList] at h
  exact mem_of_mem_lowerAfter hx h

theorem notMem_table {e : LabelTable} (h : '(' ∉ e.text.toList) : '(' ∉ e.table.toList := by
  intro hmem
  have hjoined := mem_of_mem_lower (by decide) hmem
  rw [String.toList_ofList] at hjoined
  rcases mem_of_mem_joinLabels hjoined with hchar | hchar
  · exact absurd hchar (by decide)
  · exact h hchar

theorem notMem_typeTable {e : TypeTable} (h : '(' ∉ e.name.toList) : '(' ∉ e.table.toList := by
  rw [TypeTable.table, String.toList_append, List.mem_append, not_or]
  exact ⟨by decide, fun hmem => h (mem_of_mem_lower (by decide) hmem)⟩

/-- The columns stand between the parentheses of the statement that creates a table. -/
theorem insideParens_createTable {table : String} {columns : List Column} (htable : '(' ∉ table.toList)
    (hcolumns : ∀ c ∈ columns, Column.PlainName c.name) :
    insideParens (createTable table columns) = Text.join ", " (columns.map Column.definition) := by
  have hbody : ')' ∉ (Text.join ", " (columns.map Column.definition)).toList := by
    intro hmem
    rcases Text.mem_join hmem with hmem | ⟨_, hdefinition, hmem⟩
    · exact absurd hmem (by decide)
    · obtain ⟨c, hc, rfl⟩ := List.mem_map.mp hdefinition
      exact Column.notMem_definition (hcolumns c hc) ')' (by decide) hmem
  have hstart : '(' ∉ ("CREATE TABLE " : String).toList ++ table.toList := by
    rw [List.mem_append, not_or]
    exact ⟨by decide, htable⟩
  have hsql : (createTable table columns).toList = ("CREATE TABLE ".toList ++ table.toList) ++
      '(' :: ((Text.join ", " (columns.map Column.definition)).toList ++ ')' :: [';']) := by
    have hopen : "(".toList = ['('] := by decide
    have hclose : ");".toList = [')', ';'] := by decide
    unfold createTable
    rw [String.toList_append, String.toList_append, String.toList_append, String.toList_append, hopen,
      hclose, List.append_assoc, List.append_assoc]
    rfl
  have hpass : ∀ {x : Char} {cs : List Char}, x ∉ cs → ∀ c ∈ cs, decide (c ≠ x) = true :=
    fun hx c hc => decide_eq_true fun he => hx (he ▸ hc)
  rw [insideParens, hsql, List.dropWhile_append_of_pos (hpass hstart), List.dropWhile_cons,
    if_neg (by decide), List.drop_one, List.tail_cons, List.takeWhile_append_of_pos (hpass hbody),
    List.takeWhile_cons, if_neg (by decide), List.append_nil, String.ofList_toList]

/-- **The columns of all tables are read back from the statements that create them.** -/
theorem ofDefinitions_insideParens (htables : ∀ t ∈ s.tables, '(' ∉ t.1.toList)
    (hcolumns : ∀ t ∈ s.tables, ∀ c ∈ t.2, Column.PlainName c.name) :
    s.createStatements.mapM (fun sql => Column.ofDefinitions (insideParens sql)) =
      .ok (s.tables.map Prod.snd) := by
  rw [createStatements, List.mapM_map]
  refine Except.mapM_eq_ok fun t ht => ?_
  obtain ⟨table, columns⟩ := t
  rw [Function.comp_apply, insideParens_createTable (htables _ ht) (hcolumns _ ht)]
  exact Column.ofDefinitions_definitions (hcolumns _ ht)

/-! ## The schema of a declaration -/

/-- No label and no type has a parenthesis in it. -/
def Declaration.NoParens (d : Declaration) : Prop :=
  ∀ l ∈ d.labels ++ d.types, '(' ∉ l.1.toList ∧ ')' ∉ l.1.toList

instance (d : Declaration) : Decidable d.NoParens :=
  inferInstanceAs (Decidable (∀ l ∈ d.labels ++ d.types, _))

theorem notMem_of_noParens (h : build d = .ok s) (hd : d.NoParens) :
    ∀ t ∈ s.tables, '(' ∉ t.1.toList := by
  intro t ht
  rw [tables, List.cons_append, List.mem_cons, List.cons_append, List.mem_cons, List.mem_append] at ht
  rcases ht with rfl | rfl | ht | ht
  · exact (by decide : '(' ∉ nodesTable.toList)
  · exact (by decide : '(' ∉ edgesTable.toList)
  · obtain ⟨e, he, rfl⟩ := List.mem_map.mp ht
    obtain ⟨l, hl, htext, -⟩ := (declared_of_build h).1 e he
    exact notMem_table (htext ▸ (hd l (List.mem_append_left _ hl)).1)
  · obtain ⟨e, he, rfl⟩ := List.mem_map.mp ht
    obtain ⟨l, hl, hname, -⟩ := (declared_of_build h).2 e he
    exact notMem_typeTable (hname ▸ (hd l (List.mem_append_right _ hl)).1)

/-- What the schema `s` of the declaration `d` is like. -/
structure Conforms (s : Schema) (d : Declaration) : Prop where
  /-- The columns that every table of a kind has come first, as they are. -/
  nodes : coreNodeColumns <+: s.nodeColumns
  edges : coreEdgeColumns <+: s.edgeColumns
  labels : ∀ l e, s.labelTable l = .ok e → [idColumn] <+: e.columns
  /-- Letter case apart, the columns of a table have different names. -/
  nodup : ∀ t ∈ s.tables, (Column.lowerNames t.2).Nodup
  /-- The columns of all nodes, if they are not declared, are those of the labels. -/
  collectedNodes : d.nodeColumns = none → ∀ e ∈ s.labelTables, ∀ c ∈ e.columns,
    ∃ first, Column.FirstNamed (coreNodeColumns ++ s.labelTables.flatMap LabelTable.columns) c.name first ∧
      Column.find? s.nodeColumns c.name = some first
  collectedEdges : d.edgeColumns = none → ∀ e ∈ s.typeTables, ∀ c ∈ e.columns,
    ∃ first, Column.FirstNamed (coreEdgeColumns ++ s.typeTables.flatMap TypeTable.columns) c.name first ∧
      Column.find? s.edgeColumns c.name = some first
  /-- The entries are those that are declared, and in the same order if none is declared twice. -/
  declared : (∀ e ∈ s.labelTables, ∃ l ∈ d.labels, LabelTable.Declared l e) ∧
    ∀ e ∈ s.typeTables, ∃ l ∈ d.types, TypeTable.Declared l e
  labelOrder : (d.labels.Pairwise fun l m => LabelRef.same (.text l.1) (.text m.1) = false) →
    List.Forall₂ LabelTable.Declared d.labels s.labelTables
  typeOrder : (d.types.Pairwise fun l m => Text.sameName l.1 m.1 = false) →
    List.Forall₂ TypeTable.Declared d.types s.typeTables
  /-- The columns of every table can be read in the statement that creates it. -/
  readBack : d.NoParens → (∀ t ∈ s.tables, ∀ c ∈ t.2, Column.PlainName c.name) →
    s.createStatements.mapM (fun sql => Column.ofDefinitions (insideParens sql)) =
      .ok (s.tables.map Prod.snd)

/-- **What every schema is like**, whatever is declared for it.  Its tables start with the columns that
all tables of their kind have, and no table has two columns with the same name, letter case apart.  The
columns of all nodes and of all edges that are not declared are found in the order of the entries, the
structural ones first.  If neither labels, types nor columns have parentheses, and columns have names
without blanks and commas, then the statements that create the tables tell all their columns. -/
theorem conforms_of_build (h : build d = .ok s) : s.Conforms d := by
  obtain ⟨nodes, hnodes, hcollectedNodes⟩ := merge_of_build_nodes h
  obtain ⟨edges, hedges, hcollectedEdges⟩ := merge_of_build_edges h
  constructor
  case nodes => exact hnodes ▸ Column.isPrefix_distinct nodup_core.1 _
  case edges => exact hedges ▸ Column.isPrefix_distinct nodup_core.2.1 _
  case labels =>
    intro l e hl
    obtain ⟨-, -, -, cs, -, hcolumns⟩ := (declared_of_build h).1 e (mem_of_labelTable hl)
    exact hcolumns ▸ Column.isPrefix_distinct nodup_core.2.2 _
  case nodup => exact nodup_lowerNames h
  case collectedNodes =>
    intro hnone e he c hc
    rw [hnodes, hcollectedNodes hnone, Column.merge, List.flatten_cons, ← List.flatMap_def]
    exact Column.exists_firstNamed (List.mem_append_right _ (List.mem_flatMap.mpr ⟨e, he, hc⟩))
  case collectedEdges =>
    intro hnone e he c hc
    rw [hedges, hcollectedEdges hnone, Column.merge, List.flatten_cons, ← List.flatMap_def]
    exact Column.exists_firstNamed (List.mem_append_right _ (List.mem_flatMap.mpr ⟨e, he, hc⟩))
  case declared => exact declared_of_build h
  case labelOrder => exact forall₂_declared_labels h
  case typeOrder => exact forall₂_declared_types h
  case readBack => exact fun hd hplain => ofDefinitions_insideParens (notMem_of_noParens h hd) hplain

/-- Labels and a type that declare columns again that every table has, in other letters and with other
types. -/
def redeclaration : Declaration where
  labels := [("Person", .text "ID text, Name TEXT , age int4"),
    ("Person, Admin", .columns [⟨"LABEL", .int⟩, ⟨"NAME", .int⟩, ⟨"tags", .textArray⟩])]
  types := [("KNOWS", .text "Type INT, since INT8, SINCE TEXT")]

theorem conforms_of_build_redeclaration : ∃ s, build redeclaration = .ok s ∧ s.Conforms redeclaration ∧
    s.nodeColumns = coreNodeColumns ++ [⟨"Name", .text⟩, ⟨"age", .int⟩, ⟨"tags", .textArray⟩] ∧
    s.edgeColumns = coreEdgeColumns ++ [⟨"since", .bigint⟩] ∧
    List.Forall₂ LabelTable.Declared redeclaration.labels s.labelTables ∧
    List.Forall₂ TypeTable.Declared redeclaration.types s.typeTables ∧
    s.createStatements.mapM (fun sql => Column.ofDefinitions (insideParens sql)) =
      .ok (s.tables.map Prod.snd) := by
  have hfacts : (build redeclaration).toOption.map (fun s => (s.nodeColumns, s.edgeColumns,
      decide (∀ t ∈ s.tables, ∀ c ∈ t.2, Column.PlainName c.name))) =
      some (coreNodeColumns ++ [⟨"Name", .text⟩, ⟨"age", .int⟩, ⟨"tags", .textArray⟩],
        coreEdgeColumns ++ [⟨"since", .bigint⟩], true) := by decide +kernel
  obtain ⟨s, hs, hfacts⟩ := Option.map_eq_some_iff.mp hfacts
  obtain ⟨hnodes, hfacts⟩ := Prod.mk.inj hfacts
  obtain ⟨hedges, hplain⟩ := Prod.mk.inj hfacts
  have hbuild := Except.eq_ok_of_toOption hs
  have hconforms := conforms_of_build hbuild
  exact ⟨s, hbuild, hconforms, hnodes, hedges, hconforms.labelOrder (by decide +kernel),
    hconforms.typeOrder (by decide +kernel),
    hconforms.readBack (by decide +kernel) (of_decide_eq_true hplain)⟩

end GraphSql.Schema
