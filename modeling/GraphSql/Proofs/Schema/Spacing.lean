import GraphSql.Proofs.Schema.TableNames

/-!
# Blanks around the commas of labels

A text names several labels with commas between them, and there may be blanks around the commas
(`Spaced`).  Which labels these are does not depend on the blanks (`Spaced.key_eq`), so two schemas that
differ only in such blanks (`Schema.Respaced`) map the same labels.  The name of the table does depend on
them: it is the labels in small letters, joined by underscores, just when a single space follows each
comma and nothing else stands between the labels (`Spaced.table_iff`).
-/

namespace GraphSql.Schema

variable {names : List String} {e : LabelTable} {text : List Char} {x : String} {s t : Schema}
  {es fs : List LabelTable} {c : Char}

/-- Labels one after the other, with commas between them and any blanks around the commas.  Each label
is an identifier. -/
structure Spaced (names : List String) (text : String) : Prop where
  labels : ∀ x ∈ names, x ≠ "" ∧ Identifier x
  listed : Text.Listed ',' (names.map String.toList) text.toList

/-! ## The labels of a text -/

theorem identifier_facts (h : Identifier x) : ',' ∉ x.toList ∧ Text.Trimmed x.toList := by
  refine ⟨fun hmem => absurd (h ',' hmem) (by decide), Text.trimmed_of_dark fun c hc => ?_⟩
  exact (not_special_of_isWordChar (isWordChar_of_isIdentifierChar (h c hc))).2.2.2

/-- **The labels of a text do not depend on the blanks around its commas.** -/
theorem Spaced.key_eq {text : String} (h : Spaced names text) :
    (LabelRef.text text).key = names.map Text.lower := by
  have hkeep : names.filter (· ≠ "") = names :=
    List.filter_eq_self.mpr fun x hx => decide_eq_true (h.labels x hx).1
  rw [LabelRef.key, LabelRef.parts, Text.map_trim_splitAt (by decide) h.listed, hkeep]

/-! ## The name of the table -/

/-- Neither blanks nor commas have another small form. -/
theorem lowerChar_of_isBlank (h : Text.isBlank c = true ∨ c = ',') :
    c ≠ 'Σ' ∧ Text.lowerChar c = [c] := by
  rcases h with h | rfl
  · have hranges : ∀ r ∈ Text.blanks, ∀ k < r.2 + 1 - r.1,
        Char.ofNat (r.1 + k) ≠ 'Σ' ∧ Text.lowerChar (Char.ofNat (r.1 + k)) = [Char.ofNat (r.1 + k)] := by
      decide +kernel
    rw [Text.isBlank, Text.Ranges.covers, List.any_eq_true] at h
    obtain ⟨r, hr, hc⟩ := h
    rw [Bool.and_eq_true, decide_eq_true_eq, decide_eq_true_eq] at hc
    have hfacts := hranges r hr (c.toNat - r.1) (by omega)
    rwa [Nat.add_sub_cancel' hc.1, Char.ofNat_toNat] at hfacts
  · decide +kernel

theorem mem_lowerAfter (hc : c ≠ 'Σ' ∧ Text.lowerChar c = [c]) {cs : List Char} (h : c ∈ cs) :
    ∀ before, c ∈ Text.lowerAfter before cs := by
  induction cs with
  | nil => cases h
  | cons d cs ih =>
    intro before
    rw [Text.lowerAfter, List.mem_append]
    rcases List.mem_cons.mp h with rfl | h
    · rw [if_neg hc.1, hc.2]
      exact .inl (List.mem_singleton_self c)
    · exact .inr (ih h _)

/-- What neither changes when commas become underscores nor has another small form is in the name of the
table. -/
theorem mem_table (hc : c ≠ 'Σ' ∧ Text.lowerChar c = [c]) (h : c ∈ joinLabels e.text.toList) :
    c ∈ e.table.toList := by
  rw [LabelTable.table, Text.lower, String.toList_ofList, String.toList_ofList]
  exact mem_lowerAfter hc h []

/-- A character of a list is one of the separators, one of the blanks around them or one of a piece. -/
theorem mem_of_listed {pieces : List (List Char)} (h : Text.Listed ',' pieces text) (hc : c ∈ text) :
    (Text.isBlank c = true ∨ c = ',') ∨ ∃ piece ∈ pieces, c ∈ piece := by
  induction h with
  | single _ _ => exact .inr ⟨_, List.mem_cons_self, hc⟩
  | cons _ _ hbefore hafter _ ih =>
    rw [List.mem_append, List.mem_append, List.mem_cons, List.mem_append] at hc
    rcases hc with hc | hc | hc | hc | hc
    · exact .inr ⟨_, List.mem_cons_self, hc⟩
    · exact .inl (.inl (hbefore c hc))
    · exact .inl (.inr hc)
    · exact .inl (.inl (hafter c hc))
    · refine (ih hc).imp id fun hpiece => ?_
      obtain ⟨piece, hpiece, hc⟩ := hpiece
      exact ⟨piece, List.mem_cons_of_mem _ hpiece, hc⟩

theorem ne_nil_of_listed (h : Text.Listed ',' (names.map String.toList) text) : names ≠ [] := by
  rintro rfl
  cases h

/-- A list of labels starts with a character of a label. -/
theorem exists_head_of_listed (hnames : ∀ x ∈ names, x ≠ "" ∧ Identifier x)
    (h : Text.Listed ',' (names.map String.toList) text) :
    ∃ x ∈ names, ∃ c ∈ x.toList, text.head? = some c := by
  obtain ⟨x, names, rfl⟩ := List.exists_cons_of_ne_nil (ne_nil_of_listed h)
  obtain ⟨c, cs, hx⟩ : ∃ c cs, x.toList = c :: cs := by
    refine List.exists_cons_of_ne_nil fun hnil => (hnames x List.mem_cons_self).1 ?_
    exact String.toList_eq_nil_iff.mp hnil
  refine ⟨x, List.mem_cons_self, c, hx ▸ List.mem_cons_self, ?_⟩
  rw [List.map_cons, hx] at h
  generalize names.map String.toList = pieces at h
  cases h with
  | single _ _ => rfl
  | cons _ _ _ _ _ => rfl

/-- Underscores take the place of commas with a space. -/
theorem joinLabels_join (h : ∀ x ∈ names, ',' ∉ x.toList) :
    joinLabels (Text.join ", " names).toList = (Text.join "_" names).toList := by
  induction names with
  | nil => rfl
  | cons x names ih =>
    have hx := h x List.mem_cons_self
    cases names with
    | nil =>
      have hjoined := joinLabels_append hx []
      rwa [List.append_nil, joinLabels, List.append_nil] at hjoined
    | cons y names =>
      have hrest := ih fun z hz => h z (List.mem_cons_of_mem x hz)
      have hsep : (", " : String).toList = [',', ' '] := by decide
      rw [Text.toList_join_cons, Text.toList_join_cons, joinLabels_append hx, hsep, List.cons_append,
        List.cons_append, List.nil_append, joinLabels, hrest]
      rfl

/-- Only a comma with a space behind it, and no other blanks around it, makes a word. -/
theorem spacing_of_joinLabels {before after rest : List Char}
    (hbefore : ∀ c ∈ before, Text.isBlank c = true) (hafter : ∀ c ∈ after, Text.isBlank c = true)
    (hrest : rest.head? ≠ some ' ')
    (hword : ∀ c ∈ joinLabels (before ++ ',' :: (after ++ rest)), isIdentifierChar c = true) :
    before = [] ∧ after = [' '] ∧ ∀ c ∈ joinLabels rest, isIdentifierChar c = true := by
  have hblank : ∀ {cs : List Char}, (∀ c ∈ cs, Text.isBlank c = true) →
      (∀ c ∈ cs, isIdentifierChar c = true) → cs = [] := by
    intro cs hcs hall
    refine List.eq_nil_iff_forall_not_mem.mpr fun c hc => ?_
    have hdark := (not_special_of_isWordChar (isWordChar_of_isIdentifierChar (hall c hc))).2.2.2
    rw [hcs c hc] at hdark
    cases hdark
  have hcomma : ∀ {cs : List Char}, (∀ c ∈ cs, Text.isBlank c = true) → ',' ∉ cs :=
    fun hcs hmem => absurd (hcs ',' hmem) (by decide)
  rw [joinLabels_append (hcomma hbefore)] at hword
  obtain rfl := hblank hbefore fun c hc => hword c (List.mem_append_left _ hc)
  -- a comma with no space behind it would stay
  obtain ⟨spaced, hspace⟩ : ∃ spaced, after ++ rest = ' ' :: spaced := by
    by_contra hnone
    rw [List.nil_append, joinLabels_cons fun spaced _ hspace => hnone ⟨spaced, hspace⟩] at hword
    exact absurd (hword ',' List.mem_cons_self) (by decide)
  cases after with
  | nil =>
    rw [List.nil_append] at hspace
    exact absurd (congrArg List.head? hspace) hrest
  | cons c after =>
    rw [List.cons_append, List.cons.injEq] at hspace
    obtain ⟨rfl, -⟩ := hspace
    have hmore : ∀ c ∈ after, Text.isBlank c = true := fun c hc => hafter c (List.mem_cons_of_mem _ hc)
    rw [List.nil_append, List.cons_append, joinLabels, joinLabels_append (hcomma hmore)] at hword
    obtain rfl := hblank hmore fun c hc =>
      hword c (List.mem_cons_of_mem _ (List.mem_append_left _ hc))
    exact ⟨rfl, rfl, fun c hc => hword c (List.mem_cons_of_mem _ hc)⟩

/-- Only labels with a comma and a space between each two of them make a word when underscores take the
place of these. -/
theorem eq_join_of_joinLabels (h : ∀ x ∈ names, x ≠ "" ∧ Identifier x)
    (hlisted : Text.Listed ',' (names.map String.toList) text)
    (hword : ∀ c ∈ joinLabels text, isIdentifierChar c = true) :
    text = (Text.join ", " names).toList := by
  generalize hpieces : names.map String.toList = pieces at hlisted
  induction hlisted generalizing names with
  | single _ _ =>
    obtain ⟨x, rfl, rfl⟩ := List.map_eq_singleton_iff.mp hpieces
    rfl
  | @cons piece before after rest pieces hpiece _ hbefore hafter hrest ih =>
    obtain ⟨x, names, rfl, rfl, rfl⟩ := List.map_eq_cons_iff.mp hpieces
    have hlabels : ∀ y ∈ names, y ≠ "" ∧ Identifier y := fun y hy => h y (List.mem_cons_of_mem x hy)
    have hhead : rest.head? ≠ some ' ' := by
      obtain ⟨y, hy, c, hc, hhead⟩ := exists_head_of_listed hlabels hrest
      rintro hspace
      obtain rfl := Option.some.inj (hhead.symm.trans hspace)
      exact absurd ((hlabels y hy).2 ' ' hc) (by decide)
    rw [joinLabels_append hpiece] at hword
    obtain ⟨rfl, rfl, hmore⟩ := spacing_of_joinLabels hbefore hafter hhead fun c hc =>
      hword c (List.mem_append_right _ hc)
    obtain ⟨y, names, rfl⟩ := List.exists_cons_of_ne_nil (ne_nil_of_listed hrest)
    rw [Text.toList_join_cons, ← ih hlabels hmore rfl]
    rfl

theorem lower_append {y : String} (hx : ∀ c ∈ x.toList, c.toNat < 128)
    (hy : ∀ c ∈ y.toList, c.toNat < 128) : Text.lower (x ++ y) = Text.lower x ++ Text.lower y := by
  have hxy : ∀ c ∈ (x ++ y).toList, c.toNat < 128 := by
    intro c hc
    rw [String.toList_append, List.mem_append] at hc
    exact hc.elim (hx c) (hy c)
  rw [← String.toList_inj, String.toList_append, Text.toList_lower hxy, Text.toList_lower hx,
    Text.toList_lower hy, folded_append]

theorem identifier_join (h : ∀ x ∈ names, Identifier x) : Identifier (Text.join "_" names) := by
  intro c hc
  rcases Text.mem_join hc with hc | ⟨x, hx, hc⟩
  · obtain rfl := List.mem_singleton.mp hc
    decide
  · exact h x hx c hc

theorem identifier_lower (h : Identifier x) : Identifier (Text.lower x) := by
  intro c hc
  rw [Text.toList_lower fun d hd => ascii_of_isIdentifierChar (h d hd), folded] at hc
  obtain ⟨d, hd, rfl⟩ := List.mem_map.mp hc
  exact forall_isIdentifierChar (p := fun d => isIdentifierChar d.toLower) (by decide +kernel) (h d hd)

theorem lower_join (h : ∀ x ∈ names, Identifier x) :
    Text.lower (Text.join "_" names) = Text.join "_" (names.map Text.lower) := by
  have hascii : ∀ {x : String}, Identifier x → ∀ c ∈ x.toList, c.toNat < 128 :=
    fun hx c hc => ascii_of_isIdentifierChar (hx c hc)
  induction names with
  | nil => rfl
  | cons x names ih =>
    have hx := h x List.mem_cons_self
    have hnames : ∀ y ∈ names, Identifier y := fun y hy => h y (List.mem_cons_of_mem x hy)
    cases names with
    | nil => rfl
    | cons y names =>
      have hunderscore : Identifier "_" := by decide
      have hfront : Identifier (x ++ "_") := by
        intro c hc
        rw [String.toList_append, List.mem_append] at hc
        exact hc.elim (hx c) (hunderscore c)
      rw [Text.join, lower_append (hascii hfront) (hascii (identifier_join hnames)),
        lower_append (hascii hx) (hascii hunderscore), ih hnames]
      rfl

/-- **The name of the table of labels depends on the blanks around the commas.**  It is the labels in
small letters, joined by underscores, just when there is a space after each comma and no other blank; and
otherwise it is no identifier. -/
theorem Spaced.table_iff (h : Spaced names e.text) :
    (e.table = Text.join "_" (names.map Text.lower) ↔ e.text = Text.join ", " names) ∧
      (Identifier e.table ↔ e.text = Text.join ", " names) := by
  have hnames : ∀ x ∈ names, Identifier x := fun x hx => (h.labels x hx).2
  have hjoined : e.text = Text.join ", " names → e.table = Text.join "_" (names.map Text.lower) := by
    intro htext
    rw [LabelTable.table, htext, joinLabels_join fun x hx => (identifier_facts (hnames x hx)).1,
      String.ofList_toList, lower_join hnames]
  have hword : e.table = Text.join "_" (names.map Text.lower) → Identifier e.table := by
    intro htable
    rw [htable]
    refine identifier_join fun x hx => ?_
    obtain ⟨y, hy, rfl⟩ := List.mem_map.mp hx
    exact identifier_lower (hnames y hy)
  have htext : Identifier e.table → e.text = Text.join ", " names := by
    intro hidentifier
    refine String.toList_inj.mp (eq_join_of_joinLabels h.labels h.listed fun c hc => ?_)
    -- what is no character of a word has no small form and stays
    rcases mem_of_mem_joinLabels hc with rfl | hmem
    · decide
    · rcases mem_of_listed h.listed hmem with hmark | ⟨piece, hpiece, hmem⟩
      · exact hidentifier c (mem_table (lowerChar_of_isBlank hmark) hc)
      · obtain ⟨x, hx, rfl⟩ := List.mem_map.mp hpiece
        exact hnames x hx c hmem
  exact ⟨⟨fun htable => htext (hword htable), hjoined⟩, htext, fun h => hword (hjoined h)⟩

/-! ## Schemas that differ in such blanks -/

/-- Two texts that differ at most in the blanks around the commas between labels. -/
def TextRespaced (text text' : String) : Prop :=
  text = text' ∨ ∃ names, Spaced names text ∧ Spaced names text'

/-- Two entries that differ only in the blanks around the commas of their labels. -/
structure LabelTable.Respaced (e f : LabelTable) : Prop where
  text : TextRespaced e.text f.text
  columns : e.columns = f.columns

/-- Two schemas that differ only in the blanks around the commas of labels. -/
structure Respaced (s t : Schema) : Prop where
  labels : List.Forall₂ LabelTable.Respaced s.labelTables t.labelTables
  types : s.typeTables = t.typeTables
  nodes : s.nodeColumns = t.nodeColumns
  edges : s.edgeColumns = t.edgeColumns

/-- Two declarations that differ only in the blanks around the commas of labels. -/
structure Declaration.Respaced (d d' : Declaration) : Prop where
  labels : List.Forall₂ (fun l m => TextRespaced l.1 m.1 ∧ l.2 = m.2) d.labels d'.labels
  types : d.types = d'.types
  nodes : d.nodeColumns = d'.nodeColumns
  edges : d.edgeColumns = d'.edgeColumns

theorem TextRespaced.key_eq {text text' : String} (h : TextRespaced text text') :
    (LabelRef.text text).key = (LabelRef.text text').key := by
  rcases h with rfl | ⟨names, h, h'⟩
  · rfl
  · rw [h.key_eq, h'.key_eq]

theorem putLabel_respaced (h : List.Forall₂ LabelTable.Respaced es fs) {f : LabelTable}
    (hef : e.Respaced f) : List.Forall₂ LabelTable.Respaced (putLabel es e) (putLabel fs f) := by
  refine forall₂_putBy hef (fun a b hab => ?_) h
  rw [LabelRef.same, LabelRef.same, hab.text.key_eq, hef.text.key_eq]

theorem foldl_putLabel_respaced (h : List.Forall₂ LabelTable.Respaced es fs) :
    ∀ {kept kept' : List LabelTable}, List.Forall₂ LabelTable.Respaced kept kept' →
      List.Forall₂ LabelTable.Respaced (es.foldl putLabel kept) (fs.foldl putLabel kept') := by
  induction h with
  | nil => exact id
  | cons hef _ ih => exact fun hkept => ih (putLabel_respaced hkept hef)

theorem ofEntries_respaced (h : List.Forall₂ LabelTable.Respaced es fs) (types : List TypeTable)
    (nodes edges : Option (List Column)) :
    (ofEntries es types nodes edges).Respaced (ofEntries fs types nodes edges) := by
  refine ⟨h, rfl, ?_, rfl⟩
  have hcolumns : es.map LabelTable.columns = fs.map LabelTable.columns := by
    rw [← List.forall₂_eq_eq_eq, List.forall₂_map_left_iff, List.forall₂_map_right_iff]
    exact h.imp fun _ _ hef => hef.columns
  simp only [ofEntries, hcolumns]

/-- **Declarations that differ only in blanks around commas give schemas that do**, or fail in the same
way. -/
theorem related_build {d d' : Declaration} (h : d.Respaced d') :
    Except.Related Eq Respaced (build d) (build d') := by
  have hentry : ∀ l m : String × Definition, TextRespaced l.1 m.1 ∧ l.2 = m.2 →
      Except.Related Eq LabelTable.Respaced
        (do return LabelTable.mk l.1 (Column.merge [[idColumn], ← l.2.read]))
        (do return LabelTable.mk m.1 (Column.merge [[idColumn], ← m.2.read])) := by
    rintro ⟨text, definition⟩ ⟨text', _⟩ ⟨htext, rfl⟩
    refine (Except.Related.refl (fun _ => rfl) (fun _ => rfl) definition.read).bind ?_
    rintro columns _ rfl
    exact .ok ⟨htext, rfl⟩
  have hsame : ∀ {α : Type} (x : Except DefinitionError α), Except.Related Eq Eq x x :=
    fun x => .refl (fun _ => rfl) (fun _ => rfl) x
  rw [build, build, ← h.types, ← h.nodes, ← h.edges]
  refine (Except.Related.mapM hentry h.labels).bind fun es fs hes => ?_
  refine (hsame _).bind ?_
  rintro types _ rfl
  refine (hsame _).bind ?_
  rintro nodes _ rfl
  refine (hsame _).bind ?_
  rintro edges _ rfl
  exact .ok (ofEntries_respaced (foldl_putLabel_respaced hes .nil) _ _ _)

/-- **The same labels are mapped**, to tables with the same columns. -/
theorem Respaced.rel_labelTable? (h : s.Respaced t) (l : LabelRef) :
    Option.Rel LabelTable.Respaced (s.labelTable? l) (t.labelTable? l) :=
  h.labels.rel_find? fun e f hef => by rw [LabelRef.same, LabelRef.same, hef.text.key_eq]

theorem Respaced.related_labelTable (h : s.Respaced t) (l : LabelRef) :
    Except.Related Eq LabelTable.Respaced (s.labelTable l) (t.labelTable l) := by
  have hrel := h.rel_labelTable? l
  rw [labelTable, labelTable]
  generalize s.labelTable? l = a at hrel ⊢
  generalize t.labelTable? l = b at hrel ⊢
  cases hrel with
  | none => exact .error rfl
  | some hef => exact .ok hef

/-! ## The tables of both schemas -/

/-- Every table of labels has the name that the blanks around their commas give it: the labels in small
letters, joined by underscores, or no identifier. -/
def NamedBySpacing (s : Schema) : Prop :=
  ∀ l e names, s.labelTable l = .ok e → Spaced names e.text →
    (e.table = Text.join "_" (names.map Text.lower) ↔ e.text = Text.join ", " names) ∧
      (Identifier e.table ↔ e.text = Text.join ", " names)

/-- The tables that the same labels are mapped to, and the tables of all nodes and of all edges. -/
inductive SameTable (s t : Schema) : String → String → Prop
  | nodes : SameTable s t nodesTable nodesTable
  | edges : SameTable s t edgesTable edgesTable
  | labels {l : LabelRef} {e f : LabelTable} (he : s.labelTable l = .ok e)
      (hf : t.labelTable l = .ok f) : SameTable s t e.table f.table

/-- The columns that are found under the names of these tables are the same. -/
def SameColumns (s t : Schema) : Prop :=
  ∀ l e f, s.labelTable l = .ok e → t.labelTable l = .ok f →
    s.columnsOfTable e.table = t.columnsOfTable f.table

/-- The tables that labels are mapped to have the same name. -/
def SameName (s t : Schema) (ls : List String) : Prop :=
  ∀ e f, s.labelTable (.names ls) = .ok e → t.labelTable (.names ls) = .ok f → e.table = f.table

/-- **Where the names of tables identify tables, the same columns are found.** -/
theorem Respaced.sameColumns (h : s.Respaced t) (hs : s.TablesIdentified) (ht : t.TablesIdentified) :
    s.SameColumns t := by
  intro l e f he hf
  have hrel := h.related_labelTable l
  rw [he, hf] at hrel
  cases hrel with
  | ok hef => rw [hs.columns l e he, ht.columns l f hf, hef.columns]

theorem Respaced.columnsOfTable_eq (h : s.Respaced t) (hcolumns : s.SameColumns t) {y : String}
    (hxy : s.SameTable t x y) : s.columnsOfTable x = t.columnsOfTable y := by
  cases hxy with
  | nodes => exact congrArg Except.ok h.nodes
  | edges => exact congrArg Except.ok h.edges
  | labels he hf => exact hcolumns _ _ _ he hf

/-- A comma stays or becomes an underscore. -/
theorem mem_joinLabels_of_comma {cs : List Char} (h : ',' ∈ cs) :
    ',' ∈ joinLabels cs ∨ '_' ∈ joinLabels cs := by
  induction cs using joinLabels.induct with
  | case1 => cases h
  | case2 cs ih => exact .inr List.mem_cons_self
  | case3 c cs hne ih =>
    rw [joinLabels_cons hne, List.mem_cons, List.mem_cons]
    rcases List.mem_cons.mp h with rfl | h
    · exact .inl (.inl rfl)
    · exact (ih h).imp .inr .inr

theorem table_ne_edgesTable (h : ',' ∈ e.text.toList) : e.table ≠ edgesTable := by
  intro htable
  have hkept : ',' ∉ edgesTable.toList ∧ '_' ∉ edgesTable.toList := by decide
  rw [← htable] at hkept
  rcases mem_joinLabels_of_comma h with hc | hc
  · exact hkept.1 (mem_table (lowerChar_of_isBlank (.inr rfl)) hc)
  · exact hkept.2 (mem_table (by decide +kernel) hc)

/-- A single label leaves no room for blanks, and several have a comma. -/
theorem LabelTable.Respaced.table_eq_edgesTable_iff {f : LabelTable} (h : e.Respaced f) :
    e.table = edgesTable ↔ f.table = edgesTable := by
  have hsame : e.text = f.text → (e.table = edgesTable ↔ f.table = edgesTable) := by
    intro htext
    rw [table, table, htext]
  have hcomma : ∀ {x y : String} {names : List String} {text : List Char},
      Text.Listed ',' ((x :: y :: names).map String.toList) text → ',' ∈ text := by
    intro x y names text hlisted
    rw [List.map_cons, List.map_cons] at hlisted
    cases hlisted with
    | cons _ _ _ _ _ => exact List.mem_append_right _ (List.mem_append_right _ List.mem_cons_self)
  have hsingle : ∀ {x : String} {text : List Char},
      Text.Listed ',' ([x].map String.toList) text → text = x.toList := by
    intro x text hlisted
    rw [List.map_singleton] at hlisted
    cases hlisted with
    | single _ _ => rfl
    | cons _ _ _ _ hrest => cases hrest
  rcases h.text with htext | ⟨names, hnames, hnames'⟩
  · exact hsame htext
  · obtain ⟨x, names, rfl⟩ := List.exists_cons_of_ne_nil (ne_nil_of_listed hnames.listed)
    cases names with
    | nil =>
      exact hsame (String.toList_inj.mp ((hsingle hnames.listed).trans (hsingle hnames'.listed).symm))
    | cons y names =>
      exact iff_of_false (table_ne_edgesTable (hcomma hnames.listed))
        (table_ne_edgesTable (hcomma hnames'.listed))

end GraphSql.Schema
