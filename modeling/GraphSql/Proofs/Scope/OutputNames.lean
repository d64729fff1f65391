import GraphSql.Proofs.Relational.Constants
import GraphSql.Proofs.Scope.Columns
import GraphSql.Proofs.Scope.Meaning
import GraphSql.Proofs.Scope.Wordy
import GraphSql.Proofs.Script.Mask

/-!
# The names that a select list produces

A select item is written with `AS` and its name, or as a bare reference to a column that has the name
already, letter case apart.  Reading the name back from the text takes what follows the last ` AS `, or
the column of the reference (`Relational.producedName?`).  This gives the name of the item
(`Relational.SelectItem.exists_producedName?`), whatever texts the expression contains: no name has a
blank in it, and only a column is written like a reference
(`Relational.Expr.exists_column_of_referencedColumn?`).

Output names are different, letter case apart, and so are the names that are produced
(`Plan.producesNames_of_ofClauses`).
-/

namespace GraphSql

namespace Relational

/-! ## Reading names back -/

/-- What follows the last occurrence of a mark. -/
def afterLast (mark : List Char) : List Char → Option (List Char)
  | [] => none
  | c :: cs => (afterLast mark cs).or
      (if mark.isPrefixOf (c :: cs) then some ((c :: cs).drop mark.length) else none)

/-- What stands before a name. -/
def asMark : List Char := [' ', 'A', 'S', ' ']

/-- The column of a text that is two words with a point between them. -/
def bareColumn? (cs : List Char) : Option (List Char) :=
  let column := (cs.dropWhile isWordChar).tail
  if (cs.dropWhile isWordChar).head? = some '.' && column.all isWordChar then some column else none

/-- The name of the column that a select item produces. -/
def producedName? (item : String) : Option String :=
  ((afterLast asMark item.toList).or (bareColumn? item.toList)).map String.ofList

theorem afterLast_append {mark cs rest : List Char} (h : afterLast mark cs = some rest) :
    ∀ before : List Char, afterLast mark (before ++ cs) = some rest
  | [] => h
  | c :: before => by
    rw [List.cons_append, afterLast, afterLast_append h before]
    rfl

/-- A text that does not start with a blank has its marks behind the first character. -/
theorem afterLast_cons {c : Char} (hc : c ≠ ' ') (cs : List Char) :
    afterLast asMark (c :: cs) = afterLast asMark cs := by
  rw [afterLast, if_neg, Option.or_none]
  simp [asMark, hc.symm]

theorem afterLast_of_not_mem : ∀ {cs : List Char}, ' ' ∉ cs → afterLast asMark cs = none
  | [], _ => rfl
  | c :: cs, h => by
    rw [afterLast_cons fun he => h (he ▸ List.mem_cons_self)]
    exact afterLast_of_not_mem fun hmem => h (List.mem_cons_of_mem c hmem)

/-- A name without blanks is found behind its mark. -/
theorem afterLast_name {name : List Char} (h : ' ' ∉ name) :
    afterLast asMark (asMark ++ name) = some name := by
  -- the last blank of the mark would need another one behind it
  have hblank : afterLast asMark (' ' :: name) = none := by
    rw [afterLast, afterLast_of_not_mem h, if_neg]
    · rfl
    · intro hprefix
      obtain ⟨rest, hrest⟩ := List.isPrefixOf_iff_prefix.mp hprefix
      exact h ((List.cons.inj hrest).2 ▸ by simp)
  have hinner : afterLast asMark ('A' :: 'S' :: ' ' :: name) = none := by
    rw [afterLast_cons (by decide), afterLast_cons (by decide), hblank]
  have hprefix : asMark.isPrefixOf (asMark ++ name) = true :=
    List.isPrefixOf_iff_prefix.mpr (List.prefix_append _ _)
  calc afterLast asMark (asMark ++ name)
      = (afterLast asMark ('A' :: 'S' :: ' ' :: name)).or
          (if asMark.isPrefixOf (asMark ++ name) then some name else none) := rfl
    _ = some name := by rw [hinner, if_pos hprefix, Option.none_or]

theorem not_mem_blank_of_wordy {name : String} (h : Wordy name) : ' ' ∉ name.toList := fun hmem => by
  have hblank := (not_special_of_isWordChar (h ' ' hmem)).2.2.2
  exact absurd hblank (by decide)

/-- A reference to a column produces the name of the column. -/
theorem producedName?_columnRef {source name : String} (h : WordyRef source name) :
    producedName? (columnRef source name) = some name := by
  have hblank : ' ' ∉ source.toList ++ '.' :: name.toList := by
    simp [not_mem_blank_of_wordy h.1, not_mem_blank_of_wordy h.2]
  have hdrop : (source.toList ++ '.' :: name.toList).dropWhile isWordChar = '.' :: name.toList := by
    rw [List.dropWhile_append_of_pos h.1, List.dropWhile_cons_of_neg (by decide)]
  rw [producedName?, toList_columnRef, afterLast_of_not_mem hblank, Option.none_or, bareColumn?, hdrop,
    if_pos]
  · rw [List.tail_cons, Option.map_some, String.ofList_toList]
  · simpa [Wordy] using h.2

/-! ## References -/

/-- A text with a character that no reference to a column has. -/
def NoReference (s : String) : Prop := ∃ c ∈ s.toList, isReferenceChar c = false

instance (s : String) : Decidable (NoReference s) :=
  List.decidableBEx (fun c => isReferenceChar c = false) s.toList

theorem NoReference.before {s : String} (h : NoReference s) (r : String) : NoReference (s ++ r) := by
  obtain ⟨c, hc, hchar⟩ := h
  exact ⟨c, by rw [String.toList_append]; exact List.mem_append_left _ hc, hchar⟩

theorem NoReference.behind {r : String} (h : NoReference r) (s : String) : NoReference (s ++ r) := by
  obtain ⟨c, hc, hchar⟩ := h
  exact ⟨c, by rw [String.toList_append]; exact List.mem_append_right _ hc, hchar⟩

theorem NoReference.referencedColumn? {s : String} (h : NoReference s) :
    referencedColumn? s.toList = none := by
  obtain ⟨c, hc, hchar⟩ := h
  refine Option.eq_none_iff_forall_ne_some.mpr fun column hcolumn => ?_
  rw [isReferenceChar_of_referencedColumn? hcolumn c hc] at hchar
  cases hchar

/-- A reference has a point. -/
theorem referencedColumn?_of_not_mem {cs : List Char} (h : '.' ∉ cs) :
    referencedColumn? cs = none := by
  refine Option.eq_none_iff_forall_ne_some.mpr fun column hcolumn => ?_
  obtain ⟨source, rest, rfl, -⟩ := exists_of_referencedColumn? hcolumn
  exact h (List.mem_append_right _ List.mem_cons_self)

theorem not_isDigit_of_isColumnStart {c : Char} (h : isColumnStart c = true) : c.isDigit = false := by
  have hident : isIdentifierChar c = true := by
    simp only [isColumnStart, Bool.or_eq_true] at h
    simp only [isIdentifierChar, Char.isAlphanum, Bool.or_eq_true]
    exact h.imp_left .inl
  have hdigit := forall_isIdentifierChar (p := fun c => !isColumnStart c || !c.isDigit)
    (by decide) hident
  simpa [h] using hdigit

/-- A reference does not begin with a digit. -/
theorem UnsignedNumeral.referencedColumn? {cs : List Char} (h : UnsignedNumeral cs) :
    referencedColumn? cs = none := by
  refine Option.eq_none_iff_forall_ne_some.mpr fun column hcolumn => ?_
  obtain ⟨source, rest, rfl, hstart, -⟩ := exists_of_referencedColumn? hcolumn
  obtain ⟨a, hhead, ha⟩ := (Option.any_eq_true _ _).mp hstart
  have hfirst := h.first
  rw [List.head?_append, hhead] at hfirst
  exact absurd hfirst (Bool.eq_false_iff.mp (not_isDigit_of_isColumnStart ha))

theorem Literal.referencedColumn?_render (l : Literal) : referencedColumn? l.render.toList = none := by
  by_cases hconstant : l.isConstant = true
  · rcases Literal.readsAsConstant_render hconstant with (h | ⟨cs, hcs, -⟩) | ⟨t, ht⟩ | h
    · exact h.referencedColumn?
    · exact NoReference.referencedColumn? ⟨'-', by simp [hcs], by decide⟩
    · exact NoReference.referencedColumn?
        ⟨'\'', by rw [ht]; exact List.mem_of_mem_head? (head?_quote t), by decide⟩
    · have hkeywords : ∀ w ∈ ["NULL", "TRUE", "FALSE"], '.' ∉ w.toList := by decide
      exact referencedColumn?_of_not_mem (hkeywords _ h)
  · cases l with
    | number x =>
      cases x with
      | nan => rfl
      | infinite negative => cases negative <;> rfl
      | finite negative m e => exact absurd rfl hconstant
    | array ls =>
      have hopen : NoReference "ARRAY[" := by decide
      rw [Literal.render]
      exact ((hopen.before _).before _).referencedColumn?
    | textArray es =>
      cases es with
      | nil =>
        have hempty : NoReference "ARRAY[]::TEXT[]" := by decide
        rw [Literal.render]
        exact hempty.referencedColumn?
      | cons e es =>
        have hopen : NoReference "ARRAY[" := by decide
        rw [Literal.render]
        exact ((hopen.before _).before _).referencedColumn?
    | _ => exact absurd rfl hconstant

theorem Expr.referencedColumn?_of_left? {e l : Expr} (h : e.left? = some l) :
    referencedColumn? e.render.toList = none := by
  obtain ⟨r, he, hr⟩ := exists_render_of_left? h
  have hblank : NoReference r := ⟨' ', List.mem_of_mem_head? hr, by decide⟩
  rw [he]
  exact (hblank.behind _).referencedColumn?

theorem Expr.referencedColumn?_eq_none {e : Expr} (h : e.All WordyRef Wordy)
    (hcolumn : ∀ source name, e ≠ .column source name) : referencedColumn? e.render.toList = none := by
  cases e with
  | column source name => exact absurd rfl (hcolumn source name)
  | output name => cases h
  | star => rfl
  | literal l => exact l.referencedColumn?_render
  | row es =>
    have hopen : NoReference "ROW(" := by decide
    rw [Expr.render]
    exact ((hopen.before _).before _).referencedColumn?
  | array es =>
    have hopen : NoReference "ARRAY[" := by decide
    rw [Expr.render]
    exact ((hopen.before _).before _).referencedColumn?
  | not e =>
    have hopen : NoReference "NOT (" := by decide
    rw [Expr.render]
    exact ((hopen.before _).before _).referencedColumn?
  | negate e =>
    have hminus : NoReference "-" := by decide
    rw [Expr.render]
    exact (hminus.before _).referencedColumn?
  | binary op l r =>
    have hclose : NoReference ")" := by decide
    rw [Expr.render]
    exact (hclose.behind _).referencedColumn?
  | call f distinct es =>
    have hclose : NoReference ")" := by decide
    rw [Expr.render]
    exact (hclose.behind _).referencedColumn?
  | ifElse c a b =>
    have hend : NoReference " END" := by decide
    rw [Expr.render]
    exact (hend.behind _).referencedColumn?
  | _ => exact referencedColumn?_of_left? rfl

/-- **Only a column is written as a reference to one.** -/
theorem Expr.exists_column_of_referencedColumn? {e : Expr} (h : e.All WordyRef Wordy)
    {column : List Char} (hcolumn : referencedColumn? e.render.toList = some column) :
    ∃ source, e = .column source (String.ofList column) := by
  by_cases he : ∃ source name, e = .column source name
  · obtain ⟨source, name, rfl⟩ := he
    obtain ⟨source', rest, htext, -, -, -, hrest⟩ := exists_of_referencedColumn? hcolumn
    have hpoint : ∀ {x : String}, Wordy x → '.' ∉ x.toList := fun hx hmem =>
      absurd (hx '.' hmem) (by decide)
    rw [Expr.render, toList_columnRef] at htext
    obtain ⟨-, -, hname⟩ :=
      (List.append_cons_inj_of_notMem (hpoint h.1) (hpoint h.2)).mp htext
    refine ⟨source, congrArg _ (String.toList_inj.mp ?_)⟩
    -- a name does not end with a line end
    rcases hrest with rfl | rfl
    · rw [String.toList_ofList, hname, List.append_nil]
    · exact absurd (h.2 '\n' (by simp [hname])) (by decide)
  · rw [referencedColumn?_eq_none h fun source name heq => he ⟨source, name, heq⟩] at hcolumn
    cases hcolumn

/-- **A select item produces its name**, letter case apart. -/
theorem SelectItem.exists_producedName? {i : SelectItem} (h : i.expr.All WordyRef Wordy)
    (hname : Wordy i.name) :
    ∃ produced, producedName? i.render = some produced ∧ Text.lower produced = Text.lower i.name := by
  have has : producedName? (i.expr.render ++ " AS " ++ i.name) = some i.name := by
    have htext : (i.expr.render ++ " AS " ++ i.name).toList =
        i.expr.render.toList ++ (asMark ++ i.name.toList) := by
      rw [String.toList_append, String.toList_append, List.append_assoc]
      rfl
    rw [producedName?, htext,
      afterLast_append (afterLast_name (not_mem_blank_of_wordy hname)) i.expr.render.toList,
      Option.some_or, Option.map_some, String.ofList_toList]
  unfold SelectItem.render asItem
  split
  · rename_i column hcolumn
    split
    · rename_i hsame
      obtain ⟨source, he⟩ := Expr.exists_column_of_referencedColumn? h hcolumn
      rw [he] at h ⊢
      exact ⟨String.ofList column, producedName?_columnRef h, eq_of_beq hsame⟩
    · exact ⟨i.name, has, rfl⟩
  · exact ⟨i.name, has, rfl⟩

end Relational

/-! ## Plans -/

open Relational (producedName?)

/-- Columns whose names are words are written as select items that produce these names. -/
theorem exists_producedNames : ∀ {cs : List ResultColumn},
    (∀ c ∈ cs, c.expr.All WordyRef Wordy ∧ Wordy c.name) →
    ∃ produced : List String, (cs.map fun c => producedName? c.item.render) = produced.map some ∧
      produced.map Text.lower = cs.map fun c => Text.lower c.name
  | [], _ => ⟨[], rfl, rfl⟩
  | c :: cs, h => by
    obtain ⟨produced, hproduced, hnames⟩ :=
      exists_producedNames fun d hd => h d (List.mem_cons_of_mem c hd)
    obtain ⟨hexpr, hword⟩ := h c List.mem_cons_self
    obtain ⟨name, hname, hlower⟩ := Relational.SelectItem.exists_producedName? (i := c.item) hexpr hword
    refine ⟨name :: produced, ?_, ?_⟩
    · rw [List.map_cons, List.map_cons, hname, hproduced]
    · rw [List.map_cons, List.map_cons, hlower, hnames]
      rfl

namespace Plan

/-- The select list has one item for each output column, in their order; and the names that the items
produce are those of the columns and different from each other, both letter case apart. -/
structure ProducesNames (p : Plan) : Prop where
  items : p.select.items = p.projection.map ResultColumn.item
  names : (p.projection.map fun c => Text.lower c.name).Nodup
  produced : ∃ produced : List String,
    (p.select.items.map fun i => producedName? i.render) = produced.map some ∧
      (produced.map Text.lower = p.projection.map fun c => Text.lower c.name) ∧
      (produced.map Text.lower).Nodup

/-- **The select statement of a plan produces the names of the output columns, all of them
different.** -/
theorem producesNames_of_ofClauses {schema : Schema} {relations : List (String × Relation)}
    {ms : List Query.Matching} {p : Query.Projection} {plan : Plan} (hschema : schema.WordyNames)
    (hrelations : ∀ r ∈ relations, r.2.WordyNames) (hms : ∀ m ∈ ms, m.Named Wordy)
    (hp : p.Named Wordy) (h : Plan.ofClauses schema relations ms p = .ok plan) :
    plan.ProducesNames := by
  have hwordy := Plan.wordyNames_ofClauses hschema hrelations hms hp h
  have hdistinct := (Plan.distinct_projection h).names
  have hitems := Plan.items_eq_of_ofClauses h
  have hcolumns : ∀ c ∈ plan.projection, c.expr.All WordyRef Wordy ∧ Wordy c.name := fun c hc =>
    hwordy.select.items c.item (hitems ▸ List.mem_map_of_mem hc)
  obtain ⟨produced, hproduced, hnames⟩ := exists_producedNames hcolumns
  refine ⟨hitems, hdistinct, produced, ?_, hnames, hnames ▸ hdistinct⟩
  simp only [hitems, List.map_map, Function.comp_def]
  exact hproduced

/-- A table with the id and the label of a node `n`. -/
def keptNode : Relation where
  name := "temp_1"
  columns := [{ name := "id", expr := .column "n" "id", scopeName := some "n", key := some "id" },
    { name := "Label", expr := .column "n" "label", scopeName := some "n", key := some "label" }]

/-- The clause `MATCH (n), (m)`. -/
def pairClauses : List Query.Matching :=
  [⟨[⟨{ name := some "n" }, []⟩, ⟨{ name := some "m" }, []⟩], none⟩]

/-- The items `n.id AS ID, n, n.label, n.label AS n_label, m.id`, which ask for names more than once. -/
def clashingItems : List Query.ReturnItem :=
  [⟨.property (.var "n") "id", some "ID"⟩, ⟨.var "n", none⟩, ⟨.property (.var "n") "label", none⟩,
    ⟨.property (.var "n") "label", some "n_label"⟩, ⟨.property (.var "m") "id", none⟩]

theorem producesNames_of_ofClauses_clashing :
    friendsSchema.WordyNames ∧ keptNode.WordyNames ∧
      ∃ plan, Plan.ofClauses friendsSchema [("n", keptNode)] pairClauses { items := clashingItems } =
          .ok plan ∧
        plan.select.items.map Relational.SelectItem.render =
          ["n.id", "n.id AS n_id", "n.Label AS n_label", "n.Label", "n.Label AS n_label_2",
            "m.id AS id_2"] ∧
        plan.ProducesNames := by
  have hschema : friendsSchema.WordyNames := by
    refine ⟨nofun, ?_, ?_, ?_⟩ <;> (unfold WordyColumns; decide)
  have hn : Wordy "n" := by decide
  have hm : Wordy "m" := by decide
  have hid : Wordy "id" := by decide
  have hlabel : Wordy "label" := by decide
  have hkept : keptNode.WordyNames := by
    refine ⟨by decide, fun c hc => ?_⟩
    rcases List.mem_pair.mp hc with rfl | rfl
    · exact ⟨by decide, by rintro _ ⟨⟩; decide, nofun⟩
    · exact ⟨by decide, by rintro _ ⟨⟩; decide, nofun⟩
  have hclauses : ∀ m ∈ pairClauses, m.Named Wordy := by
    intro clause hclause
    obtain rfl := List.mem_singleton.mp hclause
    refine ⟨fun q hq => ?_, nofun⟩
    rcases List.mem_pair.mp hq with rfl | rfl
    · exact ⟨⟨by rintro _ ⟨⟩; exact hn, nofun, nofun⟩, nofun⟩
    · exact ⟨⟨by rintro _ ⟨⟩; exact hm, nofun, nofun⟩, nofun⟩
  have hprojection : Query.Projection.Named Wordy { items := clashingItems } := by
    refine ⟨fun i hi => ?_, nofun, nofun, nofun⟩
    simp only [clashingItems, List.mem_cons, List.not_mem_nil, or_false] at hi
    rcases hi with rfl | rfl | rfl | rfl | rfl
    · exact ⟨⟨hn, hid⟩, by rintro _ ⟨⟩; decide⟩
    · exact ⟨hn, nofun⟩
    · exact ⟨⟨hn, hlabel⟩, nofun⟩
    · exact ⟨⟨hn, hlabel⟩, by rintro _ ⟨⟩; decide⟩
    · exact ⟨⟨hm, hid⟩, nofun⟩
  have htexts : (Plan.ofClauses friendsSchema [("n", keptNode)] pairClauses
      { items := clashingItems }).toOption.map
        (fun plan => plan.select.items.map Relational.SelectItem.render) =
      some ["n.id", "n.id AS n_id", "n.Label AS n_label", "n.Label", "n.Label AS n_label_2",
        "m.id AS id_2"] := by decide +kernel
  obtain ⟨plan, hplan, htexts⟩ := Option.map_eq_some_iff.mp htexts
  have hplan := Except.eq_ok_of_toOption hplan
  exact ⟨hschema, hkept, plan, hplan, htexts, producesNames_of_ofClauses hschema
    (by simpa using hkept) hclauses hprojection hplan⟩

end Plan

end GraphSql
