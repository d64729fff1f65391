import GraphSql.Proofs.Script.CommentReader
import GraphSql.Proofs.Script.Reader

/-!
# Texts that are put together from parts

Statements are printed from trees: words, constants and fixed texts are put one after the other.
`Printing` collects what a property of texts has to satisfy to hold along the way, for any tree whose
names are words.  The property comes in two forms: behind a text with `R` another part can follow at
once, behind one with `F` a fixed text has to come first, as behind a quoted text.

The induction is over the tree; each case puts its pieces together from left to right.

* `Printing.literal`, `Printing.expr`: constants and expressions.
* `Printing.body`: select statements without their semicolon.
* `Printing.write`: writes without their semicolon.
-/

namespace GraphSql.Relational

variable {s t : String}

/-- A text that is not empty, in which nothing is opened and behind which nothing is left open. -/
def Fixed (t : String) : Prop := plainText t = true ∧ Clear .line t ∧ Clear .block t

instance (t : String) : Decidable (Fixed t) := inferInstanceAs (Decidable (_ ∧ _))

/-- An operator has blanks on both sides. -/
theorem fixed_binaryOp (op : Query.BinaryOp) : Fixed (" " ++ op.text ++ " ") := by
  cases op <;> decide

theorem fixed_comparator (op : Comparator) : Fixed (" " ++ op.text ++ " ") := by
  cases op <;> decide

/-- What a property of texts has to satisfy to hold of printed trees.  Under the condition `S` a minus
sign cannot stand before a text that starts with one. -/
structure Printing (S : Prop) (R F : String → Prop) : Prop where
  empty : R ""
  free {s : String} : R s → F s
  word {s t : String} : R s → Wordy t → R (s ++ t)
  text {s t : String} : F s → Fixed t → R (s ++ t)
  part {s t : String} : R s → F t → F (s ++ t)
  signed {s : String} : F s → (S → Unsigned s) → F ("-" ++ s)
  quote (s : String) : F (quote s)
  integer (n : Int) : F (Numeral.integer n)
  number (x : Binary64) : F x.render

namespace Printing

variable {S : Prop} {R F : String → Prop}

section Parts

variable (k : Printing S R F)

include k

theorem ofFixed (h : Fixed t) : R t := by
  simpa only [String.empty_append] using k.text (k.free k.empty) h

theorem ofWord (h : Wordy t) : R t := by
  simpa only [String.empty_append] using k.word k.empty h

/-- Parts with a text between them. -/
theorem join {sep : String} (hsep : Fixed sep) :
    ∀ {ss : List String}, (∀ s ∈ ss, F s) → F (Text.join sep ss)
  | [], _ => k.free k.empty
  | [s], h => h s List.mem_cons_self
  | s :: t :: rest, h => by
    have hrest := join hsep fun u hu => h u (List.mem_cons_of_mem s hu)
    exact k.part (k.text (h s List.mem_cons_self) hsep) hrest

/-- Parts with a text between them, in a pair of fixed texts. -/
theorem enclosed {before sep behind : String} (hbefore : R before) (hsep : Fixed sep)
    (hbehind : Fixed behind) {ss : List String} (h : ∀ s ∈ ss, F s) :
    F (before ++ Text.join sep ss ++ behind) :=
  k.free (k.text (k.part hbefore (k.join hsep h)) hbehind)

theorem element (e : Option String) : F (Literal.renderElement e) := by
  cases e with
  | none => exact k.free (k.ofFixed (by decide))
  | some s => exact k.quote s

theorem columnRef {x c : String} (h : WordyRef x c) : R (columnRef x c) :=
  k.word (k.text (k.free (k.ofWord h.1)) (by decide)) h.2

theorem like {e part : String} (affix : Affix) (he : F e) (hp : F part) :
    F (Expr.renderLike affix e part) := by
  have hany : F "'%'" := k.quote "%"
  have hbefore : R (e ++ " LIKE '%' || ") := by
    have : " LIKE '%' || " = " LIKE " ++ "'%'" ++ " || " := by decide +kernel
    rw [this, ← String.append_assoc, ← String.append_assoc]
    exact k.text (k.part (k.text he (by decide)) hany) (by decide)
  have hafter : ∀ {s : String}, F s → F (s ++ " || '%'") := fun {s} hs => by
    have : " || '%'" = " || " ++ "'%'" := by decide +kernel
    rw [this, ← String.append_assoc]
    exact k.part (k.text hs (by decide)) hany
  cases affix with
  | anywhere => exact hafter (k.part hbefore hp)
  | start => exact hafter (k.part (k.text he (by decide)) hp)
  | finish => exact k.part hbefore hp

end Parts

/-! ## Constants -/

mutual

theorem literal (k : Printing S R F) : ∀ l : Literal, F l.render
  | .null => k.free (k.ofFixed (by decide))
  | .boolean b => by
    rw [Literal.render]
    cases b <;> exact k.free (k.ofFixed (by decide))
  | .integer n => k.integer n
  | .number x => k.number x
  | .text s => k.quote s
  | .array ls => by
    rw [Literal.render]
    exact k.enclosed (k.ofFixed (by decide)) (by decide) (by decide) (k.literals ls)
  | .textArray [] => by
    rw [Literal.render]
    exact k.free (k.ofFixed (by decide))
  | .textArray (e :: es) => by
    rw [Literal.render]
    refine k.enclosed (k.ofFixed (by decide)) (by decide) (by decide) fun s hs => ?_
    obtain ⟨e', -, rfl⟩ := List.mem_map.mp hs
    exact k.element e'

theorem literals (k : Printing S R F) : ∀ ls : List Literal, ∀ s ∈ Literal.renderAll ls, F s
  | [], s, hs => by simp [Literal.renderAll] at hs
  | l :: ls, s, hs => by
    rw [Literal.renderAll] at hs
    rcases List.mem_cons.mp hs with rfl | hs
    · exact k.literal l
    · exact k.literals ls s hs

end

/-! ## Expressions -/

mutual

theorem expr (k : Printing S R F) : ∀ e : Expr, e.All WordyRef Wordy → (S → e.SignsApart) →
    F e.render
  | .column source name, h, _ => by
    rw [Expr.render]
    exact k.free (k.columnRef h)
  | .star, _, _ => k.free (k.ofFixed (by decide))
  | .literal l, _, _ => by
    rw [Expr.render]
    exact k.literal l
  | .row es, h, hs => by
    rw [Expr.render]
    exact k.enclosed (k.ofFixed (by decide)) (by decide) (by decide) (k.exprs es h hs)
  | .array es, h, hs => by
    rw [Expr.render]
    exact k.enclosed (k.ofFixed (by decide)) (by decide) (by decide) (k.exprs es h hs)
  | .not e, h, hs => by
    rw [Expr.render]
    exact k.free (k.text (k.part (k.ofFixed (by decide)) (k.expr e h hs)) (by decide))
  | .negate e, h, hs => by
    rw [Expr.render]
    exact k.signed (k.expr e h fun hS => (hs hS).2) fun hS => Expr.unsigned_render h (hs hS).1
  | .binary op l r, h, hs => by
    rw [Expr.render]
    have hl := k.part (k.ofFixed (t := "(") (by decide)) (k.expr l h.1 fun hS => (hs hS).1)
    have hr := k.part (k.text hl (fixed_binaryOp op)) (k.expr r h.2 fun hS => (hs hS).2)
    simpa only [String.append_assoc] using k.free (k.text hr (t := ")") (by decide))
  | .nullTest negated e, h, hs => by
    rw [Expr.render]
    exact k.free (k.text (k.expr e h hs) (by cases negated <;> decide))
  | .compare op l r, h, hs => by
    rw [Expr.render]
    have hl := k.text (k.expr l h.1 fun hS => (hs hS).1) (fixed_comparator op)
    simpa only [String.append_assoc] using k.part hl (k.expr r h.2 fun hS => (hs hS).2)
  | .inList e es, h, hs => by
    rw [Expr.render]
    have he := k.text (k.expr e h.1 fun hS => (hs hS).1) (t := " IN (") (by decide)
    exact k.enclosed he (by decide) (by decide) (k.exprs es h.2 fun hS => (hs hS).2)
  | .equalsAny e a, h, hs => by
    rw [Expr.render]
    have he := k.text (k.expr e h.1 fun hS => (hs hS).1) (t := " = ANY(") (by decide)
    exact k.free (k.text (k.part he (k.expr a h.2 fun hS => (hs hS).2)) (by decide))
  | .like affix e part, h, hs => by
    rw [Expr.render]
    exact k.like affix (k.expr e h.1 fun hS => (hs hS).1) (k.expr part h.2 fun hS => (hs hS).2)
  | .call f distinct es, h, hs => by
    rw [Expr.render]
    have hf := k.text (k.free (k.ofWord h.1)) (t := "(") (by decide)
    refine k.enclosed ?_ (by decide) (by decide) (k.exprs es h.2 hs)
    cases distinct with
    | false => exact k.word hf (by decide)
    | true => exact k.text (k.free hf) (by decide)
  | .ifElse c a b, h, hs => by
    rw [Expr.render]
    have hc := k.part (k.ofFixed (t := "CASE WHEN ") (by decide)) (k.expr c h.1 fun hS => (hs hS).1)
    have ha := k.part (k.text hc (t := " THEN ") (by decide)) (k.expr a h.2.1 fun hS => (hs hS).2.1)
    have hb := k.part (k.text ha (t := " ELSE ") (by decide)) (k.expr b h.2.2 fun hS => (hs hS).2.2)
    exact k.free (k.text hb (by decide))

theorem exprs (k : Printing S R F) : ∀ es : List Expr, Expr.AllOf WordyRef Wordy es →
    (S → Expr.SignsApartAll es) → ∀ s ∈ Expr.renderAll es, F s
  | [], _, _, s, hmem => by simp [Expr.renderAll] at hmem
  | e :: es, h, hs, s, hmem => by
    rw [Expr.renderAll] at hmem
    rcases List.mem_cons.mp hmem with rfl | hmem
    · exact k.expr e h.1 fun hS => (hs hS).1
    · exact k.exprs es h.2 (fun hS => (hs hS).2) s hmem

end

section Statements

variable (k : Printing S R F)

include k

theorem map_expr {es : List Expr} (h : ∀ e ∈ es, e.All WordyRef Wordy)
    (hs : S → ∀ e ∈ es, e.SignsApart) : ∀ s ∈ es.map Expr.render, F s := by
  intro s hmem
  obtain ⟨e, he, rfl⟩ := List.mem_map.mp hmem
  exact k.expr e (h e he) fun hS => hs hS e he

/-! ## Select statements -/

theorem asItem {name sql : String} (hn : Wordy name) (h : F sql) : F (asItem name sql) := by
  have has : F (sql ++ " AS " ++ name) := k.free (k.word (k.text h (by decide)) hn)
  unfold Relational.asItem
  split
  · split
    · exact h
    · exact has
  · exact has

theorem orderItem {i : OrderItem} (h : i.All WordyRef Wordy) (hs : S → i.expr.SignsApart) :
    F i.render := by
  have hexpr : F i.expr.render := by
    rcases h with ⟨n, he, hn⟩ | h
    · rw [he, Expr.render]
      exact k.free (k.ofWord hn)
    · exact k.expr i.expr h hs
  unfold OrderItem.render
  cases i.order <;> exact k.free (k.text hexpr (by decide))

theorem sourceName {x : Source} {keyword : String} (hk : Fixed keyword)
    (h : x.All WordyRef Wordy) : R (keyword ++ x.table ++ " " ++ x.name) :=
  k.word (k.text (k.free (k.word (k.ofFixed hk) h.table)) (by decide)) h.name

theorem renderJoin {x : Source} (h : x.All WordyRef Wordy)
    (hs : S → ∀ e ∈ x.join.conditions, e.SignsApart) : F x.renderJoin := by
  unfold Source.renderJoin
  have hjoin := h.join
  cases hj : x.join with
  | cross => exact k.free (k.sourceName (by decide) h)
  | on cs =>
    rw [hj] at hjoin hs
    exact k.part (k.text (k.free (k.sourceName (by decide) h)) (by decide))
      (k.join (by decide) (k.map_expr hjoin hs))

theorem renderSources {xs : List Source} (h : ∀ x ∈ xs, x.All WordyRef Wordy)
    (hs : S → ∀ x ∈ xs, ∀ e ∈ x.join.conditions, e.SignsApart) :
    ∀ t ∈ renderSources xs, F t := by
  intro t ht
  cases xs with
  | nil => simp [Relational.renderSources] at ht
  | cons x xs =>
    rcases List.mem_cons.mp ht with rfl | ht
    · exact k.free (k.sourceName (by decide) (h x List.mem_cons_self))
    · obtain ⟨y, hy, rfl⟩ := List.mem_map.mp ht
      have hmem := List.mem_cons_of_mem x hy
      exact k.renderJoin (h y hmem) fun hS => hs hS y hmem

theorem renderPart {keyword sep : String} {es : List String} (hk : Fixed keyword)
    (h : F (Text.join sep es)) : ∀ t ∈ renderPart keyword sep es, F t := by
  intro t ht
  cases es with
  | nil => simp [Relational.renderPart] at ht
  | cons e es =>
    obtain rfl := List.mem_singleton.mp ht
    exact k.part (k.text (k.free (k.ofFixed hk)) (by decide)) h

/-- An optional expression needs no separator. -/
theorem optional {o : Option Expr} (h : ∀ e ∈ o, e.All WordyRef Wordy)
    (hs : S → ∀ e ∈ o, e.SignsApart) : F (Text.join "" (o.toList.map Expr.render)) := by
  cases o with
  | none => exact k.free k.empty
  | some e => exact k.expr e (h e rfl) fun hS => hs hS e rfl

theorem head {q : Select} (h : q.All WordyRef Wordy) (hs : S → q.SignsApart) :
    F ("SELECT " ++ (if q.distinct then "DISTINCT " else "") ++
      Text.join ", " (q.items.map SelectItem.render)) := by
  have hselect := k.ofFixed (t := "SELECT ") (by decide)
  refine k.part ?_ (k.join (by decide) fun t ht => ?_)
  · cases q.distinct with
    | false => exact k.word hselect (by decide)
    | true => exact k.text (k.free hselect) (by decide)
  · obtain ⟨i, hi, rfl⟩ := List.mem_map.mp ht
    obtain ⟨hexpr, hname⟩ := h.items i hi
    exact k.asItem hname (k.expr i.expr hexpr fun hS => (hs hS).items i hi)

/-- **A select statement without its semicolon.** -/
theorem body {q : Select} (h : q.All WordyRef Wordy) (hs : S → q.SignsApart) : F q.body := by
  refine k.join (by decide) fun t ht => ?_
  simp only [List.cons_append, List.mem_cons, List.mem_append] at ht
  rcases ht with rfl | (((((ht | ht) | ht) | ht) | ht) | ht)
  · exact k.head h hs
  · exact k.renderSources h.sources (fun hS => (hs hS).sources) t ht
  · have hconditions := k.map_expr h.conditions fun hS => (hs hS).conditions
    exact k.renderPart (by decide) (k.join (by decide) hconditions) t ht
  · have hkeys := k.map_expr h.groupBy fun hS => (hs hS).groupBy
    exact k.renderPart (by decide) (k.join (by decide) hkeys) t ht
  · refine k.renderPart (by decide) (k.join (by decide) fun u hu => ?_) t ht
    obtain ⟨i, hi, rfl⟩ := List.mem_map.mp hu
    exact k.orderItem (h.orderBy i hi) fun hS => (hs hS).orderBy i hi
  · exact k.renderPart (by decide) (k.optional h.offset fun hS => (hs hS).offset) t ht
  · exact k.renderPart (by decide) (k.optional h.limit fun hS => (hs hS).limit) t ht

/-! ## Writes -/

theorem operand {v : Operand} (h : v.All Wordy) : F v.render := by
  induction v with
  | literal l => exact k.literal l
  | loopVar name => exact k.free (k.word (k.ofWord (t := "fe_") (by decide)) h)
  | rowColumn column => exact k.free (k.columnRef ⟨by decide, h⟩)
  | nodeWith table column value ih =>
    obtain ⟨ht, hc, hv⟩ := h
    unfold Operand.render
    have hid := k.word (k.ofFixed (t := "(SELECT ") (by decide)) (t := Schema.nodeId) (by decide)
    have htable := k.word (k.text (k.free hid) (t := " FROM ") (by decide)) ht
    have hcolumn := k.word (k.text (k.free htable) (t := " WHERE ") (by decide)) hc
    exact k.free (k.text (k.part (k.text (k.free hcolumn) (by decide)) (ih hv)) (by decide))

theorem rowTest {u : RowTest} (h : u.All Wordy) : F u.render := by
  cases u with
  | equals column value =>
    exact k.part (k.text (k.free (k.ofWord h.1)) (by decide)) (k.operand h.2)
  | idAmong column table =>
    unfold RowTest.render
    have hid := k.ofFixed (t := Schema.nodeId ++ " IN (SELECT ") (by decide)
    have hcolumn := k.part hid (k.free (k.columnRef (x := rowsName) ⟨by decide, h.1⟩))
    have htable := k.word (k.text hcolumn (t := " FROM ") (by decide)) h.2
    have hrows := k.word (k.text (k.free htable) (t := " ") (by decide)) (t := rowsName) (by decide)
    exact k.free (k.text (k.free hrows) (by decide))

/-- The columns of a write, its values, and both of them together. -/
theorem assignments {vs : List (String × Operand)} (h : ∀ v ∈ vs, Wordy v.1 ∧ v.2.All Wordy) :
    F (Text.join ", " (vs.map Prod.fst)) ∧
      F (Text.join ", " (vs.map fun (_, value) => value.render)) ∧
      F (Text.join ", " (vs.map fun (column, value) => column ++ " = " ++ value.render)) := by
  refine ⟨k.join (by decide) fun t ht => ?_, k.join (by decide) fun t ht => ?_,
    k.join (by decide) fun t ht => ?_⟩
  · obtain ⟨v, hv, rfl⟩ := List.mem_map.mp ht
    exact k.free (k.ofWord (h v hv).1)
  · obtain ⟨v, hv, rfl⟩ := List.mem_map.mp ht
    exact k.operand (h v hv).2
  · obtain ⟨v, hv, rfl⟩ := List.mem_map.mp ht
    exact k.part (k.text (k.free (k.ofWord (h v hv).1)) (by decide)) (k.operand (h v hv).2)

/-- **A write is a text with a semicolon behind it.** -/
theorem write {w : Write} (h : w.All Wordy) : ∃ s, w.render = s ++ ";" ∧ F s := by
  cases w with
  | update table values test =>
    obtain ⟨ht, hv, htest⟩ := h
    obtain ⟨-, -, hset⟩ := k.assignments hv
    have htable := k.word (k.ofFixed (t := "UPDATE ") (by decide)) ht
    have hvalues := k.part (k.text (k.free htable) (t := " SET ") (by decide)) hset
    exact ⟨_, rfl, k.part (k.text hvalues (by decide)) (k.rowTest htest)⟩
  | insertEdge values rows =>
    obtain ⟨hv, hr⟩ := h
    obtain ⟨hcolumns, hoperands, -⟩ := k.assignments hv
    have hcolumns := k.part (k.ofFixed (t := "INSERT INTO " ++ Schema.edgesTable ++ " (") (by decide))
      hcolumns
    have hinto := k.text hcolumns (t := ") ") (by decide)
    cases rows with
    | none =>
      have hvalues := k.part (k.ofFixed (t := "VALUES (") (by decide)) hoperands
      refine ⟨_, ?_, k.part hinto (k.free (k.text hvalues (t := ")") (by decide)))⟩
      have hclose : ∀ a b : String, a ++ (b ++ ");") = a ++ (b ++ ")") ++ ";" := by
        intro a b
        rw [String.append_assoc, String.append_assoc]
        rfl
      exact hclose _ _
    | some table =>
      have hselect := k.part (k.ofFixed (t := "SELECT ") (by decide)) hoperands
      have htable := k.word (k.text hselect (t := " FROM ") (by decide)) (hr table rfl)
      have hrows := k.word (k.text (k.free htable) (t := " ") (by decide)) (t := rowsName) (by decide)
      exact ⟨_, (String.append_assoc ..).symm, k.part hinto (k.free hrows)⟩

end Statements

end Printing

end GraphSql.Relational
