import GraphSql.Proofs.Relational.Blank
import GraphSql.Proofs.Script.Render

/-!
# Statements with their quoted texts masked

`masked` puts one question mark in the place of each quoted text of a statement, in which a doubled
quote stands for a quote.  The texts of two trees that are equal once their texts are emptied cannot be
told apart in this way (`Select.masked_render`).

Texts are put together from parts, so the statements are about parts: `Alike s t` says that a reader who
stands outside of quoted texts gets the same of `s` and of `t` and is left in the same place outside
of quoted texts.
-/

namespace GraphSql.Relational

/-- Where a reader stands who masks quoted texts. -/
inductive Masking where
  | outside
  | quoted
  /-- Behind a quote in a quoted text, which ends there unless another quote follows. -/
  | closing
  deriving DecidableEq

namespace Masking

/-- What is kept of one character, and where it leads. -/
def step : Masking → Char → List Char × Masking
  | outside, c => if c = '\'' then (['?'], quoted) else ([c], outside)
  | quoted, c => ([], if c = '\'' then closing else quoted)
  | closing, c => if c = '\'' then ([], quoted) else ([c], outside)

/-- What is kept of a text, and where it leads. -/
def run : Masking → List Char → List Char × Masking
  | m, [] => ([], m)
  | m, c :: cs => ((m.step c).1 ++ (run (m.step c).2 cs).1, (run (m.step c).2 cs).2)

theorem run_append (m : Masking) (as bs : List Char) :
    m.run (as ++ bs) =
      ((m.run as).1 ++ ((m.run as).2.run bs).1, ((m.run as).2.run bs).2) := by
  induction as generalizing m with
  | nil => rfl
  | cons a as ih =>
    rw [List.cons_append, run, run, ih]
    simp only [List.append_assoc]

/-- Without quotes everything is kept. -/
theorem run_of_not_mem {m : Masking} (hm : m ≠ quoted) : ∀ {cs : List Char}, '\'' ∉ cs →
    (m.run cs).1 = cs ∧ (m.run cs).2 ≠ quoted
  | [], _ => ⟨rfl, hm⟩
  | c :: cs, h => by
    rw [List.mem_cons, not_or] at h
    have hstep : m.step c = ([c], outside) := by
      cases m with
      | quoted => exact absurd rfl hm
      | _ => simp [step, Ne.symm h.1]
    obtain ⟨hkept, hend⟩ := run_of_not_mem (m := outside) (by decide) h.2
    rw [run, hstep, hkept]
    exact ⟨rfl, hend⟩

/-- The inside of a quoted text is not kept. -/
theorem run_quoteChars (cs : List Char) : quoted.run (cs.flatMap quoteChar) = ([], quoted) := by
  induction cs with
  | nil => rfl
  | cons c cs ih =>
    have hfirst : quoted.run (quoteChar c) = ([], quoted) := by
      unfold quoteChar
      split
      · rfl
      · rename_i hc
        simp [run, step, hc]
    rw [List.flatMap_cons, run_append, hfirst, ih]
    rfl

end Masking

/-- A statement with a question mark in the place of each quoted text. -/
def masked (sql : String) : String := String.ofList (Masking.outside.run sql.toList).1

example : masked "SELECT 'it''s' || n.name, '' WHERE n.name = 'a'" =
    "SELECT ? || n.name, ? WHERE n.name = ?" := by decide +kernel

/-! ## Parts of statements -/

/-- A reader outside of quoted texts gets the same of both texts and stays outside. -/
def Alike (s t : String) : Prop :=
  ∀ m, m ≠ Masking.quoted → m.run s.toList = m.run t.toList ∧ (m.run s.toList).2 ≠ .quoted

section Alike

variable {s t s' t' : String}

theorem Alike.symm (h : Alike s t) : Alike t s := fun m hm =>
  ⟨(h m hm).1.symm, (h m hm).1 ▸ (h m hm).2⟩

theorem Alike.self (h : Alike s t) : Alike s s := fun m hm => ⟨rfl, (h m hm).2⟩

theorem Alike.masked_eq (h : Alike s t) : masked s = masked t := by
  rw [masked, masked, (h .outside (by decide)).1]

theorem Alike.append (h : Alike s t) (h' : Alike s' t') : Alike (s ++ s') (t ++ t') := by
  intro m hm
  obtain ⟨hsame, hend⟩ := h m hm
  obtain ⟨hsame', hend'⟩ := h' _ hend
  rw [String.toList_append, String.toList_append, Masking.run_append, Masking.run_append, ← hsame,
    ← hsame']
  exact ⟨rfl, hend'⟩

/-- A fixed text in which every quoted text is closed. -/
def closed (s : String) : Bool :=
  [Masking.outside, .closing].all fun m => (m.run s.toList).2 ≠ .quoted

theorem alike_closed (h : closed s = true) : Alike s s := by
  intro m hm
  simp only [closed, List.all_cons, List.all_nil, Bool.and_true, Bool.and_eq_true,
    decide_eq_true_eq] at h
  cases m with
  | outside => exact ⟨rfl, h.1⟩
  | quoted => exact absurd rfl hm
  | closing => exact ⟨rfl, h.2⟩

/-- A fixed text behind and before others. -/
theorem Alike.text (h : Alike s t) {u : String} (hu : closed u = true) : Alike (s ++ u) (t ++ u) :=
  h.append (alike_closed hu)

theorem alike_of_not_mem (h : '\'' ∉ s.toList) : Alike s s := fun _ hm =>
  ⟨rfl, (Masking.run_of_not_mem hm h).2⟩

theorem alike_word (h : Wordy s) : Alike s s :=
  alike_of_not_mem fun hc => (not_special_of_isWordChar (h _ hc)).1 rfl

theorem alike_numberChars {cs : List Char} (h : ∀ c ∈ cs, isNumberChar c = true) :
    Alike (String.ofList cs) (String.ofList cs) := by
  refine alike_of_not_mem fun hc => ?_
  rw [String.toList_ofList] at hc
  exact absurd (h _ hc) (by decide)

/-- **All quoted texts look alike.** -/
theorem alike_quote (a b : String) : Alike (quote a) (quote b) := by
  have hquote : ∀ (a : String) (m : Masking),
      m.run (quote a).toList = ((m.step '\'').1 ++ ((m.step '\'').2.run
        (a.toList.flatMap quoteChar ++ ['\''])).1, ((m.step '\'').2.run
          (a.toList.flatMap quoteChar ++ ['\''])).2) := by
    intro a m
    simp only [quote, String.toList_append, String.toList_ofList]
    rfl
  have hinside : ∀ a : String, Masking.quoted.run (a.toList.flatMap quoteChar ++ ['\'']) =
      ([], .closing) := by
    intro a
    rw [Masking.run_append, Masking.run_quoteChars]
    rfl
  intro m hm
  have hopen : (m.step '\'').2 = .quoted := by
    cases m with
    | outside => rfl
    | quoted => exact absurd rfl hm
    | closing => rfl
  rw [hquote a, hquote b, hopen, hinside, hinside]
  refine ⟨rfl, ?_⟩
  change Masking.closing ≠ .quoted
  decide

theorem alike_map {α : Type} {f g : α → String} {xs : List α} (h : ∀ x ∈ xs, Alike (f x) (g x)) :
    List.Forall₂ Alike (xs.map f) (xs.map g) :=
  List.forall₂_map_left_iff.mpr (List.forall₂_map_right_iff.mpr (List.forall₂_same.mpr h))

theorem alike_join {sep : String} (hsep : closed sep = true) {ss ts : List String}
    (h : List.Forall₂ Alike ss ts) : Alike (Text.join sep ss) (Text.join sep ts) := by
  induction h with
  | nil => exact alike_closed (s := "") (by decide)
  | @cons s t ss ts hst htail ih =>
    cases htail with
    | nil => exact hst
    | cons _ _ => exact (hst.text hsep).append ih

/-- A text without quotes and question marks is told apart from all others. -/
theorem Alike.eq_of_plain (h : Alike s t) (hquote : '\'' ∉ s.toList) (hmark : '?' ∉ s.toList) :
    s = t := by
  have hkept := (Masking.run_of_not_mem (m := .outside) (by decide) hquote).1
  have hsame := congrArg Prod.fst (h .outside (by decide)).1
  rw [hkept] at hsame
  -- a quote in the other text would leave a question mark
  have hfree : ∀ cs : List Char, '\'' ∈ cs → '?' ∈ (Masking.outside.run cs).1 := by
    intro cs hc
    induction cs with
    | nil => cases hc
    | cons c cs ih =>
      by_cases hcc : c = '\''
      · simp [Masking.run, Masking.step, hcc]
      · have hstep : Masking.outside.step c = ([c], .outside) := by simp [Masking.step, hcc]
        rw [Masking.run, hstep]
        exact List.mem_append_right _ (ih ((List.mem_cons.mp hc).resolve_left (Ne.symm hcc)))
  have hquote' : '\'' ∉ t.toList := fun hc => hmark (hsame ▸ hfree _ hc)
  rw [(Masking.run_of_not_mem (m := .outside) (by decide) hquote').1] at hsame
  exact String.toList_inj.mp hsame

end Alike

/-! ## Constants -/

theorem alike_number (x : Binary64) : Alike x.render x.render := by
  cases x with
  | nan => exact alike_closed (by decide)
  | infinite negative => cases negative <;> exact alike_closed (by decide)
  | finite negative m e =>
    have hsign : Alike (if negative then "-" else "") (if negative then "-" else "") := by
      cases negative <;> exact alike_closed (by decide)
    unfold Binary64.render
    dsimp only
    split
    · exact hsign.append (alike_closed (by decide))
    · refine hsign.append (alike_numberChars ?_)
      split
      · exact isNumberChar_positional (isNumberChar_shortestDigits m e) _
      · exact isNumberChar_scientific (isNumberChar_shortestDigits m e) _

theorem alike_integer (n : Int) : Alike (Numeral.integer n) (Numeral.integer n) := by
  cases n with
  | ofNat n => exact alike_word (wordy_natural n)
  | negSucc n => exact (alike_closed (s := "-") (by decide)).append (alike_word (wordy_natural (n + 1)))

theorem alike_element (e : Option String) :
    Alike (Literal.renderElement e) (Literal.renderElement (e.map fun _ => "")) := by
  cases e with
  | none => exact alike_closed (by decide)
  | some s => exact alike_quote s ""

mutual

theorem alike_literal : ∀ l : Literal, Alike l.render l.blank.render
  | .null => alike_closed (by decide)
  | .boolean b => by
    cases b <;> exact alike_closed (by decide)
  | .integer n => alike_integer n
  | .number x => alike_number x
  | .text s => alike_quote s ""
  | .array ls => by
    rw [Literal.blank, Literal.render, Literal.render]
    exact ((alike_closed (by decide)).append
      (alike_join (by decide) (alike_literals ls))).text (by decide)
  | .textArray [] => alike_closed (by decide)
  | .textArray (e :: es) => by
    rw [Literal.blank, List.map_cons, Literal.render, Literal.render]
    refine ((alike_closed (by decide)).append (alike_join (by decide) ?_)).text (by decide)
    rw [← List.map_cons (f := Option.map fun _ => ""), List.map_map]
    exact alike_map fun x _ => alike_element x

theorem alike_literals : ∀ ls : List Literal,
    List.Forall₂ Alike (Literal.renderAll ls) (Literal.renderAll (Literal.blankAll ls))
  | [] => .nil
  | l :: ls => .cons (alike_literal l) (alike_literals ls)

end

/-! ## Expressions -/

theorem alike_columnRef {x c : String} (h : WordyRef x c) : Alike (columnRef x c) (columnRef x c) :=
  ((alike_word h.1).text (by decide)).append (alike_word h.2)

theorem alike_renderLike {e e' part part' : String} (affix : Affix) (he : Alike e e')
    (hp : Alike part part') : Alike (Expr.renderLike affix e part) (Expr.renderLike affix e' part') := by
  cases affix with
  | anywhere => exact ((he.text (by decide)).append hp).text (by decide)
  | start => exact ((he.text (by decide)).append hp).text (by decide)
  | finish => exact (he.text (by decide)).append hp

mutual

/-- **Expressions that are equal but for their texts look alike.** -/
theorem Expr.alike_render :
    ∀ e : Expr, e.All WordyRef Wordy → Alike e.render e.blank.render
  | .column source name, h => alike_columnRef h
  | .star, _ => alike_closed (by decide)
  | .literal l, _ => alike_literal l
  | .row es, h => by
    rw [Expr.blank, Expr.render, Expr.render]
    exact ((alike_closed (by decide)).append
      (alike_join (by decide) (Expr.alike_renderAll es h))).text (by decide)
  | .array es, h => by
    rw [Expr.blank, Expr.render, Expr.render]
    exact ((alike_closed (by decide)).append
      (alike_join (by decide) (Expr.alike_renderAll es h))).text (by decide)
  | .not e, h => by
    rw [Expr.blank, Expr.render, Expr.render]
    exact ((alike_closed (by decide)).append (Expr.alike_render e h)).text (by decide)
  | .negate e, h => by
    rw [Expr.blank, Expr.render, Expr.render]
    exact (alike_closed (by decide)).append (Expr.alike_render e h)
  | .binary op l r, h => by
    rw [Expr.blank, Expr.render, Expr.render]
    have hop : closed op.text = true := by cases op <;> decide
    have hl := (alike_closed (s := "(") (by decide)).append (Expr.alike_render l h.1)
    have hlink := ((hl.text (u := " ") (by decide)).text hop).text (u := " ") (by decide)
    exact (hlink.append (Expr.alike_render r h.2)).text (by decide)
  | .nullTest negated e, h => by
    rw [Expr.blank, Expr.render, Expr.render]
    exact (Expr.alike_render e h).text (by cases negated <;> decide)
  | .compare op l r, h => by
    rw [Expr.blank, Expr.render, Expr.render]
    have hop : closed op.text = true := by cases op <;> decide
    have hlink := (((Expr.alike_render l h.1).text (u := " ") (by decide)).text hop).text (u := " ")
      (by decide)
    exact hlink.append (Expr.alike_render r h.2)
  | .inList e es, h => by
    rw [Expr.blank, Expr.render, Expr.render]
    exact (((Expr.alike_render e h.1).text (by decide)).append
      (alike_join (by decide) (Expr.alike_renderAll es h.2))).text (by decide)
  | .equalsAny e a, h => by
    rw [Expr.blank, Expr.render, Expr.render]
    exact (((Expr.alike_render e h.1).text (by decide)).append
      (Expr.alike_render a h.2)).text (by decide)
  | .like affix e part, h => by
    rw [Expr.blank, Expr.render, Expr.render]
    exact alike_renderLike affix (Expr.alike_render e h.1) (Expr.alike_render part h.2)
  | .call f distinct es, h => by
    rw [Expr.blank, Expr.render, Expr.render]
    have hopen : Alike (f ++ "(" ++ (if distinct then "DISTINCT " else ""))
        (f ++ "(" ++ (if distinct then "DISTINCT " else "")) :=
      ((alike_word h.1).text (by decide)).text (by cases distinct <;> decide)
    exact (hopen.append (alike_join (by decide) (Expr.alike_renderAll es h.2))).text (by decide)
  | .ifElse c a b, h => by
    rw [Expr.blank, Expr.render, Expr.render]
    have hc := (alike_closed (s := "CASE WHEN ") (by decide)).append (Expr.alike_render c h.1)
    have ha := (hc.text (u := " THEN ") (by decide)).append (Expr.alike_render a h.2.1)
    have hb := (ha.text (u := " ELSE ") (by decide)).append (Expr.alike_render b h.2.2)
    exact hb.text (by decide)

theorem Expr.alike_renderAll : ∀ es : List Expr, Expr.AllOf WordyRef Wordy es →
    List.Forall₂ Alike (Expr.renderAll es) (Expr.renderAll (Expr.blankAll es))
  | [], _ => .nil
  | e :: es, h => .cons (Expr.alike_render e h.1) (Expr.alike_renderAll es h.2)

end

theorem alike_exprs {es : List Expr} (h : ∀ e ∈ es, e.All WordyRef Wordy) :
    List.Forall₂ Alike (es.map Expr.render) ((es.map Expr.blank).map Expr.render) := by
  rw [List.map_map]
  exact alike_map fun e he => e.alike_render (h e he)

/-! ## Select statements -/

/-- A reference to a column is made of a source, a point and the column. -/
theorem exists_of_referencedColumn? {sql column : List Char}
    (h : referencedColumn? sql = some column) :
    ∃ source rest, sql = source ++ '.' :: (column ++ rest) ∧
      source.head?.any isColumnStart = true ∧ (∀ c ∈ source, (isColumnChar c || c = '$') = true) ∧
      (∀ c ∈ column, isColumnChar c = true) ∧ (rest = [] ∨ rest = ['\n']) := by
  unfold referencedColumn? at h
  split at h
  · rename_i a as c rest htake hdrop
    dsimp only at h
    split at h
    · rename_i hremainder
      cases h
      simp only [Bool.and_eq_true, Bool.or_eq_true, beq_iff_eq] at hremainder
      refine ⟨sql.takeWhile (fun c => isColumnChar c || c = '$'),
        (c :: rest).dropWhile isColumnChar, ?_, ?_, ?_, ?_, hremainder.2⟩
      · rw [List.takeWhile_append_dropWhile, ← hdrop, List.takeWhile_append_dropWhile]
      · rw [htake]
        exact hremainder.1.1
      · intro d hd
        exact List.mem_takeWhile_imp (p := fun c => isColumnChar c || c = '$') hd
      · exact fun d hd => List.mem_takeWhile_imp hd
    · cases h
  · cases h

/-- The characters of a reference to a column, with the line end that may follow it. -/
def isReferenceChar (c : Char) : Bool := isColumnChar c || c = '$' || c = '.' || c = '\n'

theorem isReferenceChar_of_referencedColumn? {sql column : List Char}
    (h : referencedColumn? sql = some column) : ∀ c ∈ sql, isReferenceChar c = true := by
  obtain ⟨source, rest, rfl, -, hsource, hcolumn, hrest⟩ := exists_of_referencedColumn? h
  intro c hc
  simp only [List.mem_append, List.mem_cons] at hc
  rcases hc with hc | rfl | hc | hc
  · simp only [isReferenceChar, hsource c hc, Bool.true_or]
  · decide
  · simp only [isReferenceChar, hcolumn c hc, Bool.true_or]
  · rcases hrest with rfl | rfl
    · cases hc
    · rw [List.mem_singleton.mp hc]
      decide

/-- A reference to a column is made of plain characters. -/
theorem plain_of_referencedColumn? {sql column : List Char}
    (h : referencedColumn? sql = some column) : '\'' ∉ sql ∧ '?' ∉ sql :=
  have hall := isReferenceChar_of_referencedColumn? h
  ⟨fun hc => absurd (hall _ hc) (by decide), fun hc => absurd (hall _ hc) (by decide)⟩

theorem alike_asItem {name sql sql' : String} (hn : Wordy name) (h : Alike sql sql') :
    Alike (asItem name sql) (asItem name sql') := by
  have has : Alike (sql ++ " AS " ++ name) (sql' ++ " AS " ++ name) :=
    (h.text (by decide)).append (alike_word hn)
  -- a reference is plain, and then the two texts are the same
  have hsame : (∃ column, referencedColumn? sql.toList = some column) ∨
      (∃ column, referencedColumn? sql'.toList = some column) → sql = sql' := by
    rintro (⟨column, hc⟩ | ⟨column, hc⟩)
    · obtain ⟨hquote, hmark⟩ := plain_of_referencedColumn? hc
      exact h.eq_of_plain hquote hmark
    · obtain ⟨hquote, hmark⟩ := plain_of_referencedColumn? hc
      exact (h.symm.eq_of_plain hquote hmark).symm
  have hitem : Alike (asItem name sql) (asItem name sql) := by
    unfold asItem
    split
    · split
      · exact h.self
      · exact has.self
    · exact has.self
  cases hc : referencedColumn? sql.toList with
  | some column => exact hsame (.inl ⟨column, hc⟩) ▸ hitem
  | none =>
    cases hc' : referencedColumn? sql'.toList with
    | some column => exact hsame (.inr ⟨column, hc'⟩) ▸ hitem
    | none =>
      rw [asItem, asItem, hc, hc']
      exact has

theorem SelectItem.alike_render {i : SelectItem} (h : i.expr.All WordyRef Wordy ∧ Wordy i.name) :
    Alike i.render i.blank.render :=
  alike_asItem h.2 (i.expr.alike_render h.1)

theorem OrderItem.alike_render {i : OrderItem} (h : i.All WordyRef Wordy) :
    Alike i.render i.blank.render := by
  have hexpr : Alike i.expr.render i.expr.blank.render := by
    rcases h with ⟨n, he, hn⟩ | h
    · rw [he]
      exact alike_word hn
    · exact i.expr.alike_render h
  unfold OrderItem.render OrderItem.blank
  cases i.order <;> exact hexpr.text (by decide)

theorem alike_sourceName {s : Source} {keyword : String} (hk : closed keyword = true)
    (h : s.All WordyRef Wordy) :
    Alike (keyword ++ s.table ++ " " ++ s.name) (keyword ++ s.table ++ " " ++ s.name) :=
  (((alike_closed hk).append (alike_word h.table)).text (by decide)).append (alike_word h.name)

theorem Source.alike_renderJoin {s : Source} (h : s.All WordyRef Wordy) :
    Alike s.renderJoin s.renderJoin := by
  unfold Source.renderJoin
  cases hj : s.join with
  | cross => exact alike_sourceName (by decide) h
  | on cs =>
    have hcs : ∀ e ∈ cs, e.All WordyRef Wordy := fun e he => h.join e (by rwa [hj])
    exact (((alike_sourceName (by decide) h).text (by decide)).append
      (alike_join (by decide) (alike_exprs hcs))).self

theorem alike_renderSources {ss : List Source} (h : ∀ s ∈ ss, s.All WordyRef Wordy) :
    List.Forall₂ Alike (renderSources ss) (renderSources ss) := by
  refine List.forall₂_same.mpr fun t ht => ?_
  cases ss with
  | nil => simp [renderSources] at ht
  | cons s ss =>
    rcases List.mem_cons.mp ht with rfl | ht
    · exact alike_sourceName (by decide) (h s List.mem_cons_self)
    · obtain ⟨x, hx, rfl⟩ := List.mem_map.mp ht
      exact x.alike_renderJoin (h x (List.mem_cons_of_mem s hx))

theorem alike_renderPart {keyword sep : String} (hk : closed keyword = true)
    (hsep : closed sep = true) {ss ts : List String} (h : List.Forall₂ Alike ss ts) :
    List.Forall₂ Alike (renderPart keyword sep ss) (renderPart keyword sep ts) := by
  have hjoin := alike_join hsep h
  cases h with
  | nil => exact .nil
  | cons _ _ =>
    exact .cons (((alike_closed hk).text (by decide)).append hjoin) .nil

theorem Select.alike_body {s : Select} (h : s.All WordyRef Wordy) : Alike s.body s.blank.body := by
  have hitems : List.Forall₂ Alike (s.items.map SelectItem.render)
      ((s.items.map SelectItem.blank).map SelectItem.render) := by
    rw [List.map_map]
    exact alike_map fun i hi => SelectItem.alike_render (h.items i hi)
  have horder : List.Forall₂ Alike (s.orderBy.map OrderItem.render)
      ((s.orderBy.map OrderItem.blank).map OrderItem.render) := by
    rw [List.map_map]
    exact alike_map fun i hi => OrderItem.alike_render (h.orderBy i hi)
  have hoptional : ∀ o : Option Expr, (∀ e ∈ o, e.All WordyRef Wordy) →
      List.Forall₂ Alike (o.toList.map Expr.render) ((o.map Expr.blank).toList.map Expr.render) := by
    intro o ho
    cases o with
    | none => exact .nil
    | some e => exact .cons (e.alike_render (ho e rfl)) .nil
  have hhead : Alike ("SELECT " ++ (if s.distinct then "DISTINCT " else "") ++
      Text.join ", " (s.items.map SelectItem.render)) ("SELECT " ++
        (if s.distinct then "DISTINCT " else "") ++
          Text.join ", " ((s.items.map SelectItem.blank).map SelectItem.render)) :=
    ((alike_closed (by decide)).text (by cases s.distinct <;> decide)).append
      (alike_join (by decide) hitems)
  refine alike_join (by decide) ?_
  refine List.rel_append ?_ (alike_renderPart (by decide) (by decide) (hoptional s.limit h.limit))
  refine List.rel_append ?_ (alike_renderPart (by decide) (by decide) (hoptional s.offset h.offset))
  refine List.rel_append ?_ (alike_renderPart (by decide) (by decide) horder)
  refine List.rel_append ?_ (alike_renderPart (by decide) (by decide) (alike_exprs h.groupBy))
  refine List.rel_append ?_ (alike_renderPart (by decide) (by decide) (alike_exprs h.conditions))
  exact .cons hhead (alike_renderSources h.sources)

/-- **Select statements that are equal but for their texts have the same masked text.** -/
theorem Select.masked_render {s t : Select} (h : s.All WordyRef Wordy) (hblank : s.blank = t.blank) :
    masked s.render = masked t.render := by
  have ht : t.All WordyRef Wordy := t.all_blank.mp (hblank ▸ s.all_blank.mpr h)
  have hs := (s.alike_body h).text (u := ";") (by decide)
  have ht := (t.alike_body ht).text (u := ";") (by decide)
  rw [Select.render, Select.render, hs.masked_eq, ht.masked_eq, hblank]

end GraphSql.Relational
