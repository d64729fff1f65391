import GraphSql.Proofs.Script.Render

/-!
# Statements without comments

Trees without minus signs in a row are printed as clear texts (`printing_clear`), and so are statements,
whose parts can lose their semicolons (`clear_withoutSemicolon_append`).

* `Statement.not_opensComment_render`: statements.
-/

namespace GraphSql.Relational

variable {o : CommentOpener}

/-- **A printed tree opens no comment**, as long as no minus signs stand in a row. -/
theorem printing_clear : Printing (o = .line) (Clear o) (Clear o) where
  empty := clear_text (by decide)
  free h := h
  word h ht := h.word ht
  text h ht := h.text ht.2
  part h ht := h.append ht
  signed h hs := h.signed hs
  quote := clear_quote
  integer := clear_integer
  number := clear_number

theorem Select.clear_render {s : Select} (h : s.All WordyRef Wordy)
    (hs : o = .line → s.SignsApart) : Clear o s.render :=
  (printing_clear.body h hs).text (by decide)

/-! ## Queries without their semicolon -/

/-- What a query loses with its semicolon are blanks and semicolons at its end. -/
theorem exists_withoutSemicolon {s : String} (h : StartsDark s) :
    ∃ tail, s.toList = (withoutSemicolon s).toList ++ tail ∧
      ∀ c ∈ tail, Text.isBlank c = true ∨ c = ';' := by
  refine ⟨((s.toList.rdropWhile Text.isBlank).rdropWhile (· == ';')).rtakeWhile Text.isBlank ++
    ((s.toList.rdropWhile Text.isBlank).rtakeWhile (· == ';') ++
      s.toList.rtakeWhile Text.isBlank), ?_, ?_⟩
  · rw [withoutSemicolon, Text.trimChars, h.dropWhile_isBlank, String.toList_ofList]
    simp only [dropEndWhile_eq_rdropWhile]
    rw [← List.append_assoc, List.rdropWhile_append_rtakeWhile, ← List.append_assoc,
      List.rdropWhile_append_rtakeWhile, List.rdropWhile_append_rtakeWhile]
  · intro c hc
    rcases List.mem_append.mp hc with hc | hc
    · exact .inl (List.mem_rtakeWhile_imp hc)
    · rcases List.mem_append.mp hc with hc | hc
      · exact .inr (by simpa using List.mem_rtakeWhile_imp hc)
      · exact .inl (List.mem_rtakeWhile_imp hc)

/-- A query without its semicolon before a text that does not start with half an opener. -/
theorem clear_withoutSemicolon_append {s t : String} (hdark : StartsDark s) (hs : Clear o s)
    (ht : Clear o t) (hfirst : t.toList.head?.any (fun c => c != '-' && c != '*') = true) :
    Clear o (withoutSemicolon s ++ t) := by
  obtain ⟨tail, he, htail⟩ := exists_withoutSemicolon hdark
  obtain ⟨r, hr, hloose⟩ := clear_iff.mp hs
  obtain ⟨r', hr', hloose'⟩ := clear_iff.mp ht
  rw [he, CommentReader.read_append, Option.bind_eq_some_iff] at hr
  obtain ⟨r₁, h₁, hr⟩ := hr
  -- what is left out has no quotes, so the reader stands outside before it as well as behind it
  have hcount : tail.count '\'' = 0 := by
    rw [List.count_eq_zero]
    intro hmem
    rcases htail _ hmem with hblank | hsemi
    · exact absurd hblank (by decide)
    · exact absurd hsemi (by decide)
  have hquoted := CommentReader.isQuoted_of_read hr
  cases r₁ with
  | quoted =>
    cases r with
    | quoted => cases hloose
    | behind c => simp [CommentReader.isQuoted, hcount] at hquoted
  | behind d =>
    refine clear_iff.mpr ⟨r', ?_, hloose'⟩
    rw [String.toList_append, CommentReader.read_append, h₁, Option.bind_some]
    cases hts : t.toList with
    | nil => simp [hts] at hfirst
    | cons c cs =>
      have hc : c ≠ o.second := by
        simp only [hts, List.head?_cons, Option.any_some, Bool.and_eq_true, bne_iff_ne] at hfirst
        cases o with
        | line => exact hfirst.1
        | block => exact hfirst.2
      rw [CommentReader.read_cons_eq d ' ' hc, ← hts]
      exact hr'

/-! ## Blocks -/

theorem Write.clear_render {w : Write} (h : w.All Wordy) : Clear o w.render := by
  obtain ⟨s, he, hs⟩ := (printing_clear (o := o)).write h
  rw [he]
  exact hs.text (by decide)

theorem clear_blockQuote (text : String) : Clear o (blockQuote text) := by
  obtain ⟨w, hq, hw, -⟩ := blockQuote_spec text
  refine clear_bland fun c hc => ?_
  rw [hq, dollarQuote, List.mem_append, List.mem_cons, List.mem_singleton] at hc
  have htag : ∀ c ∈ w, isBland c = true := by
    intro c hc
    simp only [isBland, Bool.and_eq_true, decide_eq_true_eq]
    refine ⟨⟨?_, ?_⟩, ?_⟩ <;> rintro rfl <;> exact absurd (hw _ hc) (by decide)
  rcases hc with (rfl | hc) | rfl
  · decide
  · exact htag c hc
  · decide

theorem BlockVariable.clear_selected {v : BlockVariable} (h : Wordy v.column) :
    Clear o v.selected := by
  have hcolumn : Clear o (columnRef rowsName v.column) := printing_clear.columnRef ⟨by decide, h⟩
  unfold BlockVariable.selected
  dsimp only
  split
  · exact ((clear_text (by decide)).append hcolumn).text (by decide)
  · exact hcolumn

/-- The query that a block goes through. -/
theorem Block.clear_source {b : Block} (h : b.All WordyRef Wordy)
    (hs : o = .line → b.source.SignsApart) :
    Clear o (withoutSemicolon ("SELECT " ++
      Text.join ", " (b.declared.map BlockVariable.selected) ++ " FROM (" ++
      withoutSemicolon b.source.render ++ ") " ++ rowsName) ++ " LOOP ") := by
  have hselected : ∀ t ∈ b.declared.map BlockVariable.selected, Clear o t := by
    intro t ht
    obtain ⟨v, hv, rfl⟩ := List.mem_map.mp ht
    exact v.clear_selected (h.declared v hv).2
  have hselect : Clear o ("SELECT " ++ Text.join ", " (b.declared.map BlockVariable.selected) ++
      " FROM (") :=
    ((clear_text (by decide)).append (printing_clear.join (by decide) hselected)).text (by decide)
  have hrows : Clear o (withoutSemicolon b.source.render ++ (") " ++ rowsName)) :=
    clear_withoutSemicolon_append (b.source.startsDark_body.append ";")
      (b.source.clear_render h.source hs) (clear_text (by decide)) (by decide)
  refine clear_withoutSemicolon_append ?_ ?_ (clear_text (by decide)) (by decide)
  · simp only [String.append_assoc]
    exact StartsDark.append (by decide +kernel) _
  · simpa only [String.append_assoc] using hselect.append hrows

/-- A block over a query, from the names of its variables and its statements. -/
theorem clear_loopBlock {declarations : List (String × ColumnType)} {source : String}
    {body : List String} (hdeclarations : ∀ d ∈ declarations, Wordy d.1)
    (hsource : Clear o (withoutSemicolon source ++ " LOOP "))
    (hbody : ∀ s ∈ body, Clear o (withSemicolon s)) :
    Clear o (loopBlock declarations source body) := by
  have hdeclared : Clear o (Text.join " " (declarations.map fun d =>
      d.1 ++ " " ++ d.2.sql ++ ";")) := by
    refine printing_clear.join (by decide) fun t ht => ?_
    obtain ⟨d, hd, rfl⟩ := List.mem_map.mp ht
    refine (((clear_word (hdeclarations d hd)).text (by decide)).text ?_).text (by decide)
    cases d.2 <;> decide
  have htargets : Clear o (Text.join ", " (declarations.map Prod.fst)) := by
    refine printing_clear.join (by decide) fun t ht => ?_
    obtain ⟨d, hd, rfl⟩ := List.mem_map.mp ht
    exact clear_word (hdeclarations d hd)
  have hstatements : Clear o (Text.join " " (body.map withSemicolon)) := by
    refine printing_clear.join (by decide) fun t ht => ?_
    obtain ⟨s, hs, rfl⟩ := List.mem_map.mp ht
    exact hbody s hs
  have hhead : Clear o ("DECLARE " ++ Text.join " " (declarations.map fun d =>
      d.1 ++ " " ++ d.2.sql ++ ";") ++ " BEGIN FOR " ++
        Text.join ", " (declarations.map Prod.fst) ++ " IN ") :=
    ((((clear_text (by decide)).append hdeclared).text (by decide)).append htargets).text
      (by decide)
  have hrows := hhead.append hsource
  rw [← String.append_assoc] at hrows
  have hblock := (hrows.append hstatements).text (t := " END LOOP; END") (by decide)
  have hopen : ∀ text, Clear o ("DO " ++ blockQuote text ++ " ") := fun text =>
    ((clear_text (by decide)).append (clear_blockQuote text)).text (by decide)
  unfold loopBlock
  exact ((((hopen _).append hblock).text (by decide)).append (clear_blockQuote _)).text (by decide)

theorem Block.clear_render {b : Block} (h : b.All WordyRef Wordy)
    (hs : o = .line → b.source.SignsApart) : Clear o b.render := by
  refine clear_loopBlock ?_ (b.clear_source h hs) ?_
  · intro d hd
    obtain ⟨v, hv, rfl⟩ := List.mem_map.mp hd
    exact wordy_append (by decide) (h.declared v hv).1
  · intro s hmem
    obtain ⟨w, hw, rfl⟩ := List.mem_map.mp hmem
    rw [withSemicolon_eq_self w.startsDark_render (w.whole_render (h.body w hw))]
    exact w.clear_render (h.body w hw)

/-! ## Statements -/

theorem clear_tempTableFrom {table : String} {s : Select} (ht : Wordy table)
    (h : s.All WordyRef Wordy) (hs : o = .line → s.SignsApart) :
    Clear o (tempTableFrom table s.render) := by
  have hcreate : Clear o ("CREATE TEMP TABLE " ++ table ++ " AS ") :=
    ((clear_text (by decide)).word ht).text (by decide)
  have hselect : Clear o (withoutSemicolon s.render ++ ";") :=
    clear_withoutSemicolon_append (s.startsDark_body.append ";") (s.clear_render h hs)
      (clear_text (by decide)) (by decide)
  have hboth := hcreate.append hselect
  rw [← String.append_assoc] at hboth
  exact hboth

/-- **A plain statement opens no comment** by `/*`, and none by `--` either when no minus signs
stand in a row. -/
theorem Statement.not_opensComment_render {s : Statement} (h : s.Plain)
    (hs : o = .line → s.SignsApart) : ¬ OpensComment o s.render := by
  refine Clear.not_opensComment ?_
  cases s with
  | select s => exact s.clear_render h hs
  | createTemp table s => exact clear_tempTableFrom h.1 h.2 hs
  | write w => exact w.clear_render h
  | block b => exact b.clear_render h hs

end GraphSql.Relational
