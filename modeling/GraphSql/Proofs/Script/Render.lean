import Mathlib.Data.List.DropRight
import GraphSql.Proofs.Script.Block
import GraphSql.Proofs.Script.Printing

/-!
# Statements are written in one piece

Statements are printed from trees.  When the names in a tree are words, nothing in its text can end a
statement or open a quoted text except the constants, and these are left where they end
(`printing_reads`).

* `Select.reads_body`: select statements without their semicolon.
* `Statement.whole_render`: every statement is in one piece.
-/

namespace GraphSql.Relational

open Reader (Ready Free)

variable {s : String}

/-! ## Numbers -/

/-- The characters of numbers. -/
def isNumberChar (c : Char) : Bool := c.isDigit || c = '.' || c = 'e' || c = '+' || c = '-'

theorem isPlain_of_isNumberChar {c : Char} (h : isNumberChar c = true) : isPlain c = true := by
  simp only [isNumberChar, Bool.or_eq_true, decide_eq_true_eq] at h
  rcases h with (((h | rfl) | rfl) | rfl) | rfl
  · exact isPlain_of_isWordChar (isWordChar_of_isDigit h)
  all_goals decide

theorem isNumberChar_of_isDigit {c : Char} (h : c.isDigit = true) : isNumberChar c = true := by
  simp [isNumberChar, h]

theorem isNumberChar_positional {ds : List Char} (h : ∀ c ∈ ds, isNumberChar c = true)
    (lead : Int) : ∀ c ∈ Binary64.positional ds lead, isNumberChar c = true := by
  intro c hc
  rcases Binary64.mem_positional hc with hc | rfl | rfl
  · exact h c hc
  · decide
  · decide

theorem isNumberChar_scientific {ds : List Char} (h : ∀ c ∈ ds, isNumberChar c = true)
    (lead : Int) : ∀ c ∈ Binary64.scientific ds lead, isNumberChar c = true := by
  obtain ⟨mantissa, sign, power, he, hmantissa, hsign, -, hpower⟩ :=
    Binary64.exists_scientific ds lead
  intro c hc
  rw [he, List.mem_append, List.mem_cons, List.mem_cons] at hc
  rcases hc with hc | rfl | rfl | hc
  · rcases hmantissa c hc with hc | rfl
    · exact h c hc
    · decide
  · decide
  · rcases hsign with rfl | rfl <;> decide
  · exact isNumberChar_of_isDigit (hpower c hc)

theorem isNumberChar_shortestDigits (m : Nat) (e : Int) :
    ∀ c ∈ (Binary64.shortestDigits m e).1, isNumberChar c = true := fun c hc =>
  isNumberChar_of_isDigit (Binary64.isDigit_shortestDigits m e c hc)

theorem reads_numberChars {cs : List Char} (h : ∀ c ∈ cs, isNumberChar c = true) :
    Reads Ready (String.ofList cs) Ready := fun r hr => by
  rw [String.toList_ofList]
  exact read_plain (List.all_eq_true.mpr fun c hc => isPlain_of_isNumberChar (h c hc)) hr

theorem reads_sign (negative : Bool) : Reads Ready (if negative then "-" else "") Ready := by
  cases negative with
  | false => exact reads_word (by decide)
  | true => exact (reads_plain (by decide)).ofReady

theorem reads_number (x : Binary64) : Reads Ready x.render Ready := by
  cases x with
  | nan => exact (reads_plain (by decide)).ofReady
  | infinite negative => cases negative <;> exact (reads_plain (by decide)).ofReady
  | finite negative m e =>
    unfold Binary64.render
    dsimp only
    split
    · exact (reads_sign negative).append (reads_plain (by decide)).ofReady
    · refine (reads_sign negative).append (reads_numberChars ?_)
      split
      · exact isNumberChar_positional (isNumberChar_shortestDigits m e) _
      · exact isNumberChar_scientific (isNumberChar_shortestDigits m e) _

theorem reads_integer (n : Int) : Reads Ready (Numeral.integer n) Ready := by
  cases n with
  | ofNat n => exact reads_word (wordy_natural n)
  | negSucc n => exact (reads_plain (s := "-") (by decide)).ofReady.word (wordy_natural (n + 1))

/-! ## Trees -/

/-- **Printed trees are read without ending a statement.** -/
theorem printing_reads :
    Printing False (fun s => Reads Ready s Ready) (fun s => Reads Ready s Free) where
  empty := reads_word (by decide)
  free h := h.free
  word h ht := h.word ht
  text h ht := h.text ht.1
  part h ht := h.part ht
  signed h _ := (reads_plain (by decide)).ofReady.part h
  quote := reads_quote
  integer n := (reads_integer n).free
  number x := (reads_number x).free

theorem Select.reads_body {s : Select} (h : s.All WordyRef Wordy) : Reads Ready s.body Free :=
  printing_reads.body h False.elim

/-! ## Semicolons at the end -/

theorem dropEndWhile_eq_rdropWhile {α : Type} (p : α → Bool) (xs : List α) :
    Text.dropEndWhile p xs = xs.rdropWhile p := rfl

/-- A text that starts with a character that is not blank. -/
structure StartsDark (s : String) : Prop where
  first : s.toList.head?.any (fun c => !Text.isBlank c) = true

instance (s : String) : Decidable (StartsDark s) :=
  decidable_of_iff _ ⟨StartsDark.mk, StartsDark.first⟩

theorem StartsDark.append (h : StartsDark s) (t : String) : StartsDark (s ++ t) := by
  have hfirst := h.first
  cases hs : s.toList with
  | nil => simp [hs] at hfirst
  | cons c cs => exact ⟨by simpa [hs] using hfirst⟩

theorem StartsDark.join (h : StartsDark s) (sep : String) (ss : List String) :
    StartsDark (Text.join sep (s :: ss)) := by
  cases ss with
  | nil => exact h
  | cons t ts => exact (h.append sep).append _

theorem StartsDark.dropWhile_isBlank (h : StartsDark s) :
    s.toList.dropWhile Text.isBlank = s.toList := by
  have hfirst := h.first
  cases hs : s.toList with
  | nil => rfl
  | cons c cs =>
    have hc : Text.isBlank c = false := by simpa [hs] using hfirst
    simp [hc]

/-- A statement that ends in a semicolon has no blanks to trim. -/
theorem trimChars_eq_self {cs : List Char} (h : StartsDark s) (he : s.toList = cs ++ [';']) :
    Text.trimChars s.toList = s.toList := by
  rw [Text.trimChars, h.dropWhile_isBlank, he, dropEndWhile_eq_rdropWhile,
    List.rdropWhile_concat_neg _ _ _ (by decide)]

theorem withSemicolon_eq_self (h : StartsDark s) (hw : Whole s) : withSemicolon s = s := by
  obtain ⟨cs, -, he, -, -⟩ := hw
  have htrim : Text.trim s = s := by
    rw [Text.trim, trimChars_eq_self h he, String.ofList_toList]
  simp [withSemicolon, htrim, he]

/-- A query that loses its semicolon and the blanks before it is read as before. -/
theorem reads_withoutSemicolon (h : StartsDark s) (hs : Reads Ready s Free) :
    Reads Ready (withoutSemicolon (s ++ ";")) (fun r => r.ends ';' = true) := by
  intro r hr
  obtain ⟨r', hread, hfree⟩ := hs r hr
  have hkept : (withoutSemicolon (s ++ ";")).toList =
      (s.toList.rdropWhile (· == ';')).rdropWhile Text.isBlank := by
    have hsemi : (s ++ ";").toList = s.toList ++ [';'] := by simp
    rw [withoutSemicolon, trimChars_eq_self (h.append ";") hsemi, hsemi, String.toList_ofList]
    simp only [dropEndWhile_eq_rdropWhile]
    rw [List.rdropWhile_concat_pos _ _ _ (by decide)]
  have hall : s.toList = (withoutSemicolon (s ++ ";")).toList ++
      ((s.toList.rdropWhile (· == ';')).rtakeWhile Text.isBlank ++
        s.toList.rtakeWhile (· == ';')) := by
    rw [hkept, ← List.append_assoc, List.rdropWhile_append_rtakeWhile,
      List.rdropWhile_append_rtakeWhile]
  -- what is left out can neither open nor close anything
  have hdropped : ∀ c ∈ (s.toList.rdropWhile (· == ';')).rtakeWhile Text.isBlank ++
      s.toList.rtakeWhile (· == ';'), c ≠ '\'' ∧ c ≠ '$' := by
    intro c hc
    rcases List.mem_append.mp hc with hc | hc
    · have hblank := List.mem_rtakeWhile_imp hc
      constructor <;> rintro rfl <;> exact absurd hblank (by decide)
    · have hsemi := List.mem_rtakeWhile_imp hc
      constructor <;> rintro rfl <;> exact absurd hsemi (by decide)
  rw [hall, Reader.read_append, Option.bind_eq_some_iff] at hread
  obtain ⟨r₁, h₁, h₂⟩ := hread
  have hproper : r.Proper := by rcases hr with rfl | rfl <;> exact trivial
  exact ⟨r₁, h₁, Reader.ends_of_read hdropped (hproper.read h₁) h₂ hfree.ends⟩

theorem Select.startsDark_body (s : Select) : StartsDark s.body := by
  refine StartsDark.join ?_ _ _
  rw [String.append_assoc]
  exact StartsDark.append (by decide +kernel) _

/-! ## Writes -/

theorem Write.whole_render {w : Write} (h : w.All Wordy) : Whole w.render := by
  obtain ⟨s, he, hs⟩ := printing_reads.write h
  rw [he]
  exact hs.ends.whole

theorem Write.startsDark_render (w : Write) : StartsDark w.render := by
  cases w with
  | update table assignments test =>
    unfold Write.render
    simp only [String.append_assoc]
    exact StartsDark.append (by decide +kernel) _
  | insertEdge values rows =>
    unfold Write.render
    simp only [String.append_assoc]
    exact StartsDark.append (by decide +kernel) _

/-! ## Statements -/

/-- All names of a statement are words. -/
def Statement.Plain : Statement → Prop
  | .select s => s.All WordyRef Wordy
  | .createTemp table s => Wordy table ∧ s.All WordyRef Wordy
  | .write w => w.All Wordy
  | .block b => b.All WordyRef Wordy

theorem whole_tempTableFrom {table : String} {s : Select} (ht : Wordy table)
    (hs : s.All WordyRef Wordy) : Whole (tempTableFrom table s.render) := by
  have hname := (reads_plain (s := "CREATE TEMP TABLE ") (by decide)).ofReady.word ht
  exact ((hname.free.text (t := " AS ") (by decide)).append
    (reads_withoutSemicolon s.startsDark_body (s.reads_body hs))).whole

/-- **Every statement is written in one piece.** -/
theorem Statement.whole_render {s : Statement} (h : s.Plain) : Whole s.render := by
  cases s with
  | select s => exact (s.reads_body h).ends.whole
  | createTemp table s => exact whole_tempTableFrom h.1 h.2
  | write w => exact w.whole_render h
  | block b =>
    -- a block is quoted as a whole, so its names do not matter here
    simp only [Statement.render, Block.render, loopBlock]
    exact whole_block _

theorem startsDark_tempTableFrom (table select : String) :
    StartsDark (tempTableFrom table select) := by
  have hcreate : StartsDark "CREATE TEMP TABLE " := by decide +kernel
  exact (((hcreate.append table).append " AS ").append (withoutSemicolon select)).append ";"

theorem Statement.startsDark_render (s : Statement) : StartsDark s.render := by
  cases s with
  | select s => exact s.startsDark_body.append ";"
  | createTemp table s => exact startsDark_tempTableFrom table s.render
  | write w => exact w.startsDark_render
  | block b =>
    simp only [Statement.render, Block.render, loopBlock, String.append_assoc]
    exact StartsDark.append (by decide +kernel) _

/-- **The script of statements is cut into the statements again.** -/
theorem Statement.cutScript_script {ss : List Statement} (h : ∀ s ∈ ss, s.Plain) (hne : ss ≠ []) :
    cutScript (script ss) = ss.map render := by
  have hself : (ss.map render).map withSemicolon = ss.map render := by
    rw [List.map_map]
    refine List.map_congr_left fun s hs => ?_
    rw [Function.comp_apply]
    exact withSemicolon_eq_self s.startsDark_render (whole_render (h s hs))
  have hwhole : ∀ t ∈ ss.map render, Whole t := by
    intro t ht
    obtain ⟨s, hs, rfl⟩ := List.mem_map.mp ht
    exact whole_render (h s hs)
  have hcut := cutScript_join hwhole (by simpa using hne)
  unfold script joinScript
  rw [hself]
  split
  · rename_i hempty
    rw [hempty] at hcut
    have : ss.map render = [] := hcut.symm
    exact absurd (List.map_eq_nil_iff.mp this) hne
  · exact hcut

end GraphSql.Relational
