import GraphSql.Proofs.Relational.Signs

/-!
# Looking for comments

Outside of quoted texts `--` opens a comment up to the end of the line, and `/*` one up to the next
`*/`.  A place is outside of quoted texts when the number of quotes before it is even, since a
doubled quote in a quoted text counts twice (`OpensComment`).

Statements are looked at part by part.  `Clear o s` says that the part `s` opens no comment and leaves
neither half an opener nor an open quote behind, so that clear parts can be put next to each other
(`Clear.append`).  The only place where an opener can come about from two parts is a minus sign before
an operand (`Clear.signed`).
-/

namespace GraphSql.Relational

variable {cs : List Char} {c : Char}

/-- The two ways to open a comment. -/
inductive CommentOpener where
  | line
  | block
  deriving DecidableEq

namespace CommentOpener

def first : CommentOpener → Char
  | line => '-'
  | block => '/'

def second : CommentOpener → Char
  | line => '-'
  | block => '*'

end CommentOpener

/-- A text opens a comment where the two characters stand behind an even number of quotes. -/
def OpensComment (o : CommentOpener) (sql : String) : Prop :=
  ∃ before rest, sql.toList = before ++ o.first :: o.second :: rest ∧ before.count '\'' % 2 = 0

/-! ## Looking for comments character by character -/

/-- Where a reader stands that looks for comments. -/
inductive CommentReader where
  | quoted
  /-- Outside of quoted texts, behind the given character. -/
  | behind (c : Char)
  deriving DecidableEq

namespace CommentReader

/-- Reading one character. -/
def step : CommentReader → Char → CommentReader
  | quoted, c => if c = '\'' then behind c else quoted
  | behind _, c => if c = '\'' then quoted else behind c

/-- Whether a character opens a comment together with the one before it. -/
def opens (o : CommentOpener) : CommentReader → Char → Bool
  | quoted, _ => false
  | behind d, c => d = o.first && c = o.second

/-- Reading a text in which no comment is opened. -/
def read (o : CommentOpener) : CommentReader → List Char → Option CommentReader
  | r, [] => some r
  | r, c :: cs => if r.opens o c then none else read o (r.step c) cs

def isQuoted : CommentReader → Bool
  | quoted => true
  | behind _ => false

/-- Outside of quoted texts, and not behind the first half of an opener. -/
def isLoose (o : CommentOpener) : CommentReader → Bool
  | quoted => false
  | behind c => c ≠ o.first

variable {o : CommentOpener} {r r' : CommentReader}

theorem read_append (r : CommentReader) (as bs : List Char) :
    r.read o (as ++ bs) = (r.read o as).bind (·.read o bs) := by
  induction as generalizing r with
  | nil => rfl
  | cons a as ih =>
    rw [List.cons_append, read, read]
    split
    · rfl
    · exact ih _

theorem isQuoted_step (r : CommentReader) (c : Char) :
    (r.step c).isQuoted = (r.isQuoted ^^ decide (c = '\'')) := by
  by_cases hc : c = '\''
  · cases r with
    | quoted => simp [step, isQuoted, hc]
    | behind d => simp [step, isQuoted, hc]
  · cases r with
    | quoted => simp [step, isQuoted, hc]
    | behind d => simp [step, isQuoted, hc]

/-- A reader goes into a quoted text or out of it at every quote. -/
theorem isQuoted_of_read : ∀ {cs : List Char} {r r' : CommentReader}, r.read o cs = some r' →
    r'.isQuoted = (r.isQuoted ^^ decide (cs.count '\'' % 2 = 1))
  | [], r, r', h => by
    obtain rfl : r = r' := by simpa [read] using h
    simp
  | c :: cs, r, r', h => by
    rw [read] at h
    split at h
    · cases h
    rw [isQuoted_of_read h, isQuoted_step, Bool.xor_assoc]
    congr 1
    by_cases hc : c = '\''
    · subst hc
      rw [List.count_cons_self]
      rcases Nat.mod_two_eq_zero_or_one (cs.count '\'') with hcount | hcount
      · have hnext : (cs.count '\'' + 1) % 2 = 1 := by omega
        simp [hcount, hnext]
      · have hnext : (cs.count '\'' + 1) % 2 = 0 := by omega
        simp [hcount, hnext]
    · rw [List.count_cons_of_ne hc]
      simp [hc]

/-- **A text that is read opens no comment.** -/
theorem not_opensComment_of_read {sql : String} {r : CommentReader}
    (h : (behind ' ').read o sql.toList = some r) : ¬ OpensComment o sql := by
  rintro ⟨before, rest, he, hcount⟩
  rw [he, read_append, Option.bind_eq_some_iff] at h
  obtain ⟨r₁, hbefore, h⟩ := h
  have hquoted := isQuoted_of_read hbefore
  rw [hcount] at hquoted
  cases r₁ with
  | quoted => cases hquoted
  | behind d =>
    rw [read] at h
    split at h
    · cases h
    · have hstep : (behind d).step o.first = behind o.first := by
        cases o <;> rfl
      rw [hstep, read, opens, decide_eq_true rfl, decide_eq_true rfl] at h
      cases h

/-- A character that is not the second half of an opener is read alike behind any other one. -/
theorem read_cons_eq (d d' : Char) (hc : c ≠ o.second) :
    (behind d).read o (c :: cs) = (behind d').read o (c :: cs) := by
  simp [read, opens, hc, step]

/-- Readers that are not behind the first half of an opener read alike. -/
theorem read_cons_of_isLoose (h : r.isLoose o = true) :
    r.read o (c :: cs) = (behind ' ').read o (c :: cs) := by
  have hblank : ' ' ≠ o.first := by cases o <;> decide
  cases r with
  | quoted => cases h
  | behind d =>
    have hd : d ≠ o.first := of_decide_eq_true h
    simp [read, opens, hd, hblank, step]

end CommentReader

/-! ## Parts of statements -/

open CommentReader (isLoose)

/-- A part opens no comment and does not end in half an opener or inside a quoted text. -/
def Clear (o : CommentOpener) (s : String) : Prop :=
  ((CommentReader.behind ' ').read o s.toList).any (isLoose o) = true

instance (o : CommentOpener) (s : String) : Decidable (Clear o s) :=
  inferInstanceAs (Decidable (_ = true))

section Clear

variable {o : CommentOpener} {s t : String}

theorem clear_iff : Clear o s ↔
    ∃ r, (CommentReader.behind ' ').read o s.toList = some r ∧ r.isLoose o = true := by
  rw [Clear, Option.any_eq_true]

/-- A clear part is read from everywhere where nothing is left open. -/
theorem Clear.read (h : Clear o s) {r : CommentReader} (hr : r.isLoose o = true) :
    ∃ r', r.read o s.toList = some r' ∧ r'.isLoose o = true := by
  obtain ⟨r', h', hloose⟩ := clear_iff.mp h
  cases hs : s.toList with
  | nil => exact ⟨r, rfl, hr⟩
  | cons c cs =>
    refine ⟨r', ?_, hloose⟩
    rw [CommentReader.read_cons_of_isLoose hr, ← hs]
    exact h'

theorem Clear.append (hs : Clear o s) (ht : Clear o t) : Clear o (s ++ t) := by
  obtain ⟨r, hr, hloose⟩ := clear_iff.mp hs
  obtain ⟨r', hr', hloose'⟩ := ht.read hloose
  refine clear_iff.mpr ⟨r', ?_, hloose'⟩
  rw [String.toList_append, CommentReader.read_append, hr]
  exact hr'

theorem Clear.not_opensComment (h : Clear o s) : ¬ OpensComment o s := by
  obtain ⟨r, hr, -⟩ := clear_iff.mp h
  exact CommentReader.not_opensComment_of_read hr

/-- A fixed text is looked at for both openers. -/
theorem clear_text (h : Clear .line s ∧ Clear .block s) : Clear o s := by
  cases o with
  | line => exact h.1
  | block => exact h.2

theorem Clear.text (hs : Clear o s) (ht : Clear .line t ∧ Clear .block t) : Clear o (s ++ t) :=
  hs.append (clear_text ht)

/-! ### Words and quoted texts -/

/-- The characters that neither open a comment nor a quoted text. -/
def isBland (c : Char) : Bool := c ≠ '\'' && c ≠ '-' && c ≠ '/'

theorem read_bland : ∀ {cs : List Char} {r : CommentReader}, (∀ c ∈ cs, isBland c = true) →
    r.isLoose o = true → ∃ r', r.read o cs = some r' ∧ r'.isLoose o = true
  | [], r, _, hr => ⟨r, rfl, hr⟩
  | c :: cs, .quoted, _, hr => nomatch hr
  | c :: cs, .behind d, h, hr => by
    have hd : d ≠ o.first := of_decide_eq_true hr
    have hc := h c List.mem_cons_self
    simp only [isBland, Bool.and_eq_true, decide_eq_true_eq] at hc
    obtain ⟨⟨hquote, hminus⟩, hslash⟩ := hc
    have hfirst : c ≠ o.first := by cases o <;> assumption
    obtain ⟨r', hr', hloose⟩ := read_bland (fun e he => h e (List.mem_cons_of_mem c he))
      (r := .behind c) (decide_eq_true hfirst)
    refine ⟨r', ?_, hloose⟩
    simpa [CommentReader.read, CommentReader.opens, CommentReader.step, hd, hquote] using hr'

theorem clear_bland (h : ∀ c ∈ s.toList, isBland c = true) : Clear o s :=
  clear_iff.mpr (read_bland h (by cases o <;> decide))

theorem isBland_of_isWordChar (h : isWordChar c = true) : isBland c = true :=
  forall_isWordChar (by decide +kernel) (by decide +kernel) h

theorem clear_word (h : Wordy s) : Clear o s :=
  clear_bland fun c hc => isBland_of_isWordChar (h c hc)

theorem Clear.word (hs : Clear o s) (ht : Wordy t) : Clear o (s ++ t) := hs.append (clear_word ht)

theorem read_quoteChars_quoted (cs : List Char) :
    CommentReader.quoted.read o (cs.flatMap quoteChar) = some .quoted := by
  induction cs with
  | nil => rfl
  | cons c cs ih =>
    have hc : CommentReader.quoted.read o (quoteChar c) = some .quoted := by
      unfold quoteChar
      split
      · cases o <;> rfl
      · rename_i hc
        simp [CommentReader.read, CommentReader.opens, CommentReader.step, hc]
    rw [List.flatMap_cons, CommentReader.read_append, hc]
    exact ih

/-- **A quoted text opens no comment**, whatever is in it. -/
theorem clear_quote (s : String) : Clear o (quote s) := by
  have hopen : (CommentReader.behind ' ').read o "'".toList = some .quoted := by
    cases o <;> decide
  refine clear_iff.mpr ⟨.behind '\'', ?_, by cases o <;> decide⟩
  simp only [quote, String.toList_append, CommentReader.read_append, hopen, Option.bind_some,
    String.toList_ofList, read_quoteChars_quoted]
  cases o <;> rfl

/-! ### Minus signs -/

/-- **A minus sign before a part** opens no comment unless the part starts with a minus sign. -/
theorem Clear.signed (h : Clear o s) (hs : o = .line → Unsigned s) : Clear o ("-" ++ s) := by
  cases o with
  | block => exact (by decide : Clear .block "-").append h
  | line =>
    obtain ⟨c, cs, he, hc⟩ := (hs rfl).exists_cons
    obtain ⟨r, hr, hloose⟩ := clear_iff.mp h
    have hminus : (CommentReader.behind ' ').read .line "-".toList = some (.behind '-') := by decide
    refine clear_iff.mpr ⟨r, ?_, hloose⟩
    rw [String.toList_append, CommentReader.read_append, hminus, Option.bind_some, he,
      CommentReader.read_cons_eq '-' ' ' hc, ← he]
    exact hr

end Clear

/-! ## Numbers -/

section Numbers

variable {o : CommentOpener}

theorem isBland_of_isDigit (h : c.isDigit = true) : isBland c = true :=
  isBland_of_isWordChar (isWordChar_of_isDigit h)

theorem clear_integer (n : Int) : Clear o (Numeral.integer n) := by
  cases n with
  | ofNat n => exact clear_word (wordy_natural n)
  | negSucc n => exact (clear_word (wordy_natural (n + 1))).signed fun _ => unsigned_natural (n + 1)

theorem clear_chars (h : ∀ c ∈ cs, isBland c = true) : Clear o (String.ofList cs) :=
  clear_bland fun c hc => h c (by rwa [String.toList_ofList] at hc)

theorem clear_positional {ds : List Char} (h : ∀ c ∈ ds, c.isDigit = true) (lead : Int) :
    Clear o (String.ofList (Binary64.positional ds lead)) := by
  refine clear_chars fun c hc => ?_
  rcases Binary64.mem_positional hc with hc | rfl | rfl
  · exact isBland_of_isDigit (h c hc)
  · decide
  · decide

/-- The sign of a power of ten stands between an `e` and digits. -/
theorem clear_scientific {ds : List Char} (h : ∀ c ∈ ds, c.isDigit = true) (lead : Int) :
    Clear o (String.ofList (Binary64.scientific ds lead)) := by
  obtain ⟨mantissa, sign, power, he, hmantissa, hsign, hne, hpower⟩ :=
    Binary64.exists_scientific ds lead
  have hbefore : Clear o (String.ofList (mantissa ++ ['e'])) := by
    refine clear_chars fun c hc => ?_
    rcases List.mem_append.mp hc with hc | hc
    · rcases hmantissa c hc with hc | rfl
      · exact isBland_of_isDigit (h c hc)
      · decide
    · obtain rfl := List.mem_singleton.mp hc
      decide
  have hdigits : Clear o (String.ofList power) :=
    clear_chars fun c hc => isBland_of_isDigit (hpower c hc)
  have hsplit : String.ofList (Binary64.scientific ds lead) =
      String.ofList (mantissa ++ ['e']) ++ (String.ofList [sign] ++ String.ofList power) := by
    rw [← String.ofList_append, ← String.ofList_append, he, List.append_assoc]
    rfl
  have hunsigned : Unsigned (String.ofList power) :=
    .of_chars hne fun c hc => ne_minus_of_isDigit (hpower c hc)
  have hminus : String.ofList ['-'] = "-" := by decide
  have hplus : String.ofList ['+'] = "+" := by decide
  rw [hsplit]
  refine hbefore.append ?_
  rcases hsign with rfl | rfl
  · rw [hminus]
    exact hdigits.signed fun _ => hunsigned
  · rw [hplus]
    exact (clear_text (by decide)).append hdigits

theorem clear_number (x : Binary64) : Clear o x.render := by
  cases x with
  | nan => exact clear_text (by decide)
  | infinite negative => cases negative <;> exact clear_text (by decide)
  | finite negative m e =>
    -- the digits do not start with a minus sign, so that one can stand before them
    have hdigits : ∃ text, Clear o text ∧ Unsigned text ∧
        (Binary64.finite negative m e).render = (if negative then "-" else "") ++ text := by
      have hshort := Binary64.isDigit_shortestDigits m e
      unfold Binary64.render
      dsimp only
      split
      · exact ⟨"0.0", clear_text (by decide), by decide, rfl⟩
      · refine ⟨_, ?_, ?_, rfl⟩
        · split
          · exact clear_positional hshort _
          · exact clear_scientific hshort _
        · split
          · exact unsigned_positional hshort _
          · exact unsigned_scientific hshort _
    obtain ⟨text, hclear, hunsigned, he⟩ := hdigits
    rw [he]
    cases negative with
    | false => exact (clear_text (by decide) : Clear o "").append hclear
    | true => exact hclear.signed fun _ => hunsigned

end Numbers

end GraphSql.Relational
