import GraphSql.Proofs.Query.Printing

/-!
# Reading the tokens of a text

The text of a row of tokens is read token by token (`scan_of_spaced`), as long as each of them can
stand where it is read: reserved words are read as keywords everywhere, the other ones only among
marks, and a name, a numeral or a quoted text is read where an operand is expected.  `Token.Fits` says
which tokens can stand where.  Since a blank follows, no token is taken for a longer one.
-/

namespace GraphSql.Query

variable {k : Keyword} {expecting : Expecting} {x : String}

/-- Tokens that are read as they are written at a place of the given kind. -/
def Token.Fits : Expecting → Token → Prop
  | _, .symbol _ => True
  | .mark, .keyword _ => True
  | .name, .keyword k => k ∈ Keyword.reserved
  | .operand, .keyword k => k ∈ Keyword.TRUE :: .FALSE :: Keyword.reserved
  | .name, .name x => PlainName x
  | .operand, .name x => PlainName x
  | .operand, .integer digits => ∀ c ∈ digits, c.isDigit = true
  | .operand, .quoted body => ∃ cs, '\\' ∉ cs ∧ body = escape cs
  | _, _ => False

/-- A text that is empty or starts with a blank. -/
def Gap (rest : List Char) : Prop := ∀ c ∈ rest.head?, isSpace c = true

/-! ## Characters -/

theorem forall_isSpace {p : Char → Prop} (h : ∀ c ∈ [' ', '\t', '\x0c', '\r', '\n'], p c) {c : Char}
    (hc : isSpace c = true) : p c := by
  refine h c ?_
  simp only [isSpace, Bool.or_eq_true, decide_eq_true_eq] at hc
  simpa [or_assoc] using hc

theorem not_isSpace_of_isLower {c : Char} (h : (foldChar c).isLower = true) : isSpace c = false := by
  rw [Bool.eq_false_iff]
  intro hc
  rw [forall_isSpace (p := fun c => (foldChar c).isLower = false) (by decide) hc] at h
  cases h

theorem not_isNameChar_of_isSpace {c : Char} (h : isSpace c = true) : isNameChar c = false :=
  forall_isSpace (p := fun c => isNameChar c = false) (by decide) h

theorem not_isDigit_of_isSpace {c : Char} (h : isSpace c = true) : Text.isDigit c = false :=
  forall_isSpace (p := fun c => Text.isDigit c = false) (by decide +kernel) h

/-- The longest run of such characters is the word before a gap. -/
theorem takeWhile_append_gap {p : Char → Bool} {word rest : List Char}
    (hword : ∀ c ∈ word, p c = true) (hgap : Gap rest) (hp : ∀ c, isSpace c = true → p c = false) :
    (word ++ rest).takeWhile p = word ∧ (word ++ rest).dropWhile p = rest := by
  rw [List.takeWhile_append_of_pos hword, List.dropWhile_append_of_pos hword]
  cases rest with
  | nil => simp
  | cons c cs =>
    have hc : p c = false := hp c (hgap c rfl)
    simp [hc]

/-- A word without blanks that is found before a gap is found before the gap starts. -/
theorem prefix_of_gap {word word' rest rest' : List Char} (h : word' ++ rest' = word ++ rest)
    (hword : ∀ c ∈ word', isSpace c = false) (hgap : Gap rest) : word' <+: word := by
  rcases List.append_eq_append_iff.mp h with ⟨w, hw, -⟩ | ⟨w, hw, hrest⟩
  · exact ⟨w, hw.symm⟩
  · cases w with
    | nil => simp [hw]
    | cons c w =>
      have hspace : isSpace c = true := hgap c (by simp [hrest])
      rw [hword c (by simp [hw])] at hspace
      cases hspace

/-! ## Keywords -/

theorem foldChar_of_toLower {c : Char} (h : c.toLower.isLower = true) : foldChar c = c.toLower := by
  unfold foldChar
  split_ifs with h1 h2 h3
  · subst h1
    exact absurd h (by decide)
  · subst h2
    exact absurd h (by decide)
  · simp only [Bool.or_eq_true, decide_eq_true_eq] at h3
    rcases h3 with rfl | rfl
    · exact absurd h (by decide)
    · exact absurd h (by decide)
  · rfl

theorem isLower_of_mem_spelling {c : Char} (h : c ∈ k.spelling.toList) : c.isLower = true := by
  have hall : k.spelling.toList.all Char.isLower = true := by cases k <;> decide
  exact List.all_eq_true.mp hall c h

theorem map_foldChar_of_spells {word : List Char} (h : word.map Char.toLower = k.spelling.toList) :
    word.map foldChar = k.spelling.toList := by
  rw [← h]
  refine List.map_congr_left fun c hc => foldChar_of_toLower (isLower_of_mem_spelling (k := k) ?_)
  rw [← h]
  exact List.mem_map_of_mem hc

theorem isLower_of_map_foldChar {word : List Char} (h : word.map foldChar = k.spelling.toList) :
    ∀ c ∈ word, (foldChar c).isLower = true := by
  intro c hc
  refine isLower_of_mem_spelling (k := k) ?_
  rw [← h]
  exact List.mem_map_of_mem hc

theorem dropWord_eq_some_iff : ∀ {w cs rest : List Char},
    dropWord w cs = some rest ↔ ∃ word, word.map foldChar = w ∧ cs = word ++ rest
  | [], cs, rest => by simp [dropWord]
  | a :: w, [], rest => by simp [dropWord]
  | a :: w, c :: cs, rest => by
    rw [dropWord]
    constructor
    · intro h
      split at h
      · rename_i hc
        obtain ⟨word, rfl, rfl⟩ := dropWord_eq_some_iff.mp h
        exact ⟨c :: word, by simp [hc], rfl⟩
      · cases h
    · rintro ⟨word, hmap, happend⟩
      cases word with
      | nil => cases hmap
      | cons d word =>
        cases hmap
        cases happend
        rw [if_pos rfl]
        exact dropWord_eq_some_iff.mpr ⟨word, rfl, rfl⟩

/-- No keyword before `k` in the list starts it. -/
theorem keywords_before (k : Keyword) : ∃ before after, Keyword.all = before ++ k :: after ∧
    ∀ j ∈ before, ¬ j.spelling.toList <+: k.spelling.toList := by
  refine ⟨Keyword.all.takeWhile (· ≠ k), (Keyword.all.dropWhile (· ≠ k)).tail, ?_⟩
  cases k <;> decide

theorem scanKeyword_append {word rest : List Char} (hword : word.map foldChar = k.spelling.toList)
    (hgap : Gap rest) : scanKeyword (word ++ rest) = some (k, rest) := by
  obtain ⟨before, after, hall, hbefore⟩ := keywords_before k
  unfold scanKeyword
  refine List.findSome?_eq_some_iff.mpr ⟨before, k, after, hall, ?_, fun j hj => ?_⟩
  · rw [dropWord_eq_some_iff.mpr ⟨word, hword, rfl⟩, Option.map_some]
  · cases hdrop : dropWord j.spelling.toList (word ++ rest) with
    | none => rfl
    | some rest' =>
      obtain ⟨word', hword', happend⟩ := dropWord_eq_some_iff.mp hdrop
      have hstarts : word' <+: word := prefix_of_gap happend.symm
        (fun c hc => not_isSpace_of_isLower (isLower_of_map_foldChar hword' c hc)) hgap
      refine absurd ?_ (hbefore j hj)
      rw [← hword, ← hword']
      exact hstarts.map foldChar

theorem scanKeyword_eq_none {cs : List Char} (h : ∀ c ∈ cs.head?, (foldChar c).isLower = false) :
    scanKeyword cs = none := by
  unfold scanKeyword
  refine List.findSome?_eq_none_iff.mpr fun k _ => ?_
  cases hdrop : dropWord k.spelling.toList cs with
  | none => rfl
  | some rest =>
    obtain ⟨word, hword, rfl⟩ := dropWord_eq_some_iff.mp hdrop
    cases word with
    | nil => cases k <;> exact absurd hword (by decide)
    | cons c word =>
      have hlower := isLower_of_map_foldChar hword c List.mem_cons_self
      rw [h c rfl] at hlower
      cases hlower

/-! ## Marks -/

/-- No symbol before `s` in the list starts it, and there are no blanks in symbols. -/
theorem symbols_before (s : Symbol) : ∃ before after, Symbol.all = before ++ s :: after ∧
    ∀ t ∈ before, ¬ t.spelling <+: s.spelling ∧ ∀ c ∈ t.spelling, isSpace c = false := by
  refine ⟨Symbol.all.takeWhile (· ≠ s), (Symbol.all.dropWhile (· ≠ s)).tail, ?_⟩
  cases s <;> decide

theorem scanSymbol_append (s : Symbol) {rest : List Char} (hgap : Gap rest) :
    scanSymbol (s.spelling ++ rest) = some (s, rest) := by
  obtain ⟨before, after, hall, hbefore⟩ := symbols_before s
  unfold scanSymbol
  refine List.findSome?_eq_some_iff.mpr ⟨before, s, after, hall, ?_, fun t ht => ?_⟩
  · simp
  · obtain ⟨hshort, hblank⟩ := hbefore t ht
    refine if_neg fun hstarts => hshort ?_
    obtain ⟨rest', happend⟩ := List.isPrefixOf_iff_prefix.mp hstarts
    exact prefix_of_gap happend hblank hgap

/-- The first character of a symbol starts neither a name nor a number nor a quoted text. -/
theorem head_spelling (s : Symbol) : ∃ c cs, s.spelling = c :: cs ∧
    (foldChar c).isLower = false ∧ isNameStart c = false ∧ Text.isDigit c = false ∧
      isSpace c = false ∧ c ≠ '\'' ∧ c ≠ '"' := by
  cases s <;> exact ⟨_, _, rfl, by decide +kernel⟩

theorem scanMark_symbol (s : Symbol) {rest : List Char} (hgap : Gap rest) :
    scanMark (s.spelling ++ rest) = some (.symbol s, rest) := by
  obtain ⟨c, cs, hs, hlower, -⟩ := head_spelling s
  have hkeyword : scanKeyword (s.spelling ++ rest) = none :=
    scanKeyword_eq_none (by simp [hs, hlower])
  rw [scanMark, hkeyword, scanSymbol_append s hgap]
  rfl

theorem scanMark_keyword {word rest : List Char} (hword : word.map foldChar = k.spelling.toList)
    (hgap : Gap rest) : scanMark (word ++ rest) = some (.keyword k, rest) := by
  rw [scanMark, scanKeyword_append hword hgap]

/-! ## Words -/

/-- What the scanner takes a letter, a digit or an underscore for. -/
theorem scanned_of_isIdentifierChar {c : Char} (h : isIdentifierChar c = true) :
    isNameChar c = true ∧ foldChar c = c.toLower ∧ Text.isDigit c = c.isDigit ∧
      (c.isAlpha = true → c.isDigit = false) ∧
      (c.isDigit = false → isNameStart c = true ∧ isSpace c = false) :=
  of_decide_eq_true (forall_isIdentifierChar (p := fun c => isNameChar c = true ∧
    foldChar c = c.toLower ∧ Text.isDigit c = c.isDigit ∧ (c.isAlpha = true → c.isDigit = false) ∧
      (c.isDigit = false → isNameStart c = true ∧ isSpace c = false)) (by decide +kernel) h)

/-- Letters, digits and underscores that do not start with a digit. -/
structure IsWord (word : List Char) : Prop where
  chars : ∀ c ∈ word, isIdentifierChar c = true
  start : (word.head?.any fun c => !c.isDigit) = true

theorem isAlpha_of_toLower {c : Char} (h : c.toLower.isLower = true) : c.isAlpha = true := by
  by_cases hc : c.toNat < 128
  · have := forall_ascii (p := fun c => !c.toLower.isLower || c.isAlpha) (by decide +kernel) hc
    simpa [h] using this
  · rw [toLower_of_large (by omega)] at h
    exact Bool.or_eq_true_iff.mpr (.inr h)

theorem isWord_of_spells {word : List Char} (h : word.map Char.toLower = k.spelling.toList) :
    IsWord word := by
  have halpha : ∀ c ∈ word, c.isAlpha = true := by
    intro c hc
    refine isAlpha_of_toLower (isLower_of_mem_spelling (k := k) ?_)
    rw [← h]
    exact List.mem_map_of_mem hc
  refine ⟨fun c hc => by simp [isIdentifierChar, Char.isAlphanum, halpha c hc], ?_⟩
  cases word with
  | nil => cases k <;> exact absurd h (by decide)
  | cons c word =>
    have hc := halpha c List.mem_cons_self
    have hident : isIdentifierChar c = true := by simp [isIdentifierChar, Char.isAlphanum, hc]
    have hdigit := (scanned_of_isIdentifierChar hident).2.2.2.1 hc
    simpa using hdigit

theorem PlainName.isWord (h : PlainName x) : IsWord x.toList :=
  ⟨h.identifier, h.start⟩

/-- A word starts with a character that starts a name, and nothing else. -/
theorem IsWord.head {word : List Char} (h : IsWord word) : ∃ c cs, word = c :: cs ∧
    isNameStart c = true ∧ isSpace c = false ∧ Text.isDigit c = false := by
  cases word with
  | nil => simpa using h.start
  | cons c cs =>
    have hdigit : c.isDigit = false := by simpa using h.start
    obtain ⟨-, -, hsame, -, hopens⟩ := scanned_of_isIdentifierChar (h.chars c List.mem_cons_self)
    obtain ⟨hstart, hspace⟩ := hopens hdigit
    exact ⟨c, cs, rfl, hstart, hspace, hsame.trans hdigit⟩

theorem IsWord.isNameChar {word : List Char} (h : IsWord word) : ∀ c ∈ word, isNameChar c = true :=
  fun c hc => (scanned_of_isIdentifierChar (h.chars c hc)).1

theorem IsWord.map_foldChar {word : List Char} (h : IsWord word) :
    word.map foldChar = word.map Char.toLower :=
  List.map_congr_left fun c hc => (scanned_of_isIdentifierChar (h.chars c hc)).2.1

/-- Before a gap a word is read as a name unless it is reserved. -/
theorem scanName_append {word rest : List Char} (hword : IsWord word) (hgap : Gap rest) :
    scanName (word ++ rest) = if isReserved word then none else some (word, rest) := by
  obtain ⟨c, cs, rfl, hstart, -⟩ := hword.head
  obtain ⟨htake, hdrop⟩ :=
    takeWhile_append_gap hword.isNameChar hgap fun _ => not_isNameChar_of_isSpace
  have hdigit : rest.head?.any Text.isDigit = false := by
    cases rest with
    | nil => rfl
    | cons d rest => simpa using not_isDigit_of_isSpace (hgap d rfl)
  rw [List.cons_append] at htake hdrop ⊢
  simp only [scanName, htake, hdrop, hstart, hdigit, Bool.not_true, Bool.not_false, Bool.and_true]
  rfl

theorem scanName_eq_none {c : Char} {cs : List Char} (h : isNameStart c = false) :
    scanName (c :: cs) = none := by
  simp [scanName, h]

theorem isReserved_of_spells {word : List Char} (hk : k ∈ Keyword.reserved)
    (h : word.map foldChar = k.spelling.toList) : isReserved word = true :=
  List.any_eq_true.mpr ⟨k, hk, by simp [h]⟩

theorem PlainName.map_foldChar (h : PlainName x) :
    ∀ k ∈ Keyword.TRUE :: .FALSE :: Keyword.reserved,
      k.spelling.toList ≠ x.toList.map foldChar := by
  intro k hk he
  rw [h.isWord.map_foldChar] at he
  exact h.word k hk he.symm

theorem PlainName.not_isReserved (h : PlainName x) : isReserved x.toList = false := by
  refine List.any_eq_false.mpr fun k hk => ?_
  simpa using h.map_foldChar k (List.mem_cons_of_mem _ (List.mem_cons_of_mem _ hk))

theorem PlainName.operandName (h : PlainName x) : operandName x.toList = .name x := by
  have hspelling (k : Keyword) (hk : keywordOf? x.toList = some k) :
      k.spelling.toList = x.toList.map foldChar := by
    unfold keywordOf? at hk
    simpa using List.find?_some hk
  unfold Query.operandName
  split
  · rename_i hk
    exact absurd (hspelling _ hk) (h.map_foldChar .TRUE List.mem_cons_self)
  · rename_i hk
    exact absurd (hspelling _ hk)
      (h.map_foldChar .FALSE (List.mem_cons_of_mem _ List.mem_cons_self))
  · rw [String.ofList_toList]

/-! ## Numerals and quoted texts -/

theorem scanNumber_eq_none {c : Char} {cs : List Char} (h : Text.isDigit c = false) :
    scanNumber (c :: cs) = none := by
  simp [scanNumber, h]

theorem isDigit_of_ascii {c : Char} (h : c.isDigit = true) : Text.isDigit c = true := by
  have hident : isIdentifierChar c = true := by simp [isIdentifierChar, Char.isAlphanum, h]
  exact (scanned_of_isIdentifierChar hident).2.2.1.trans h

theorem scanNumber_append {digits rest : List Char} (hdigits : ∀ c ∈ digits, c.isDigit = true)
    (hne : digits ≠ []) (hgap : Gap rest) :
    scanNumber (digits ++ rest) = some (.integer digits, rest) := by
  obtain ⟨htake, hdrop⟩ := takeWhile_append_gap (fun c hc => isDigit_of_ascii (hdigits c hc)) hgap
    fun _ => not_isDigit_of_isSpace
  simp only [scanNumber, htake, hdrop, List.isEmpty_eq_false_iff.mpr hne]
  cases rest with
  | nil => rfl
  | cons c rest =>
    have hpoint : c ≠ '.' := forall_isSpace (p := fun c => c ≠ '.') (by decide) (hgap c rfl)
    simp [hpoint]

theorem scanQuoted_quote (quote : Char) (cs : List Char) :
    scanQuoted quote (quote :: cs) = some ([], cs) := by
  rw [scanQuoted.eq_def]
  exact if_pos rfl

theorem scanQuoted_cons {quote c : Char} {cs body rest : List Char} (hquote : c ≠ quote)
    (hbackslash : c ≠ '\\') (h : scanQuoted quote cs = some (body, rest)) :
    scanQuoted quote (c :: cs) = some (c :: body, rest) := by
  rw [scanQuoted.eq_def]
  dsimp only
  rw [if_neg hquote, if_neg hbackslash, h]
  rfl

theorem scanQuoted_backslash {d : Char} {cs body rest : List Char} (hd : d ≠ '\n')
    (h : scanQuoted '\'' cs = some (body, rest)) :
    scanQuoted '\'' ('\\' :: d :: cs) = some ('\\' :: d :: body, rest) := by
  rw [scanQuoted.eq_def]
  simp [hd, h]

theorem scanQuoted_escape (rest : List Char) :
    ∀ {cs : List Char}, '\\' ∉ cs →
      scanQuoted '\'' (escape cs ++ '\'' :: rest) = some (escape cs, rest)
  | [], _ => scanQuoted_quote '\'' rest
  | c :: cs, h => by
    have hrest := scanQuoted_escape rest fun hc => h (List.mem_cons_of_mem c hc)
    have hbackslash : c ≠ '\\' := fun hc => h (hc ▸ List.mem_cons_self)
    by_cases hquote : c = '\''
    · subst hquote
      exact scanQuoted_backslash (by decide) hrest
    · have he : escape (c :: cs) = c :: escape cs := by simp [escape, hquote]
      rw [he]
      exact scanQuoted_cons hquote hbackslash hrest

/-- What a text is written as stands for the text. -/
theorem unescape_escape : ∀ {cs : List Char}, '\\' ∉ cs → unescape (escape cs) = cs
  | [], _ => rfl
  | c :: cs, h => by
    have hrest := unescape_escape fun hc => h (List.mem_cons_of_mem c hc)
    have hbackslash : c ≠ '\\' := fun hc => h (hc ▸ List.mem_cons_self)
    by_cases hquote : c = '\''
    · subst hquote
      have he : escape ('\'' :: cs) = '\\' :: '\'' :: escape cs := rfl
      rw [he, unescape, hrest]
    · have he : escape (c :: cs) = c :: escape cs := by simp [escape, hquote]
      rw [he, unescape, hrest]
      all_goals simp [hbackslash]

/-! ## Tokens -/

theorem scan_blanks {blanks cs : List Char} (h : ∀ c ∈ blanks, isSpace c = true) :
    Token.scan expecting (blanks ++ cs) = Token.scan expecting cs := by
  unfold Token.scan
  rw [List.dropWhile_append_of_pos h]

section Places

variable {c : Char} {cs word rest : List Char}

theorem scan_mark (hc : isSpace c = false) : Token.scan .mark (c :: cs) = scanMark (c :: cs) := by
  simp [Token.scan, hc]

theorem scan_name (hc : isSpace c = false) (h : scanName (c :: cs) = some (word, rest)) :
    Token.scan .name (c :: cs) = some (.name (String.ofList word), rest) := by
  simp [Token.scan, hc, h]

theorem scan_name_mark (hc : isSpace c = false) (h : scanName (c :: cs) = none) :
    Token.scan .name (c :: cs) = scanMark (c :: cs) := by
  simp [Token.scan, hc, h]

theorem scan_operand (hc : isSpace c = false) :
    Token.scan .operand (c :: cs) = scanOperand (c :: cs) := by
  simp [Token.scan, hc]

theorem scanOperand_number {r : Token × List Char} (h : scanNumber cs = some r) :
    scanOperand cs = some r := by
  unfold scanOperand
  rw [h]

theorem scanOperand_name (hdigit : Text.isDigit c = false)
    (h : scanName (c :: cs) = some (word, rest)) :
    scanOperand (c :: cs) = some (operandName word, rest) := by
  simp [scanOperand, scanNumber_eq_none hdigit, h]

theorem scanOperand_mark (hdigit : Text.isDigit c = false) (h : scanName (c :: cs) = none)
    (hquote : c ≠ '\'') (hdouble : c ≠ '"') : scanOperand (c :: cs) = scanMark (c :: cs) := by
  simp [scanOperand, scanNumber_eq_none hdigit, h, hquote, hdouble]

end Places

theorem scan_symbol (expecting : Expecting) (s : Symbol) {rest : List Char} (hgap : Gap rest) :
    Token.scan expecting (s.spelling ++ rest) = some (.symbol s, rest) := by
  have hmark := scanMark_symbol s hgap
  obtain ⟨c, cs, hs, -, hstart, hdigit, hspace, hquote, hdouble⟩ := head_spelling s
  rw [hs, List.cons_append] at hmark ⊢
  have hname : scanName (c :: (cs ++ rest)) = none := scanName_eq_none hstart
  cases expecting with
  | mark => rw [scan_mark hspace, hmark]
  | name => rw [scan_name_mark hspace hname, hmark]
  | operand => rw [scan_operand hspace, scanOperand_mark hdigit hname hquote hdouble, hmark]

theorem scan_keyword {word rest : List Char} (hfits : (Token.keyword k).Fits expecting)
    (hspells : (Token.keyword k).Spells word) (hgap : Gap rest) :
    Token.scan expecting (word ++ rest) = some (.keyword k, rest) := by
  have hword := isWord_of_spells hspells
  have hfold := map_foldChar_of_spells hspells
  have hmark := scanMark_keyword hfold hgap
  have hname := scanName_append hword hgap
  obtain ⟨c, cs, rfl, hstart, hspace, hdigit⟩ := hword.head
  rw [List.cons_append] at hmark hname ⊢
  have hreserved (hk : k ∈ Keyword.reserved) : scanName (c :: (cs ++ rest)) = none := by
    rw [hname, if_pos (isReserved_of_spells hk hfold)]
  have hquote : c ≠ '\'' ∧ c ≠ '"' :=
    ⟨fun h => absurd hstart (h ▸ by decide), fun h => absurd hstart (h ▸ by decide)⟩
  -- the truth values are read as names first
  have htruth (hk : k = .TRUE ∨ k = .FALSE) :
      Token.scan .operand (c :: (cs ++ rest)) = some (.keyword k, rest) := by
    have hfree : isReserved (c :: cs) = false := by
      unfold isReserved
      rw [hfold]
      rcases hk with rfl | rfl <;> decide
    rw [hfree, if_neg Bool.false_ne_true] at hname
    rw [scan_operand hspace, scanOperand_name hdigit hname]
    unfold operandName keywordOf?
    rw [hfold]
    rcases hk with rfl | rfl <;> rfl
  cases expecting with
  | mark => rw [scan_mark hspace, hmark]
  | name => rw [scan_name_mark hspace (hreserved hfits), hmark]
  | operand =>
    rcases List.mem_cons.mp hfits with rfl | hk
    · exact htruth (.inl rfl)
    · rcases List.mem_cons.mp hk with rfl | hk
      · exact htruth (.inr rfl)
      · rw [scan_operand hspace, scanOperand_mark hdigit (hreserved hk) hquote.1 hquote.2, hmark]

theorem scan_plainName {rest : List Char} (hfits : (Token.name x).Fits expecting) (hgap : Gap rest) :
    Token.scan expecting (x.toList ++ rest) = some (.name x, rest) := by
  have hx : PlainName x := by
    cases expecting with
    | mark => exact hfits.elim
    | name => exact hfits
    | operand => exact hfits
  have hname := scanName_append hx.isWord hgap
  have hoperand := hx.operandName
  have hlist := String.ofList_toList (s := x)
  rw [hx.not_isReserved, if_neg Bool.false_ne_true] at hname
  obtain ⟨c, cs, hxs, -, hspace, hdigit⟩ := hx.isWord.head
  rw [hxs, List.cons_append] at hname ⊢
  rw [hxs] at hoperand hlist
  cases expecting with
  | mark => exact hfits.elim
  | name => rw [scan_name hspace hname, hlist]
  | operand => rw [scan_operand hspace, scanOperand_name hdigit hname, hoperand]

/-- **A token is read as it is written**, where it can stand and what follows does not touch it. -/
theorem scan_spelling {t : Token} {word rest : List Char} (hfits : t.Fits expecting)
    (hspells : t.Spells word) (hword : word ≠ []) (hgap : Gap rest) :
    Token.scan expecting (word ++ rest) = some (t, rest) := by
  cases t with
  | keyword k => exact scan_keyword hfits hspells hgap
  | symbol s =>
    obtain rfl := hspells
    exact scan_symbol expecting s hgap
  | name x =>
    obtain rfl := hspells
    exact scan_plainName hfits hgap
  | integer digits =>
    obtain rfl := hspells
    cases expecting with
    | mark => exact hfits.elim
    | name => exact hfits.elim
    | operand =>
      have hnumber := scanNumber_append hfits hword hgap
      cases word with
      | nil => exact absurd rfl hword
      | cons c cs =>
        have hdigit := hfits c List.mem_cons_self
        have hspace : isSpace c = false := by
          rw [Bool.eq_false_iff]
          intro hc
          rw [forall_isSpace (p := fun c => c.isDigit = false) (by decide) hc] at hdigit
          cases hdigit
        rw [List.cons_append] at hnumber ⊢
        rw [scan_operand hspace, scanOperand_number hnumber]
  | quoted body =>
    obtain rfl := hspells
    cases expecting with
    | mark => exact hfits.elim
    | name => exact hfits.elim
    | operand =>
      obtain ⟨cs, hcs, rfl⟩ := hfits
      have hquoted := scanQuoted_escape rest hcs
      rw [List.cons_append, List.append_assoc, List.singleton_append, scan_operand (by decide)]
      simp [scanOperand, scanNumber_eq_none (show Text.isDigit '\'' = false by decide +kernel),
        scanName_eq_none (show isNameStart '\'' = false by decide), hquoted]
  | decimal whole fraction => cases expecting <;> exact hfits.elim
  | stop => exact hspells.elim

/-- **The text of a row of tokens is read token by token.** -/
theorem scan_of_spaced {t : Token} {ts : List Token} {text : List Char} (h : Spaced (t :: ts) text)
    (hfits : t.Fits expecting) :
    ∃ rest, Token.scan expecting text = some (t, rest) ∧ Spaced ts rest ∧
      rest.length < text.length := by
  cases h with
  | @cons _ _ blanks word rest hblanks hspells hword hgap hrest =>
    refine ⟨rest, ?_, hrest, ?_⟩
    · rw [scan_blanks hblanks, scan_spelling hfits hspells hword hgap]
    · have := List.length_pos_iff.mpr hword
      simp only [List.length_append]
      omega

theorem scan_of_spaced_nil {text : List Char} (h : Spaced [] text) :
    Token.scan expecting text = some (.stop, []) := by
  cases h with
  | nil hblanks =>
    rw [← List.append_nil text, scan_blanks hblanks]
    rfl

/-- A text has at least one character for each of its tokens. -/
theorem Spaced.length_le {ts : List Token} {text : List Char} (h : Spaced ts text) :
    ts.length ≤ text.length := by
  induction h with
  | nil => simp
  | cons _ _ hword _ _ ih =>
    have := List.length_pos_iff.mpr hword
    simp only [List.length_cons, List.length_append]
    omega

end GraphSql.Query
