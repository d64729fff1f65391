import GraphSql.Proofs.Query.ExprRoundTrip

/-!
# Texts between quotes

A text is put between single quotes with a backslash before every backslash and every quote, and with
line ends and tabs as `\n` and `\t` (`literalChars`).  What stands there is always one token: the lexer
takes a backslash together with the character behind it, so no quote inside ends the text
(`scanQuoted_literalBody`).

The reader of the text between the quotes does not take them together.  A backslash that was written
twice stays there twice, or even goes together with a letter behind it, as in `\\n`.  What is read is
given by `reread`, which differs from the text as soon as there is a backslash in it that is not followed
by a double quote (`reread_eq_self_iff`).
-/

namespace GraphSql.Query

variable {c : Char}

/-- A character as it is written between single quotes. -/
def literalChar (c : Char) : List Char :=
  if c = '\\' then ['\\', '\\']
  else if c = '\'' then ['\\', '\'']
  else if c = '\n' then ['\\', 'n']
  else if c = '\t' then ['\\', 't']
  else [c]

/-- What is written between the quotes. -/
def literalBody (cs : List Char) : List Char := cs.flatMap literalChar

/-- A text between single quotes. -/
def literalChars (s : String) : List Char := '\'' :: (literalBody s.toList ++ ['\''])

/-- What is read for a text between quotes. -/
def reread : List Char → List Char
  | [] => []
  | '\\' :: 'n' :: cs => '\\' :: '\n' :: reread cs
  | '\\' :: 't' :: cs => '\\' :: '\t' :: reread cs
  | '\\' :: '"' :: cs => '\\' :: '"' :: reread cs
  | '\\' :: cs => '\\' :: '\\' :: reread cs
  | c :: cs => c :: reread cs

/-- Right behind every backslash there is a double quote. -/
def BackslashesBeforeQuotes (cs : List Char) : Prop :=
  ∀ before after, cs = before ++ '\\' :: after → after.head? = some '"'

/-! ## The lexer -/

theorem literalBody_cons (c : Char) (cs : List Char) :
    literalBody (c :: cs) = literalChar c ++ literalBody cs := List.flatMap_cons

theorem literalChar_of_ne (h : c ∉ ['\\', '\'', '\n', '\t']) : literalChar c = [c] := by
  simp only [List.mem_cons, List.not_mem_nil, or_false, not_or] at h
  simp [literalChar, h]

/-- A character is written as itself, or behind a backslash. -/
theorem literalChar_cases (c : Char) : c ∉ ['\\', '\'', '\n', '\t'] ∧ literalChar c = [c] ∨
    ∃ d ∈ ['\\', '\'', 'n', 't'], literalChar c = ['\\', d] := by
  by_cases h : c ∈ ['\\', '\'', '\n', '\t']
  · simp only [List.mem_cons, List.not_mem_nil, or_false] at h
    rcases h with rfl | rfl | rfl | rfl
    · exact .inr ⟨'\\', by decide, rfl⟩
    · exact .inr ⟨'\'', by decide, rfl⟩
    · exact .inr ⟨'n', by decide, rfl⟩
    · exact .inr ⟨'t', by decide, rfl⟩
  · exact .inl ⟨h, literalChar_of_ne h⟩

theorem scanQuoted_literalBody (cs rest : List Char) :
    scanQuoted '\'' (literalBody cs ++ '\'' :: rest) = some (literalBody cs, rest) := by
  induction cs with
  | nil => exact scanQuoted_quote '\'' rest
  | cons c cs ih =>
    rw [literalBody_cons, List.append_assoc]
    rcases literalChar_cases c with ⟨hc, hchar⟩ | ⟨d, hd, hchar⟩
    · rw [hchar]
      simp only [List.mem_cons, List.not_mem_nil, or_false, not_or] at hc
      exact scanQuoted_cons hc.2.1 hc.1 ih
    · rw [hchar]
      have hline : ∀ d ∈ ['\\', '\'', 'n', 't'], d ≠ '\n' := by decide
      exact scanQuoted_backslash (hline d hd) ih

/-- **A text between quotes is one token**, whatever follows it. -/
theorem scan_literalChars (s : String) (rest : List Char) :
    Token.scan .operand (literalChars s ++ rest) = some (.quoted (literalBody s.toList), rest) := by
  have hquoted := scanQuoted_literalBody s.toList rest
  rw [literalChars, List.cons_append, List.append_assoc, List.singleton_append,
    scan_operand (by decide)]
  simp [scanOperand, scanNumber_eq_none (show Text.isDigit '\'' = false by decide +kernel),
    scanName_eq_none (show isNameStart '\'' = false by decide), hquoted]

/-! ## The reader -/

theorem unescape_cons (h : c ≠ '\\') (cs : List Char) : unescape (c :: cs) = c :: unescape cs := by
  rw [unescape]
  all_goals simp [h]

/-- A backslash stands for itself before most characters. -/
theorem unescape_backslash {cs : List Char} (h : ∀ c ∈ cs.head?, c ∉ ['n', 't', '"', '\'']) :
    unescape ('\\' :: cs) = '\\' :: unescape cs := by
  simp only [List.mem_cons, List.not_mem_nil, or_false, not_or] at h
  rw [unescape]
  all_goals
    rintro rest - rfl
    exact absurd (h _ rfl) (by decide)

/-- A backslash that is written twice is read as two, unless the second one is read together with what
follows. -/
theorem unescape_backslashes (cs : List Char) :
    unescape ('\\' :: '\\' :: cs) = '\\' :: unescape ('\\' :: cs) :=
  unescape_backslash (by simp)

/-- What is written for a character is read as this character, a backslash apart. -/
theorem unescape_literalChar (h : c ≠ '\\') (cs : List Char) :
    unescape (literalChar c ++ cs) = c :: unescape cs := by
  by_cases hc : c ∈ ['\'', '\n', '\t']
  · simp only [List.mem_cons, List.not_mem_nil, or_false] at hc
    rcases hc with rfl | rfl | rfl <;> exact unescape.eq_def _
  · rw [literalChar_of_ne (by simpa [h] using hc)]
    exact unescape_cons h cs

/-- What is written for a text is read as `reread` says. -/
theorem unescape_literalBody (cs : List Char) : unescape (literalBody cs) = reread cs := by
  induction cs using reread.induct with
  | case1 => rfl
  | case2 cs ih =>
    rw [reread, ← ih]
    exact unescape_backslashes _
  | case3 cs ih =>
    rw [reread, ← ih]
    exact unescape_backslashes _
  | case4 cs ih =>
    rw [reread, ← ih]
    exact unescape_backslashes _
  | case5 cs hn ht hquote ih =>
    have hhead : ∀ c ∈ (literalBody cs).head?, c ∉ ['n', 't', '"', '\''] := by
      cases cs with
      | nil => simp [literalBody]
      | cons d cs =>
        rw [literalBody_cons]
        rcases literalChar_cases d with ⟨hd, hchar⟩ | ⟨e, -, hchar⟩
        · rw [hchar]
          rintro _ ⟨⟩
          simp only [List.mem_cons, List.not_mem_nil, or_false, not_or] at hd ⊢
          exact ⟨fun h => hn cs (h ▸ rfl), fun h => ht cs (h ▸ rfl), fun h => hquote cs (h ▸ rfl),
            hd.2.1⟩
        · rw [hchar]
          rintro _ ⟨⟩
          decide
    rw [reread, ← ih]
    · exact (unescape_backslashes _).trans (congrArg _ (unescape_backslash hhead))
    · exact hn
    · exact ht
    · exact hquote
  | case6 c cs hn ht hquote hc ih =>
    have hbackslash : c ≠ '\\' := fun h => hc h
    rw [reread, ← ih]
    · exact unescape_literalChar hbackslash _
    all_goals assumption

/-! ## Texts that are read as they were written -/

theorem backslashesBeforeQuotes_cons (h : c ≠ '\\') (cs : List Char) :
    BackslashesBeforeQuotes (c :: cs) ↔ BackslashesBeforeQuotes cs := by
  constructor
  · rintro hcs before after rfl
    exact hcs (c :: before) after rfl
  · intro hcs before after heq
    cases before with
    | nil => exact absurd (List.cons.inj heq).1 h
    | cons d before => exact hcs before after (List.cons.inj heq).2

theorem backslashesBeforeQuotes_backslash (cs : List Char) :
    BackslashesBeforeQuotes ('\\' :: cs) ↔ cs.head? = some '"' ∧ BackslashesBeforeQuotes cs := by
  constructor
  · intro hcs
    refine ⟨hcs [] cs rfl, ?_⟩
    rintro before after rfl
    exact hcs ('\\' :: before) after rfl
  · rintro ⟨hhead, hcs⟩ before after heq
    cases before with
    | nil => exact (List.cons.inj heq).2 ▸ hhead
    | cons d before => exact hcs before after (List.cons.inj heq).2

/-- Reading never makes a text shorter. -/
theorem length_le_reread (cs : List Char) : cs.length ≤ (reread cs).length := by
  fun_induction reread cs with
  | case1 => exact Nat.le_refl 0
  | case5 cs _ _ _ ih =>
    simp only [List.length_cons]
    omega
  | _ => simpa using ‹_›

/-- **What is read is what was written just when a double quote follows every backslash.** -/
theorem reread_eq_self_iff (cs : List Char) : reread cs = cs ↔ BackslashesBeforeQuotes cs := by
  fun_induction reread cs with
  | case1 => exact ⟨fun _ before after h => by simp at h, fun _ => rfl⟩
  | case2 cs ih => simp [backslashesBeforeQuotes_backslash]
  | case3 cs ih => simp [backslashesBeforeQuotes_backslash]
  | case4 cs ih =>
    rw [backslashesBeforeQuotes_backslash, backslashesBeforeQuotes_cons (by decide), ← ih]
    simp
  | case5 cs _ _ hquote ih =>
    -- two backslashes are read for one, and nothing makes up for it
    have hlength := length_le_reread cs
    constructor
    · intro h
      have := congrArg List.length h
      simp only [List.length_cons] at this
      omega
    · rw [backslashesBeforeQuotes_backslash]
      rintro ⟨hhead, -⟩
      obtain ⟨rest, rfl⟩ := List.head?_eq_some_iff.mp hhead
      exact absurd rfl (hquote rest)
  | case6 c cs _ _ _ hc ih =>
    rw [backslashesBeforeQuotes_cons fun h => hc h, ← ih]
    simp

/-! ## The parser -/

namespace Parser

variable {cs rest after : List Char} {e : Expr} {t u : Token}

theorem accept_of_ne {expecting : Expecting} (h : Token.scan expecting cs = some (u, after))
    (hne : u ≠ t) : accept expecting t cs = .ok (false, cs) := by
  refine Except.bind_eq_ok.mpr ⟨(u, cs), ?_, ?_⟩
  · rw [peek, h]
  · dsimp only
    rw [if_neg hne]
    rfl

theorem after_of_ne {α : Type} {expecting : Expecting} (p : Parser α)
    (h : Token.scan expecting cs = some (u, after)) (hne : u ≠ t) :
    Parser.after expecting t p cs = .ok (none, cs) :=
  Except.bind_eq_ok.mpr ⟨(false, cs), accept_of_ne h hne, rfl⟩

theorem many_of_none {α : Type} {step : Parser (Option α)} (h : step cs = .ok (none, cs)) :
    many step cs = .ok ([], cs) :=
  Except.bind_eq_ok.mpr ⟨(none, cs), h, rfl⟩

theorem leftChain_of_operand {operator : Token → Option BinaryOp} {operand : Parser Expr}
    (h : operand cs = .ok (e, rest)) (hnext : Token.scan .mark rest = some (u, after))
    (hu : operator u = none) : leftChain operator operand cs = .ok (e, rest) := by
  refine Except.bind_eq_ok.mpr ⟨(e, rest), h, Except.bind_eq_ok.mpr ⟨([], rest), ?_, rfl⟩⟩
  refine many_of_none (Except.bind_eq_ok.mpr ⟨(u, rest), ?_, ?_⟩)
  · rw [peek, hnext]
  · dsimp only
    rw [hu]
    rfl

/-- An atom is an expression when it starts with no sign or negation and nothing behind it goes on with
it. -/
theorem expression_of_atom {behind : List Char} (hfirst : Token.scan .operand cs = some (t, behind))
    (ht : t ≠ .symbol .minus ∧ t ≠ .keyword .NOT) (hatom : ∀ nested, atom nested cs = .ok (e, rest))
    (hnext : Token.scan .mark rest = some (u, after)) (hu : u.joins = none) :
    expression cs = .ok (e, rest) := by
  have hne : ∀ {v : Token} {n : Nat}, v.joins = some n → u ≠ v := by
    rintro v n hv rfl
    rw [hu] at hv
    cases hv
  have hoperator : ∀ {level : Nat} {operator : Token → Option BinaryOp},
      OperatorsAt level operator → operator u = none := by
    intro level operator h
    cases hop : operator u with
    | none => rfl
    | some op => exact absurd rfl (hne (h.joins u op hop))
  have hproperty : propertyAccess (expressionAt cs.length) cs = .ok (e, rest) :=
    Except.bind_eq_ok.mpr ⟨(e, rest), hatom _, Except.bind_eq_ok.mpr
      ⟨([], rest), many_of_none (after_of_ne _ hnext (hne (n := 7) rfl)), rfl⟩⟩
  have hsigned : signed (expressionAt cs.length) cs = .ok (e, rest) :=
    Except.bind_eq_ok.mpr ⟨([], cs), many_of_none (after_of_ne _ hfirst ht.1),
      Except.bind_eq_ok.mpr ⟨(e, rest), hproperty, rfl⟩⟩
  have hsum : sum (expressionAt cs.length) cs = .ok (e, rest) :=
    leftChain_of_operand (leftChain_of_operand hsigned hnext (hoperator operatorsAt_product)) hnext
      (hoperator operatorsAt_sum)
  have hcomparison : comparison (expressionAt cs.length) cs = .ok (e, rest) := by
    have hop : comparisonOp? u = none := by
      unfold comparisonOp?
      split <;> first | rfl | exact absurd rfl (hne (n := 3) rfl)
    have haffix : affixOp? u = none := by
      unfold affixOp?
      split <;> first | rfl | exact absurd rfl (hne (n := 3) rfl)
    refine Except.bind_eq_ok.mpr ⟨(e, rest), hsum, Except.bind_eq_ok.mpr ⟨(u, rest), ?_, ?_⟩⟩
    · rw [peek, hnext]
    · dsimp only
      rw [hop, haffix]
      exact Except.bind_eq_ok.mpr ⟨(false, rest), accept_of_ne hnext (hne (n := 3) rfl), rfl⟩
  have hnegation : negation (expressionAt cs.length) cs = .ok (e, rest) :=
    Except.bind_eq_ok.mpr ⟨([], cs), many_of_none (after_of_ne _ hfirst ht.2),
      Except.bind_eq_ok.mpr ⟨(e, rest), hcomparison, rfl⟩⟩
  exact leftChain_of_operand (leftChain_of_operand hnegation hnext (hoperator operatorsAt_conjunction))
    hnext (hoperator operatorsAt_disjunction)

theorem atom_literalChars (s : String) (nested : Parser Expr) (rest : List Char) :
    atom nested (literalChars s ++ rest) = .ok (.text (String.ofList (reread s.toList)), rest) := by
  refine Except.bind_eq_ok.mpr ⟨(.quoted (literalBody s.toList), rest), ?_, ?_⟩
  · rw [next, scan_literalChars]
  · rw [← unescape_literalBody]
    rfl

end Parser

/-- **A text between quotes is one token and is read as a text literal.**  This holds wherever an operand
can stand, and the literal is a whole expression when nothing behind it goes on with it.  The literal is
the text that was written just when a double quote follows every backslash of it. -/
theorem reads_literalChars (s : String) : ∃ t : String,
    (∀ rest, Token.scan .operand (literalChars s ++ rest) =
      some (.quoted (literalBody s.toList), rest)) ∧
    (∀ nested rest, Parser.atom nested (literalChars s ++ rest) = .ok (.text t, rest)) ∧
    (∀ rest u after, Token.scan .mark rest = some (u, after) → u.joins = none →
      Parser.expression (literalChars s ++ rest) = .ok (.text t, rest)) ∧
    (t = s ↔ BackslashesBeforeQuotes s.toList) := by
  refine ⟨String.ofList (reread s.toList), scan_literalChars s, Parser.atom_literalChars s, ?_, ?_⟩
  · intro rest u after hnext hu
    exact Parser.expression_of_atom (scan_literalChars s rest) (by simp)
      (fun nested => Parser.atom_literalChars s nested rest) hnext hu
  · rw [← reread_eq_self_iff, ← String.toList_inj, String.toList_ofList]

theorem reads_literalChars_quotation :
    literalChars "\\\"it's\\\"\n" = "'\\\\\"it\\'s\\\\\"\\n'".toList ∧
      BackslashesBeforeQuotes "\\\"it's\\\"\n".toList ∧
      Parser.expression (literalChars "\\\"it's\\\"\n") = .ok (.text "\\\"it's\\\"\n", []) := by
  obtain ⟨t, -, -, hread, htext⟩ := reads_literalChars "\\\"it's\\\"\n"
  have hquotes : BackslashesBeforeQuotes "\\\"it's\\\"\n".toList :=
    (reread_eq_self_iff _).mp (by decide)
  refine ⟨by decide, hquotes, ?_⟩
  rw [← List.append_nil (literalChars _), hread [] .stop [] rfl rfl, htext.mpr hquotes]

/-- **A backslash cannot be written**: its literal is read as two of them. -/
theorem expression_literal_backslash :
    literalChars "\\" = ['\'', '\\', '\\', '\''] ∧
      Parser.expression (literalChars "\\") = .ok (.text "\\\\", []) ∧
      Parser.expression (literalChars "\\") ≠ .ok (.text "\\", []) := by
  have hread : Parser.expression (literalChars "\\") = .ok (.text "\\\\", []) := by rfl
  refine ⟨by decide, hread, ?_⟩
  rw [hread]
  simp

end GraphSql.Query
