import Mathlib.Data.List.Infix
import GraphSql.Relational.Expr

/-!
# Patterns of texts

A text is compared with a pattern by `LIKE`.  In a pattern `%` stands for any text and `_` for any
character, and behind a backslash every character stands for itself; a text that ends in a lone
backslash is no pattern (`readPattern`).  The pattern is the value of an expression in which quoted
texts are put together by `||` (`textValue?`).

When a text without these three signs stands between two `%`, the pattern finds the texts that it
occurs in, and likewise at the start and at the end (`fits_iff_occurs`).  A text that has one of the
signs never does this (`forall_fits_iff_plain`): the shortest text that it accepts as a pattern
(`sample`) is not longer than it, so it could only occur there if it was the text itself.
-/

namespace GraphSql.Relational

variable {cs s : List Char} {affix : Affix} {c : Char}

/-! ## Patterns -/

/-- What is asked of the next characters of a text. -/
inductive PatternStep where
  | exactly (c : Char)
  | anyChar
  | anyText
  deriving DecidableEq

/-- The signs of a pattern that do not stand for themselves. -/
def isPatternSign (c : Char) : Bool := c = '%' || c = '_' || c = '\\'

/-- What a character without a backslash before it asks for. -/
def PatternStep.ofChar (c : Char) : PatternStep :=
  if c = '%' then anyText else if c = '_' then anyChar else exactly c

/-- The steps of a pattern. -/
def readPattern : List Char → Option (List PatternStep)
  | [] => some []
  | c :: cs =>
    if c = '\\' then
      match cs with
      | [] => none
      | d :: ds => (readPattern ds).map (.exactly d :: ·)
    else (readPattern cs).map (.ofChar c :: ·)

/-- Whether a text is what the steps ask for. -/
def accepts : List PatternStep → List Char → Bool
  | [], t => t.isEmpty
  | .exactly c :: steps, t => t.head? == some c && accepts steps t.tail
  | .anyChar :: steps, t => t.head?.isSome && accepts steps t.tail
  | .anyText :: steps, t => t.tails.any (accepts steps)

/-- Whether a text fits a pattern. -/
def fits (pattern t : List Char) : Bool := (readPattern pattern).any (accepts · t)

/-- Whether a text is like a pattern. -/
def likes (text pattern : String) : Bool := fits pattern.toList text.toList

example : likes "a_b" "a\\_%" = true ∧ likes "acb" "a\\_%" = false ∧ likes "acb" "a_%" = true ∧
    likes "a\\" "a\\" = false := by decide

theorem readPattern_cons (hc : c ≠ '\\') (cs : List Char) :
    readPattern (c :: cs) = (readPattern cs).map (.ofChar c :: ·) := by
  rw [readPattern.eq_def]
  exact if_neg hc

theorem readPattern_escaped (c : Char) (cs : List Char) :
    readPattern ('\\' :: c :: cs) = (readPattern cs).map (.exactly c :: ·) := by
  rw [readPattern.eq_def]
  exact if_pos rfl

/-- Behind a text that is a pattern, the pattern goes on. -/
theorem readPattern_append_of_some {steps : List PatternStep} (h : readPattern cs = some steps)
    (rest : List Char) : readPattern (cs ++ rest) = (readPattern rest).map (steps ++ ·) := by
  fun_induction readPattern cs generalizing steps with
  | case1 =>
    cases h
    simp
  | case2 => cases h
  | case3 d ds ih =>
    obtain ⟨more, hmore, rfl⟩ := Option.map_eq_some_iff.mp h
    rw [List.cons_append, List.cons_append, readPattern_escaped, ih hmore, Option.map_map]
    rfl
  | case4 c cs hc ih =>
    obtain ⟨more, hmore, rfl⟩ := Option.map_eq_some_iff.mp h
    rw [List.cons_append, readPattern_cons hc, ih hmore, Option.map_map]
    rfl

section

variable {steps : List PatternStep} {t : List Char}

theorem accepts_nil : accepts [] t = true ↔ t = [] := by
  rw [accepts, List.isEmpty_iff]

theorem accepts_exactly :
    accepts (.exactly c :: steps) t = true ↔ ∃ u, t = c :: u ∧ accepts steps u = true := by
  cases t with
  | nil => simp [accepts]
  | cons d u =>
    rw [accepts, Bool.and_eq_true, List.head?_cons, List.tail_cons, beq_iff_eq, Option.some.injEq]
    constructor
    · rintro ⟨rfl, hu⟩
      exact ⟨u, rfl, hu⟩
    · rintro ⟨v, hv, hu⟩
      obtain ⟨rfl, rfl⟩ := List.cons.inj hv
      exact ⟨rfl, hu⟩

theorem accepts_anyChar :
    accepts (.anyChar :: steps) t = true ↔ ∃ c u, t = c :: u ∧ accepts steps u = true := by
  cases t with
  | nil => simp [accepts]
  | cons d u => simp [accepts]

theorem accepts_anyText :
    accepts (.anyText :: steps) t = true ↔ ∃ u v, t = u ++ v ∧ accepts steps v = true := by
  rw [accepts, List.any_eq_true]
  constructor
  · rintro ⟨v, hv, h⟩
    obtain ⟨u, rfl⟩ := (List.mem_tails _ _).mp hv
    exact ⟨u, v, rfl, h⟩
  · rintro ⟨u, v, rfl, h⟩
    exact ⟨v, (List.mem_tails _ _).mpr (List.suffix_append u v), h⟩

/-- `%` at the end of a pattern also stands for the empty text. -/
theorem accepts_append_anyText (h : accepts steps t = true) :
    accepts (steps ++ [.anyText]) t = true := by
  induction steps generalizing t with
  | nil =>
    rw [accepts_nil.mp h]
    rfl
  | cons step steps ih =>
    rw [List.cons_append]
    cases step with
    | exactly c =>
      obtain ⟨u, rfl, hu⟩ := accepts_exactly.mp h
      exact accepts_exactly.mpr ⟨u, rfl, ih hu⟩
    | anyChar =>
      obtain ⟨c, u, rfl, hu⟩ := accepts_anyChar.mp h
      exact accepts_anyChar.mpr ⟨c, u, rfl, ih hu⟩
    | anyText =>
      obtain ⟨u, v, rfl, hv⟩ := accepts_anyText.mp h
      exact accepts_anyText.mpr ⟨u, v, rfl, ih hv⟩

end

/-! ## Texts without signs -/

/-- A text in which every character stands for itself. -/
def Plain (cs : List Char) : Prop := ∀ c ∈ cs, isPatternSign c = false

theorem ofChar_of_not_sign (h : isPatternSign c = false) :
    c ≠ '\\' ∧ PatternStep.ofChar c = .exactly c := by
  simp only [isPatternSign, Bool.or_eq_false_iff, decide_eq_false_iff_not] at h
  obtain ⟨⟨hpercent, hunderscore⟩, hbackslash⟩ := h
  refine ⟨hbackslash, ?_⟩
  rw [PatternStep.ofChar, if_neg hpercent, if_neg hunderscore]

/-- A text without signs asks for itself. -/
theorem readPattern_plain (h : Plain cs) : readPattern cs = some (cs.map .exactly) := by
  induction cs with
  | nil => rfl
  | cons c cs ih =>
    obtain ⟨hc, hstep⟩ := ofChar_of_not_sign (h c List.mem_cons_self)
    rw [readPattern_cons hc, hstep, ih fun d hd => h d (List.mem_cons_of_mem c hd)]
    rfl

theorem accepts_map_exactly_append {t : List Char} {steps : List PatternStep} :
    accepts (cs.map .exactly ++ steps) t = true ↔
      ∃ u, t = cs ++ u ∧ accepts steps u = true := by
  induction cs generalizing t with
  | nil => simp
  | cons c cs ih =>
    rw [List.map_cons, List.cons_append, accepts_exactly]
    constructor
    · rintro ⟨u, rfl, hu⟩
      obtain ⟨v, rfl, hv⟩ := ih.mp hu
      exact ⟨v, rfl, hv⟩
    · rintro ⟨u, rfl, hu⟩
      exact ⟨cs ++ u, rfl, ih.mpr ⟨u, rfl, hu⟩⟩

/-! ## A text between signs for any text -/

namespace Affix

/-- The pattern that looks for a text. -/
def pattern : Affix → List Char → List Char
  | anywhere, s => '%' :: s ++ ['%']
  | start, s => s ++ ['%']
  | finish, s => '%' :: s

/-- Where a text has to stand in another one. -/
def Occurs : Affix → List Char → List Char → Prop
  | anywhere, s, t => s <:+: t
  | start, s, t => s <+: t
  | finish, s, t => s <:+ t

theorem Occurs.infix {t : List Char} (h : affix.Occurs s t) : s <:+: t := by
  cases affix with
  | anywhere => exact h
  | start => exact List.IsPrefix.isInfix h
  | finish => exact List.IsSuffix.isInfix h

theorem occurs_self (affix : Affix) (s : List Char) : affix.Occurs s s := by
  cases affix with
  | anywhere => exact List.infix_refl s
  | start => exact List.prefix_refl s
  | finish => exact List.suffix_refl s

end Affix

theorem readPattern_percent (cs : List Char) :
    readPattern ('%' :: cs) = (readPattern cs).map (.anyText :: ·) :=
  readPattern_cons (by decide) cs

theorem fits_of_readPattern {t : List Char} {steps : List PatternStep}
    (h : readPattern cs = some steps) : fits cs t = accepts steps t := by
  rw [fits, h, Option.any_some]

/-- **A text without signs is found where it occurs.** -/
theorem fits_iff_occurs (affix : Affix) (hs : Plain s) (t : List Char) :
    fits (affix.pattern s) t = true ↔ affix.Occurs s t := by
  have hstart : readPattern (s ++ ['%']) = some (s.map .exactly ++ [.anyText]) := by
    rw [readPattern_append_of_some (readPattern_plain hs), readPattern_percent]
    rfl
  have hrest : ∀ u, accepts [.anyText] u = true := fun u =>
    accepts_anyText.mpr ⟨u, [], (List.append_nil u).symm, accepts_nil.mpr rfl⟩
  cases affix with
  | anywhere =>
    have hread : readPattern (Affix.anywhere.pattern s) =
        some (.anyText :: (s.map .exactly ++ [.anyText])) := by
      rw [Affix.pattern, List.cons_append, readPattern_percent, hstart]
      rfl
    rw [fits_of_readPattern hread, accepts_anyText]
    constructor
    · rintro ⟨u, v, rfl, hv⟩
      obtain ⟨w, rfl, -⟩ := accepts_map_exactly_append.mp hv
      exact ⟨u, w, List.append_assoc u s w⟩
    · rintro ⟨u, w, rfl⟩
      exact ⟨u, s ++ w, List.append_assoc u s w,
        accepts_map_exactly_append.mpr ⟨w, rfl, hrest w⟩⟩
  | start =>
    rw [Affix.pattern, fits_of_readPattern hstart, accepts_map_exactly_append]
    constructor
    · rintro ⟨u, rfl, -⟩
      exact List.prefix_append s u
    · rintro ⟨u, rfl⟩
      exact ⟨u, rfl, hrest u⟩
  | finish =>
    have hread : readPattern (Affix.finish.pattern s) =
        some (.anyText :: (s.map .exactly ++ [])) := by
      rw [Affix.pattern, readPattern_percent, readPattern_plain hs, List.append_nil]
      rfl
    rw [fits_of_readPattern hread, accepts_anyText]
    constructor
    · rintro ⟨u, v, rfl, hv⟩
      obtain ⟨w, rfl, hw⟩ := accepts_map_exactly_append.mp hv
      rw [accepts_nil.mp hw, List.append_nil]
      exact List.suffix_append u s
    · rintro ⟨u, rfl⟩
      exact ⟨u, s, rfl, accepts_map_exactly_append.mpr
        ⟨[], (List.append_nil s).symm, accepts_nil.mpr rfl⟩⟩

/-! ## Texts with signs -/

/-- The shortest text that the steps accept, with a letter for each character that is left open. -/
def sample : List PatternStep → List Char
  | [] => []
  | .exactly c :: steps => c :: sample steps
  | .anyChar :: steps => 'x' :: sample steps
  | .anyText :: steps => sample steps

theorem accepts_sample (steps : List PatternStep) : accepts steps (sample steps) = true := by
  induction steps with
  | nil => rfl
  | cons step steps ih =>
    cases step with
    | exactly c => exact accepts_exactly.mpr ⟨sample steps, rfl, ih⟩
    | anyChar => exact accepts_anyChar.mpr ⟨'x', sample steps, rfl, ih⟩
    | anyText => exact accepts_anyText.mpr ⟨[], sample steps, rfl, ih⟩

theorem sample_append (steps more : List PatternStep) :
    sample (steps ++ more) = sample steps ++ sample more := by
  induction steps with
  | nil => rfl
  | cons step steps ih =>
    cases step with
    | exactly c => rw [List.cons_append, sample, sample, ih, List.cons_append]
    | anyChar => rw [List.cons_append, sample, sample, ih, List.cons_append]
    | anyText => rw [List.cons_append, sample, sample, ih]

theorem length_sample_cons (step : PatternStep) (steps : List PatternStep) :
    (sample (step :: steps)).length ≤ (sample steps).length + 1 := by
  cases step with
  | exactly c => exact Nat.le_refl _
  | anyChar => exact Nat.le_refl _
  | anyText => exact Nat.le_succ _

theorem length_sample_le {steps : List PatternStep} (h : readPattern cs = some steps) :
    (sample steps).length ≤ cs.length := by
  fun_induction readPattern cs generalizing steps with
  | case1 =>
    cases h
    exact Nat.le_refl _
  | case2 => cases h
  | case3 d ds ih =>
    obtain ⟨rest, hrest, rfl⟩ := Option.map_eq_some_iff.mp h
    have hle := ih hrest
    have hcons := length_sample_cons (.exactly d) rest
    rw [List.length_cons, List.length_cons]
    omega
  | case4 c cs hc ih =>
    obtain ⟨rest, hrest, rfl⟩ := Option.map_eq_some_iff.mp h
    have hle := ih hrest
    have hcons := length_sample_cons (.ofChar c) rest
    rw [List.length_cons]
    omega

/-- A text that is its own sample has no signs. -/
theorem plain_of_sample_eq {steps : List PatternStep} (h : readPattern cs = some steps)
    (hsample : sample steps = cs) : Plain cs := by
  fun_induction readPattern cs generalizing steps with
  | case1 => exact fun c hc => absurd hc List.not_mem_nil
  | case2 => cases h
  | case3 d ds ih =>
    -- the backslash is missing from the sample, so this is too short
    obtain ⟨rest, hrest, rfl⟩ := Option.map_eq_some_iff.mp h
    have hle := length_sample_le hrest
    have hlength := congrArg List.length hsample
    rw [sample, List.length_cons, List.length_cons, List.length_cons] at hlength
    omega
  | case4 c cs hc ih =>
    obtain ⟨rest, hrest, rfl⟩ := Option.map_eq_some_iff.mp h
    have hle := length_sample_le hrest
    by_cases hpercent : c = '%'
    · rw [PatternStep.ofChar, if_pos hpercent, sample] at hsample
      have hlength := congrArg List.length hsample
      rw [List.length_cons] at hlength
      omega
    · by_cases hunderscore : c = '_'
      · rw [PatternStep.ofChar, if_neg hpercent, if_pos hunderscore, sample, hunderscore] at hsample
        exact absurd (List.cons.inj hsample).1 (by decide)
      · rw [PatternStep.ofChar, if_neg hpercent, if_neg hunderscore, sample] at hsample
        have hrest := ih hrest (List.cons.inj hsample).2
        intro d hd
        rcases List.mem_cons.mp hd with rfl | hd
        · simp [isPatternSign, hpercent, hunderscore, hc]
        · exact hrest d hd

/-- A text that is no pattern ends in a lone backslash, which takes the next character with it. -/
theorem readPattern_append_of_none (h : readPattern cs = none) :
    ∃ us steps, cs = us ++ ['\\'] ∧ readPattern us = some steps ∧
      ∀ c rest, readPattern (cs ++ c :: rest) =
        (readPattern rest).map (steps ++ [.exactly c] ++ ·) := by
  fun_induction readPattern cs with
  | case1 => cases h
  | case2 =>
    exact ⟨[], [], rfl, rfl, fun c rest => readPattern_escaped c rest⟩
  | case3 d ds ih =>
    obtain ⟨us, steps, rfl, hus, hread⟩ := ih (Option.map_eq_none_iff.mp h)
    refine ⟨'\\' :: d :: us, .exactly d :: steps, rfl, ?_, fun c rest => ?_⟩
    · rw [readPattern_escaped, hus]
      rfl
    · rw [List.cons_append, List.cons_append, readPattern_escaped, hread, Option.map_map]
      rfl
  | case4 c cs hc ih =>
    obtain ⟨us, steps, rfl, hus, hread⟩ := ih (Option.map_eq_none_iff.mp h)
    refine ⟨c :: us, .ofChar c :: steps, rfl, ?_, fun d rest => ?_⟩
    · rw [readPattern_cons hc, hus]
      rfl
    · rw [List.cons_append, readPattern_cons hc, hread, Option.map_map]
      rfl

/-- `%` in front of a pattern also stands for the empty text. -/
theorem fits_percent_cons {t : List Char} (h : fits cs t = true) : fits ('%' :: cs) t = true := by
  obtain ⟨steps, hsteps, ht⟩ := (Option.any_eq_true _ _).mp h
  rw [fits, readPattern_percent, hsteps]
  exact accepts_anyText.mpr ⟨[], t, rfl, ht⟩

/-- A text that is a pattern finds the sample of this pattern. -/
theorem fits_sample (affix : Affix) {steps : List PatternStep} (h : readPattern s = some steps) :
    fits (affix.pattern s) (sample steps) = true := by
  have hself : fits s (sample steps) = true := by
    rw [fits_of_readPattern h]
    exact accepts_sample steps
  have hbehind : fits (s ++ ['%']) (sample steps) = true := by
    have hread : readPattern (s ++ ['%']) = some (steps ++ [.anyText]) := by
      rw [readPattern_append_of_some h, readPattern_percent]
      rfl
    rw [fits_of_readPattern hread]
    exact accepts_append_anyText (accepts_sample steps)
  cases affix with
  | anywhere => exact fits_percent_cons hbehind
  | start => exact hbehind
  | finish => exact fits_percent_cons hself

/-- A text with signs that is a pattern does not occur in its sample. -/
theorem not_occurs_sample {steps : List PatternStep} (h : readPattern s = some steps)
    (hs : ¬ Plain s) : ¬ affix.Occurs s (sample steps) := by
  intro hoccurs
  have hsame : s = sample steps := hoccurs.infix.eq_of_length_le (length_sample_le h)
  exact hs (plain_of_sample_eq h hsame.symm)

/-- A lone backslash at the end takes the `%` behind it, and without one there is no pattern. -/
theorem exists_fits_ne_occurs_of_none (affix : Affix) (h : readPattern s = none) :
    ∃ t, ¬ (fits (affix.pattern s) t = true ↔ affix.Occurs s t) := by
  obtain ⟨us, steps, rfl, hus, happend⟩ := readPattern_append_of_none h
  have hnot : ¬ affix.Occurs (us ++ ['\\']) (sample steps ++ ['%']) := by
    intro hoccurs
    have hle := length_sample_le hus
    have hsame := hoccurs.infix.eq_of_length_le (by simpa using hle)
    exact absurd (List.append_inj_right' hsame rfl) (by decide)
  have hbehind : fits (us ++ ['\\'] ++ ['%']) (sample steps ++ ['%']) = true := by
    have hread : readPattern (us ++ ['\\'] ++ ['%']) = some (steps ++ [.exactly '%'] ++ []) := by
      rw [happend]
      rfl
    have hsample : sample steps ++ ['%'] = sample (steps ++ [.exactly '%']) := by
      rw [sample_append]
      rfl
    rw [fits_of_readPattern hread, List.append_nil, hsample]
    exact accepts_sample _
  cases affix with
  | anywhere => exact ⟨_, fun hiff => hnot (hiff.mp (fits_percent_cons hbehind))⟩
  | start => exact ⟨_, fun hiff => hnot (hiff.mp hbehind)⟩
  | finish =>
    refine ⟨us ++ ['\\'], fun hiff => ?_⟩
    have hfits := hiff.mpr (Affix.occurs_self .finish _)
    rw [Affix.pattern, fits, readPattern_percent, h] at hfits
    cases hfits

/-- **A text is found where it occurs just when it has no signs.** -/
theorem forall_fits_iff_plain :
    (∀ t, fits (affix.pattern s) t = true ↔ affix.Occurs s t) ↔ Plain s := by
  constructor
  · intro hall
    by_contra hs
    cases h : readPattern s with
    | some steps => exact not_occurs_sample h hs ((hall _).mp (fits_sample affix h))
    | none =>
      obtain ⟨t, ht⟩ := exists_fits_ne_occurs_of_none affix h
      exact ht (hall t)
  · intro hs t
    exact fits_iff_occurs affix hs t

/-! ## Quoted texts that are put together -/

/-- What is read of quoted texts that are put together, from inside of one of them or from behind a
quote, where it ends unless another quote follows. -/
def joinedFrom : (inside : Bool) → List Char → Option (List Char)
  | true, [] => none
  | true, c :: cs => if c = '\'' then joinedFrom false cs else (joinedFrom true cs).map (c :: ·)
  | false, [] => some []
  | false, '\'' :: cs => (joinedFrom true cs).map ('\'' :: ·)
  | false, ' ' :: '|' :: '|' :: ' ' :: '\'' :: cs => joinedFrom true cs
  | false, _ :: _ => none

/-- The value of one or more quoted texts that are put together by `||`. -/
def textValue? (sql : String) : Option String :=
  match sql.toList with
  | '\'' :: cs => (joinedFrom true cs).map String.ofList
  | _ => none

example : textValue? "'%' || 'it''s' || '%'" = some "%it's%" := by decide

theorem textValue?_of_toList {sql : String} (h : sql.toList = '\'' :: cs) :
    textValue? sql = (joinedFrom true cs).map String.ofList := by
  rw [textValue?, h]
  rfl

theorem joinedFrom_quoted (cs rest : List Char) :
    joinedFrom true (cs.flatMap quoteChar ++ '\'' :: rest) =
      (joinedFrom false rest).map (cs ++ ·) := by
  induction cs with
  | nil => simp [joinedFrom]
  | cons c cs ih =>
    rw [List.flatMap_cons, List.append_assoc]
    by_cases hc : c = '\''
    · rw [quoteChar, if_pos hc, hc]
      show (joinedFrom true (cs.flatMap quoteChar ++ '\'' :: rest)).map ('\'' :: ·) = _
      rw [ih, Option.map_map]
      rfl
    · rw [quoteChar, if_neg hc, List.cons_append, List.nil_append, joinedFrom, if_neg hc, ih,
        Option.map_map]
      rfl

/-- A quoted `%` in front of another quoted text. -/
theorem joinedFrom_percent (cs : List Char) :
    joinedFrom true ('%' :: '\'' :: ' ' :: '|' :: '|' :: ' ' :: '\'' :: cs) =
      (joinedFrom true cs).map ('%' :: ·) := rfl

namespace Affix

/-- The right side of the comparison that looks for a text. -/
def operand : Affix → String → String
  | anywhere, part => "'%' || " ++ part ++ " || '%'"
  | start, part => part ++ " || '%'"
  | finish, part => "'%' || " ++ part

theorem renderLike_eq (affix : Affix) (e part : String) :
    Expr.renderLike affix e part = e ++ " LIKE " ++ affix.operand part := by
  cases affix with
  | anywhere => simp only [Expr.renderLike, operand, String.append_assoc]; rfl
  | start => simp only [Expr.renderLike, operand, String.append_assoc]
  | finish => simp only [Expr.renderLike, operand, String.append_assoc]; rfl

/-- The right side has the pattern for its value, whatever the text contains. -/
theorem textValue?_operand (affix : Affix) (s : String) :
    textValue? (affix.operand (quote s)) = some (String.ofList (affix.pattern s.toList)) := by
  have hend : joinedFrom false (" || '%'").toList = some ['%'] := by decide
  have hquoted : ∀ rest, joinedFrom true (s.toList.flatMap quoteChar ++ '\'' :: rest) =
      (joinedFrom false rest).map (s.toList ++ ·) := joinedFrom_quoted s.toList
  cases affix with
  | anywhere =>
    have htext : (operand anywhere (quote s)).toList = '\'' :: '%' :: '\'' :: ' ' :: '|' :: '|' ::
        ' ' :: '\'' :: (s.toList.flatMap quoteChar ++ '\'' :: (" || '%'").toList) := by
      simp [operand, quote, String.toList_append]
    rw [textValue?_of_toList htext, joinedFrom_percent, hquoted, hend]
    rfl
  | start =>
    have htext : (operand start (quote s)).toList =
        '\'' :: (s.toList.flatMap quoteChar ++ '\'' :: (" || '%'").toList) := by
      simp [operand, quote, String.toList_append]
    rw [textValue?_of_toList htext, hquoted, hend]
    rfl
  | finish =>
    have htext : (operand finish (quote s)).toList = '\'' :: '%' :: '\'' :: ' ' :: '|' :: '|' ::
        ' ' :: '\'' :: (s.toList.flatMap quoteChar ++ ['\'']) := by
      simp [operand, quote, String.toList_append]
    rw [textValue?_of_toList htext, joinedFrom_percent, hquoted]
    simp [joinedFrom, pattern]

end Affix

end GraphSql.Relational
