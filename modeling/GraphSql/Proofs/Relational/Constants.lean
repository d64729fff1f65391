import GraphSql.Proofs.Script.Render

/-!
# Texts that are constants

A text is a constant by itself when it is a numeral, a quoted text, `NULL`, `TRUE` or `FALSE`
(`ReadsAsConstant`).  The text of an expression is one only if its tree is: a literal other than an
array, or a minus sign before a number that has none (`Expr.readsAsConstant_render`).  For this the
sources of columns must be names.  A comparison can begin with a quoted text, but a blank follows there,
where a constant would end (`OpensQuoted`).
-/

namespace GraphSql

/-! ## Numbers -/

namespace Binary64

def isFinite : Binary64 → Bool
  | finite _ _ _ => true
  | _ => false

/-- Only zero is written with zeros alone. -/
theorem dropZeros_toDigits_ne_nil {n : Nat} (h : n ≠ 0) : dropZeros (Nat.toDigits 10 n) ≠ [] := by
  intro hnil
  have hzeros : ∀ c ∈ Nat.toDigits 10 n, c = '0' := by
    rw [dropZeros, Text.dropEndWhile, List.reverse_eq_nil_iff, List.dropWhile_eq_nil_iff] at hnil
    exact fun c hc => by simpa using hnil c (List.mem_reverse.mpr hc)
  have hvalue : ∀ ds : List Char, (∀ c ∈ ds, c = '0') → Nat.ofDigitChars 10 ds 0 = 0 := by
    intro ds hds
    rw [Nat.ofDigitChars_eq_foldl]
    refine List.foldlRecOn (motive := fun k : Nat => k = 0) ds _ rfl ?_
    rintro _ rfl c hc
    rw [hds c hc]
    rfl
  exact h (Nat.ofDigitChars_ten_toDigits.symm.trans (hvalue _ hzeros))

theorem le_divNearest (n d : Nat) : n / d ≤ divNearest n d := by
  unfold divNearest
  dsimp only
  split
  · exact Nat.le_refl _
  · split
    · exact Nat.le_succ _
    · exact Nat.le_add_right _ _

/-- No digits are read as zero. -/
theorem gridPoint?_ne_zero {m : Nat} (hm : m ≠ 0) {e : Int} {n d c : Nat} {u : Int}
    (h : gridPoint? (.finite false m e) n d u = some c) : c ≠ 0 := by
  have hzero : ofDecimal false 0 u ≠ .finite false m e := by
    rw [ofDecimal, if_pos (.inl rfl)]
    intro he
    injection he with _ he
    exact hm he.symm
  unfold gridPoint? at h
  dsimp only at h
  split at h
  · rename_i hbelow
    have hpos : (tenShift n d u).1 / (tenShift n d u).2 ≠ 0 := fun he => hzero (he ▸ hbelow)
    split at h
    · cases h
      exact ((Nat.pos_of_ne_zero hpos).trans_le (le_divNearest _ _)).ne'
    · cases h
      exact hpos
  · split at h
    · cases h
      exact Nat.succ_ne_zero _
    · cases h

theorem shortestFrom_cases {m : Nat} (hm : m ≠ 0) (e : Int) (n d : Nat) (lead : Int) :
    ∀ tries used : Nat, (shortestFrom (.finite false m e) n d lead used tries).1 ≠ 0 ∨
      shortestFrom (.finite false m e) n d lead used tries = (0, 0)
  | 0, used => .inr rfl
  | tries + 1, used => by
    rw [shortestFrom]
    split
    · rename_i c hc
      exact .inl (gridPoint?_ne_zero hm hc)
    · exact shortestFrom_cases hm e n d lead tries (used + 1)

/-- There are significant digits, or the number is written like one below ten. -/
theorem shortestDigits_cases {m : Nat} (hm : m ≠ 0) (e : Int) :
    (shortestDigits m e).1 ≠ [] ∨ (shortestDigits m e).2 = 0 := by
  unfold shortestDigits
  dsimp only
  rcases shortestFrom_cases hm e (ratio m e).1 (ratio m e).2
    (leadingPower (ratio m e).1 (ratio m e).2) 17 0 with h | h
  · exact .inl (dropZeros_toDigits_ne_nil h)
  · rw [h]
    exact .inr rfl

end Binary64

namespace Relational

variable {s : String} {c : Char} {l : Literal} {e : Expr}

/-! ## Numerals -/

/-- The characters of a numeral without a sign: a digit comes first. -/
structure UnsignedNumeral (cs : List Char) : Prop where
  first : cs.head?.any Char.isDigit = true
  chars : ∀ c ∈ cs, isNumberChar c = true

/-- A numeral, perhaps behind a minus sign. -/
def IsNumeral (s : String) : Prop :=
  UnsignedNumeral s.toList ∨ ∃ cs, s.toList = '-' :: cs ∧ UnsignedNumeral cs

theorem UnsignedNumeral.of_cons {cs : List Char} (hc : c.isDigit = true)
    (h : ∀ c ∈ cs, isNumberChar c = true) : UnsignedNumeral (c :: cs) where
  first := hc
  chars d hd := by
    rcases List.mem_cons.mp hd with rfl | hd
    · exact isNumberChar_of_isDigit hc
    · exact h d hd

theorem IsNumeral.chars (h : IsNumeral s) : ∀ c ∈ s.toList, isNumberChar c = true := by
  rcases h with h | ⟨cs, hs, h⟩
  · exact h.chars
  · intro c hc
    rw [hs] at hc
    rcases List.mem_cons.mp hc with rfl | hc
    · decide
    · exact h.chars c hc

theorem isNumeral_minus (h : UnsignedNumeral s.toList) : IsNumeral ("-" ++ s) :=
  .inr ⟨s.toList, by rw [String.toList_append]; rfl, h⟩

theorem unsignedNumeral_natural (n : Nat) : UnsignedNumeral (Numeral.natural n).toList := by
  have hdigits : ∀ c ∈ Nat.toDigits 10 n, c.isDigit = true := fun c hc =>
    Nat.isDigit_of_mem_toDigits (by decide) (by decide) hc
  rw [Numeral.natural, String.toList_ofList]
  obtain ⟨c, cs, hcs⟩ := List.exists_cons_of_ne_nil (Nat.toDigits_ne_nil (b := 10) (n := n))
  rw [hcs] at hdigits ⊢
  exact .of_cons (hdigits c List.mem_cons_self) fun d hd =>
    isNumberChar_of_isDigit (hdigits d (List.mem_cons_of_mem c hd))

theorem unsignedNumeral_positional {ds : List Char} (h : ∀ c ∈ ds, c.isDigit = true) (lead : Int) :
    UnsignedNumeral (Binary64.positional ds lead) where
  first := by
    unfold Binary64.positional
    split
    · rfl
    · cases ds with
      | nil => rfl
      | cons d ds =>
        have hd := h d List.mem_cons_self
        dsimp only
        split
        · exact hd
        · exact hd
  chars := isNumberChar_positional (fun c hc => isNumberChar_of_isDigit (h c hc)) lead

theorem unsignedNumeral_scientific {ds : List Char} (hne : ds ≠ [])
    (h : ∀ c ∈ ds, c.isDigit = true) (lead : Int) :
    UnsignedNumeral (Binary64.scientific ds lead) where
  first := by
    obtain ⟨d, ds, rfl⟩ := List.exists_cons_of_ne_nil hne
    have hd := h d List.mem_cons_self
    cases ds with
    | nil => exact hd
    | cons c cs => exact hd
  chars := isNumberChar_scientific (fun c hc => isNumberChar_of_isDigit (h c hc)) lead

/-- A finite number is a numeral behind its sign. -/
theorem exists_render_finite (negative : Bool) (m : Nat) (e : Int) :
    ∃ s, (Binary64.finite negative m e).render = (if negative then "-" else "") ++ s ∧
      UnsignedNumeral s.toList := by
  unfold Binary64.render
  dsimp only
  split
  · exact ⟨"0.0", rfl, ⟨by decide, by decide⟩⟩
  · rename_i hm
    have hdigits := Binary64.isDigit_shortestDigits m e
    refine ⟨_, rfl, ?_⟩
    rw [String.toList_ofList]
    split
    · exact unsignedNumeral_positional hdigits _
    · rename_i hlead
      rcases Binary64.shortestDigits_cases hm e with hne | hzero
      · exact unsignedNumeral_scientific hne hdigits _
      · rw [hzero] at hlead
        exact absurd (by decide) hlead

/-! ## Constants -/

/-- A text that is a constant by itself. -/
def ReadsAsConstant (s : String) : Prop :=
  IsNumeral s ∨ (∃ t, s = quote t) ∨ s ∈ ["NULL", "TRUE", "FALSE"]

/-- Integers and finite numbers that are written without a sign. -/
def Literal.isUnsigned : Literal → Bool
  | .integer n => decide (0 ≤ n)
  | .number x => x.isFinite && !x.signed
  | _ => false

/-- Literals other than arrays and numbers that are not finite. -/
def Literal.isConstant : Literal → Bool
  | .null => true
  | .boolean _ => true
  | .integer _ => true
  | .number x => x.isFinite
  | .text _ => true
  | _ => false

/-- The literal that an expression is. -/
def Expr.literal? : Expr → Option Literal
  | .literal l => some l
  | _ => none

/-- A constant, or a minus sign before a number that has none. -/
def Expr.isConstant : Expr → Bool
  | .negate e => e.literal?.any Literal.isUnsigned
  | e => e.literal?.any Literal.isConstant

theorem Literal.unsignedNumeral_render (h : l.isUnsigned = true) :
    UnsignedNumeral l.render.toList := by
  cases l with
  | integer n =>
    obtain ⟨n, rfl⟩ := Int.eq_ofNat_of_zero_le (of_decide_eq_true h)
    exact unsignedNumeral_natural n
  | number x =>
    cases x with
    | finite negative m e =>
      obtain rfl : negative = false := by simpa [isUnsigned, Binary64.isFinite, Binary64.signed] using h
      obtain ⟨s, hs, hnumeral⟩ := exists_render_finite false m e
      rw [Literal.render, hs, if_neg Bool.false_ne_true, String.empty_append]
      exact hnumeral
    | _ => cases h
  | _ => cases h

theorem Literal.readsAsConstant_render (h : l.isConstant = true) : ReadsAsConstant l.render := by
  cases l with
  | null => exact .inr (.inr (by simp [Literal.render]))
  | boolean b => cases b <;> exact .inr (.inr (by simp [Literal.render]))
  | integer n =>
    cases n with
    | ofNat n => exact .inl (.inl (unsignedNumeral_natural n))
    | negSucc n => exact .inl (isNumeral_minus (unsignedNumeral_natural (n + 1)))
  | number x =>
    cases x with
    | finite negative m e =>
      obtain ⟨s, hs, hnumeral⟩ := exists_render_finite negative m e
      rw [Literal.render, hs]
      cases negative with
      | false =>
        rw [if_neg Bool.false_ne_true, String.empty_append]
        exact .inl (.inl hnumeral)
      | true => exact .inl (isNumeral_minus hnumeral)
    | _ => cases h
  | text s => exact .inr (.inl ⟨s, rfl⟩)
  | _ => cases h

theorem Expr.readsAsConstant_of_isConstant (h : e.isConstant = true) :
    ReadsAsConstant e.render := by
  cases e with
  | literal l => exact Literal.readsAsConstant_render h
  | negate e =>
    cases e with
    | literal l => exact .inl (isNumeral_minus (Literal.unsignedNumeral_render h))
    | _ => cases h
  | _ => cases h

/-! ## Texts that are no constants -/

/-- A word that does not start with a digit. -/
structure NameLike (x : String) : Prop where
  wordy : Wordy x
  first : x.toList.head?.any (fun c => !c.isDigit) = true

instance (x : String) : Decidable (NameLike x) :=
  decidable_of_iff (Wordy x ∧ x.toList.head?.any (fun c => !c.isDigit) = true)
    ⟨fun h => ⟨h.1, h.2⟩, fun h => ⟨h.wordy, h.first⟩⟩

/-- The characters of constants other than quoted texts. -/
def isConstantChar (c : Char) : Bool := isNumberChar c || "NULTRFASE".toList.contains c

/-- A constant that is not quoted has no blanks and no brackets. -/
theorem ReadsAsConstant.exists_quote (h : ReadsAsConstant s) (hc : c ∈ s.toList)
    (hchar : isConstantChar c = false) : ∃ t, s = quote t := by
  rw [isConstantChar, Bool.or_eq_false_iff] at hchar
  rcases h with h | h | h
  · rw [h.chars c hc] at hchar
    cases hchar.1
  · exact h
  · have hletters : ∀ w ∈ ["NULL", "TRUE", "FALSE"], ∀ c ∈ w.toList,
        "NULTRFASE".toList.contains c = true := by decide
    rw [hletters s h c hc] at hchar
    cases hchar.2

/-- Constants do not end in a bracket or a keyword. -/
theorem not_readsAsConstant_of_getLast? (hs : s.toList.getLast? = some c)
    (hchar : isConstantChar c = false) (hquote : c ≠ '\'') : ¬ ReadsAsConstant s := by
  intro h
  obtain ⟨t, rfl⟩ := h.exists_quote (List.mem_of_getLast? hs) hchar
  rw [quote, String.toList_append, List.getLast?_append] at hs
  exact hquote (Option.some.inj hs).symm

/-! ### Quoted texts -/

/-- A quoted text ends at its last quote. -/
theorem flatMap_quoteChar_ne {c : Char} (hc : c ≠ '\'') (rest : List Char) : ∀ as bs : List Char,
    as.flatMap quoteChar ++ ['\''] ≠ bs.flatMap quoteChar ++ '\'' :: c :: rest
  | [], [] => by simp
  | [], b :: bs => by
    by_cases hb : b = '\''
    · simp [quoteChar, hb]
    · simp [quoteChar, hb, Ne.symm hb]
  | a :: as, [] => by
    by_cases ha : a = '\''
    · simp [quoteChar, ha, hc.symm]
    · simp [quoteChar, ha]
  | a :: as, b :: bs => by
    have ih := flatMap_quoteChar_ne hc rest as bs
    by_cases ha : a = '\''
    · by_cases hb : b = '\''
      · simpa [quoteChar, ha, hb] using ih
      · simp [quoteChar, ha, hb, Ne.symm hb]
    · by_cases hb : b = '\''
      · simp [quoteChar, ha, hb]
      · simpa [quoteChar, ha, hb] using fun _ => ih

theorem head?_quote (t : String) : (quote t).toList.head? = some '\'' := by
  rw [quote, String.toList_append, String.toList_append]
  rfl

/-- A text that does not start with a quote, or with a quoted text that is all of it or is followed
by a blank. -/
def OpensQuoted (s : String) : Prop :=
  s.toList.head? ≠ some '\'' ∨
    ∃ t rest, s.toList = (quote t).toList ++ rest ∧ (rest = [] ∨ rest.head? = some ' ')

theorem opensQuoted_of_head? (hs : s.toList.head? = some c) (hc : c ≠ '\'') : OpensQuoted s :=
  .inl fun h => hc (Option.some.inj (hs.symm.trans h))

section

variable {cs rest : List Char} (hr : rest.head? = some ' ')

include hr

theorem head?_append_ne_quote (h : cs.head? ≠ some '\'') : (cs ++ rest).head? ≠ some '\'' := by
  cases cs with
  | nil => simp [hr]
  | cons c cs => exact h

theorem head?_append_blank (h : cs = [] ∨ cs.head? = some ' ') : (cs ++ rest).head? = some ' ' := by
  rcases h with rfl | h
  · exact hr
  · rw [List.head?_append, h]
    rfl

/-- A blank behind a quoted text is not part of a longer one. -/
theorem quote_append_ne (s t : String) : (quote s).toList ++ rest ≠ (quote t).toList := by
  obtain ⟨rest, rfl⟩ := List.head?_eq_some_iff.mp hr
  have hne := flatMap_quoteChar_ne (c := ' ') (by decide) rest t.toList s.toList
  intro h
  simp only [quote, String.toList_append, String.toList_ofList, List.append_assoc] at h
  exact hne (List.append_cancel_left h).symm

end

theorem OpensQuoted.append {r : String} (hs : OpensQuoted s) (hr : r.toList.head? = some ' ') :
    OpensQuoted (s ++ r) := by
  rcases hs with hs | ⟨t, rest, hs, hrest⟩
  · refine .inl ?_
    rw [String.toList_append]
    exact head?_append_ne_quote hr hs
  · refine .inr ⟨t, rest ++ r.toList, ?_, .inr (head?_append_blank hr hrest)⟩
    rw [String.toList_append, hs, List.append_assoc]

/-- What a blank follows is not a constant together with it. -/
theorem OpensQuoted.not_readsAsConstant_append {r : String} (hs : OpensQuoted s)
    (hr : r.toList.head? = some ' ') : ¬ ReadsAsConstant (s ++ r) := by
  intro h
  have hblank : ' ' ∈ (s ++ r).toList := by
    rw [String.toList_append]
    exact List.mem_append_right _ (List.mem_of_mem_head? hr)
  obtain ⟨t, ht⟩ := h.exists_quote hblank (by decide)
  have htext := congrArg String.toList ht
  rw [String.toList_append] at htext
  rcases hs with hs | ⟨t', rest, hs, hrest⟩
  · exact head?_append_ne_quote hr hs (by rw [htext, head?_quote])
  · rw [hs, List.append_assoc] at htext
    exact quote_append_ne (head?_append_blank hr hrest) t' t htext

/-! ## The text of an expression -/

theorem NameLike.head? {x : String} (h : NameLike x) :
    ∃ c cs, x.toList = c :: cs ∧ c.isDigit = false ∧ isWordChar c = true := by
  have hfirst := h.first
  cases hx : x.toList with
  | nil => simp [hx] at hfirst
  | cons c cs =>
    refine ⟨c, cs, rfl, by simpa [hx] using hfirst, h.wordy c ?_⟩
    rw [hx]
    exact List.mem_cons_self

theorem opensQuoted_append (hs : s.toList.head? = some c) (hc : c ≠ '\'') (r : String) :
    OpensQuoted (s ++ r) := by
  refine opensQuoted_of_head? (c := c) ?_ hc
  rw [String.toList_append, List.head?_append, hs]
  rfl

theorem IsNumeral.opensQuoted (h : IsNumeral s) : OpensQuoted s := by
  refine .inl fun hhead => ?_
  have hchar := h.chars '\'' (List.mem_of_mem_head? hhead)
  exact absurd hchar (by decide)

theorem Literal.opensQuoted_render (l : Literal) : OpensQuoted l.render := by
  by_cases hconstant : l.isConstant = true
  · rcases Literal.readsAsConstant_render hconstant with h | ⟨t, h⟩ | h
    · exact h.opensQuoted
    · exact .inr ⟨t, [], by rw [h, List.append_nil], .inl rfl⟩
    · have hkeywords : ∀ w ∈ ["NULL", "TRUE", "FALSE"], w.toList.head? ≠ some '\'' := by decide
      exact .inl (hkeywords _ h)
  · cases l with
    | number x =>
      cases x with
      | nan => exact opensQuoted_of_head? (c := 'n') rfl (by decide)
      | infinite negative =>
        cases negative with
        | false => exact opensQuoted_of_head? (c := 'i') rfl (by decide)
        | true => exact opensQuoted_of_head? (c := '-') rfl (by decide)
      | finite negative m e => exact absurd rfl hconstant
    | array ls =>
      rw [Literal.render, String.append_assoc]
      exact opensQuoted_append (c := 'A') rfl (by decide) _
    | textArray es =>
      cases es with
      | nil => exact opensQuoted_of_head? (c := 'A') rfl (by decide)
      | cons e es =>
        rw [Literal.render, String.append_assoc]
        exact opensQuoted_append (c := 'A') rfl (by decide) _
    | _ => exact absurd rfl hconstant

theorem Wordy.opensQuoted_append {f : String} (hf : Wordy f) (hs : s.toList.head? = some c)
    (hc : c ≠ '\'') : OpensQuoted (f ++ s) := by
  cases hchars : f.toList with
  | nil =>
    refine opensQuoted_of_head? (c := c) ?_ hc
    rw [String.toList_append, hchars]
    exact hs
  | cons d ds =>
    refine Relational.opensQuoted_append (c := d) (by rw [hchars]; rfl) ?_ s
    exact (not_special_of_isWordChar (hf d (by rw [hchars]; exact List.mem_cons_self))).1

/-- The operand that the text of an expression begins with and that a blank follows. -/
def Expr.left? : Expr → Option Expr
  | .nullTest _ e => some e
  | .compare _ l _ => some l
  | .inList e _ => some e
  | .equalsAny e _ => some e
  | .like _ e _ => some e
  | _ => none

theorem Expr.exists_render_of_left? {l : Expr} (h : e.left? = some l) :
    ∃ r : String, e.render = l.render ++ r ∧ r.toList.head? = some ' ' := by
  cases e with
  | nullTest negated e =>
    cases h
    exact ⟨_, by rw [Expr.render], by cases negated <;> rfl⟩
  | compare op l r =>
    cases h
    refine ⟨" " ++ op.text ++ " " ++ r.render, by simp only [Expr.render, String.append_assoc], ?_⟩
    simp only [String.append_assoc, String.toList_append]
    rfl
  | inList e es =>
    cases h
    refine ⟨" IN (" ++ Text.join ", " (renderAll es) ++ ")",
      by simp only [Expr.render, String.append_assoc], ?_⟩
    simp only [String.append_assoc, String.toList_append]
    rfl
  | equalsAny e a =>
    cases h
    refine ⟨" = ANY(" ++ a.render ++ ")", by simp only [Expr.render, String.append_assoc], ?_⟩
    simp only [String.append_assoc, String.toList_append]
    rfl
  | like affix e part =>
    cases h
    cases affix <;>
    · simp only [Expr.render, renderLike, String.append_assoc]
      refine ⟨_, rfl, ?_⟩
      rw [String.toList_append]
      rfl
  | _ => cases h

theorem Expr.opensQuoted_of_left? {l : Expr} (h : e.left? = some l) (hl : OpensQuoted l.render) :
    OpensQuoted e.render := by
  obtain ⟨r, he, hr⟩ := exists_render_of_left? h
  rw [he]
  exact hl.append hr

theorem Expr.opensQuoted_render : ∀ {e : Expr}, e.All (fun x _ => NameLike x) Wordy →
    OpensQuoted e.render
  | .column source name, h => by
    obtain ⟨c, cs, hsource, -, hc⟩ := NameLike.head? h
    rw [Expr.render, columnRef, String.append_assoc]
    exact opensQuoted_append (c := c) (by rw [hsource]; rfl) (not_special_of_isWordChar hc).1 _
  | .star, _ => opensQuoted_of_head? (c := '*') rfl (by decide)
  | .literal l, _ => l.opensQuoted_render
  | .row es, _ => by
    rw [Expr.render, String.append_assoc]
    exact opensQuoted_append (c := 'R') rfl (by decide) _
  | .array es, _ => by
    rw [Expr.render, String.append_assoc]
    exact opensQuoted_append (c := 'A') rfl (by decide) _
  | .not e, _ => by
    rw [Expr.render, String.append_assoc]
    exact opensQuoted_append (c := 'N') rfl (by decide) _
  | .negate e, _ => by
    rw [Expr.render]
    exact opensQuoted_append (c := '-') rfl (by decide) _
  | .binary op l r, _ => by
    simp only [Expr.render, String.append_assoc]
    exact opensQuoted_append (c := '(') rfl (by decide) _
  | .nullTest _ _, h => opensQuoted_of_left? rfl (opensQuoted_render h)
  | .compare _ _ _, h => opensQuoted_of_left? rfl (opensQuoted_render h.1)
  | .inList _ _, h => opensQuoted_of_left? rfl (opensQuoted_render h.1)
  | .equalsAny _ _, h => opensQuoted_of_left? rfl (opensQuoted_render h.1)
  | .like _ _ _, h => opensQuoted_of_left? rfl (opensQuoted_render h.1)
  | .call f distinct es, h => by
    simp only [Expr.render, String.append_assoc]
    refine Wordy.opensQuoted_append (c := '(') h.1 ?_ (by decide)
    rw [String.toList_append]
    rfl
  | .ifElse c a b, _ => by
    simp only [Expr.render, String.append_assoc]
    exact opensQuoted_append (c := 'C') rfl (by decide) _

/-- An expression with a left operand is no constant. -/
theorem Expr.not_readsAsConstant_of_left? {l : Expr} (h : e.left? = some l)
    (hl : l.All (fun x _ => NameLike x) Wordy) : ¬ ReadsAsConstant e.render := by
  obtain ⟨r, he, hr⟩ := exists_render_of_left? h
  rw [he]
  exact (opensQuoted_render hl).not_readsAsConstant_append hr

theorem not_readsAsConstant_append {r : String} (hr : r.toList.getLast? = some c)
    (hchar : isConstantChar c = false) (hquote : c ≠ '\'') : ¬ ReadsAsConstant (s ++ r) := by
  refine not_readsAsConstant_of_getLast? (c := c) ?_ hchar hquote
  rw [String.toList_append, List.getLast?_append, hr]
  rfl

theorem not_unsignedNumeral_append (hs : s.toList.head? = some c) (hc : c.isDigit = false)
    (r : String) : ¬ UnsignedNumeral (s ++ r).toList := by
  intro h
  have hfirst := h.first
  rw [String.toList_append, List.head?_append, hs] at hfirst
  rw [show c.isDigit = true from hfirst] at hc
  cases hc

theorem toList_columnRef (source name : String) :
    (columnRef source name).toList = source.toList ++ '.' :: name.toList := by
  rw [columnRef, String.toList_append, String.toList_append, List.append_assoc]
  rfl

theorem not_readsAsConstant_columnRef {source name : String} (h : NameLike source) :
    ¬ ReadsAsConstant (columnRef source name) := by
  obtain ⟨c, cs, hsource, hdigit, hc⟩ := h.head?
  have htext : (columnRef source name).toList = c :: (cs ++ '.' :: name.toList) := by
    rw [toList_columnRef, hsource, List.cons_append]
  rintro ((hnumeral | ⟨ds, hds, -⟩) | ⟨t, ht⟩ | hkeyword)
  · rw [columnRef, String.append_assoc] at hnumeral
    exact not_unsignedNumeral_append (by rw [hsource]; rfl) hdigit _ hnumeral
  · obtain ⟨rfl, -⟩ := List.cons.inj (htext.symm.trans hds)
    exact absurd hc (by decide)
  · have hquote := head?_quote t
    rw [← ht, htext] at hquote
    exact (not_special_of_isWordChar hc).1 (Option.some.inj hquote)
  · have hletters : ∀ w ∈ ["NULL", "TRUE", "FALSE"], '.' ∉ w.toList := by decide
    exact hletters _ hkeyword (by rw [htext]; simp)

/-- Behind a minus sign only a numeral without one is a constant. -/
theorem unsignedNumeral_of_minus (h : ReadsAsConstant ("-" ++ s)) : UnsignedNumeral s.toList := by
  have htext : ("-" ++ s).toList = '-' :: s.toList := by
    rw [String.toList_append]
    rfl
  rcases h with (hnumeral | ⟨ds, hds, hnumeral⟩) | ⟨t, ht⟩ | hkeyword
  · exact absurd hnumeral (not_unsignedNumeral_append (c := '-') rfl (by decide) s)
  · obtain ⟨-, rfl⟩ := List.cons.inj (htext.symm.trans hds)
    exact hnumeral
  · have hquote := head?_quote t
    rw [← ht, htext] at hquote
    cases hquote
  · have hkeywords : ∀ w ∈ ["NULL", "TRUE", "FALSE"], w.toList.head? ≠ some '-' := by decide
    exact absurd (by rw [htext]; rfl) (hkeywords _ hkeyword)

theorem Literal.isConstant_of_readsAsConstant (h : ReadsAsConstant l.render) :
    l.isConstant = true := by
  cases l with
  | number x =>
    cases x with
    | nan => exact absurd h (not_readsAsConstant_of_getLast? (c := 'n') rfl (by decide) (by decide))
    | infinite negative =>
      refine absurd h (not_readsAsConstant_of_getLast? (c := 'f') ?_ (by decide) (by decide))
      cases negative <;> rfl
    | finite negative m e => rfl
  | array ls =>
    rw [Literal.render] at h
    exact absurd h (not_readsAsConstant_append (c := ']') rfl (by decide) (by decide))
  | textArray es =>
    cases es with
    | nil => exact absurd h (not_readsAsConstant_of_getLast? (c := ']') rfl (by decide) (by decide))
    | cons e es =>
      rw [Literal.render] at h
      exact absurd h (not_readsAsConstant_append (c := ']') rfl (by decide) (by decide))
  | _ => rfl

theorem Literal.isUnsigned_of_unsignedNumeral (h : UnsignedNumeral l.render.toList) :
    l.isUnsigned = true := by
  cases l with
  | null => exact absurd h.first (by decide)
  | boolean b => cases b <;> exact absurd h.first (by decide)
  | integer n =>
    cases n with
    | ofNat n => exact decide_eq_true (Int.natCast_nonneg n)
    | negSucc n => exact absurd h (not_unsignedNumeral_append (c := '-') rfl (by decide) _)
  | number x =>
    cases x with
    | nan => exact absurd h.first (by decide)
    | infinite negative => cases negative <;> exact absurd h.first (by decide)
    | finite negative m e =>
      cases negative with
      | false => rfl
      | true =>
        obtain ⟨s, hs, -⟩ := exists_render_finite true m e
        rw [Literal.render, hs] at h
        exact absurd h (not_unsignedNumeral_append (c := '-') rfl (by decide) _)
  | text s =>
    rw [Literal.render, quote, String.append_assoc] at h
    exact absurd h (not_unsignedNumeral_append (c := '\'') rfl (by decide) _)
  | array ls =>
    rw [Literal.render, String.append_assoc] at h
    exact absurd h (not_unsignedNumeral_append (c := 'A') rfl (by decide) _)
  | textArray es =>
    cases es with
    | nil => exact absurd h.first (by decide)
    | cons e es =>
      rw [Literal.render, String.append_assoc] at h
      exact absurd h (not_unsignedNumeral_append (c := 'A') rfl (by decide) _)

theorem Expr.isConstant_of_readsAsConstant : ∀ {e : Expr},
    e.All (fun x _ => NameLike x) Wordy → ReadsAsConstant e.render → e.isConstant = true
  | .column source name, h => fun hc => absurd hc (not_readsAsConstant_columnRef h)
  | .star, _ => fun hc =>
    absurd hc (not_readsAsConstant_of_getLast? (c := '*') rfl (by decide) (by decide))
  | .literal l, _ => fun hc => Literal.isConstant_of_readsAsConstant hc
  | .row es, _ => fun hc => by
    rw [Expr.render] at hc
    exact absurd hc (not_readsAsConstant_append (c := ')') rfl (by decide) (by decide))
  | .array es, _ => fun hc => by
    rw [Expr.render] at hc
    exact absurd hc (not_readsAsConstant_append (c := ']') rfl (by decide) (by decide))
  | .not e, _ => fun hc => by
    rw [Expr.render] at hc
    exact absurd hc (not_readsAsConstant_append (c := ')') rfl (by decide) (by decide))
  | .negate e, h => fun hc => by
    rw [Expr.render] at hc
    have hnumeral := unsignedNumeral_of_minus hc
    have he := isConstant_of_readsAsConstant (e := e) h (.inl (.inl hnumeral))
    cases e with
    | literal l => exact Literal.isUnsigned_of_unsignedNumeral hnumeral
    | negate e =>
      rw [Expr.render] at hnumeral
      exact absurd hnumeral (not_unsignedNumeral_append (c := '-') rfl (by decide) _)
    | _ => cases he
  | .binary op l r, _ => fun hc => by
    rw [Expr.render] at hc
    exact absurd hc (not_readsAsConstant_append (c := ')') rfl (by decide) (by decide))
  | .nullTest _ _, h => fun hc => absurd hc (not_readsAsConstant_of_left? rfl h)
  | .compare _ _ _, h => fun hc => absurd hc (not_readsAsConstant_of_left? rfl h.1)
  | .inList _ _, h => fun hc => absurd hc (not_readsAsConstant_of_left? rfl h.1)
  | .equalsAny _ _, h => fun hc => absurd hc (not_readsAsConstant_of_left? rfl h.1)
  | .like _ _ _, h => fun hc => absurd hc (not_readsAsConstant_of_left? rfl h.1)
  | .call f distinct es, _ => fun hc => by
    rw [Expr.render] at hc
    exact absurd hc (not_readsAsConstant_append (c := ')') rfl (by decide) (by decide))
  | .ifElse c a b, _ => fun hc => by
    rw [Expr.render] at hc
    exact absurd hc (not_readsAsConstant_append (c := 'D') rfl (by decide) (by decide))

/-- **The tree tells whether the text is a constant.** -/
theorem Expr.readsAsConstant_render (h : e.All (fun x _ => NameLike x) Wordy) :
    ReadsAsConstant e.render ↔ e.isConstant = true :=
  ⟨isConstant_of_readsAsConstant h, readsAsConstant_of_isConstant⟩

end Relational

end GraphSql
