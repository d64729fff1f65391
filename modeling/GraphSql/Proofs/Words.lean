import Mathlib.Data.List.Basic
import GraphSql.Function
import GraphSql.Number.Shortest
import GraphSql.Query.Token
import GraphSql.Relational.Name
import GraphSql.Schema

/-!
# Words

A name of a statement is made of the characters of names in a query and of the combining dot that
the small form of `İ` keeps.  Such a text is called wordy (`Wordy`).  The two facts that later files
use are that the characters of a wordy text are neither blank nor quote, semicolon or dollar sign
(`not_special_of_isWordChar`), and that everything names are made by keeps them wordy: joining,
numbering, changing letter case.
-/

namespace GraphSql

variable {c : Char} {s : String}

/-- A property of the characters of a text is decided by going through the text, and not through all
the characters that there are. -/
instance decidableForallMemChar {p : Char → Prop} [DecidablePred p] (cs : List Char) :
    Decidable (∀ c ∈ cs, p c) :=
  List.decidableBAll p cs

/-- The characters of the names in a statement. -/
def isWordChar (c : Char) : Bool := Query.isNameChar c || c = '\u0307'

/-- A text that is made of the characters of names. -/
def Wordy (s : String) : Prop := ∀ c ∈ s.toList, isWordChar c = true

instance (s : String) : Decidable (Wordy s) :=
  inferInstanceAs (Decidable (∀ c ∈ s.toList, isWordChar c = true))

/-- ASCII letters, digits and underscores. -/
def isIdentifierChar (c : Char) : Bool := c.isAlphanum || c = '_'

/-- A text of ASCII letters, digits and underscores. -/
def Identifier (s : String) : Prop := ∀ c ∈ s.toList, isIdentifierChar c = true

instance (s : String) : Decidable (Identifier s) :=
  inferInstanceAs (Decidable (∀ c ∈ s.toList, isIdentifierChar c = true))

/-- Both parts of a column reference are words. -/
def WordyRef (x c : String) : Prop := Wordy x ∧ Wordy c

/-! ## Characters of words -/

/-- The characters of words beyond ASCII. -/
def largeWordChars : List Char := ['ſ', '\u212a', 'İ', 'ı', '\u0307']

theorem toNat_of_isLower (h : c.isLower = true) : c.toNat ≤ 122 :=
  of_decide_eq_true (Bool.and_eq_true_iff.mp h).2

theorem toNat_of_isUpper (h : c.isUpper = true) : c.toNat ≤ 90 :=
  (of_decide_eq_true h : c.val ≥ 'A'.val ∧ c.val ≤ 'Z'.val).2

theorem toLower_of_large (h : 128 ≤ c.toNat) : c.toLower = c := by
  have hc : ¬ (c.val ≥ 'A'.val ∧ c.val ≤ 'Z'.val) := by
    rintro ⟨-, h2⟩
    have h3 : c.toNat ≤ 90 := h2
    omega
  exact dif_neg hc

theorem large_of_isWordChar (hc : isWordChar c = true) (h : 128 ≤ c.toNat) :
    c ∈ largeWordChars := by
  by_contra hn
  simp only [largeWordChars, List.mem_cons, List.not_mem_nil, or_false, not_or] at hn
  obtain ⟨h1, h2, h3, h4, h5⟩ := hn
  have hfold : Query.foldChar c = c := by
    simp [Query.foldChar, h1, h2, h3, h4, toLower_of_large h]
  have hlow : c.isLower = false := by
    rw [Bool.eq_false_iff]
    intro hl
    have := toNat_of_isLower hl
    omega
  have hdig : c.isDigit = false := by
    rw [Bool.eq_false_iff, Ne, Char.isDigit_iff_toNat]
    rintro ⟨-, hd⟩
    have : '9'.toNat = 57 := rfl
    omega
  have hund : c ≠ '_' := by
    rintro rfl
    exact absurd h (by decide)
  simp [isWordChar, Query.isNameChar, Query.isNameStart, hfold, hlow, hdig, hund, h5] at hc

/-- A property of characters holds of the ASCII ones when it was computed for each of them. -/
theorem forall_ascii {p : Char → Bool} (h : ∀ n < 128, p (Char.ofNat n) = true) (hc : c.toNat < 128) :
    p c = true := by
  have := h c.toNat hc
  rwa [Char.ofNat_toNat] at this

theorem ascii_of_isIdentifierChar (h : isIdentifierChar c = true) : c.toNat < 128 := by
  rcases Bool.or_eq_true_iff.mp h with h | h
  · rcases Bool.or_eq_true_iff.mp h with h | h
    · rcases Bool.or_eq_true_iff.mp h with h | h
      · have := toNat_of_isUpper h
        omega
      · have := toNat_of_isLower h
        omega
    · have := (Char.isDigit_iff_toNat.mp h).2
      have : '9'.toNat = 57 := rfl
      omega
  · obtain rfl := of_decide_eq_true h
    decide

/-- A property of identifier characters holds of all of them when it was computed for each. -/
theorem forall_isIdentifierChar {p : Char → Bool}
    (h : ∀ n < 128, (!isIdentifierChar (Char.ofNat n) || p (Char.ofNat n)) = true)
    (hc : isIdentifierChar c = true) : p c = true := by
  have := forall_ascii (p := fun c => !isIdentifierChar c || p c) h (ascii_of_isIdentifierChar hc)
  simpa [hc] using this

theorem isWordChar_of_isIdentifierChar (h : isIdentifierChar c = true) : isWordChar c = true :=
  forall_isIdentifierChar (by decide +kernel) h

theorem Identifier.wordy (h : Identifier s) : Wordy s :=
  fun c hc => isWordChar_of_isIdentifierChar (h c hc)

/-- A property of word characters holds of all of them when it was computed for the ASCII ones and
for the few others. -/
theorem forall_isWordChar {p : Char → Bool}
    (hs : ∀ n < 128, (!isWordChar (Char.ofNat n) || p (Char.ofNat n)) = true)
    (hl : ∀ c ∈ largeWordChars, p c = true) (hc : isWordChar c = true) : p c = true := by
  by_cases h : c.toNat < 128
  · have := forall_ascii (p := fun c => !isWordChar c || p c) hs h
    simpa [hc] using this
  · exact hl c (large_of_isWordChar hc (by omega))

/-- What is computed for the characters of words: none of them means something to a reader of
statements, and they stay characters of words when their letter case is changed. -/
theorem facts_of_isWordChar (hc : isWordChar c = true) :
    (c ≠ '\'' ∧ c ≠ ';' ∧ c ≠ '$' ∧ Text.isBlank c = false) ∧ c ≠ 'Σ' ∧
      (∀ d ∈ Text.lowerChar c, isWordChar d = true) ∧ isWordChar (Text.upperChar c) = true := by
  have h := forall_isWordChar
    (p := fun c => c ≠ '\'' && c ≠ ';' && c ≠ '$' && !Text.isBlank c && c ≠ 'Σ' &&
      (Text.lowerChar c).all isWordChar && isWordChar (Text.upperChar c))
    (by decide +kernel) (by decide +kernel) hc
  simpa [and_assoc] using h

/-- A word has no blank in it and nothing that ends a statement or opens a quoted text. -/
theorem not_special_of_isWordChar (hc : isWordChar c = true) :
    c ≠ '\'' ∧ c ≠ ';' ∧ c ≠ '$' ∧ Text.isBlank c = false :=
  (facts_of_isWordChar hc).1

theorem isWordChar_of_isNameChar (h : Query.isNameChar c = true) : isWordChar c = true := by
  simp [isWordChar, h]

theorem isWordChar_of_isDigit (h : c.isDigit = true) : isWordChar c = true :=
  isWordChar_of_isNameChar (by simp [Query.isNameChar, h])

/-! ## Wordy texts -/

theorem wordy_append {t : String} (hs : Wordy s) (ht : Wordy t) : Wordy (s ++ t) := by
  intro c hc
  rw [String.toList_append, List.mem_append] at hc
  exact hc.elim (hs c) (ht c)

theorem wordy_ofList {cs : List Char} (h : ∀ c ∈ cs, isWordChar c = true) :
    Wordy (String.ofList cs) := by
  intro c hc
  rw [String.toList_ofList] at hc
  exact h c hc

theorem wordy_natural (n : Nat) : Wordy (Numeral.natural n) :=
  wordy_ofList fun _ hc =>
    isWordChar_of_isDigit (Nat.isDigit_of_mem_toDigits (by decide) (by decide) hc)

theorem toDigits_injective {j k : Nat} (h : Nat.toDigits 10 j = Nat.toDigits 10 k) : j = k := by
  have := congrArg (fun ds => Nat.ofDigitChars 10 ds 0) h
  simpa [Nat.ofDigitChars_ten_toDigits] using this

/-! ## Letter case -/

theorem isWordChar_of_mem_lowerAfter {cs : List Char} :
    ∀ {before : List Char}, (∀ c ∈ cs, isWordChar c = true) →
      ∀ d ∈ Text.lowerAfter before cs, isWordChar d = true := by
  induction cs with
  | nil => intro before _ d hd; simp [Text.lowerAfter] at hd
  | cons c cs ih =>
    intro before h d hd
    obtain ⟨-, hsigma, hlower, -⟩ := facts_of_isWordChar (h c List.mem_cons_self)
    rw [Text.lowerAfter, if_neg hsigma, List.mem_append] at hd
    rcases hd with hd | hd
    · exact hlower d hd
    · exact ih (fun e he => h e (List.mem_cons_of_mem c he)) d hd

theorem wordy_lower (h : Wordy s) : Wordy (Text.lower s) :=
  wordy_ofList (isWordChar_of_mem_lowerAfter h)

theorem wordy_upper (h : Wordy s) : Wordy (Text.upper s) := by
  refine wordy_ofList fun d hd => ?_
  obtain ⟨c, hc, rfl⟩ := List.mem_map.mp hd
  exact (facts_of_isWordChar (h c hc)).2.2.2

theorem wordy_functionName {f : String} (h : Wordy f) : Wordy (functionName f) := by
  unfold functionName
  split
  · rename_i a _
    cases a <;> decide
  · cases hl : scalarNames.lookup (Text.lower f) with
    | none => exact wordy_upper h
    | some t =>
      obtain ⟨before, after, he, -⟩ := List.lookup_eq_some_iff.mp hl
      have ht : t ∈ scalarNames.map Prod.snd := by simp [he]
      have hall : ∀ t ∈ scalarNames.map Prod.snd, Wordy t := by decide
      exact hall t ht

/-! ## Names that are made -/

theorem wordy_nameCandidate {name : String} (h : Wordy name) :
    ∀ k, Wordy (Relational.nameCandidate name k)
  | 0 => h
  | k + 1 => wordy_append (wordy_append h (by decide)) (wordy_natural (k + 2))

theorem wordy_freshName {name : String} (h : Wordy name) (taken : List String) :
    Wordy (Relational.freshName name taken) :=
  wordy_nameCandidate h _

theorem wordy_tempName {start suffix : String} (h : Wordy start) (h' : Wordy suffix) :
    Wordy (Relational.tempName start suffix) :=
  wordy_append (wordy_append h (by decide)) h'

end GraphSql
