import GraphSql.Proofs.Relational.Eval
import GraphSql.Proofs.Relational.Like

/-!
# Lists of constants

The text of a test whether a value is in a list of constants is read back: the list is cut at the
commas outside of quotes (`parts`), and each part is `NULL`, an integer or a quoted text
(`constant?`).  A list has at least one element, so there is nothing to read between brackets that
stand next to each other.

What is written for a list of constants is read as their values (`members?_join`).  The commas inside
of a text do no harm, since a quote inside of it is written twice and so the text is left only at its
end (`uncut_render`).
-/

namespace GraphSql.Relational

variable {p : List Char} {d : Datum} {l : Literal}

/-! ## Constants -/

/-- The number that digits stand for. -/
def natural? (cs : List Char) : Option Nat :=
  if cs ≠ [] ∧ cs.all Char.isDigit = true then some (Nat.ofDigitChars 10 cs 0) else none

/-- The value of a constant. -/
def constant? (sql : String) : Option Datum :=
  match sql.toList with
  | '\'' :: _ => (textValue? sql).map .text
  | '-' :: cs => (natural? cs).map fun n : Nat => .integer (-n)
  | cs => if cs = "NULL".toList then some .null else (natural? cs).map fun n : Nat => .integer n

example : constant? "'it''s'" = some (.text "it's") ∧ constant? "-12" = some (.integer (-12)) ∧
    constant? "NULL" = some .null ∧ constant? "x" = none := by decide

/-- The value of a literal that is `NULL`, an integer or a text. -/
def Literal.datum? : Literal → Option Datum
  | .null => some .null
  | .integer n => some (.integer n)
  | .text s => some (.text s)
  | _ => none

theorem natural?_toDigits (n : Nat) : natural? (Nat.toDigits 10 n) = some n := by
  have hdigits : (Nat.toDigits 10 n).all Char.isDigit = true := List.all_eq_true.mpr fun c hc =>
    Nat.isDigit_of_mem_toDigits (by decide) (by decide) hc
  rw [natural?, if_pos ⟨Nat.toDigits_ne_nil, hdigits⟩, Nat.ofDigitChars_ten_toDigits]

theorem constant?_of_ne {sql : String} {c : Char} {cs : List Char} (h : sql.toList = c :: cs)
    (hc : c ≠ '\'' ∧ c ≠ '-' ∧ c ≠ 'N') :
    constant? sql = (natural? (c :: cs)).map fun n : Nat => .integer n := by
  obtain ⟨hquote, hminus, hletter⟩ := hc
  rw [constant?, h]
  split
  · rename_i heq
    exact absurd (List.cons.inj heq).1 hquote
  · rename_i heq
    exact absurd (List.cons.inj heq).1 hminus
  · exact if_neg fun heq => hletter (List.cons.inj heq).1

theorem constant?_natural (n : Nat) : constant? (Numeral.natural n) = some (.integer n) := by
  obtain ⟨c, cs, hcs⟩ := List.exists_cons_of_ne_nil (Nat.toDigits_ne_nil (b := 10) (n := n))
  have hc : c.isDigit = true :=
    Nat.isDigit_of_mem_toDigits (by decide) (by decide) (hcs ▸ List.mem_cons_self)
  have hne : c ≠ '\'' ∧ c ≠ '-' ∧ c ≠ 'N' := by
    refine ⟨?_, ?_, ?_⟩ <;> rintro rfl <;> exact absurd hc (by decide)
  rw [constant?_of_ne (by rw [Numeral.natural, String.toList_ofList, hcs]) hne, ← hcs,
    natural?_toDigits]
  rfl

theorem toList_minus (n : Nat) : ("-" ++ Numeral.natural n).toList = '-' :: Nat.toDigits 10 n := by
  simp [Numeral.natural, String.toList_append]

theorem constant?_minus (n : Nat) : constant? ("-" ++ Numeral.natural n) = some (.integer (-n)) := by
  rw [constant?, toList_minus]
  show (natural? (Nat.toDigits 10 n)).map _ = _
  rw [natural?_toDigits]
  rfl

theorem toList_quote (s : String) :
    (quote s).toList = '\'' :: (s.toList.flatMap quoteChar ++ ['\'']) := by
  simp [quote, String.toList_append]

theorem constant?_quote (s : String) : constant? (quote s) = some (.text s) := by
  have hvalue : textValue? (quote s) = some s := by
    rw [textValue?_of_toList (toList_quote s), joinedFrom_quoted]
    simp [joinedFrom]
  rw [constant?, toList_quote]
  show (textValue? (quote s)).map _ = _
  rw [hvalue]
  rfl

/-- **The text of a constant is read as its value.** -/
theorem constant?_render (h : l.datum? = some d) : constant? l.render = some d := by
  cases l with
  | null =>
    cases h
    decide
  | integer n =>
    cases h
    cases n with
    | ofNat n => exact constant?_natural n
    | negSucc n => exact constant?_minus (n + 1)
  | text s =>
    cases h
    exact constant?_quote s
  | _ => cases h

/-! ## Parts between commas -/

/-- The parts between the commas that stand outside of quotes. -/
def parts : (inside : Bool) → List Char → List (List Char)
  | _, [] => [[]]
  | inside, c :: cs =>
    if c = ',' ∧ inside = false then [] :: parts false cs
    else (parts (inside != (c == '\'')) cs).modifyHead (c :: ·)

/-- A text that is never cut, and behind which reading goes on outside of quotes. -/
def Uncut (p : List Char) : Prop :=
  ∀ rest, parts false (p ++ rest) = (parts false rest).modifyHead (p ++ ·)

theorem modifyHead_append (p q : List Char) (ps : List (List Char)) :
    (ps.modifyHead (q ++ ·)).modifyHead (p ++ ·) = ps.modifyHead (p ++ q ++ ·) := by
  rw [List.modifyHead_modifyHead]
  simp only [Function.comp_def, List.append_assoc]

theorem uncut_of_plain (h : ∀ c ∈ p, c ≠ ',' ∧ c ≠ '\'') : Uncut p := by
  intro rest
  induction p with
  | nil => cases hparts : parts false rest <;> simp [hparts]
  | cons c cs ih =>
    obtain ⟨hcomma, hquote⟩ := h c List.mem_cons_self
    have hstay : (false != (c == '\'')) = false := by simpa using hquote
    rw [List.cons_append, parts, if_neg fun hc => hcomma hc.1, hstay,
      ih fun d hd => h d (List.mem_cons_of_mem c hd)]
    exact modifyHead_append [c] cs _

theorem parts_quoted (cs rest : List Char) :
    parts true (cs.flatMap quoteChar ++ '\'' :: rest) =
      (parts false rest).modifyHead (cs.flatMap quoteChar ++ ['\''] ++ ·) := by
  have hinside : ∀ (c : Char) (cs : List Char), parts true (c :: cs) =
      (parts (true != (c == '\'')) cs).modifyHead (c :: ·) :=
    fun c cs => if_neg fun h => absurd h.2 (by decide)
  induction cs with
  | nil => exact hinside _ _
  | cons c cs ih =>
    rw [List.flatMap_cons, List.append_assoc]
    by_cases hc : c = '\''
    · -- a quote that is written twice leads out of the text and back into it
      rw [quoteChar, if_pos hc]
      show ((parts true (cs.flatMap quoteChar ++ '\'' :: rest)).modifyHead ('\'' :: ·)).modifyHead
        ('\'' :: ·) = _
      rw [ih, List.modifyHead_modifyHead, List.modifyHead_modifyHead]
      rfl
    · have hstay : (true != (c == '\'')) = true := by simpa using hc
      rw [quoteChar, if_neg hc, List.cons_append, List.nil_append, hinside, hstay, ih]
      exact modifyHead_append [c] _ _

theorem uncut_quote (s : String) : Uncut (quote s).toList := by
  intro rest
  rw [toList_quote, List.cons_append, List.append_assoc]
  show (parts true (s.toList.flatMap quoteChar ++ '\'' :: rest)).modifyHead _ = _
  rw [parts_quoted]
  exact modifyHead_append ['\''] _ _

/-- The text of a constant is not cut. -/
theorem uncut_render (h : l.datum? = some d) : Uncut l.render.toList := by
  have hnatural : ∀ n, ∀ c ∈ (Numeral.natural n).toList, c ≠ ',' ∧ c ≠ '\'' := by
    intro n c hc
    rw [Numeral.natural, String.toList_ofList] at hc
    have hdigit := Nat.isDigit_of_mem_toDigits (by decide) (by decide) hc
    constructor <;> rintro rfl <;> exact absurd hdigit (by decide)
  cases l with
  | null => exact uncut_of_plain (by decide)
  | integer n =>
    refine uncut_of_plain fun c hc => ?_
    cases n with
    | ofNat n => exact hnatural n c hc
    | negSucc n =>
      rw [Literal.render, Numeral.integer, String.toList_append] at hc
      rcases List.mem_append.mp hc with hc | hc
      · rw [List.mem_singleton.mp hc]
        decide
      · exact hnatural (n + 1) c hc
  | text s => exact uncut_quote s
  | _ => cases h

theorem Uncut.parts_eq (h : Uncut p) : parts false p = [p] := by
  have hp := h []
  rw [List.append_nil] at hp
  rw [hp]
  simp [parts]

theorem Uncut.parts_comma (h : Uncut p) (rest : List Char) :
    parts false (p ++ ',' :: rest) = p :: parts false rest := by
  rw [h, parts, if_pos ⟨rfl, rfl⟩, List.modifyHead_cons, List.append_nil]

/-! ## Elements -/

/-- The value of a part, blanks in front of it apart. -/
def part? (p : List Char) : Option Datum := constant? (String.ofList (p.dropWhile (· == ' ')))

/-- The elements of a text such as ` IN (1, 2)`. -/
def members? (sql : String) : Option (List Datum) :=
  match sql.toList with
  | ' ' :: 'I' :: 'N' :: ' ' :: '(' :: cs =>
    if cs.getLast? = some ')' then (parts false cs.dropLast).mapM part? else none
  | _ => none

example : members? " IN ('a,b', -1, NULL)" = some [.text "a,b", .integer (-1), .null] ∧
    members? " IN (1, )" = none ∧ members? " IN ()" = none := by decide

theorem part?_blank (p : List Char) : part? (' ' :: p) = part? p := rfl

theorem mapM_parts_blank (cs : List Char) :
    (parts false (' ' :: cs)).mapM part? = (parts false cs).mapM part? := by
  have hblank : Uncut [' '] := uncut_of_plain (by decide)
  rw [← List.singleton_append, hblank]
  cases parts false cs with
  | nil => rfl
  | cons p ps =>
    rw [List.modifyHead_cons, List.mapM_cons, List.mapM_cons, List.singleton_append, part?_blank]

/-- A constant does not begin with a blank. -/
theorem part?_of_constant? {sql : String} (h : constant? sql = some d) :
    part? sql.toList = some d := by
  have hdrop : sql.toList.dropWhile (· == ' ') = sql.toList := by
    cases hcs : sql.toList with
    | nil => rfl
    | cons c cs =>
      refine List.dropWhile_cons_of_neg fun hblank => ?_
      obtain rfl := beq_iff_eq.mp hblank
      rw [constant?_of_ne hcs (by decide), natural?, if_neg fun hdigits => by simp at hdigits] at h
      cases h
  rw [part?, hdrop, String.ofList_toList, h]

/-- Constants with commas between them are cut into these constants. -/
theorem mapM_part?_parts (hl : l.datum? = some d) {ls : List Literal} {ds : List Datum}
    (h : List.Forall₂ (fun l d => l.datum? = some d) ls ds) :
    (parts false (Text.join ", " (l.render :: ls.map Literal.render)).toList).mapM part? =
      some (d :: ds) := by
  have hfirst : part? l.render.toList = some d := part?_of_constant? (constant?_render hl)
  induction h generalizing l d with
  | nil =>
    show (parts false l.render.toList).mapM part? = _
    rw [(uncut_render hl).parts_eq]
    simp [hfirst]
  | cons hl' h ih =>
    rename_i l' d' ls ds
    have hrest := ih hl' (part?_of_constant? (constant?_render hl'))
    have htext : (Text.join ", " (l.render :: (l' :: ls).map Literal.render)).toList =
        l.render.toList ++ ',' :: ' ' ::
          (Text.join ", " (l'.render :: ls.map Literal.render)).toList := by
      rw [List.map_cons, Text.join, String.toList_append, String.toList_append, List.append_assoc]
      rfl
    rw [htext, (uncut_render hl).parts_comma, List.mapM_cons, hfirst, mapM_parts_blank, hrest]
    rfl

/-- **A list of constants is read as the list of their values.** -/
theorem members?_join {ls : List Literal} {ds : List Datum}
    (h : List.Forall₂ (fun l d => l.datum? = some d) ls ds) :
    members? (" IN (" ++ Text.join ", " (ls.map Literal.render) ++ ")") =
      if ls.isEmpty then none else some ds := by
  have htext : ∀ inner : String, members? (" IN (" ++ inner ++ ")") =
      (parts false inner.toList).mapM part? := by
    intro inner
    have hchars : (" IN (" ++ inner ++ ")").toList =
        ' ' :: 'I' :: 'N' :: ' ' :: '(' :: (inner.toList ++ [')']) := by
      rw [String.toList_append, String.toList_append, List.append_assoc]
      rfl
    rw [members?, hchars]
    show (if (inner.toList ++ [')']).getLast? = some ')' then
      (parts false (inner.toList ++ [')']).dropLast).mapM part? else none) = _
    rw [if_pos List.getLast?_concat, List.dropLast_concat]
  rw [htext]
  cases h with
  | nil => decide
  | cons hl h => exact mapM_part?_parts hl h

end GraphSql.Relational
