import Mathlib.Data.List.Forall2
import GraphSql.Proofs.Numeral
import GraphSql.Proofs.Relational.Members

/-!
# Values as columns want them

A value that is written for a column is read back from its text.  The reader (`Constant.read?`) knows
`NULL`, decimal numerals, quoted texts and arrays of texts; a quoted text goes on until a quote that is
not written twice, and so what follows it is left as it is (`Constant.readText_quote`).

What should be read is said by `Value.Coerces`, which gives for each type of column the values that have a
constant of that type, and this constant.  All other values are written as `NULL`
(`Literal.readsBack_ofValueAs`).
-/

namespace GraphSql

/-! ## What a column wants -/

namespace Relational

/-- A constant that can be read from its text. -/
inductive Constant where
  | null
  | integer (n : Int)
  | text (s : String)
  /-- An array of texts; absent elements are null. -/
  | texts (elements : List (Option String))
  deriving DecidableEq

/-- The literal that is written for a constant. -/
def Constant.literal : Constant → Literal
  | .null => .null
  | .integer n => .integer n
  | .text s => .text s
  | .texts es => .textArray es

end Relational

namespace Value

open Relational (Constant)

variable {v : Value} {c : Constant}

/-- Null, truth values, integers that are not too long, texts, and lists of them. -/
inductive Plain : Value → Prop
  | null : Plain .null
  | boolean (b : Bool) : Plain (.boolean b)
  | integer {n : Int} : (Nat.toDigits 10 n.natAbs).length ≤ Numeral.digitLimit → Plain (.integer n)
  | text (s : String) : Plain (.text s)
  | list {vs : List Value} : (∀ v ∈ vs, Plain v) → Plain (.list vs)

/-- The values that have a text, and this text. -/
inductive HasText : Value → String → Prop
  | boolean (b : Bool) : HasText (.boolean b) (if b then "true" else "false")
  | integer (n : Int) : HasText (.integer n) (Numeral.integer n)
  | text (s : String) : HasText (.text s) s

/-- The values that can stand in an array of texts, and the element that they are. -/
inductive HasElement : Value → Option String → Prop
  | null : HasElement .null none
  | text {v : Value} {s : String} : v.HasText s → HasElement v (some s)

/-- The values that have a constant for a column of the given type, and this constant. -/
inductive Coerces : ColumnType → Value → Constant → Prop
  | integer {type : ColumnType} (h : type.isNumeric = true) (n : Int) :
      Coerces type (.integer n) (.integer n)
  | numeral {type : ColumnType} (h : type.isNumeric = true) {s : String} {n : Int}
      (hs : Numeral.Spells s n) : Coerces type (.text s) (.integer n)
  | text {v : Value} {s : String} (h : v.HasText s) : Coerces .text v (.text s)
  | texts {vs : List Value} {es : List (Option String)} (h : List.Forall₂ HasElement vs es) :
      Coerces .textArray (.list vs) (.texts es)

theorem toText?_eq_some_iff (hv : v.Plain) {s : String} : v.toText? = some s ↔ v.HasText s := by
  constructor
  · intro h
    cases hv with
    | null => cases h
    | list _ => cases h
    | boolean b =>
      cases h
      exact .boolean b
    | integer _ =>
      cases h
      exact .integer _
    | text t =>
      cases h
      exact .text s
  · intro h
    cases h <;> rfl

theorem hasElement_iff (hv : v ≠ .null) {e : Option String} :
    v.HasElement e ↔ ∃ s, v.HasText s ∧ some s = e := by
  constructor
  · intro h
    cases h with
    | null => exact absurd rfl hv
    | text hs => exact ⟨_, hs, rfl⟩
  · rintro ⟨s, hs, rfl⟩
    exact .text hs

open Relational.Literal (element? ofValueAs)

theorem element?_eq_some_iff (hv : v.Plain) {e : Option String} :
    element? v = some e ↔ v.HasElement e := by
  by_cases hnull : v = .null
  · subst hnull
    constructor
    · intro h
      cases h
      exact .null
    · intro h
      cases h with
      | null => rfl
      | text hs => cases hs
  · have helement : element? v = v.toText?.map some := by
      cases v with
      | null => exact absurd rfl hnull
      | _ => rfl
    simp only [helement, Option.map_eq_some_iff, toText?_eq_some_iff hv, hasElement_iff hnull]

theorem mapM_element?_eq_some_iff {vs : List Value} (hvs : ∀ v ∈ vs, v.Plain)
    {es : List (Option String)} : vs.mapM element? = some es ↔ List.Forall₂ HasElement vs es := by
  induction vs generalizing es with
  | nil => simp [eq_comm]
  | cons v vs ih =>
    have hrest : ∀ es, vs.mapM element? = some es ↔ List.Forall₂ HasElement vs es :=
      fun es => ih fun w hw => hvs w (List.mem_cons_of_mem v hw)
    simp only [List.mapM_cons, Option.bind_eq_bind, Option.bind_eq_some_iff, Option.pure_def,
      Option.some.injEq, element?_eq_some_iff (hvs v List.mem_cons_self), hrest,
      List.forall₂_cons_left_iff]
    constructor
    · rintro ⟨e, he, es, hes, rfl⟩
      exact ⟨e, es, he, hes, rfl⟩
    · rintro ⟨e, es, he, hes, rfl⟩
      exact ⟨e, he, es, hes, rfl⟩

/-- The constant of a value for a column of the given type. -/
def constant? (type : ColumnType) (v : Value) : Option Constant :=
  match type with
  | .int | .bigint => v.toInteger?.map .integer
  | .text => v.toText?.map .text
  | .textArray => (v.elements?.bind (·.mapM element?)).map .texts

theorem ofValueAs_eq (type : ColumnType) (v : Value) :
    ofValueAs type v = ((constant? type v).map Constant.literal).getD .null := by
  cases v with
  | null => cases type <;> rfl
  | _ =>
    cases type <;> rw [constant?, Option.map_map] <;> rfl

theorem coerces_numeric_iff {type : ColumnType} (htype : type.isNumeric = true) (hv : v.Plain) :
    v.toInteger?.map .integer = some c ↔ v.Coerces type c := by
  rw [Option.map_eq_some_iff]
  constructor
  · rintro ⟨n, hn, rfl⟩
    cases hv with
    | integer _ =>
      cases hn
      exact .integer htype n
    | text s => exact .numeral htype (Numeral.read?_eq_some_iff.mp hn)
    | _ => cases hn
  · intro h
    cases h with
    | integer _ n => exact ⟨n, rfl, rfl⟩
    | numeral _ hs => exact ⟨_, Numeral.read?_eq_some_iff.mpr hs, rfl⟩
    | _ => cases htype

theorem coerces_text_iff (hv : v.Plain) : v.toText?.map .text = some c ↔ v.Coerces .text c := by
  simp only [Option.map_eq_some_iff, toText?_eq_some_iff hv]
  constructor
  · rintro ⟨s, hs, rfl⟩
    exact .text hs
  · intro h
    cases h with
    | text hs => exact ⟨_, hs, rfl⟩
    | integer htype _ => cases htype
    | numeral htype _ => cases htype

theorem coerces_texts_iff (hv : v.Plain) :
    (v.elements?.bind (·.mapM element?)).map .texts = some c ↔ v.Coerces .textArray c := by
  constructor
  · intro h
    obtain ⟨es, hes, rfl⟩ := Option.map_eq_some_iff.mp h
    obtain ⟨vs, hvs, hes⟩ := Option.bind_eq_some_iff.mp hes
    cases hv with
    | list hplain =>
      cases hvs
      exact .texts ((mapM_element?_eq_some_iff hplain).mp hes)
    | _ => cases hvs
  · intro h
    cases h with
    | texts hes =>
      cases hv with
      | list hplain =>
        exact congrArg (Option.map Constant.texts) ((mapM_element?_eq_some_iff hplain).mpr hes)
    | integer htype _ => cases htype
    | numeral htype _ => cases htype

/-- **A value has a constant for a column just when it is coerced to it.** -/
theorem constant?_eq_some_iff {type : ColumnType} (hv : v.Plain) :
    constant? type v = some c ↔ v.Coerces type c := by
  cases type with
  | int => exact coerces_numeric_iff rfl hv
  | bigint => exact coerces_numeric_iff rfl hv
  | text => exact coerces_text_iff hv
  | textArray => exact coerces_texts_iff hv

end Value

/-! ## Reading constants -/

namespace Relational

namespace Constant

/-- Reads on to the end of a quoted text.  A quote that is written twice belongs to the text. -/
def readQuoted : List Char → Option (List Char × List Char)
  | [] => none
  | '\'' :: '\'' :: cs => (readQuoted cs).map (Prod.map ('\'' :: ·) id)
  | '\'' :: cs => some ([], cs)
  | c :: cs => (readQuoted cs).map (Prod.map (c :: ·) id)

/-- Reads a quoted text: the text, and what follows it. -/
def readText : List Char → Option (String × List Char)
  | '\'' :: cs => (readQuoted cs).map (Prod.map String.ofList id)
  | _ => none

/-- Reads an element of an array of texts. -/
def readElement : List Char → Option (Option String × List Char)
  | 'N' :: 'U' :: 'L' :: 'L' :: cs => some (none, cs)
  | cs => (readText cs).map (Prod.map some id)

/-- Reads the elements of an array up to the bracket behind them.  There are no more elements than
characters, which gives the bound. -/
def readElements : Nat → List Char → Option (List (Option String) × List Char)
  | 0, _ => none
  | bound + 1, cs => do
    let (e, rest) ← readElement cs
    match rest with
    | ',' :: rest =>
      let (es, rest) ← readElements bound rest
      return (e :: es, rest)
    | ']' :: rest => return ([e], rest)
    | _ => none

/-- What was read, if nothing is left. -/
def whole {α : Type} : Option (α × List Char) → Option α
  | some (a, []) => some a
  | _ => none

/-- The constant that a text is. -/
def read? (sql : String) : Option Constant :=
  match sql.toList with
  | 'N' :: 'U' :: 'L' :: 'L' :: [] => some .null
  | 'A' :: 'R' :: 'R' :: 'A' :: 'Y' :: '[' :: cs =>
    if cs = "]::TEXT[]".toList then some (.texts [])
    else (whole (readElements cs.length cs)).map .texts
  | '\'' :: cs => (whole (readText ('\'' :: cs))).map .text
  | '-' :: cs => (natural? cs).map fun n : Nat => .integer (-n)
  | cs => (natural? cs).map fun n : Nat => .integer n

example : read? "ARRAY['a'',b',NULL,'']" = some (.texts [some "a',b", none, some ""]) ∧
    read? "ARRAY[]::TEXT[]" = some (.texts []) ∧ read? "ARRAY[]" = none ∧
    read? "'NULL'" = some (.text "NULL") ∧ read? "-12" = some (.integer (-12)) ∧
    read? "'a'b'" = none := by decide

/-! ### Quoted texts -/

theorem readQuoted_of_ne {c : Char} (h : c ≠ '\'') (cs : List Char) :
    readQuoted (c :: cs) = (readQuoted cs).map (Prod.map (c :: ·) id) := by
  rw [readQuoted]
  all_goals simp [h]

theorem readQuoted_flatMap (cs : List Char) {rest : List Char} (hrest : rest.head? ≠ some '\'') :
    readQuoted (cs.flatMap quoteChar ++ '\'' :: rest) = some (cs, rest) := by
  induction cs with
  | nil =>
    cases rest with
    | nil => rfl
    | cons c rest =>
      rw [List.flatMap_nil, List.nil_append, readQuoted]
      intro cs h
      exact hrest (congrArg List.head? h)
  | cons c cs ih =>
    rw [List.flatMap_cons, List.append_assoc]
    by_cases hc : c = '\''
    · subst hc
      show readQuoted ('\'' :: '\'' :: (cs.flatMap quoteChar ++ '\'' :: rest)) = _
      rw [readQuoted, ih]
      rfl
    · rw [quoteChar, if_neg hc, List.singleton_append, readQuoted_of_ne hc, ih]
      rfl

/-- **A quoted text is read up to its end**, whatever follows it other than a quote. -/
theorem readText_quote (s : String) {rest : List Char} (hrest : rest.head? ≠ some '\'') :
    readText ((quote s).toList ++ rest) = some (s, rest) := by
  rw [toList_quote, List.cons_append, List.append_assoc, List.singleton_append, readText,
    readQuoted_flatMap _ hrest, Option.map_some, Prod.map_apply, String.ofList_toList, id_eq]

/-! ### Arrays -/

theorem readElement_render (e : Option String) {rest : List Char} (hrest : rest.head? ≠ some '\'') :
    readElement ((Literal.renderElement e).toList ++ rest) = some (e, rest) := by
  cases e with
  | none => rfl
  | some s =>
    have hquote := readText_quote s hrest
    rw [toList_quote, List.cons_append] at hquote
    show readElement ((quote s).toList ++ rest) = _
    rw [toList_quote, List.cons_append, readElement, hquote]
    · rfl
    · intro cs h
      exact absurd (List.cons.inj h).1 (by decide)

/-- Elements with commas between them are read one by one. -/
theorem readElements_join (e : Option String) (es : List (Option String)) (rest : List Char)
    {bound : Nat} (hbound : es.length < bound) :
    readElements bound ((Text.join "," ((e :: es).map Literal.renderElement)).toList ++ ']' :: rest) =
      some (e :: es, rest) := by
  induction es generalizing e bound with
  | nil =>
    obtain ⟨bound, rfl⟩ := Nat.exists_eq_succ_of_ne_zero (Nat.ne_zero_of_lt hbound)
    show readElements (bound + 1) ((Literal.renderElement e).toList ++ ']' :: rest) = _
    rw [readElements, readElement_render e (by simp)]
    rfl
  | cons f es ih =>
    obtain ⟨bound, rfl⟩ := Nat.exists_eq_succ_of_ne_zero (Nat.ne_zero_of_lt hbound)
    have hjoin : (Text.join "," ((e :: f :: es).map Literal.renderElement)).toList ++ ']' :: rest =
        (Literal.renderElement e).toList ++
          ',' :: ((Text.join "," ((f :: es).map Literal.renderElement)).toList ++ ']' :: rest) := by
      rw [List.map_cons, List.map_cons, Text.toList_join_cons, List.append_assoc, List.append_assoc]
      rfl
    have hlength : es.length < bound := by simpa using hbound
    have hrest := ih f hlength
    rw [hjoin, Nat.succ_eq_add_one, readElements, readElement_render e (by simp)]
    show (readElements bound _).bind _ = _
    rw [hrest]
    rfl

theorem length_le_join (es : List (Option String)) :
    es.length ≤ (Text.join "," (es.map Literal.renderElement)).toList.length := by
  have hone : ∀ e, 1 ≤ (Literal.renderElement e).toList.length := by
    intro e
    cases e with
    | none => decide
    | some s =>
      show 1 ≤ (quote s).toList.length
      rw [toList_quote, List.length_cons]
      omega
  induction es with
  | nil => exact Nat.zero_le _
  | cons e es ih =>
    cases es with
    | nil => exact hone e
    | cons f es =>
      have he := hone e
      rw [List.map_cons, List.map_cons, Text.toList_join_cons, List.length_append, List.length_append,
        ← List.map_cons, List.length_cons]
      have hcomma : (",".toList).length = 1 := by decide
      omega

/-! ### All constants -/

theorem read?_quote (s : String) : read? (quote s) = some (.text s) := by
  have hread : readText (quote s).toList = some (s, []) := by
    have hnil : ([] : List Char).head? ≠ some '\'' := by simp
    simpa using readText_quote s hnil
  rw [toList_quote] at hread
  rw [read?, toList_quote]
  show (whole (readText _)).map Constant.text = _
  rw [hread]
  rfl

theorem read?_natural (n : Nat) : read? (Numeral.natural n) = some (.integer n) := by
  obtain ⟨c, cs, hcs⟩ := List.exists_cons_of_ne_nil (Nat.toDigits_ne_nil (b := 10) (n := n))
  have hc : c.isDigit = true :=
    Nat.isDigit_of_mem_toDigits (by decide) (by decide) (hcs ▸ List.mem_cons_self)
  have hread : read? (Numeral.natural n) = (natural? (c :: cs)).map fun n : Nat => .integer n := by
    rw [read?, Numeral.natural, String.toList_ofList, hcs]
    split
    case h_5 => rfl
    all_goals
      -- the other texts do not start with a digit
      rename_i heq
      rw [(List.cons.inj heq).1] at hc
      exact absurd hc (by decide)
  rw [hread, ← hcs, natural?_toDigits]
  rfl

theorem read?_minus (n : Nat) : read? ("-" ++ Numeral.natural n) = some (.integer (-n)) := by
  rw [read?, toList_minus]
  show (natural? (Nat.toDigits 10 n)).map _ = _
  rw [natural?_toDigits]
  rfl

theorem read?_textArray (e : Option String) (es : List (Option String)) :
    read? (Literal.textArray (e :: es)).render = some (.texts (e :: es)) := by
  have htext : (Literal.textArray (e :: es)).render.toList = 'A' :: 'R' :: 'R' :: 'A' :: 'Y' :: '[' ::
      ((Text.join "," ((e :: es).map Literal.renderElement)).toList ++ [']']) := by
    rw [Literal.render, String.toList_append, String.toList_append, List.append_assoc]
    rfl
  have hlength : es.length <
      ((Text.join "," ((e :: es).map Literal.renderElement)).toList ++ [']']).length := by
    have := length_le_join (e :: es)
    rw [List.length_append]
    simp only [List.length_cons, List.length_nil] at this ⊢
    omega
  have helements := readElements_join e es [] hlength
  have hsome : (Text.join "," ((e :: es).map Literal.renderElement)).toList ++ [']'] ≠
      "]::TEXT[]".toList := by
    intro h
    rw [h] at helements
    exact absurd helements (by simp [readElements, readElement, readText])
  rw [read?, htext]
  show (if _ then some (texts []) else (whole (readElements _ _)).map texts) = _
  rw [if_neg hsome, helements]
  rfl

/-- **The text of a constant is read as this constant.** -/
theorem read?_render (c : Constant) : read? c.literal.render = some c := by
  cases c with
  | null => decide
  | integer n =>
    cases n with
    | ofNat n => exact read?_natural n
    | negSucc n => exact read?_minus (n + 1)
  | text s => exact read?_quote s
  | texts es =>
    cases es with
    | nil => decide
    | cons e es => exact read?_textArray e es

end Constant

/-- **Values are read back from what is written for a column.**  A quoted text is read as the text up to
its end, whatever follows it other than a quote.  A value that is coerced to the type of a column is read
as the constant that it is coerced to; a value is written as `NULL` just when it is not coerced. -/
theorem Literal.readsBack_ofValueAs :
    (∀ (s : String) (rest : List Char), rest.head? ≠ some '\'' →
      Constant.readText ((quote s).toList ++ rest) = some (s, rest)) ∧
    ∀ v : Value, v.Plain → ∀ type : ColumnType,
      ((Literal.ofValueAs type v).render = "NULL" ↔ ∀ c, ¬v.Coerces type c) ∧
        ∀ c, v.Coerces type c → Constant.read? (Literal.ofValueAs type v).render = some c := by
  refine ⟨fun s _ => Constant.readText_quote s, fun v hv type => ?_⟩
  rw [Value.ofValueAs_eq]
  simp only [← Value.constant?_eq_some_iff hv]
  cases hconstant : Value.constant? type v with
  | none =>
    refine ⟨⟨fun _ _ => by simp, fun _ => rfl⟩, fun c hc => by cases hc⟩
  | some c =>
    have hread : Constant.read? c.literal.render = some c := Constant.read?_render c
    have hnull : c ≠ .null := by
      rintro rfl
      cases (Value.constant?_eq_some_iff hv).mp hconstant
    refine ⟨⟨fun h => ?_, fun h => absurd rfl (h c)⟩, ?_⟩
    · -- `NULL` would be read as null, and no value is coerced to null
      rw [show c.literal.render = "NULL" from h] at hread
      exact absurd (Option.some.inj hread).symm hnull
    · rintro _ ⟨⟩
      exact hread

/-- A list with quotes, commas, brackets, a null and the text of a null, and what else has a text. -/
def mixedList : Value :=
  .list [.text "it's, [1]", .null, .text "NULL", .boolean true, .integer (-12)]

theorem Literal.readsBack_ofValueAs_mixed :
    mixedList.Plain ∧
      (Literal.ofValueAs .textArray mixedList).render =
        "ARRAY['it''s, [1]',NULL,'NULL','true','-12']" ∧
      Constant.read? (Literal.ofValueAs .textArray mixedList).render =
        some (.texts [some "it's, [1]", none, some "NULL", some "true", some "-12"]) ∧
      (Literal.ofValueAs .text mixedList).render = "NULL" := by
  have hplain : mixedList.Plain := by
    refine .list fun v hv => ?_
    simp only [List.mem_cons, List.not_mem_nil, or_false] at hv
    rcases hv with rfl | rfl | rfl | rfl | rfl
    · exact .text _
    · exact .null
    · exact .text _
    · exact .boolean true
    · exact .integer (by decide)
  have hcoerces : mixedList.Coerces .textArray
      (.texts [some "it's, [1]", none, some "NULL", some "true", some "-12"]) :=
    .texts (.cons (.text (.text _)) (.cons .null (.cons (.text (.text _))
      (.cons (.text (.boolean true)) (.cons (.text (.integer (-12))) .nil)))))
  obtain ⟨-, hread⟩ := Literal.readsBack_ofValueAs
  refine ⟨hplain, by decide, (hread mixedList hplain .textArray).2 _ hcoerces, ?_⟩
  rw [(hread mixedList hplain .text).1]
  intro c hc
  cases hc with
  | text h => cases h

end Relational

end GraphSql
