import GraphSql.Proofs.Words
import GraphSql.Relational.Expr

/-!
# The text of an expression and its grouping

Operators are bracketed and so is what stands behind `NOT`, but comparisons, null tests and minus
signs add no brackets of their own.  So `a = b = c` can come from two trees, and
`-a IS NULL` too.

The text does show the grouping of trees that group to the left: what stands to the right of a
comparison, or behind a minus sign, is a column or brings its own brackets.  These trees are the
`Grouped` ones.  They can be read back from their text (`Expr.Grouped.readable`), and therefore two of
them with the same text are the same (`Expr.eq_of_render_eq`).
-/

namespace GraphSql

/-! ## Words between delimiters -/

/-- What stands behind the words of an expression. -/
def delimiters : List Char := ['.', '-', ' ', '(', ')', '\'']

def isSolid (c : Char) : Bool := !delimiters.contains c

/-- A text without delimiters. -/
def Solid (s : String) : Prop := ∀ c ∈ s.toList, isSolid c = true

theorem Wordy.solid {s : String} (h : Wordy s) : Solid s := fun c hc =>
  forall_isWordChar (p := isSolid) (by decide +kernel) (by decide +kernel) (h c hc)

theorem solid_append {s t : String} (hs : Solid s) (ht : Solid t) : Solid (s ++ t) := by
  intro c hc
  rw [String.toList_append, List.mem_append] at hc
  exact hc.elim (hs c) (ht c)

/-- Delimiters are left alone when letter case is changed. -/
theorem mem_lowerAfter_of_not_isSolid {d : Char} (hd : isSolid d = false) :
    ∀ {before cs : List Char}, d ∈ cs → d ∈ Text.lowerAfter before cs
  | _, [], h => by cases h
  | before, c :: cs, h => by
    rw [Text.lowerAfter, List.mem_append]
    rcases List.mem_cons.mp h with rfl | h
    · left
      have hself : d ≠ 'Σ' ∧ Text.lowerChar d = [d] := by
        have hall : ∀ c ∈ delimiters, c ≠ 'Σ' ∧ Text.lowerChar c = [c] := by decide +kernel
        exact hall d (by simpa [isSolid] using hd)
      rw [if_neg hself.1, hself.2]
      exact List.mem_singleton_self d
    · exact .inr (mem_lowerAfter_of_not_isSolid hd h)

/-- A name that differs from a word only in letter case has no delimiters. -/
theorem solid_of_sameName {s t : String} (ht : Wordy t) (h : Text.sameName s t = true) :
    Solid s := by
  intro c hc
  by_contra hn
  have hmem : c ∈ (Text.lower s).toList := by
    rw [Text.lower, String.toList_ofList]
    exact mem_lowerAfter_of_not_isSolid (Bool.not_eq_true _ ▸ hn) hc
  rw [beq_iff_eq.mp h] at hmem
  exact hn ((wordy_lower ht).solid c hmem)

theorem solid_freshName {name : String} (h : Solid name) (taken : List String) :
    Solid (Relational.freshName name taken) := by
  have hcandidate : ∀ k, Solid (Relational.nameCandidate name k)
    | 0 => h
    | k + 1 => by
      have hdecimal : Wordy ("_" ++ Numeral.natural (k + 2)) :=
        wordy_append (by decide) (wordy_natural (k + 2))
      rw [Relational.nameCandidate, String.append_assoc]
      exact solid_append h hdecimal.solid
  exact hcandidate _

/-! ## Grouped expressions -/

namespace Relational

variable {e : Expr}

/-- The expressions that group to the left; `Grouped true e` also says that `e` can stand to the right
of a comparison or behind a minus sign.  The array of a membership test is bracketed. -/
inductive Expr.Grouped : Bool → Expr → Prop
  | column {b : Bool} {x c : String} : Solid x → Solid c → Grouped b (.column x c)
  | not {b : Bool} {e : Expr} : Grouped false e → Grouped b (.not e)
  | negate {b : Bool} {e : Expr} : Grouped true e → Grouped b (.negate e)
  | binary {b : Bool} (op : Query.BinaryOp) {l r : Expr} :
    Grouped false l → Grouped false r → Grouped b (.binary op l r)
  | nullTest (negated : Bool) {e : Expr} : Grouped false e → Grouped false (.nullTest negated e)
  | compare (op : Comparator) {l r : Expr} :
    Grouped false l → Grouped true r → Grouped false (.compare op l r)
  | equalsAny {e a : Expr} : Grouped false e → Grouped false a → Grouped false (.equalsAny e a)
  | like (affix : Affix) {e part : Expr} :
    Grouped false e → Grouped true part → Grouped false (.like affix e part)

/-! ## Reading an expression back -/

/-- An operator between blanks. -/
def readOperator (cs : List Char) : Option (Query.BinaryOp × List Char) :=
  [Query.BinaryOp.and, .or, .add, .sub, .mul, .div, .mod].findSome? fun op =>
    ((' ' :: op.text.toList ++ [' ']).isPrefixOf? cs).map (op, ·)

/-- A comparison between blanks. -/
def readComparator (cs : List Char) : Option (Comparator × List Char) :=
  [Comparator.eq, .ne, .lt, .gt, .le, .ge].findSome? fun op =>
    ((' ' :: op.text.toList ++ [' ']).isPrefixOf? cs).map (op, ·)

/-- What is to be read: an operand, a whole expression, or what stands behind its first part. -/
inductive Place where
  | operand
  | whole
  | behind (e : Expr)

section

variable (read : Place → List Char → Option (Expr × List Char))

/-- Reads an operand.  The word that it starts with and the delimiter behind this word tell its
form. -/
def readOperand (cs : List Char) : Option (Expr × List Char) :=
  match cs.dropWhile isSolid with
  | '.' :: ds =>
    some (.column (String.ofList (cs.takeWhile isSolid)) (String.ofList (ds.takeWhile isSolid)),
      ds.dropWhile isSolid)
  | '-' :: ds => (read .operand ds).map fun (e, rest) => (.negate e, rest)
  | ' ' :: '(' :: ds => do
    let (e, rest) ← read .whole ds
    let rest ← [')'].isPrefixOf? rest
    return (.not e, rest)
  | '(' :: ds => do
    let (l, rest) ← read .whole ds
    let (op, rest) ← readOperator rest
    let (r, rest) ← read .whole rest
    let rest ← [')'].isPrefixOf? rest
    return (.binary op l r, rest)
  | _ => none

/-- What stands behind the part of a test for a text when it does not end there. -/
def wildcard : List Char := [' ', '|', '|', ' ', '\'', '%', '\'']

/-- Reads the part of a test for a text, which is looked for at `wild` when a wildcard stands behind
it and at `plain` when none does. -/
def readPart (wild : Affix) (plain : Option Affix) (e : Expr) (cs : List Char) :
    Option (Expr × List Char) := do
  let (part, rest) ← read .operand cs
  match wildcard.isPrefixOf? rest with
  | some rest => return (.like wild e part, rest)
  | none => return (.like (← plain) e part, rest)

/-- Reads one comparison or null test behind the expression `e`. -/
def readLink (e : Expr) (cs : List Char) : Option (Expr × List Char) :=
  match " = ANY(".toList.isPrefixOf? cs with
  | some ds => do
    let (a, rest) ← read .whole ds
    let rest ← [')'].isPrefixOf? rest
    return (.equalsAny e a, rest)
  | none =>
    match readComparator cs with
    | some (op, ds) => (read .operand ds).map fun (r, rest) => (.compare op e r, rest)
    | none =>
      match " IS NULL".toList.isPrefixOf? cs with
      | some ds => some (.nullTest false e, ds)
      | none =>
        match " IS NOT NULL".toList.isPrefixOf? cs with
        | some ds => some (.nullTest true e, ds)
        | none =>
          match " LIKE '%' || ".toList.isPrefixOf? cs with
          | some ds => readPart read .anywhere (some .finish) e ds
          | none => (" LIKE ".toList.isPrefixOf? cs).bind (readPart read .start none e)

end

/-- Reads an expression off the front of a text: an operand, then comparisons and null tests as long
as there are any. -/
def readAt : Nat → Place → List Char → Option (Expr × List Char)
  | 0, _, _ => none
  | fuel + 1, .operand, cs => readOperand (readAt fuel) cs
  | fuel + 1, .whole, cs => do
    let (e, rest) ← readAt fuel .operand cs
    readAt fuel (.behind e) rest
  | fuel + 1, .behind e, cs =>
    match readLink (readAt fuel) e cs with
    | some (e', rest) => readAt fuel (.behind e') rest
    | none => some (e, cs)

/-! ### What stands behind an expression -/

/-- What can stand behind an operand. -/
inductive Ends : List Char → Prop
  | nil : Ends []
  | close (cs : List Char) : Ends (')' :: cs)
  | blank (cs : List Char) : Ends (' ' :: cs)

/-- What can stand behind a whole expression. -/
inductive EndsWhole : List Char → Prop
  | nil : EndsWhole []
  | close (cs : List Char) : EndsWhole (')' :: cs)
  | operator (op : Query.BinaryOp) (cs : List Char) :
    EndsWhole (' ' :: op.text.toList ++ ' ' :: cs)

/-- What can stand behind a part of an expression that more comparisons may follow. -/
structure EndsPart (cs : List Char) : Prop where
  ends : Ends cs
  wildcard : wildcard.isPrefixOf? cs = none

theorem EndsWhole.part {cs : List Char} (h : EndsWhole cs) : EndsPart cs := by
  cases h with
  | nil => exact ⟨.nil, rfl⟩
  | close cs => exact ⟨.close cs, rfl⟩
  | operator op cs => exact ⟨.blank _, by cases op <;> rfl⟩

/-- There is no comparison to read behind a whole expression. -/
theorem EndsWhole.readLink_eq_none (read : Place → List Char → Option (Expr × List Char)) (e : Expr)
    {rest : List Char} (h : EndsWhole rest) : readLink read e rest = none := by
  cases h with
  | nil => rfl
  | close => rfl
  | operator op => cases op <;> rfl

/-- A word ends before what can stand behind an operand. -/
theorem Ends.span {rest : List Char} (h : Ends rest) {x : List Char}
    (hx : ∀ c ∈ x, isSolid c = true) :
    (x ++ rest).takeWhile isSolid = x ∧ (x ++ rest).dropWhile isSolid = rest := by
  rw [List.takeWhile_append_of_pos hx, List.dropWhile_append_of_pos hx]
  have hstop : rest.takeWhile isSolid = [] ∧ rest.dropWhile isSolid = rest := by
    cases h with
    | nil => exact ⟨rfl, rfl⟩
    | close => exact ⟨rfl, rfl⟩
    | blank => exact ⟨rfl, rfl⟩
  rw [hstop.1, hstop.2, List.append_nil]
  exact ⟨rfl, rfl⟩

theorem readOperator_append (op : Query.BinaryOp) (cs : List Char) :
    readOperator (' ' :: op.text.toList ++ ' ' :: cs) = some (op, cs) := by
  cases op <;> rfl

/-! ### How an operand opens -/

/-- The texts of operands by their forms, with what stands behind them. -/
theorem Expr.toList_render_append (rest : List Char) :
    (∀ x c, (Expr.column x c).render.toList ++ rest = x.toList ++ '.' :: (c.toList ++ rest)) ∧
      (∀ e, (Expr.negate e).render.toList ++ rest = '-' :: (e.render.toList ++ rest)) ∧
      (∀ e, (Expr.not e).render.toList ++ rest =
        "NOT (".toList ++ (e.render.toList ++ ')' :: rest)) ∧
      ∀ op l r, (Expr.binary op l r).render.toList ++ rest = '(' :: (l.render.toList ++
        (' ' :: op.text.toList ++ ' ' :: (r.render.toList ++ ')' :: rest))) := by
  simp only [Expr.render, columnRef, String.toList_append, List.append_assoc]
  exact ⟨fun _ _ => rfl, fun _ => rfl, fun _ => rfl, fun _ _ _ => rfl⟩

/-- An operand opens with a word and a delimiter that is no quote, and with a bracket only when the
word is empty. -/
theorem Expr.Grouped.opening (h : e.Grouped true) (rest : List Char) :
    ∃ d ds, (e.render.toList ++ rest).dropWhile isSolid = d :: ds ∧ d ≠ '\'' ∧
      (d = '(' → (e.render.toList ++ rest).takeWhile isSolid = []) := by
  obtain ⟨hcolumn, hnegate, hnot, hbinary⟩ := Expr.toList_render_append rest
  cases h with
  | @column _ x c hx hc =>
    refine ⟨'.', c.toList ++ rest, ?_, by decide, fun hd => absurd hd (by decide)⟩
    rw [hcolumn, List.dropWhile_append_of_pos hx]
    rfl
  | @not _ e _ =>
    rw [hnot]
    exact ⟨' ', '(' :: (e.render.toList ++ ')' :: rest), rfl, by decide,
      fun hd => absurd hd (by decide)⟩
  | @negate _ e _ =>
    rw [hnegate]
    exact ⟨'-', e.render.toList ++ rest, rfl, by decide, fun hd => absurd hd (by decide)⟩
  | @binary _ op l r _ _ =>
    rw [hbinary]
    exact ⟨'(', _, rfl, by decide, fun _ => rfl⟩

/-- The text of an operand is no array to look in, and no wildcard. -/
theorem Expr.Grouped.isPrefixOf?_eq_none (h : e.Grouped true) (rest : List Char) :
    "ANY(".toList.isPrefixOf? (e.render.toList ++ rest) = none ∧
      "'%' || ".toList.isPrefixOf? (e.render.toList ++ rest) = none := by
  obtain ⟨d, ds, hdrop, hquote, hbracket⟩ := h.opening rest
  constructor
  · cases hafter : "ANY(".toList.isPrefixOf? (e.render.toList ++ rest) with
    | none => rfl
    | some es =>
      rw [← List.append_eq_of_isPrefixOf?_eq_some hafter] at hdrop hbracket
      have hd : '(' = d := (List.cons.inj hdrop).1
      cases hbracket hd.symm
  · cases hafter : "'%' || ".toList.isPrefixOf? (e.render.toList ++ rest) with
    | none => rfl
    | some es =>
      rw [← List.append_eq_of_isPrefixOf?_eq_some hafter] at hdrop
      exact absurd (List.cons.inj hdrop).1.symm hquote

/-! ### Reading what was written -/

/-- With enough fuel, an operand is read off the front of a text. -/
def Expr.ReadsAsOperand (e : Expr) : Prop :=
  ∃ k, ∀ fuel, k ≤ fuel → ∀ rest, Ends rest →
    readAt fuel .operand (e.render.toList ++ rest) = some (e, rest)

/-- With enough fuel, reading goes on behind an expression that a text starts with. -/
def Expr.ReadsOn (e : Expr) : Prop :=
  ∃ j k, ∀ fuel, k ≤ fuel → ∀ rest, EndsPart rest →
    readAt (fuel + j) .whole (e.render.toList ++ rest) = readAt fuel (.behind e) rest

/-- With enough fuel, a whole expression is read off the front of a text. -/
theorem Expr.ReadsOn.whole (h : e.ReadsOn) :
    ∃ k, ∀ fuel, k ≤ fuel → ∀ rest, EndsWhole rest →
      readAt fuel .whole (e.render.toList ++ rest) = some (e, rest) := by
  obtain ⟨j, k, hread⟩ := h
  refine ⟨j + k + 1, fun fuel hfuel rest hrest => ?_⟩
  obtain ⟨f, rfl⟩ : ∃ f, fuel = f + 1 + j := ⟨fuel - 1 - j, by omega⟩
  rw [hread (f + 1) (by omega) rest hrest.part, readAt, hrest.readLink_eq_none]

/-- Reading goes on behind an operand. -/
theorem Expr.ReadsAsOperand.readsOn (h : e.ReadsAsOperand) : e.ReadsOn := by
  obtain ⟨k, hk⟩ := h
  refine ⟨1, k, fun fuel hfuel rest hrest => ?_⟩
  rw [readAt, hk fuel hfuel rest hrest.ends]
  rfl

/-- Reading goes on behind a comparison or a null test. -/
theorem Expr.ReadsOn.link {e' : Expr} (h : e.ReadsOn) (link : List Char)
    (htext : e'.render.toList = e.render.toList ++ link) (hends : ∀ rest, EndsPart (link ++ rest))
    (hlink : ∃ k, ∀ fuel, k ≤ fuel → ∀ rest, EndsPart rest →
      readLink (readAt fuel) e (link ++ rest) = some (e', rest)) : e'.ReadsOn := by
  obtain ⟨j, k, hread⟩ := h
  obtain ⟨k', hlink⟩ := hlink
  refine ⟨j + 1, max k k', fun fuel hfuel rest hrest => ?_⟩
  have hfirst := hread (fuel + 1) (by omega) _ (hends rest)
  have hnext : readAt (fuel + 1) (.behind e) (link ++ rest) = readAt fuel (.behind e') rest := by
    rw [readAt, hlink fuel (by omega) rest hrest]
  rw [htext, List.append_assoc, show fuel + (j + 1) = fuel + 1 + j by omega, hfirst, hnext]

/-- An operand is read by its form. -/
theorem Expr.readsAsOperand_of_readOperand (h : ∃ k, ∀ fuel, k ≤ fuel → ∀ rest, Ends rest →
      readOperand (readAt fuel) (e.render.toList ++ rest) = some (e, rest)) : e.ReadsAsOperand := by
  obtain ⟨k, hk⟩ := h
  refine ⟨k + 1, fun fuel hfuel rest hrest => ?_⟩
  obtain ⟨fuel, rfl⟩ : ∃ f, fuel = f + 1 := ⟨fuel - 1, by omega⟩
  exact hk fuel (by omega) rest hrest

namespace Expr.ReadsAsOperand

theorem column {x c : String} (hx : Solid x) (hc : Solid c) : ReadsAsOperand (.column x c) := by
  refine readsAsOperand_of_readOperand ⟨0, fun fuel _ rest hrest => ?_⟩
  obtain ⟨htake, hdrop⟩ := hrest.span hc
  have hword : (x.toList ++ '.' :: (c.toList ++ rest)).takeWhile isSolid = x.toList := by
    rw [List.takeWhile_append_of_pos hx]
    exact List.append_nil _
  have hbehind : (x.toList ++ '.' :: (c.toList ++ rest)).dropWhile isSolid =
      '.' :: (c.toList ++ rest) := by
    rw [List.dropWhile_append_of_pos hx]
    rfl
  rw [(toList_render_append rest).1, readOperand, hbehind]
  show some (Expr.column (String.ofList (List.takeWhile isSolid _))
    (String.ofList (List.takeWhile isSolid (c.toList ++ rest))), _) = _
  rw [hword, htake, hdrop, String.ofList_toList, String.ofList_toList]

theorem negate (h : e.ReadsAsOperand) : ReadsAsOperand (.negate e) := by
  obtain ⟨k, hk⟩ := h
  refine readsAsOperand_of_readOperand ⟨k, fun fuel hfuel rest hrest => ?_⟩
  rw [(toList_render_append rest).2.1, readOperand, List.dropWhile_cons_of_neg (by decide)]
  show (readAt fuel .operand (e.render.toList ++ rest)).map _ = _
  rw [hk fuel hfuel rest hrest]
  rfl

theorem not (h : e.ReadsOn) : ReadsAsOperand (.not e) := by
  obtain ⟨k, hk⟩ := h.whole
  refine readsAsOperand_of_readOperand ⟨k, fun fuel hfuel rest hrest => ?_⟩
  have hbehind : ("NOT (".toList ++ (e.render.toList ++ ')' :: rest)).dropWhile isSolid =
      ' ' :: '(' :: (e.render.toList ++ ')' :: rest) := rfl
  rw [(toList_render_append rest).2.2.1, readOperand, hbehind]
  show (readAt fuel .whole (e.render.toList ++ ')' :: rest)).bind _ = _
  rw [hk fuel hfuel _ (.close rest)]
  rfl

theorem binary (op : Query.BinaryOp) {l r : Expr} (hl : l.ReadsOn) (hr : r.ReadsOn) :
    ReadsAsOperand (.binary op l r) := by
  obtain ⟨j, hj⟩ := hl.whole
  obtain ⟨k, hk⟩ := hr.whole
  refine readsAsOperand_of_readOperand ⟨max j k, fun fuel hfuel rest hrest => ?_⟩
  rw [(toList_render_append rest).2.2.2, readOperand, List.dropWhile_cons_of_neg (by decide)]
  show (readAt fuel .whole (l.render.toList ++ _)).bind _ = _
  rw [hj fuel (by omega) _ (.operator op _), Option.bind_some]
  show (readOperator _).bind _ = _
  rw [readOperator_append, Option.bind_some]
  show (readAt fuel .whole (r.render.toList ++ _)).bind _ = _
  rw [hk fuel (by omega) _ (.close rest)]
  rfl

end Expr.ReadsAsOperand

namespace Expr.ReadsOn

theorem nullTest (negated : Bool) (h : e.ReadsOn) : ReadsOn (.nullTest negated e) := by
  refine h.link _ (by rw [Expr.render, String.toList_append]) (fun rest => ?_)
    ⟨0, fun fuel _ rest _ => ?_⟩
  · cases negated <;> exact ⟨.blank _, rfl⟩
  · cases negated <;> rfl

theorem compare (op : Comparator) {l r : Expr} (hl : l.ReadsOn) (hr : r.ReadsAsOperand)
    (hgrouped : r.Grouped true) : ReadsOn (.compare op l r) := by
  obtain ⟨k, hk⟩ := hr
  refine hl.link (' ' :: op.text.toList ++ ' ' :: r.render.toList)
    (by simp only [Expr.render, String.toList_append, List.append_assoc]; rfl)
    (fun rest => ⟨.blank _, by cases op <;> rfl⟩) ⟨k, fun fuel hfuel rest hrest => ?_⟩
  have hread := hk fuel hfuel rest hrest.ends
  have hassoc : ' ' :: op.text.toList ++ ' ' :: r.render.toList ++ rest =
      ' ' :: op.text.toList ++ ' ' :: (r.render.toList ++ rest) := by simp
  rw [hassoc]
  -- only the equality sign could also open a membership test
  have hany : " = ANY(".toList.isPrefixOf?
      (' ' :: op.text.toList ++ ' ' :: (r.render.toList ++ rest)) = none := by
    cases op with
    | eq => exact (hgrouped.isPrefixOf?_eq_none rest).1
    | _ => rfl
  have hcomparator : readComparator (' ' :: op.text.toList ++ ' ' :: (r.render.toList ++ rest)) =
      some (op, r.render.toList ++ rest) := by
    cases op <;> rfl
  rw [readLink, hany]
  dsimp only
  rw [hcomparator]
  dsimp only
  rw [hread]
  rfl

theorem equalsAny {a : Expr} (he : e.ReadsOn) (ha : a.ReadsOn) : ReadsOn (.equalsAny e a) := by
  obtain ⟨k, hk⟩ := ha.whole
  refine he.link (" = ANY(".toList ++ (a.render.toList ++ [')']))
    (by simp only [Expr.render, String.toList_append, List.append_assoc]; rfl)
    (fun rest => ⟨.blank _, rfl⟩) ⟨k, fun fuel hfuel rest hrest => ?_⟩
  rw [List.append_assoc, List.append_assoc, readLink, List.isPrefixOf?_eq_some_iff_append_eq.mpr rfl]
  dsimp only
  rw [List.singleton_append, hk fuel hfuel _ (.close rest)]
  rfl

/-- A wildcard behind the part is seen, and nothing else is taken for one. -/
theorem readPart_eq {part : Expr} {k : Nat} (hk : ∀ fuel, k ≤ fuel → ∀ rest, Ends rest →
      readAt fuel .operand (part.render.toList ++ rest) = some (part, rest))
    {fuel : Nat} (hfuel : k ≤ fuel) (wild : Affix) (plain : Option Affix) (e : Expr)
    {rest : List Char} (hrest : EndsPart rest) :
    readPart (readAt fuel) wild plain e (part.render.toList ++ (wildcard ++ rest)) =
        some (.like wild e part, rest) ∧
      readPart (readAt fuel) wild plain e (part.render.toList ++ rest) =
        plain.map fun affix => (.like affix e part, rest) := by
  constructor
  · rw [readPart, hk fuel hfuel (wildcard ++ rest) (.blank _)]
    rfl
  · rw [readPart, hk fuel hfuel _ hrest.ends]
    dsimp only [bind, Option.bind]
    rw [hrest.wildcard]
    cases plain <;> rfl

theorem like (affix : Affix) {part : Expr} (he : e.ReadsOn) (hpart : part.ReadsAsOperand)
    (hgrouped : part.Grouped true) : ReadsOn (.like affix e part) := by
  obtain ⟨k, hk⟩ := hpart
  cases affix with
  | anywhere =>
    refine he.link (" LIKE '%' || ".toList ++ (part.render.toList ++ wildcard))
      (by simp only [Expr.render, Expr.renderLike, String.toList_append, List.append_assoc]; rfl)
      (fun rest => ⟨.blank _, rfl⟩) ⟨k, fun fuel hfuel rest hrest => ?_⟩
    rw [List.append_assoc, List.append_assoc]
    exact (readPart_eq hk hfuel .anywhere (some .finish) e hrest).1
  | start =>
    refine he.link (" LIKE ".toList ++ (part.render.toList ++ wildcard))
      (by simp only [Expr.render, Expr.renderLike, String.toList_append, List.append_assoc]; rfl)
      (fun rest => ⟨.blank _, rfl⟩) ⟨k, fun fuel hfuel rest hrest => ?_⟩
    rw [List.append_assoc, List.append_assoc]
    have hquote : " LIKE '%' || ".toList.isPrefixOf? (" LIKE ".toList ++
        (part.render.toList ++ (wildcard ++ rest))) = none :=
      (hgrouped.isPrefixOf?_eq_none _).2
    have hlike : readLink (readAt fuel) e (" LIKE ".toList ++
        (part.render.toList ++ (wildcard ++ rest))) =
        readPart (readAt fuel) .start none e (part.render.toList ++ (wildcard ++ rest)) := by
      rw [readLink, hquote, List.isPrefixOf?_eq_some_iff_append_eq.mpr rfl]
      rfl
    rw [hlike]
    exact (readPart_eq hk hfuel .start none e hrest).1
  | finish =>
    refine he.link (" LIKE '%' || ".toList ++ part.render.toList)
      (by simp only [Expr.render, Expr.renderLike, String.toList_append, List.append_assoc])
      (fun rest => ⟨.blank _, rfl⟩) ⟨k, fun fuel hfuel rest hrest => ?_⟩
    rw [List.append_assoc]
    exact (readPart_eq hk hfuel .anywhere (some .finish) e hrest).2

end Expr.ReadsOn

/-- **Grouped expressions are read back from their text.** -/
theorem Expr.Grouped.readable {b : Bool} (h : e.Grouped b) :
    e.ReadsOn ∧ (b = true → e.ReadsAsOperand) := by
  have both : ∀ {b : Bool} {e : Expr}, e.ReadsAsOperand →
      e.ReadsOn ∧ (b = true → e.ReadsAsOperand) := fun h => ⟨h.readsOn, fun _ => h⟩
  induction h with
  | column hx hc => exact both (.column hx hc)
  | not _ ih => exact both (.not ih.1)
  | negate _ ih => exact both (ih.2 rfl).negate
  | binary op _ _ ihl ihr => exact both (.binary op ihl.1 ihr.1)
  | nullTest negated _ ih => exact ⟨ih.1.nullTest negated, nofun⟩
  | compare op _ hr ihl ihr => exact ⟨ihl.1.compare op (ihr.2 rfl) hr, nofun⟩
  | equalsAny _ _ ihe iha => exact ⟨ihe.1.equalsAny iha.1, nofun⟩
  | like affix _ hpart ihe ihpart => exact ⟨ihe.1.like affix (ihpart.2 rfl) hpart, nofun⟩

/-- **Grouped expressions with the same text are the same.** -/
theorem Expr.eq_of_render_eq {b b' : Bool} {e' : Expr} (h : e.Grouped b) (h' : e'.Grouped b')
    (htext : e.render = e'.render) : e = e' := by
  obtain ⟨j, hj⟩ := h.readable.1.whole
  obtain ⟨k, hk⟩ := h'.readable.1.whole
  have hread := hj (max j k) (by omega) [] .nil
  rw [htext, hk (max j k) (by omega) [] .nil] at hread
  exact (Prod.mk.inj (Option.some.inj hread)).1.symm

end Relational

end GraphSql
