import Mathlib.Computability.Language
import GraphSql.Proofs.Query.Named
import GraphSql.Proofs.Words

/-!
# Printing a query

A query can be written in many ways.  `printings` gives for each part of a query the language of the
rows of tokens that it can be written as, with the freedom that the grammar leaves: two spellings of
inequality, a spelled out ascending order, empty brackets or none, a second colon between types, an
arrow without heads or with two, a final semicolon.  An operand is put in parentheses exactly when it
binds looser than its place asks.  `Spaced` then gives the texts of a row of tokens: keywords in any
letter case and any non-empty run of blanks between two tokens.  A query is printed as the texts of its
rows of tokens (`Query.Printed`).

From the loosest to the tightest the levels of expressions are

* 0 disjunction, 1 conjunction, 2 negation, 3 comparison,
* 4 sum, 5 product, 6 sign, 7 property access, 8 atom.
-/

namespace GraphSql.Query

/-! ## Texts of tokens -/

/-- Names that can stand wherever a name can: identifiers that do not start with a digit and are,
letter case apart, neither a reserved word nor a truth value. -/
structure PlainName (x : String) : Prop where
  identifier : Identifier x
  start : (x.toList.head?.any fun c => !c.isDigit) = true
  word : ∀ k ∈ Keyword.TRUE :: .FALSE :: Keyword.reserved,
    x.toList.map Char.toLower ≠ k.spelling.toList

instance (x : String) : Decidable (PlainName x) :=
  decidable_of_iff (Identifier x ∧ (x.toList.head?.any fun c => !c.isDigit) = true ∧
      ∀ k ∈ Keyword.TRUE :: .FALSE :: Keyword.reserved,
        x.toList.map Char.toLower ≠ k.spelling.toList)
    ⟨fun h => ⟨h.1, h.2.1, h.2.2⟩, fun h => ⟨h.identifier, h.start, h.word⟩⟩

/-- A text as it is written between single quotes: a quote gets a backslash. -/
def escape (cs : List Char) : List Char :=
  cs.flatMap fun c => if c = '\'' then ['\\', '\''] else [c]

/-- The ways to write a token: keywords in any letter case, everything else as it is. -/
def Token.Spells : Token → List Char → Prop
  | .keyword k, cs => cs.map Char.toLower = k.spelling.toList
  | .symbol s, cs => cs = s.spelling
  | .name x, cs => cs = x.toList
  | .integer digits, cs => cs = digits
  | .decimal whole fraction, cs => cs = whole ++ '.' :: fraction
  | .quoted body, cs => cs = '\'' :: (body ++ ['\''])
  | .stop, _ => False

/-- The texts of a row of tokens.  What follows a token is empty or starts with a blank, so there are
blanks between any two tokens; there may be blanks before the first and behind the last one. -/
inductive Spaced : List Token → List Char → Prop
  | nil {blanks : List Char} (hblanks : ∀ c ∈ blanks, isSpace c = true) : Spaced [] blanks
  | cons {t : Token} {ts : List Token} {blanks word rest : List Char}
      (hblanks : ∀ c ∈ blanks, isSpace c = true) (hspells : t.Spells word) (hword : word ≠ [])
      (hgap : ∀ c ∈ rest.head?, isSpace c = true) (hrest : Spaced ts rest) :
      Spaced (t :: ts) (blanks ++ (word ++ rest))

/-! ## Rows of tokens -/

namespace Printing

def token (t : Token) : Language Token := {[t]}

def keyword (k : Keyword) : Language Token := token (.keyword k)

def symbol (s : Symbol) : Language Token := token (.symbol s)

def word (x : String) : Language Token := token (.name x)

/-- One row of each language, with commas between them. -/
def commas : List (Language Token) → Language Token
  | [] => 1
  | l :: ls => l * (ls.map (symbol .comma * ·)).prod

def optional {α : Type} (f : α → Language Token) : Option α → Language Token
  | none => 1
  | some a => f a

def only (b : Bool) (l : Language Token) : Language Token := if b then l else 1

/-- An expression of the given level where one of level `required` is asked for. -/
def operand (required level : Nat) (l : Language Token) : Language Token :=
  if required ≤ level then l else symbol .openParen * l * symbol .closeParen

end Printing

open Printing

def BinaryOp.token : BinaryOp → Token
  | and => .keyword .AND
  | or => .keyword .OR
  | add => .symbol .plus
  | sub => .symbol .minus
  | mul => .symbol .star
  | div => .symbol .slash
  | mod => .symbol .percent

def BinaryOp.level : BinaryOp → Nat
  | or => 0
  | and => 1
  | add | sub => 4
  | mul | div | mod => 5

def Comparison.printings : Comparison → Language Token
  | eq => symbol .equal
  | ne => symbol .notEqual + symbol .bangEqual
  | lt => symbol .less
  | gt => symbol .greater
  | le => symbol .lessEqual
  | ge => symbol .greaterEqual
  | isIn => keyword .IN
  | contains => keyword .CONTAINS
  | startsWith => keyword .STARTS * keyword .WITH
  | endsWith => keyword .ENDS * keyword .WITH

/-- The level of an expression without parentheses. -/
def Expr.level : Expr → Nat
  | .binary op _ _ => op.level
  | .not _ => 2
  | .compare _ _ _ => 3
  | .nullTest _ _ => 3
  | .negate _ => 6
  | .property _ _ => 7
  | _ => 8

mutual

/-- The rows of tokens of an expression.  Numbers with a fraction are left out. -/
def Expr.printings : Expr → Language Token
  | .var x => word x
  | .property e key => operand 7 e.level e.printings * symbol .dot * word key
  | .null => keyword .NULL
  | .boolean b => keyword (if b then .TRUE else .FALSE)
  | .integer n => token (.integer (Nat.toDigits 10 n))
  | .number _ => 0
  | .text s => token (.quoted (escape s.toList))
  | .list es => symbol .openBracket * commas (Expr.listPrintings es) * symbol .closeBracket
  | .map entries => symbol .openBrace * commas (Expr.entryPrintings entries) * symbol .closeBrace
  | .not e => keyword .NOT * operand 2 e.level e.printings
  | .negate e => symbol .minus * operand 6 e.level e.printings
  | .binary op l r =>
    operand op.level l.level l.printings * token op.token *
      operand (op.level + 1) r.level r.printings
  | .compare op l r =>
    operand 4 l.level l.printings * op.printings * operand 4 r.level r.printings
  | .nullTest negated e =>
    operand 4 e.level e.printings * keyword .IS * only negated (keyword .NOT) * keyword .NULL
  | .call f distinct args =>
    word f * symbol .openParen * only distinct (keyword .DISTINCT) *
      commas (Expr.listPrintings args) * symbol .closeParen
  | .callStar f => word f * symbol .openParen * symbol .star * symbol .closeParen

def Expr.listPrintings : List Expr → List (Language Token)
  | [] => []
  | e :: es => e.printings :: Expr.listPrintings es

def Expr.entryPrintings : List (String × Expr) → List (Language Token)
  | [] => []
  | (key, e) :: entries => (word key * symbol .colon * e.printings) :: Expr.entryPrintings entries

end

theorem Expr.listPrintings_eq (es : List Expr) : Expr.listPrintings es = es.map Expr.printings := by
  induction es with
  | nil => rfl
  | cons e es ih => rw [Expr.listPrintings, ih, List.map_cons]

theorem Expr.entryPrintings_eq (entries : List (String × Expr)) :
    Expr.entryPrintings entries =
      entries.map fun p => word p.1 * symbol .colon * p.2.printings := by
  induction entries with
  | nil => rfl
  | cons p entries ih => rw [Expr.entryPrintings, ih, List.map_cons]

/-! ## Patterns -/

def Properties.printings (entries : Properties) : Language Token := Expr.printings (.map entries)

def NodePattern.printings (n : NodePattern) : Language Token :=
  symbol .openParen * optional word n.name * (n.labels.map (symbol .colon * word ·)).prod *
    optional Properties.printings n.properties * symbol .closeParen

/-- The types of a relationship; the colon of a further type can be left out. -/
def typePrintings : List String → Language Token
  | [] => 1
  | t :: ts =>
    symbol .colon * word t * (ts.map (symbol .bar * (1 + symbol .colon) * word ·)).prod

/-- What stands between the two lines of a relationship.  Brackets with nothing in them can be left
out. -/
def RelationshipPattern.detailPrintings (r : RelationshipPattern) : Language Token :=
  symbol .openBracket * optional word r.name * typePrintings r.types *
      optional Properties.printings r.properties * symbol .closeBracket +
    if r.name.isNone && r.types.isEmpty && r.properties.isNone then 1 else 0

/-- The arrow of a direction around what stands in the middle of it. -/
def Direction.printings (detail : Language Token) : Direction → Language Token
  | outgoing => symbol .minus * detail * symbol .minus * symbol .greater
  | incoming => symbol .less * symbol .minus * detail * symbol .minus
  | both =>
    symbol .minus * detail * symbol .minus +
      symbol .less * symbol .minus * detail * symbol .minus * symbol .greater

def Hop.printings (h : Hop) : Language Token :=
  h.relationship.direction.printings h.relationship.detailPrintings * h.node.printings

def Pattern.printings (p : Pattern) : Language Token :=
  p.first.printings * (p.hops.map Hop.printings).prod

/-! ## Clauses -/

def ReturnItem.printings (i : ReturnItem) : Language Token :=
  i.expr.printings * optional (keyword .AS * word ·) i.asName

def SortOrder.printings : SortOrder → Language Token
  | ascending => 1 + keyword .ASC + keyword .ASCENDING
  | descending => keyword .DESC + keyword .DESCENDING

def SortKey.printings (k : SortKey) : Language Token := k.expr.printings * k.order.printings

def orderPrintings : List SortKey → Language Token
  | [] => 1
  | keys => keyword .ORDER * keyword .BY * commas (keys.map SortKey.printings)

/-- A part of a clause that is an expression behind a keyword, if there is one. -/
def partPrintings (k : Keyword) (e : Option Expr) : Language Token :=
  optional (keyword k * Expr.printings ·) e

/-- A projection with a condition on its result. -/
def Projection.printings (p : Projection) (condition : Option Expr) : Language Token :=
  only p.distinct (keyword .DISTINCT) * commas (p.items.map ReturnItem.printings) *
    partPrintings .WHERE condition * orderPrintings p.orderBy * partPrintings .SKIP p.skip *
    partPrintings .LIMIT p.limit

def Matching.printings (m : Matching) : Language Token :=
  commas (m.patterns.map Pattern.printings) * partPrintings .WHERE m.condition

def Assignment.printings (a : Assignment) : Language Token :=
  word a.name * symbol .dot * word a.key * symbol .equal * a.value.printings

def Action.printings : Action → Language Token
  | .set items => keyword .SET * commas (items.map Assignment.printings)
  | .create p => keyword .CREATE * p.printings

def Loop.printings (l : Loop) : Language Token :=
  symbol .openParen * word l.name * keyword .IN * l.source.printings * symbol .bar *
    (l.actions.map Action.printings).prod * symbol .closeParen

def Clause.printings : Clause → Language Token
  | .matching m => keyword .MATCH * m.printings
  | .passing w => keyword .WITH * w.toProjection.printings w.condition
  | .returning p => keyword .RETURN * p.printings none
  | .looping l => keyword .FOREACH * l.printings

def printings (q : Query) : Language Token :=
  (q.map Clause.printings).prod * (1 + symbol .semicolon)

/-- The texts of a query. -/
def Printed (q : Query) (text : String) : Prop := ∃ ts ∈ q.printings, Spaced ts text.toList

/-! ## Plain queries -/

def Expr.children : Expr → List Expr
  | .property e _ => [e]
  | .list es => es
  | .map entries => entries.map Prod.snd
  | .not e => [e]
  | .negate e => [e]
  | .binary _ l r => [l, r]
  | .compare _ l r => [l, r]
  | .nullTest _ e => [e]
  | .call _ _ args => args
  | _ => []

/-- `p` holds of an expression and of everything inside it. -/
inductive Expr.Every (p : Expr → Prop) : Expr → Prop
  | mk {e : Expr} (self : p e) (inside : ∀ c ∈ e.children, Expr.Every p c) : Expr.Every p e

theorem Expr.Every.self {p : Expr → Prop} {e : Expr} (h : e.Every p) : p e := by
  cases h with
  | mk self _ => exact self

theorem Expr.Every.inside {p : Expr → Prop} {e c : Expr} (h : e.Every p) (hc : c ∈ e.children) :
    c.Every p := by
  cases h with
  | mk _ inside => exact inside c hc

theorem Expr.Every.and {p q : Expr → Prop} {e : Expr} (hp : e.Every p) (hq : e.Every q) :
    e.Every fun s => p s ∧ q s := by
  induction hp with
  | mk self _ ih => exact ⟨⟨self, hq.self⟩, fun c hc => ih c hc (hq.inside hc)⟩

/-- The names and the literal of an expression, apart from what is inside it, are plain: there is no
backslash in a text, an integer is short enough to be read, and there is no number with a fraction. -/
def Expr.PlainTop : Expr → Prop
  | .var x => PlainName x
  | .property _ key => PlainName key
  | .integer n => (Nat.toDigits 10 n).length ≤ Numeral.digitLimit
  | .number _ => False
  | .text s => '\\' ∉ s.toList
  | .map entries => ∀ p ∈ entries, PlainName p.1
  | .call f _ _ => PlainName f
  | .callStar f => PlainName f
  | _ => True

def Expr.Plain (e : Expr) : Prop := e.Every Expr.PlainTop

/-- All names of a clause are plain, and so are its expressions. -/
def Clause.Plain (c : Clause) : Prop := c.Holds PlainName Expr.Plain

/-! ## Every plain query has a text -/

/-- There is a way to write the token. -/
def Token.Written (t : Token) : Prop := ∃ cs, t.Spells cs ∧ cs ≠ []

/-- There is a way to write some row of the language. -/
def Writable (l : Language Token) : Prop := ∃ ts ∈ l, ∀ t ∈ ts, t.Written

theorem PlainName.ne_nil {x : String} (h : PlainName x) : x.toList ≠ [] := by
  intro hx
  have := h.start
  rw [hx] at this
  cases this

section Writable

variable {l m : Language Token} {ls : List (Language Token)}

theorem Writable.one : Writable 1 := ⟨[], rfl, by simp⟩

theorem Writable.token {t : Token} (h : t.Written) : Writable (token t) :=
  ⟨[t], rfl, by simpa using h⟩

theorem Writable.keyword (k : Keyword) : Writable (keyword k) := by
  have h : k.spelling.toList.map Char.toLower = k.spelling.toList ∧ k.spelling.toList ≠ [] := by
    cases k <;> decide
  exact Writable.token ⟨k.spelling.toList, h⟩

theorem Writable.symbol (s : Symbol) : Writable (symbol s) :=
  Writable.token ⟨s.spelling, rfl, by cases s <;> decide⟩

theorem Writable.word {x : String} (hx : PlainName x) : Writable (word x) :=
  Writable.token ⟨x.toList, rfl, hx.ne_nil⟩

theorem Writable.mul (hl : Writable l) (hm : Writable m) : Writable (l * m) := by
  obtain ⟨ts, hts, ht⟩ := hl
  obtain ⟨us, hus, hu⟩ := hm
  refine ⟨ts ++ us, Language.append_mem_mul hts hus, fun t h => ?_⟩
  rcases List.mem_append.mp h with h | h
  · exact ht t h
  · exact hu t h

theorem Writable.add (hl : Writable l) : Writable (l + m) := by
  obtain ⟨ts, hts, ht⟩ := hl
  exact ⟨ts, .inl hts, ht⟩

theorem Writable.prod (h : ∀ l ∈ ls, Writable l) : Writable ls.prod := by
  induction ls with
  | nil => exact Writable.one
  | cons l ls ih =>
    rw [List.prod_cons]
    exact (h l List.mem_cons_self).mul (ih fun m hm => h m (List.mem_cons_of_mem l hm))

theorem Writable.commas (h : ∀ l ∈ ls, Writable l) : Writable (commas ls) := by
  cases ls with
  | nil => exact Writable.one
  | cons l ls =>
    refine (h l List.mem_cons_self).mul (Writable.prod fun m hm => ?_)
    obtain ⟨n, hn, rfl⟩ := List.mem_map.mp hm
    exact (Writable.symbol .comma).mul (h n (List.mem_cons_of_mem l hn))

theorem Writable.optional {α : Type} {f : α → Language Token} {o : Option α}
    (h : ∀ a ∈ o, Writable (f a)) : Writable (optional f o) := by
  cases o with
  | none => exact Writable.one
  | some a => exact h a rfl

theorem Writable.only (b : Bool) (h : Writable l) : Writable (only b l) := by
  cases b with
  | false => exact Writable.one
  | true => exact h

theorem Writable.operand (required level : Nat) (h : Writable l) :
    Writable (operand required level l) := by
  unfold Printing.operand
  split
  · exact h
  · exact ((Writable.symbol _).mul h).mul (Writable.symbol _)

end Writable

theorem Expr.Plain.writable {e : Expr} (h : e.Plain) : Writable e.printings := by
  induction h with
  | @mk e hself _ ih =>
    have hchild {required : Nat} {c : Expr} (hc : c ∈ e.children) :
        Writable (operand required c.level c.printings) := (ih c hc).operand _ _
    cases e with
    | var x => exact .word hself
    | property c key => exact ((hchild List.mem_cons_self).mul (.symbol _)).mul (.word hself)
    | null => exact .keyword _
    | boolean b => exact .keyword _
    | integer n => exact .token ⟨_, rfl, Nat.toDigits_ne_nil⟩
    | number x => exact hself.elim
    | text s => exact .token ⟨_, rfl, by simp⟩
    | list es =>
      refine ((Writable.symbol _).mul (.commas fun l hl => ?_)).mul (.symbol _)
      rw [Expr.listPrintings_eq] at hl
      obtain ⟨c, hc, rfl⟩ := List.mem_map.mp hl
      exact ih c hc
    | map entries =>
      refine ((Writable.symbol _).mul (.commas fun l hl => ?_)).mul (.symbol _)
      rw [Expr.entryPrintings_eq] at hl
      obtain ⟨p, hp, rfl⟩ := List.mem_map.mp hl
      exact ((Writable.word (hself p hp)).mul (.symbol _)).mul (ih p.2 (List.mem_map_of_mem hp))
    | not c => exact (Writable.keyword _).mul (hchild List.mem_cons_self)
    | negate c => exact (Writable.symbol _).mul (hchild List.mem_cons_self)
    | binary op l r =>
      refine ((hchild List.mem_cons_self).mul ?_).mul (hchild (by simp [Expr.children]))
      cases op <;> first | exact .keyword _ | exact .symbol _
    | compare op l r =>
      refine ((hchild List.mem_cons_self).mul ?_).mul (hchild (by simp [Expr.children]))
      cases op with
      | ne => exact (Writable.symbol _).add
      | startsWith => exact (Writable.keyword _).mul (.keyword _)
      | endsWith => exact (Writable.keyword _).mul (.keyword _)
      | _ => first | exact .keyword _ | exact .symbol _
    | nullTest negated c =>
      exact (((hchild List.mem_cons_self).mul (.keyword _)).mul (.only _ (.keyword _))).mul
        (.keyword _)
    | call f distinct args =>
      refine ((((Writable.word hself).mul (.symbol _)).mul (.only _ (.keyword _))).mul
        (.commas fun l hl => ?_)).mul (.symbol _)
      rw [Expr.listPrintings_eq] at hl
      obtain ⟨c, hc, rfl⟩ := List.mem_map.mp hl
      exact ih c hc
    | callStar f => exact (((Writable.word hself).mul (.symbol _)).mul (.symbol _)).mul (.symbol _)

theorem NodePattern.Holds.writable {n : NodePattern} (h : n.Holds PlainName Expr.Plain) :
    Writable n.printings := by
  refine ((((Writable.symbol _).mul (.optional fun x hx => .word (h.name x hx))).mul
    (.prod fun l hl => ?_)).mul (.optional fun entries he => (h.properties entries he).writable)).mul
    (.symbol _)
  obtain ⟨x, hx, rfl⟩ := List.mem_map.mp hl
  exact (Writable.symbol _).mul (.word (h.labels x hx))

theorem RelationshipPattern.Holds.writable {r : RelationshipPattern}
    (h : r.Holds PlainName Expr.Plain) : Writable (r.direction.printings r.detailPrintings) := by
  have htypes : Writable (typePrintings r.types) := by
    have hnames := h.types
    generalize r.types = types at hnames
    cases types with
    | nil => exact .one
    | cons t types =>
      refine ((Writable.symbol _).mul (.word (hnames t List.mem_cons_self))).mul
        (.prod fun l hl => ?_)
      obtain ⟨u, hu, rfl⟩ := List.mem_map.mp hl
      exact ((Writable.symbol _).mul Writable.one.add).mul
        (.word (hnames u (List.mem_cons_of_mem t hu)))
  have hdetail : Writable r.detailPrintings :=
    ((((Writable.symbol _).mul (.optional fun x hx => .word (h.name x hx))).mul htypes).mul
      (.optional fun entries he => (h.properties entries he).writable)).mul (.symbol _) |>.add
  cases r.direction with
  | outgoing => exact (((Writable.symbol _).mul hdetail).mul (.symbol _)).mul (.symbol _)
  | incoming => exact (((Writable.symbol _).mul (.symbol _)).mul hdetail).mul (.symbol _)
  | both => exact (((Writable.symbol _).mul hdetail).mul (.symbol _)).add

theorem Pattern.Holds.writable {p : Pattern} (h : p.Holds PlainName Expr.Plain) :
    Writable p.printings := by
  refine (h.first.writable).mul (.prod fun l hl => ?_)
  obtain ⟨hop, hhop, rfl⟩ := List.mem_map.mp hl
  exact ((h.hops hop hhop).relationship.writable).mul ((h.hops hop hhop).node.writable)

theorem writable_part {k : Keyword} {o : Option Expr} (h : ∀ e ∈ o, e.Plain) :
    Writable (partPrintings k o) :=
  .optional fun e he => (Writable.keyword _).mul ((h e he).writable)

theorem Projection.Holds.writable {p : Projection} (h : p.Holds PlainName Expr.Plain)
    {condition : Option Expr} (hcondition : ∀ e ∈ condition, e.Plain) :
    Writable (p.printings condition) := by
  have hitems : Writable (commas (p.items.map ReturnItem.printings)) := by
    refine .commas fun l hl => ?_
    obtain ⟨i, hi, rfl⟩ := List.mem_map.mp hl
    exact (h.items i hi).expr.writable.mul
      (.optional fun x hx => (Writable.keyword _).mul (.word ((h.items i hi).asName x hx)))
  have horder : Writable (orderPrintings p.orderBy) := by
    have hkeys := h.orderBy
    generalize p.orderBy = keys at hkeys
    cases keys with
    | nil => exact .one
    | cons k keys =>
      refine ((Writable.keyword _).mul (.keyword _)).mul (.commas fun l hl => ?_)
      obtain ⟨j, hj, rfl⟩ := List.mem_map.mp hl
      refine ((hkeys j hj).writable).mul ?_
      cases j.order with
      | ascending => exact Writable.one.add.add
      | descending => exact (Writable.keyword _).add
  exact (((((Writable.only _ (.keyword _)).mul hitems).mul (writable_part hcondition)).mul
    horder).mul (writable_part h.skip)).mul (writable_part h.limit)

theorem Action.Holds.writable {a : Action} (h : a.Holds PlainName Expr.Plain) :
    Writable a.printings := by
  cases a with
  | set items =>
    refine (Writable.keyword _).mul (.commas fun l hl => ?_)
    obtain ⟨a, ha, rfl⟩ := List.mem_map.mp hl
    exact ((((Writable.word (h a ha).name).mul (.symbol _)).mul (.word (h a ha).key)).mul
      (.symbol _)).mul ((h a ha).value.writable)
  | create p => exact (Writable.keyword _).mul (Pattern.Holds.writable h)

theorem Clause.Holds.writable {c : Clause} (h : c.Holds PlainName Expr.Plain) :
    Writable c.printings := by
  cases c with
  | matching m =>
    have hm : m.Holds PlainName Expr.Plain := h
    refine (Writable.keyword _).mul ((Writable.commas fun l hl => ?_).mul
      (writable_part hm.condition))
    obtain ⟨p, hp, rfl⟩ := List.mem_map.mp hl
    exact (hm.patterns p hp).writable
  | passing w =>
    have hw : w.Holds PlainName Expr.Plain := h
    exact (Writable.keyword _).mul (hw.projection.writable hw.condition)
  | returning p =>
    have hp : p.Holds PlainName Expr.Plain := h
    exact (Writable.keyword _).mul (hp.writable (by simp))
  | looping l =>
    have hl : l.Holds PlainName Expr.Plain := h
    refine (Writable.keyword _).mul (((((((Writable.symbol _).mul (.word hl.name)).mul
      (.keyword _)).mul (hl.source.writable)).mul (.symbol _)).mul (.prod fun l' hl' => ?_)).mul
      (.symbol _))
    obtain ⟨a, ha, rfl⟩ := List.mem_map.mp hl'
    exact Action.Holds.writable (hl.actions a ha)

theorem exists_spaced {ts : List Token} (h : ∀ t ∈ ts, t.Written) :
    ∃ text, Spaced ts text ∧ ∀ c ∈ text.head?, isSpace c = true := by
  induction ts with
  | nil => exact ⟨[], .nil (by simp), by simp⟩
  | cons t ts ih =>
    obtain ⟨rest, hrest, hgap⟩ := ih fun u hu => h u (List.mem_cons_of_mem t hu)
    obtain ⟨cs, hspells, hne⟩ := h t List.mem_cons_self
    exact ⟨[' '] ++ (cs ++ rest), .cons (by decide) hspells hne hgap hrest, by simp [isSpace]⟩

/-- **A plain query has a text.** -/
theorem exists_printed {q : Query} (h : ∀ c ∈ q, c.Plain) : ∃ text, q.Printed text := by
  have hclauses : Writable (q.map Clause.printings).prod := by
    refine .prod fun l hl => ?_
    obtain ⟨c, hc, rfl⟩ := List.mem_map.mp hl
    exact Clause.Holds.writable (h c hc)
  obtain ⟨ts, hts, hwritten⟩ := hclauses.mul (Writable.one.add (m := symbol .semicolon))
  obtain ⟨text, htext, -⟩ := exists_spaced hwritten
  exact ⟨String.ofList text, ts, hts, by rwa [String.toList_ofList]⟩

end GraphSql.Query
