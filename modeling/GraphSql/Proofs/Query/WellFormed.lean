import GraphSql.Proofs.Query.Parsed

/-!
# Queries that were read are well formed

The types of expressions and clauses keep out much of what no text spells.  Here a query is seen as a
tree of records whose types keep out nothing: operators are texts, the right side of a comparison can
be missing, all rows are a variable `*` among the arguments of a call, an integer can be negative, a
pattern has a list of nodes and a list of relationships, the sort keys can be missing or be an empty
list, and an action is a clause like any other (`ClauseTree`).  `ClauseTree.WellFormed` says which of
these trees the rest of the program can work with, and the tree of every query that was read from a
text is one of them (`wellFormed_of_parse`).
-/

namespace GraphSql.Query

/-! ## Trees -/

inductive ExprTree where
  | var (name : String)
  | property (of : ExprTree) (key : String)
  | null
  | boolean (b : Bool)
  | integer (n : Int)
  | number (x : Binary64)
  | text (s : String)
  | list (elements : List ExprTree)
  | map (entries : List (String × ExprTree))
  | unary (op : String) (operand : ExprTree)
  | binary (op : String) (left right : ExprTree)
  | comparison (op : String) (left : ExprTree) (right : Option ExprTree)
  | call (function : String) (arguments : List ExprTree) (distinct : Bool)

structure NodeTree where
  name : Option String
  labels : List String
  properties : Option ExprTree

structure RelationshipTree where
  name : Option String
  types : List String
  properties : Option ExprTree
  direction : Direction

structure PatternTree where
  nodes : List NodeTree
  relationships : List RelationshipTree

structure ProjectionTree where
  items : List (ExprTree × Option String)
  distinct : Bool
  orderBy : Option (List (ExprTree × SortOrder))
  skip : Option ExprTree
  limit : Option ExprTree

structure AssignmentTree where
  name : String
  key : String
  value : ExprTree

inductive ClauseTree where
  | matching (patterns : List PatternTree) (condition : Option ExprTree)
  | passing (projection : ProjectionTree) (condition : Option ExprTree)
  | returning (projection : ProjectionTree)
  | looping (name : String) (source : ExprTree) (actions : List ClauseTree)
  | set (items : List AssignmentTree)
  | create (pattern : PatternTree)

mutual

/-- The tree of an expression. -/
def Expr.tree : Expr → ExprTree
  | .var name => .var name
  | .property e key => .property e.tree key
  | .null => .null
  | .boolean b => .boolean b
  | .integer n => .integer n
  | .number x => .number x
  | .text s => .text s
  | .list es => .list (Expr.trees es)
  | .map entries => .map (Expr.entryTrees entries)
  | .not e => .unary "NOT" e.tree
  | .negate e => .unary "-" e.tree
  | .binary op l r => .binary op.text l.tree r.tree
  | .compare op l r => .comparison op.text l.tree (some r.tree)
  | .nullTest negated e => .comparison (if negated then "IS NOT NULL" else "IS NULL") e.tree none
  | .call f distinct args => .call f (Expr.trees args) distinct
  | .callStar f => .call f [.var "*"] false

def Expr.trees : List Expr → List ExprTree
  | [] => []
  | e :: es => e.tree :: Expr.trees es

def Expr.entryTrees : List (String × Expr) → List (String × ExprTree)
  | [] => []
  | (key, e) :: entries => (key, e.tree) :: Expr.entryTrees entries

end

theorem Expr.trees_eq (es : List Expr) : Expr.trees es = es.map Expr.tree := by
  induction es with
  | nil => rfl
  | cons e es ih => rw [Expr.trees, ih, List.map_cons]

theorem Expr.entryTrees_eq (entries : List (String × Expr)) :
    Expr.entryTrees entries = entries.map fun p => (p.1, p.2.tree) := by
  induction entries with
  | nil => rfl
  | cons p entries ih => rw [Expr.entryTrees, ih, List.map_cons]

def NodePattern.tree (n : NodePattern) : NodeTree where
  name := n.name
  labels := n.labels
  properties := n.properties.map fun entries => Expr.tree (.map entries)

def RelationshipPattern.tree (r : RelationshipPattern) : RelationshipTree where
  name := r.name
  types := r.types
  properties := r.properties.map fun entries => Expr.tree (.map entries)
  direction := r.direction

def Pattern.tree (p : Pattern) : PatternTree where
  nodes := p.nodes.map NodePattern.tree
  relationships := p.relationships.map RelationshipPattern.tree

/-- The sort keys; no order is asked for when there are none. -/
def orderTree : List SortKey → Option (List (ExprTree × SortOrder))
  | [] => none
  | keys => some (keys.map fun k => (k.expr.tree, k.order))

def Projection.tree (p : Projection) : ProjectionTree where
  items := p.items.map fun i => (i.expr.tree, i.asName)
  distinct := p.distinct
  orderBy := orderTree p.orderBy
  skip := p.skip.map Expr.tree
  limit := p.limit.map Expr.tree

def Assignment.tree (a : Assignment) : AssignmentTree where
  name := a.name
  key := a.key
  value := a.value.tree

def Action.tree : Action → ClauseTree
  | .set items => .set (items.map Assignment.tree)
  | .create p => .create p.tree

def Clause.tree : Clause → ClauseTree
  | .matching m => .matching (m.patterns.map Pattern.tree) (m.condition.map Expr.tree)
  | .passing w => .passing w.toProjection.tree (w.condition.map Expr.tree)
  | .returning p => .returning p.tree
  | .looping l => .looping l.name l.source.tree (l.actions.map Action.tree)

/-! ## Well-formed trees -/

/-- A text that is no reserved word, whatever the letter case of its ASCII letters. -/
def Unreserved (x : String) : Prop :=
  ∀ k ∈ Keyword.reserved, x.toList.map Char.toLower ≠ k.spelling.toList

/-- One rule for each kind of expression.  A variable `*` stands only where the last rule puts it. -/
inductive ExprTree.WellFormed : ExprTree → Prop
  | var {x : String} (hstar : x ≠ "*") (hx : Unreserved x) : WellFormed (.var x)
  | property {e : ExprTree} {key : String} (he : WellFormed e) (hkey : Unreserved key) :
      WellFormed (.property e key)
  | null : WellFormed .null
  | boolean {b : Bool} : WellFormed (.boolean b)
  | integer {n : Int} (hn : 0 ≤ n) : WellFormed (.integer n)
  | number {x : Binary64} : WellFormed (.number x)
  | text {s : String} : WellFormed (.text s)
  | list {es : List ExprTree} (hes : ∀ e ∈ es, WellFormed e) : WellFormed (.list es)
  | map {entries : List (String × ExprTree)} (hkeys : ∀ p ∈ entries, Unreserved p.1)
      (hvalues : ∀ p ∈ entries, WellFormed p.2) : WellFormed (.map entries)
  | unary {op : String} {e : ExprTree} (hop : op ∈ ["NOT", "-"]) (he : WellFormed e) :
      WellFormed (.unary op e)
  | binary {op : String} {l r : ExprTree} (hop : op ∈ ["AND", "OR", "+", "-", "*", "/", "%"])
      (hl : WellFormed l) (hr : WellFormed r) : WellFormed (.binary op l r)
  | compare {op : String} {l r : ExprTree}
      (hop : op ∈ ["=", "<>", "<", ">", "<=", ">=", "IN", "CONTAINS", "STARTS WITH", "ENDS WITH"])
      (hl : WellFormed l) (hr : WellFormed r) : WellFormed (.comparison op l (some r))
  | nullTest {op : String} {e : ExprTree} (hop : op ∈ ["IS NULL", "IS NOT NULL"])
      (he : WellFormed e) : WellFormed (.comparison op e none)
  | call {f : String} {args : List ExprTree} {distinct : Bool} (hf : Unreserved f)
      (hargs : ∀ e ∈ args, WellFormed e) : WellFormed (.call f args distinct)
  | callStar {f : String} (hf : Unreserved f) : WellFormed (.call f [.var "*"] false)

structure NodeTree.WellFormed (n : NodeTree) : Prop where
  name : ∀ x ∈ n.name, Unreserved x
  labels : ∀ l ∈ n.labels, Unreserved l
  properties : ∀ e ∈ n.properties, e.WellFormed

structure RelationshipTree.WellFormed (r : RelationshipTree) : Prop where
  name : ∀ x ∈ r.name, Unreserved x
  types : ∀ t ∈ r.types, Unreserved t
  properties : ∀ e ∈ r.properties, e.WellFormed

structure PatternTree.WellFormed (p : PatternTree) : Prop where
  length : p.nodes.length = p.relationships.length + 1
  nodes : ∀ n ∈ p.nodes, n.WellFormed
  relationships : ∀ r ∈ p.relationships, r.WellFormed

structure ProjectionTree.WellFormed (p : ProjectionTree) : Prop where
  items_ne_nil : p.items ≠ []
  items : ∀ i ∈ p.items, i.1.WellFormed ∧ ∀ x ∈ i.2, Unreserved x
  orderBy : ∀ keys ∈ p.orderBy, keys ≠ [] ∧ ∀ k ∈ keys, k.1.WellFormed
  skip : ∀ e ∈ p.skip, e.WellFormed
  limit : ∀ e ∈ p.limit, e.WellFormed

structure AssignmentTree.WellFormed (a : AssignmentTree) : Prop where
  name : Unreserved a.name
  key : Unreserved a.key
  value : a.value.WellFormed

/-- A clause that can stand inside a loop. -/
def ClauseTree.WellFormedAction : ClauseTree → Prop
  | .set items => items ≠ [] ∧ ∀ a ∈ items, a.WellFormed
  | .create p => p.WellFormed
  | _ => False

/-- A clause that can stand in a query. -/
def ClauseTree.WellFormed : ClauseTree → Prop
  | .matching patterns condition =>
    patterns ≠ [] ∧ (∀ p ∈ patterns, p.WellFormed) ∧ ∀ e ∈ condition, e.WellFormed
  | .passing p condition => p.WellFormed ∧ ∀ e ∈ condition, e.WellFormed
  | .returning p => p.WellFormed
  | .looping name source actions =>
    Unreserved name ∧ source.WellFormed ∧ actions ≠ [] ∧ ∀ a ∈ actions, a.WellFormedAction
  | .set _ => False
  | .create _ => False

/-! ## Names -/

/-- A name of a query: neither reserved nor `*`. -/
structure Free (x : String) : Prop where
  unreserved : Unreserved x
  ne_star : x ≠ "*"

/-- A reserved word is scanned as a name only when a digit follows it. -/
theorem not_isReserved_of_scanName {cs word rest : List Char}
    (h : scanName cs = some (word, rest)) (hrest : Parser.Ends rest) : isReserved word = false := by
  unfold scanName at h
  split at h
  · cases h
  · rename_i c cs
    dsimp only at h
    split_ifs at h with hstart hreserved
    cases h
    have hdigit : ((c :: cs).dropWhile isNameChar).head?.any Text.isDigit = false := by
      simpa [Option.any_eq_false, Parser.Ends] using hrest
    simpa [hdigit] using hreserved

theorem free_of_isName {x : String} (h : Parser.IsName x) : Free x := by
  obtain ⟨cs, word, rest, hscan, hrest, rfl⟩ := id h
  refine ⟨fun k hk hx => ?_, ?_⟩
  · have hword : isReserved word = true :=
      isReserved_of_spells hk (map_foldChar_of_spells (by simpa using hx))
    rw [not_isReserved_of_scanName hscan hrest] at hword
    cases hword
  · intro hstar
    have hwordy := wordy_of_isName h
    rw [hstar] at hwordy
    exact absurd hwordy (by decide)

/-! ## Trees of queries -/

theorem BinaryOp.text_mem (op : BinaryOp) : op.text ∈ ["AND", "OR", "+", "-", "*", "/", "%"] := by
  cases op <;> decide

theorem Comparison.text_mem (op : Comparison) : op.text ∈
    ["=", "<>", "<", ">", "<=", ">=", "IN", "CONTAINS", "STARTS WITH", "ENDS WITH"] := by
  cases op <;> decide

abbrev Expr.WellFormed (e : Expr) : Prop := e.tree.WellFormed

/-- The trees of expressions with such names are well formed. -/
theorem Closed.wellFormed : Closed Free Expr.WellFormed where
  var h := .var h.ne_star h.unreserved
  property he hkey := .property he hkey.unreserved
  null := .null
  boolean := .boolean
  integer := .integer (Int.natCast_nonneg _)
  number := .number
  text := .text
  list {es} hes := by
    rw [Expr.WellFormed, Expr.tree, Expr.trees_eq]
    exact .list (List.forall_mem_map.mpr hes)
  map {entries} _ hentries := by
    rw [Expr.WellFormed, Expr.tree, Expr.entryTrees_eq]
    exact .map (List.forall_mem_map.mpr fun p hp => (hentries p hp).1.unreserved)
      (List.forall_mem_map.mpr fun p hp => (hentries p hp).2)
  not he := .unary (by decide) he
  negate he := .unary (by decide) he
  binary hl hr := .binary (BinaryOp.text_mem _) hl hr
  compare hl hr := .compare (Comparison.text_mem _) hl hr
  nullTest {negated} e he := .nullTest (by cases negated <;> decide) he
  call {f distinct args} hf hargs := by
    rw [Expr.WellFormed, Expr.tree, Expr.trees_eq]
    exact .call hf.unreserved (List.forall_mem_map.mpr hargs)
  callStar hf := .callStar hf.unreserved

theorem NodePattern.Holds.wellFormed {n : NodePattern} (h : n.Holds Free Expr.WellFormed) :
    n.tree.WellFormed where
  name x hx := (h.name x hx).unreserved
  labels l hl := (h.labels l hl).unreserved
  properties := Option.forall_mem_map.mpr h.properties

theorem RelationshipPattern.Holds.wellFormed {r : RelationshipPattern}
    (h : r.Holds Free Expr.WellFormed) : r.tree.WellFormed where
  name x hx := (h.name x hx).unreserved
  types t ht := (h.types t ht).unreserved
  properties := Option.forall_mem_map.mpr h.properties

theorem Pattern.Holds.wellFormed {p : Pattern} (h : p.Holds Free Expr.WellFormed) :
    p.tree.WellFormed where
  length := by simp [Pattern.tree, Pattern.nodes, Pattern.relationships]
  nodes := by
    refine List.forall_mem_map.mpr fun n hn => NodePattern.Holds.wellFormed ?_
    rcases List.mem_cons.mp hn with rfl | hn
    · exact h.first
    · obtain ⟨hop, hhop, rfl⟩ := List.mem_map.mp hn
      exact (h.hops hop hhop).node
  relationships := by
    refine List.forall_mem_map.mpr fun r hr => RelationshipPattern.Holds.wellFormed ?_
    obtain ⟨hop, hhop, rfl⟩ := List.mem_map.mp hr
    exact (h.hops hop hhop).relationship

/-- Sort keys that are asked for are not an empty list. -/
theorem orderTree_wellFormed {keys : List SortKey} (h : ∀ k ∈ keys, k.expr.WellFormed) :
    ∀ ts ∈ orderTree keys, ts ≠ [] ∧ ∀ t ∈ ts, t.1.WellFormed := by
  cases keys with
  | nil => simp [orderTree]
  | cons k keys =>
    intro ts hts
    obtain rfl := Option.some.inj hts
    exact ⟨by simp, List.forall_mem_map.mpr h⟩

theorem Projection.Holds.wellFormed {p : Projection} (h : p.Holds Free Expr.WellFormed)
    (hitems : p.items ≠ []) : p.tree.WellFormed where
  items_ne_nil := by simpa [Projection.tree] using hitems
  items := List.forall_mem_map.mpr fun i hi =>
    ⟨(h.items i hi).expr, fun x hx => ((h.items i hi).asName x hx).unreserved⟩
  orderBy := orderTree_wellFormed h.orderBy
  skip := Option.forall_mem_map.mpr h.skip
  limit := Option.forall_mem_map.mpr h.limit

theorem Action.Holds.wellFormed {a : Action} (h : a.Holds Free Expr.WellFormed) (hformed : a.Formed) :
    a.tree.WellFormedAction := by
  cases a with
  | set items =>
    refine ⟨by simpa [Action.Formed] using hformed, List.forall_mem_map.mpr fun a ha => ?_⟩
    exact ⟨(h a ha).name.unreserved, (h a ha).key.unreserved, (h a ha).value⟩
  | create p => exact Pattern.Holds.wellFormed h

theorem Clause.Holds.wellFormed {c : Clause} (h : c.Holds Free Expr.WellFormed) (hformed : c.Formed) :
    c.tree.WellFormed := by
  cases c with
  | matching m =>
    exact ⟨by simpa [Clause.Formed] using hformed,
      List.forall_mem_map.mpr fun p hp => (h.patterns p hp).wellFormed,
      Option.forall_mem_map.mpr h.condition⟩
  | passing w => exact ⟨h.projection.wellFormed hformed, Option.forall_mem_map.mpr h.condition⟩
  | returning p => exact Projection.Holds.wellFormed h hformed
  | looping l =>
    exact ⟨h.name.unreserved, h.source, by simpa using hformed.1,
      List.forall_mem_map.mpr fun a ha => (h.actions a ha).wellFormed (hformed.2 a ha)⟩

/-- **The tree of every query that was read from a text is well formed.** -/
theorem wellFormed_of_parse {text : String} {q : Query} (h : parse text = .ok q) :
    q ≠ [] ∧ ∀ c ∈ q, c.tree.WellFormed := by
  obtain ⟨hne, hclauses⟩ := holds_of_parse (fun _ => free_of_isName) Closed.wellFormed h
  exact ⟨hne, fun c hc => (hclauses c hc).1.wellFormed (hclauses c hc).2⟩

/-- A reserved word that a digit of another script follows is scanned as a name, and the text is then
refused at that digit. -/
example : scanName "match٣".toList = some ("match".toList, "٣".toList) ∧
    (parse "RETURN match٣").toOption.isNone = true := by
  decide +kernel

/-- A text with all kinds of clauses, some of its keywords in small letters. -/
def likesText : String :=
  "match (n:Person)<-[r:KNOWS|:LIKES]-(m \x7bage: 3\x7d) where n.name is not null and not m.age = - 3 "
    ++ "with distinct n as x where x.age in [1, 2] order by x desc "
    ++ "FOREACH (i IN [1, 2] | SET x.age = i CREATE (x)-[:KNOWS]->(x)) "
    ++ "RETURN Count(*) AS total, \x7bkey: [1, 'a']\x7d ORDER BY total LIMIT 2"

theorem wellFormed_of_parse_likes :
    ∃ q, parse likesText = .ok q ∧ q.length = 4 ∧ q ≠ [] ∧ ∀ c ∈ q, c.tree.WellFormed := by
  have hlength : (parse likesText).toOption.map List.length = some 4 := by decide +kernel
  obtain ⟨q, hq, hfour⟩ := Option.map_eq_some_iff.mp hlength
  have hparse := Except.eq_ok_of_toOption hq
  exact ⟨q, hparse, hfour, wellFormed_of_parse hparse⟩

end GraphSql.Query
