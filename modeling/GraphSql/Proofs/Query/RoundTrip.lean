import GraphSql.Proofs.Query.ExprRoundTrip
import GraphSql.Proofs.Query.Parsed

/-!
# Reading printed queries

Each rule of the grammar reads the rows of tokens that its trees are printed as.  What may follow a
part is what makes it end there: one of a few symbols behind the parts of a pattern (`OneOf`), and a
part of a later stage behind the parts of a clause (`From`).  The rules up to `reads_query` are put
together in `parse_of_printed`: among the plain queries those of the grammar are the formed ones, and
every text of such a query is read as that query.
-/

namespace GraphSql.Query.Parser

open Printing

variable {d : Nat} {ts us : List Token} {r : RelationshipPattern} {n : Nat} {symbols : List Symbol}

/-! ## Patterns -/

/-- One of the given symbols. -/
def OneOf (symbols : List Symbol) (t : Token) : Prop := ∃ s ∈ symbols, t = .symbol s

theorem OneOf.fits {expecting : Expecting} (t : Token) (h : OneOf symbols t) :
    t.Fits expecting := by
  obtain ⟨s, -, rfl⟩ := h
  cases expecting <;> trivial

theorem Front.ne_symbol (h : Front (OneOf symbols) us) {s : Symbol} (hs : s ∉ symbols) :
    front us ≠ .symbol s := by
  refine h.front_ne ?_ (by simp)
  rintro ⟨s', hs', he⟩
  cases he
  exact hs hs'

theorem reads_name? {o : Option String} (ho : ∀ x ∈ o, PlainName x) (hts : ts ∈ optional word o)
    (hus : Front (OneOf symbols) us) : Reads d name? ts us o := by
  cases o with
  | some x =>
    obtain rfl := hts
    refine Reads.peek_bind (Front.cons (ho x rfl)) ?_
    exact Reads.bind_last (Reads.name (ho x rfl)) (Reads.pure _)
  | none =>
    obtain rfl := hts
    refine Reads.peek_bind_nil (hus.mono OneOf.fits) ?_
    split
    · rename_i x hx
      refine absurd hx (hus.front_ne ?_ (by simp))
      rintro ⟨s, -, he⟩
      cases he
    · exact Reads.pure none

theorem reads_properties? (symbols : List Symbol) {o : Option Properties}
    (ho : ∀ entries ∈ o, (Expr.map entries).Printable) (hsymbols : .openBrace ∉ symbols)
    (hts : ts ∈ optional Properties.printings o) (hus : Front (OneOf symbols) us) :
    Reads d properties? ts us o := by
  cases o with
  | none =>
    obtain rfl := hts
    exact Reads.after_none (hus.mono OneOf.fits) (Front.ne_symbol hus hsymbols)
  | some entries =>
    have hentries := ho entries rfl
    replace hts : ts ∈ (Expr.map entries).printings := hts
    rw [Expr.printings, mul_assoc] at hts
    obtain ⟨_, rfl, _, ⟨ts, hts, _, rfl, rfl⟩, rfl⟩ := hts
    exact Reads.after trivial (reads_mapEntries readsLevel_expression hentries hts)

theorem OneOf.mono {xs ys : List Symbol} (h : xs ⊆ ys) (t : Token) (ht : OneOf xs t) :
    OneOf ys t := by
  obtain ⟨s, hs, rfl⟩ := ht
  exact ⟨s, h hs, rfl⟩

theorem OneOf.self {s : Symbol} (h : s ∈ symbols) : OneOf symbols (.symbol s) := ⟨s, h, rfl⟩

/-- Properties start with a brace. -/
theorem starts_properties {entries : Properties} (hts : ts ∈ entries.printings) :
    Starts (OneOf [.openBrace]) ts := by
  replace hts : ts ∈ (Expr.map entries).printings := hts
  rw [Expr.printings, mul_assoc] at hts
  obtain ⟨_, rfl, _, -, rfl⟩ := hts
  exact Starts.cons (OneOf.self (by simp))

/-- Behind a closing symbol, properties start with a brace or are left out. -/
theorem front_properties {ps : List Token} {o : Option Properties}
    (hps : ps ∈ optional Properties.printings o) (close : Symbol) (us : List Token) :
    Front (OneOf [.openBrace, close]) (ps ++ ([Token.symbol close] ++ us)) := by
  refine (Front.cons (OneOf.self (by simp))).optional (fun entries _ ts hts => ?_) hps
  exact (starts_properties hts).mono (OneOf.mono (by simp))

theorem reads_labels (symbols : List Symbol) {labels : List String}
    (hlabels : ∀ l ∈ labels, PlainName l) (hsymbols : .colon ∉ symbols)
    (hts : ts ∈ (labels.map (symbol .colon * word ·)).prod) (hus : Front (OneOf symbols) us) :
    Reads d (many (after .mark (.symbol .colon) name)) ts us labels := by
  refine Reads.many (S := Token.Fits .mark) ?_ (hus.mono OneOf.fits)
    (Reads.after_none (hus.mono OneOf.fits) (Front.ne_symbol hus hsymbols)) hts
  rintro l hl _ ⟨_, rfl, _, rfl, rfl⟩
  exact ⟨Starts.cons trivial, fun vs _ => Reads.after trivial (Reads.name (hlabels l hl))⟩

theorem reads_nodePattern {n : NodePattern} (hn : n.Holds PlainName Expr.Printable)
    (hts : ts ∈ n.printings) : Reads d nodePattern ts us n := by
  simp only [NodePattern.printings, mul_assoc] at hts
  obtain ⟨_, rfl, _, ⟨ns, hns, _, ⟨ls, hls, _, ⟨ps, hps, _, rfl, rfl⟩, rfl⟩, rfl⟩, rfl⟩ := hts
  have hclose : Front (OneOf [.closeParen]) ([Token.symbol .closeParen] ++ us) :=
    Front.cons (OneOf.self (by simp))
  have hprops := front_properties hps .closeParen us
  have hlabels : Front (OneOf [.colon, .openBrace, .closeParen])
      (ls ++ (ps ++ ([Token.symbol .closeParen] ++ us))) := by
    refine (hprops.mono (OneOf.mono (by simp))).prod (fun l _ ts hts => ?_) hls
    obtain ⟨_, rfl, _, rfl, rfl⟩ := hts
    exact Starts.cons (OneOf.self (by simp))
  refine Reads.bind_cons (Reads.expect trivial) ?_
  refine Reads.bind (reads_name? hn.name hns (by simpa only [List.append_assoc] using hlabels)) ?_
  refine Reads.bind (reads_labels [.openBrace, .closeParen] hn.labels (by simp) hls
    (by simpa only [List.append_assoc] using hprops)) ?_
  refine Reads.bind (reads_properties? [.closeParen] hn.properties (by simp) hps hclose) ?_
  exact Reads.bind_cons (Reads.expect trivial) (Reads.pure _)

theorem reads_furtherType {t : String} (ht : PlainName t)
    (hts : ts ∈ (1 + symbol .colon) * word t) : Reads d furtherType ts us t := by
  obtain ⟨cs, hcs, _, rfl, rfl⟩ := hts
  rcases hcs with rfl | rfl
  · exact Reads.bind_nil (Reads.accept_none (Front.cons ht) (front_cons_ne (by simp)))
      (Reads.name ht)
  · exact Reads.bind_cons (Reads.accept trivial) (Reads.name ht)

theorem starts_types {types : List String} (hne : types ≠ []) (hts : ts ∈ typePrintings types) :
    Starts (OneOf [.colon]) ts := by
  cases types with
  | nil => exact absurd rfl hne
  | cons t types =>
    rw [typePrintings, mul_assoc] at hts
    obtain ⟨_, rfl, _, -, rfl⟩ := hts
    exact Starts.cons (OneOf.self (by simp))

theorem reads_types (symbols : List Symbol) {types : List String}
    (htypes : ∀ t ∈ types, PlainName t) (hcolon : .colon ∉ symbols) (hbar : .bar ∉ symbols)
    (hts : ts ∈ typePrintings types) (hus : Front (OneOf symbols) us) :
    Reads d relationshipTypes ts us types := by
  cases types with
  | nil =>
    obtain rfl := hts
    exact Reads.bind_nil (Reads.after_none (hus.mono OneOf.fits) (Front.ne_symbol hus hcolon))
      (Reads.pure [])
  | cons t types =>
    rw [typePrintings] at hts
    obtain ⟨_, ⟨_, rfl, _, rfl, rfl⟩, vs, hvs, rfl⟩ := hts
    refine Reads.bind (Reads.after trivial (Reads.name (htypes t List.mem_cons_self))) ?_
    refine Reads.bind_last (Reads.many (S := Token.Fits .mark) ?_ (hus.mono OneOf.fits)
      (Reads.after_none (hus.mono OneOf.fits) (Front.ne_symbol hus hbar)) hvs) (Reads.pure _)
    intro u hu ts hts
    rw [mul_assoc] at hts
    obtain ⟨_, rfl, ts, hts, rfl⟩ := hts
    exact ⟨Starts.cons trivial, fun vs _ =>
      Reads.after trivial (reads_furtherType (htypes u (List.mem_cons_of_mem t hu)) hts)⟩

theorem reads_relationshipDetail (hr : r.Holds PlainName Expr.Printable)
    (hts : ts ∈ optional word r.name * typePrintings r.types *
      optional Properties.printings r.properties * symbol .closeBracket) :
    Reads d relationshipDetail ts us { r with direction := .both } := by
  simp only [mul_assoc] at hts
  obtain ⟨ns, hns, _, ⟨ls, hls, _, ⟨ps, hps, _, rfl, rfl⟩, rfl⟩, rfl⟩ := hts
  have hclose : Front (OneOf [.closeBracket]) ([Token.symbol .closeBracket] ++ us) :=
    Front.cons (OneOf.self (by simp))
  have hprops := front_properties hps .closeBracket us
  have htypes : Front (OneOf [.colon, .openBrace, .closeBracket])
      (ls ++ (ps ++ ([Token.symbol .closeBracket] ++ us))) := by
    by_cases hne : r.types = []
    · rw [hne] at hls
      obtain rfl := hls
      exact hprops.mono (OneOf.mono (by simp))
    · exact (starts_types hne hls).front_append.mono (OneOf.mono (by simp))
  refine Reads.bind (reads_name? hr.name hns (by simpa only [List.append_assoc] using htypes)) ?_
  refine Reads.bind (reads_types [.openBrace, .closeBracket] hr.types (by simp) (by simp) hls
    (by simpa only [List.append_assoc] using hprops)) ?_
  refine Reads.bind (reads_properties? [.closeBracket] hr.properties (by simp) hps hclose) ?_
  exact Reads.bind_cons (Reads.expect trivial) (Reads.pure _)

/-- The detail of a relationship; a relationship with nothing to say may have none. -/
theorem reads_detail (hr : r.Holds PlainName Expr.Printable) (hts : ts ∈ r.detailPrintings)
    (hus : Front (OneOf [.minus]) us) :
    ∃ detail : Option RelationshipPattern,
      Reads d (after .mark (.symbol .openBracket) relationshipDetail) ts us detail ∧
        ∀ direction, { detail.getD { direction := .both } with direction } = { r with direction } := by
  rcases hts with hts | hts
  · simp only [mul_assoc] at hts
    obtain ⟨_, rfl, ts, hts, rfl⟩ := hts
    simp only [← mul_assoc] at hts
    exact ⟨_, Reads.after trivial (reads_relationshipDetail hr hts), fun _ => rfl⟩
  · split at hts
    · rename_i hnothing
      obtain rfl := hts
      refine ⟨none, Reads.after_none (hus.mono OneOf.fits) (Front.ne_symbol hus (by simp)), ?_⟩
      obtain ⟨name, types, properties, direction⟩ := r
      simp only [Bool.and_eq_true, Option.isNone_iff_eq_none, List.isEmpty_iff] at hnothing
      obtain ⟨⟨rfl, rfl⟩, rfl⟩ := hnothing
      exact fun _ => rfl
    · exact hts.elim

/-- The arrows of a direction are those with heads that give it. -/
theorem exists_heads {direction : Direction} {detail : Language Token}
    (hts : ts ∈ direction.printings detail) : ∃ left right, directionOf left right = direction ∧
      ts ∈ only left (symbol .less) * (symbol .minus * (detail * (symbol .minus *
        only right (symbol .greater)))) := by
  cases direction with
  | outgoing => exact ⟨false, true, rfl, by simpa [Direction.printings, only, mul_assoc] using hts⟩
  | incoming => exact ⟨true, false, rfl, by simpa [Direction.printings, only, mul_assoc] using hts⟩
  | both =>
    rcases (Language.mem_add _ _ _).mp hts with hts | hts
    · exact ⟨false, false, rfl, by simpa [only, mul_assoc] using hts⟩
    · exact ⟨true, true, rfl, by simpa [only, mul_assoc] using hts⟩

/-- A mark that may stand there. -/
theorem reads_accept_only {b : Bool} {s : Symbol} (hts : ts ∈ only b (symbol s))
    (hfits : Front (Token.Fits .mark) us) (hne : front us ≠ .symbol s) :
    Reads d (accept .mark (.symbol s)) ts us b := by
  cases b with
  | true =>
    obtain rfl := hts
    exact Reads.accept trivial
  | false =>
    obtain rfl := hts
    exact Reads.accept_none hfits hne

theorem reads_relationshipPattern (hr : r.Holds PlainName Expr.Printable)
    (hts : ts ∈ r.direction.printings r.detailPrintings) (hus : Front (OneOf [.openParen]) us) :
    Reads d relationshipPattern ts us r := by
  obtain ⟨left, right, hdirection, hts⟩ := exists_heads hts
  obtain ⟨ls, hls, _, ⟨_, rfl, _, ⟨ds, hds, _, ⟨_, rfl, rs, hrs, rfl⟩, rfl⟩, rfl⟩, rfl⟩ := hts
  have hminus : Front (OneOf [.minus]) ([.symbol .minus] ++ rs ++ us) :=
    Front.cons (OneOf.self (by simp))
  obtain ⟨detail, hread, hdetail⟩ := reads_detail (d := d) hr hds hminus
  refine Reads.bind (reads_accept_only hls (Front.cons trivial) (front_cons_ne (by simp))) ?_
  refine Reads.bind_cons (Reads.expect trivial) (Reads.bind hread ?_)
  refine Reads.bind_cons (Reads.expect trivial) ?_
  refine Reads.bind_last
    (reads_accept_only hrs (hus.mono OneOf.fits) (Front.ne_symbol hus (by simp))) ?_
  rw [hdetail, hdirection]
  exact Reads.pure _

theorem starts_nodePattern {n : NodePattern} (hts : ts ∈ n.printings) :
    Starts (OneOf [.openParen]) ts := by
  simp only [NodePattern.printings, mul_assoc] at hts
  obtain ⟨_, rfl, _, -, rfl⟩ := hts
  exact Starts.cons (OneOf.self (by simp))

theorem starts_relationship (hts : ts ∈ r.direction.printings r.detailPrintings) :
    Starts (fun t => t = .symbol .less ∨ t = .symbol .minus) ts := by
  obtain ⟨left, right, -, ls, hls, _, ⟨_, rfl, _, -, rfl⟩, rfl⟩ := exists_heads hts
  cases left with
  | true =>
    obtain rfl := hls
    exact Starts.cons (.inl rfl)
  | false =>
    obtain rfl := hls
    exact Starts.cons (.inr rfl)

theorem starts_hop {h : Hop} (hts : ts ∈ h.printings) :
    Starts (fun t => t = .symbol .less ∨ t = .symbol .minus) ts := by
  obtain ⟨rs, hrs, ns, -, rfl⟩ := hts
  exact (starts_relationship hrs).append

theorem reads_hop? {h : Hop} (hh : h.Holds PlainName Expr.Printable) (hts : ts ∈ h.printings) :
    Reads d hop? ts us (some h) := by
  have hstarts := starts_hop hts
  obtain ⟨rs, hrs, ns, hns, rfl⟩ := hts
  have hread : Reads d (do
      let relationship ← relationshipPattern
      let node ← nodePattern
      return some ({ relationship, node } : Hop)) (rs ++ ns) us (some h) :=
    Reads.bind (reads_relationshipPattern hh.relationship hrs (starts_nodePattern hns).front_append)
      (Reads.bind_last (reads_nodePattern hh.node hns) (Reads.pure _))
  refine Reads.peek_bind (hstarts.front_append.mono ?_) ?_
  · rintro t (rfl | rfl) <;> trivial
  · rcases hstarts.holds_front us with hfront | hfront
    · rw [hfront]
      exact hread
    · rw [hfront]
      exact hread

/-- A pattern ends where no arrow follows. -/
theorem reads_hop?_none (hus : Front (Token.Ends 0) us) : Reads d hop? [] us none := by
  refine Reads.peek_bind_nil (hus.mono Token.Ends.fits) ?_
  split
  case h_3 => exact Reads.pure none
  all_goals
    rename_i h
    exact absurd h (hus.ne_of_joins rfl (Nat.zero_le _))

theorem reads_pattern {p : Pattern} (hp : p.Holds PlainName Expr.Printable)
    (hts : ts ∈ p.printings) (hus : Front (Token.Ends 0) us) : Reads d pattern ts us p := by
  obtain ⟨ns, hns, hs, hhs, rfl⟩ := hts
  refine Reads.bind (reads_nodePattern hp.first hns) ?_
  refine Reads.bind_last (Reads.many (S := fun _ => True) (fun h hh ts hts => ?_)
    (fun _ _ => trivial) (reads_hop?_none hus) hhs) (Reads.pure _)
  exact ⟨(starts_hop hts).mono fun _ _ => trivial, fun vs _ => reads_hop? (hp.hops h hh) hts⟩

/-! ## Parts of a clause -/

/-- The order of the parts of a clause by the keywords that they start with.  What comes last is the
end of the clause. -/
def stage : Token → Option Nat
  | .keyword .WHERE => some 0
  | .keyword .ORDER => some 1
  | .keyword .SKIP => some 2
  | .keyword .LIMIT => some 3
  | .keyword .MATCH => some 4
  | .keyword .WITH => some 4
  | .keyword .RETURN => some 4
  | .keyword .FOREACH => some 4
  | .symbol .semicolon => some 4
  | _ => none

/-- A token of the given stage or a later one. -/
def From (n : Nat) (t : Token) : Prop := ∃ s ∈ stage t, n ≤ s

theorem From.mono {m : Nat} (h : m ≤ n) (t : Token) (ht : From n t) : From m t := by
  obtain ⟨s, hs, hle⟩ := ht
  exact ⟨s, hs, h.trans hle⟩

theorem From.ends (t : Token) (ht : From n t) : t.Ends 0 := by
  obtain ⟨s, hs, -⟩ := ht
  unfold stage at hs
  split at hs
  case h_10 => cases hs
  all_goals exact ⟨trivial, by decide⟩

theorem not_from {m : Nat} {t : Token} (h : stage t = some m) (hlt : m < n) : ¬ From n t := by
  rintro ⟨s, hs, hle⟩
  rw [h] at hs
  cases hs
  omega

theorem front_part {k : Keyword} (hk : stage (.keyword k) = some n) {o : Option Expr}
    (hts : ts ∈ partPrintings k o) (hus : Front (From (n + 1)) us) : Front (From n) (ts ++ us) := by
  refine (hus.mono (From.mono (Nat.le_succ n))).optional (fun e _ ts hts => ?_) hts
  obtain ⟨_, rfl, _, -, rfl⟩ := hts
  exact Starts.cons ⟨n, hk, le_rfl⟩

theorem reads_part {k : Keyword} (hk : stage (.keyword k) = some n) {o : Option Expr}
    (ho : ∀ e ∈ o, e.Printable) (hts : ts ∈ partPrintings k o) (hus : Front (From (n + 1)) us) :
    Reads d (after .mark (.keyword k) expression) ts us o := by
  have hends : Front (Token.Ends 0) us := hus.mono From.ends
  cases o with
  | none =>
    obtain rfl := hts
    exact Reads.after_none (hends.mono Token.Ends.fits)
      (hus.front_ne (not_from hk (Nat.lt_succ_self n)) (by simp))
  | some e =>
    obtain ⟨_, rfl, ts, hts, rfl⟩ := hts
    exact Reads.after trivial (reads_expression (ho e rfl) hts hends)

/-- A comma, or what follows a list of things with commas between them. -/
def Separates (n : Nat) (t : Token) : Prop := t = .symbol .comma ∨ From n t

theorem Separates.ends (t : Token) (ht : Separates n t) : t.Ends 0 := by
  rcases ht with rfl | ht
  · exact ⟨trivial, by decide⟩
  · exact From.ends t ht

theorem Separates.fits (t : Token) (ht : Separates n t) : t.Fits .mark :=
  (Separates.ends t ht).1

theorem not_separates {t : Token} (h : stage t = none) (hcomma : t ≠ .symbol .comma) :
    ¬ Separates n t := by
  rintro (ht | ⟨s, hs, -⟩)
  · exact hcomma ht
  · rw [h] at hs
    cases hs

/-- Things with commas between them at the given stage of a clause. -/
theorem reads_commas {α : Type} {p : Parser α} {L : α → Language Token} {as : List α}
    (hitem : ∀ a ∈ as, ∀ ts ∈ L a, ∀ vs, Front (Separates n) vs → Reads d p ts vs a) (has : as ≠ [])
    (hts : ts ∈ commas (as.map L)) (hus : Front (From n) us) :
    Reads d (commaSeparated p) ts us as := by
  refine Reads.commaSeparated (.inl rfl) Separates.fits hitem (hus.mono fun _ => .inr) ?_ has hts
  refine hus.front_ne ?_ (by simp)
  rintro ⟨s, hs, -⟩
  cases hs

theorem reads_returnItem {i : ReturnItem} (hi : i.Holds PlainName Expr.Printable)
    (hts : ts ∈ i.printings) (hus : Front (Separates n) us) : Reads d returnItem ts us i := by
  obtain ⟨es, hes, as, has, rfl⟩ := hts
  obtain ⟨expr, asName⟩ := i
  cases asName with
  | none =>
    obtain rfl := has
    refine Reads.bind (reads_expression hi.expr hes (hus.mono Separates.ends)) ?_
    exact Reads.bind_nil (Reads.after_none (hus.mono Separates.fits)
      (hus.front_ne (not_separates rfl (by simp)) (by simp))) (Reads.pure _)
  | some x =>
    obtain ⟨_, rfl, _, rfl, rfl⟩ := has
    refine Reads.bind (reads_expression hi.expr hes (Front.cons ⟨trivial, by decide⟩)) ?_
    exact Reads.bind_last (Reads.after trivial (Reads.name (hi.asName x rfl))) (Reads.pure _)

/-- The order of a sort key is left out when it is ascending, or written with one keyword. -/
theorem mem_printings_order {order : SortOrder} (hts : ts ∈ order.printings) :
    (ts = [] ∧ order = .ascending) ∨ ∃ k, ts = [.keyword k] ∧
      ((k = .ASC ∨ k = .ASCENDING) ∧ order = .ascending ∨
        (k = .DESC ∨ k = .DESCENDING) ∧ order = .descending) := by
  cases order with
  | ascending =>
    rcases hts with (rfl | rfl) | rfl
    · exact .inl ⟨rfl, rfl⟩
    · exact .inr ⟨_, rfl, .inl ⟨.inl rfl, rfl⟩⟩
    · exact .inr ⟨_, rfl, .inl ⟨.inr rfl, rfl⟩⟩
  | descending =>
    rcases hts with rfl | rfl
    · exact .inr ⟨_, rfl, .inr ⟨.inl rfl, rfl⟩⟩
    · exact .inr ⟨_, rfl, .inr ⟨.inr rfl, rfl⟩⟩

theorem reads_sortKey {k : SortKey} (hk : k.expr.Printable) (hts : ts ∈ k.printings)
    (hus : Front (Separates n) us) : Reads d sortKey ts us k := by
  obtain ⟨es, hes, os, hos, rfl⟩ := hts
  obtain ⟨expr, order⟩ := k
  rcases mem_printings_order hos with ⟨rfl, rfl⟩ | ⟨j, rfl, horder⟩
  · have hne {j : Keyword} (hj : stage (.keyword j) = none) : front us ≠ .keyword j :=
      hus.front_ne (not_separates hj (by simp)) (by simp)
    refine Reads.bind (reads_expression hk hes (hus.mono Separates.ends)) ?_
    refine Reads.peek_bind_nil (hus.mono Separates.fits) ?_
    split
    case h_5 => exact Reads.pure _
    all_goals
      rename_i h
      exact absurd h (hne rfl)
  · have hends : (Token.keyword j).Ends 0 := by
      rcases horder with ⟨rfl | rfl, -⟩ | ⟨rfl | rfl, -⟩ <;> exact ⟨trivial, by decide⟩
    refine Reads.bind (reads_expression hk hes (Front.cons hends)) ?_
    refine Reads.peek_bind (Front.cons trivial) ?_
    rcases horder with ⟨rfl | rfl, rfl⟩ | ⟨rfl | rfl, rfl⟩ <;>
      exact Reads.next_bind trivial (Reads.pure _)

theorem front_order {keys : List SortKey} (hts : ts ∈ orderPrintings keys)
    (hus : Front (From 2) us) : Front (From 1) (ts ++ us) := by
  cases keys with
  | nil =>
    obtain rfl := hts
    exact hus.mono (From.mono (by decide))
  | cons k keys =>
    rw [orderPrintings, mul_assoc] at hts
    · obtain ⟨_, rfl, _, -, rfl⟩ := hts
      exact Front.cons ⟨1, rfl, le_rfl⟩
    · simp

theorem reads_order {keys : List SortKey} (hkeys : ∀ k ∈ keys, k.expr.Printable)
    (hts : ts ∈ orderPrintings keys) (hus : Front (From 2) us) :
    ∃ o, Reads d (after .mark (.keyword .ORDER) sortKeys) ts us o ∧ o.getD [] = keys := by
  cases keys with
  | nil =>
    obtain rfl := hts
    exact ⟨none, Reads.after_none (hus.mono fun t ht => (From.ends t ht).1)
      (hus.front_ne (not_from rfl (by decide)) (by simp)), rfl⟩
  | cons k keys =>
    rw [orderPrintings, mul_assoc] at hts
    · obtain ⟨_, rfl, _, ⟨_, rfl, ts, hts, rfl⟩, rfl⟩ := hts
      refine ⟨some (k :: keys), Reads.after trivial ?_, rfl⟩
      refine Reads.bind_cons (Reads.expect trivial) ?_
      exact reads_commas (fun k hk ts hts vs hvs => reads_sortKey (hkeys k hk) hts hvs)
        (List.cons_ne_nil k keys) hts hus
    · simp

/-- The items of a projection start like an expression. -/
theorem starts_items {items : List ReturnItem} (hne : items ≠ [])
    (hitems : ∀ i ∈ items, i.Holds PlainName Expr.Printable)
    (hts : ts ∈ commas (items.map ReturnItem.printings)) : Starts (Token.Begins 0) ts := by
  cases items with
  | nil => exact absurd rfl hne
  | cons i items =>
    obtain ⟨_, ⟨es, hes, _, -, rfl⟩, _, -, rfl⟩ := hts
    exact ((hitems i List.mem_cons_self).expr.starts es hes).append.append.mono
      (Token.Begins.mono (Nat.zero_le _))

theorem reads_distinct {distinct : Bool} (hts : ts ∈ only distinct (keyword .DISTINCT))
    (hus : Starts (Token.Begins 0) us) {vs : List Token} :
    Reads d (accept .operand (.keyword .DISTINCT)) ts (us ++ vs) distinct := by
  cases distinct with
  | true =>
    obtain rfl := hts
    exact Reads.accept (by simp [Token.Fits, Keyword.reserved])
  | false =>
    obtain rfl := hts
    refine Reads.accept_none (hus.front_append.mono Token.Begins.fits) fun h => ?_
    exact absurd (h ▸ hus.holds_front vs) (by simp [Token.Begins])

theorem reads_projection {w : WithProjection} {conditionAllowed : Bool}
    (hw : w.Holds PlainName Expr.Printable) (hitems : w.items ≠ [])
    (hallowed : conditionAllowed = true ∨ w.condition = none)
    (hts : ts ∈ w.toProjection.printings w.condition) (hus : Front (From 4) us) :
    Reads d (projection conditionAllowed) ts us w := by
  obtain ⟨⟨items, distinct, orderBy, skip, limit⟩, condition⟩ := w
  simp only [Projection.printings, mul_assoc] at hts
  obtain ⟨ds, hds, _, ⟨is, his, _, ⟨cs, hcs, _, ⟨os, hos, _, ⟨ss, hss, ls, hls, rfl⟩, rfl⟩, rfl⟩,
    rfl⟩, rfl⟩ := hts
  have hstarts := starts_items hitems hw.projection.items his
  have hlimit : Front (From 3) (ls ++ us) := front_part rfl hls hus
  have hskip : Front (From 2) (ss ++ (ls ++ us)) := front_part rfl hss hlimit
  have horder : Front (From 1) (os ++ (ss ++ (ls ++ us))) := front_order hos hskip
  have hcondition : Front (From 0) (cs ++ (os ++ (ss ++ (ls ++ us)))) := front_part rfl hcs horder
  obtain ⟨o, hsort, ho⟩ := reads_order (d := d) hw.projection.orderBy hos hskip
  have hrest : Reads d (do
      let orderBy ← after .mark (.keyword .ORDER) sortKeys
      let skip ← after .mark (.keyword .SKIP) expression
      let limit ← after .mark (.keyword .LIMIT) expression
      return ({ items, distinct, orderBy := orderBy.getD [], skip, limit, condition } :
        WithProjection)) (os ++ (ss ++ ls)) us
      { items, distinct, orderBy, skip, limit, condition } := by
    refine Reads.bind (by simpa only [List.append_assoc] using hsort) ?_
    refine Reads.bind (reads_part rfl hw.projection.skip hss hlimit) ?_
    refine Reads.bind_last (reads_part rfl hw.projection.limit hls hus) ?_
    rw [ho]
    exact Reads.pure _
  refine Reads.bind (reads_distinct hds hstarts.append) ?_
  refine Reads.bind (reads_commas (n := 0)
    (fun i hi ts hts vs hvs => reads_returnItem (hw.projection.items i hi) hts hvs) hitems his
    (by simpa only [List.append_assoc] using hcondition)) ?_
  cases conditionAllowed with
  | true =>
    exact Reads.bind
      (reads_part rfl hw.condition hcs (by simpa only [List.append_assoc] using horder)) hrest
  | false =>
    obtain rfl : condition = none := hallowed.resolve_left Bool.false_ne_true
    obtain rfl := hcs
    exact Reads.bind_nil (Reads.pure none) hrest

/-! ## Clauses -/

theorem reads_matching {m : Matching} (hm : m.Holds PlainName Expr.Printable)
    (hne : m.patterns ≠ []) (hts : ts ∈ m.printings) (hus : Front (From 4) us) :
    Reads d matching ts us m := by
  obtain ⟨ps, hps, cs, hcs, rfl⟩ := hts
  have hus' : Front (From 1) us := hus.mono (From.mono (by decide))
  refine Reads.bind (reads_commas (n := 0) (fun p hp ts hts vs hvs =>
    reads_pattern (hm.patterns p hp) hts (hvs.mono Separates.ends)) hne hps
    (front_part rfl hcs hus')) ?_
  exact Reads.bind_last (reads_part rfl hm.condition hcs hus') (Reads.pure _)

theorem reads_assignment {a : Assignment} (ha : a.Holds PlainName Expr.Printable)
    (hts : ts ∈ a.printings) (hus : Front (Token.Ends 0) us) : Reads d assignment ts us a := by
  simp only [Assignment.printings, mul_assoc] at hts
  obtain ⟨_, rfl, _, ⟨_, rfl, _, ⟨_, rfl, _, ⟨_, rfl, es, hes, rfl⟩, rfl⟩, rfl⟩, rfl⟩ := hts
  refine Reads.bind_cons (Reads.name ha.name) (Reads.bind_cons (Reads.expect trivial) ?_)
  refine Reads.bind_cons (Reads.name ha.key) (Reads.bind_cons (Reads.expect trivial) ?_)
  exact Reads.bind_last (reads_expression ha.value hes hus) (Reads.pure _)

/-- What follows an action: another one, or the end of the loop. -/
def FollowsAction (t : Token) : Prop :=
  t = .keyword .SET ∨ t = .keyword .CREATE ∨ t = .symbol .closeParen

theorem FollowsAction.ends (t : Token) (ht : FollowsAction t) : t.Ends 0 := by
  rcases ht with rfl | rfl | rfl <;> exact ⟨trivial, by decide⟩

theorem reads_action? {a : Action} (ha : a.Holds PlainName Expr.Printable) (hformed : a.Formed)
    (hts : ts ∈ a.printings) : Starts FollowsAction ts ∧
      ∀ us, Front FollowsAction us → Reads d action? ts us (some a) := by
  cases a with
  | set items =>
    obtain ⟨_, rfl, is, his, rfl⟩ := hts
    refine ⟨Starts.cons (.inl rfl), fun us hus => Reads.peek_bind (Front.cons trivial) ?_⟩
    refine Reads.next_bind trivial (Reads.bind_last ?_ (Reads.pure _))
    have hends := hus.mono FollowsAction.ends
    refine Reads.commaSeparated (S := Token.Ends 0) ⟨trivial, by decide⟩ Token.Ends.fits
      (fun a h ts hts vs hvs => reads_assignment (ha a h) hts hvs) hends ?_ hformed his
    exact hus.front_ne (by simp [FollowsAction]) (by simp)
  | create p =>
    obtain ⟨_, rfl, ps, hps, rfl⟩ := hts
    refine ⟨Starts.cons (.inr (.inl rfl)), fun us hus => Reads.peek_bind (Front.cons trivial) ?_⟩
    exact Reads.next_bind trivial
      (Reads.bind_last (reads_pattern ha hps (hus.mono FollowsAction.ends)) (Reads.pure _))

theorem reads_loop {l : Loop} (hl : l.Holds PlainName Expr.Printable) (hne : l.actions ≠ [])
    (hformed : ∀ a ∈ l.actions, a.Formed) (hts : ts ∈ l.printings) : Reads d loop ts us l := by
  simp only [Loop.printings, mul_assoc] at hts
  obtain ⟨_, rfl, _, ⟨_, rfl, _, ⟨_, rfl, _, ⟨es, hes, _, ⟨_, rfl, _, ⟨as, has, _, rfl, rfl⟩, rfl⟩,
    rfl⟩, rfl⟩, rfl⟩, rfl⟩ := hts
  refine Reads.bind_cons (Reads.expect trivial) (Reads.bind_cons (Reads.name hl.name) ?_)
  refine Reads.bind_cons (Reads.expect trivial) ?_
  refine Reads.bind (reads_expression hl.source hes (Front.cons ⟨trivial, by decide⟩)) ?_
  refine Reads.bind_cons (Reads.expect trivial) ?_
  refine Reads.bind (Reads.many (S := FollowsAction)
    (fun a ha ts hts => reads_action? (hl.actions a ha) (hformed a ha) hts)
    (Front.cons (.inr (.inr rfl)))
    (Reads.peek_bind (Front.cons trivial) (Reads.pure none)) has) ?_
  rw [if_neg (by simpa using hne)]
  exact Reads.bind_cons (Reads.expect trivial) (Reads.pure _)

theorem reads_clause? {c : Clause} (hc : c.Holds PlainName Expr.Printable) (hformed : c.Formed)
    (hts : ts ∈ c.printings) : Starts (From 4) ts ∧
      ∀ us, Front (From 4) us → Reads d clause? ts us (some c) := by
  cases c with
  | matching m =>
    obtain ⟨_, rfl, ms, hms, rfl⟩ := hts
    refine ⟨Starts.cons ⟨4, rfl, le_rfl⟩, fun us hus => Reads.peek_bind (Front.cons trivial) ?_⟩
    exact Reads.next_bind trivial (Reads.bind_last (reads_matching hc hformed hms hus) (Reads.pure _))
  | passing w =>
    obtain ⟨_, rfl, ws, hws, rfl⟩ := hts
    refine ⟨Starts.cons ⟨4, rfl, le_rfl⟩, fun us hus => Reads.peek_bind (Front.cons trivial) ?_⟩
    exact Reads.next_bind trivial
      (Reads.bind_last (reads_projection hc hformed (.inl rfl) hws hus) (Reads.pure _))
  | returning p =>
    obtain ⟨_, rfl, ps, hps, rfl⟩ := hts
    refine ⟨Starts.cons ⟨4, rfl, le_rfl⟩, fun us hus => Reads.peek_bind (Front.cons trivial) ?_⟩
    have hw : WithProjection.Holds PlainName Expr.Printable { p with condition := none } :=
      ⟨hc, by simp⟩
    exact Reads.next_bind trivial
      (Reads.bind_last (reads_projection hw hformed (.inr rfl) hps hus) (Reads.pure _))
  | looping l =>
    obtain ⟨_, rfl, ls, hls, rfl⟩ := hts
    refine ⟨Starts.cons ⟨4, rfl, le_rfl⟩, fun us hus => Reads.peek_bind (Front.cons trivial) ?_⟩
    exact Reads.next_bind trivial
      (Reads.bind_last (reads_loop hc hformed.1 hformed.2 hls) (Reads.pure _))

theorem reads_query {q : Query} (hne : q ≠ [])
    (hq : ∀ c ∈ q, c.Holds PlainName Expr.Printable ∧ c.Formed) (hts : ts ∈ q.printings) :
    Reads d query ts [] q := by
  obtain ⟨cs, hcs, ss, hss, rfl⟩ := hts
  have hsemicolon : ss = [] ∨ ss = [.symbol .semicolon] := (Language.mem_add _ _ _).mp hss
  have hus : Front (From 4) (ss ++ []) := by
    rcases hsemicolon with rfl | rfl
    · exact Front.nil
    · exact Front.cons ⟨4, rfl, le_rfl⟩
  have hstop : Reads d clause? [] (ss ++ []) none := by
    refine Reads.peek_bind (hus.mono fun t ht => (From.ends t ht).1) ?_
    rcases hsemicolon with rfl | rfl <;> exact Reads.pure none
  refine Reads.bind (Reads.many (fun c hc ts hts => reads_clause? (hq c hc).1 (hq c hc).2 hts) hus
    hstop hcs) ?_
  rw [if_neg (by simpa using hne)]
  have hend : Reads d (expect .mark .stop >>= fun _ => pure q) [] [] q :=
    Reads.bind_nil Reads.expect_stop (Reads.pure q)
  rcases hsemicolon with rfl | rfl
  · exact Reads.bind_last (Reads.accept_none Front.nil (by simp [front])) hend
  · exact Reads.bind_last (Reads.accept trivial) hend

end GraphSql.Query.Parser

namespace GraphSql.Query

/-! ## Reading undoes printing -/

/-- The maps of an expression that was read have each key once. -/
theorem Closed.keysOnce : Closed (fun _ => True) (Expr.Every Expr.KeysOnce) where
  var _ := ⟨trivial, by simp [Expr.children]⟩
  property h _ := ⟨trivial, by simpa [Expr.children] using h⟩
  null := ⟨trivial, by simp [Expr.children]⟩
  boolean := ⟨trivial, by simp [Expr.children]⟩
  integer := ⟨trivial, by simp [Expr.children]⟩
  number := ⟨trivial, by simp [Expr.children]⟩
  text := ⟨trivial, by simp [Expr.children]⟩
  list h := ⟨trivial, h⟩
  map hkeys h := ⟨hkeys, fun c hc => by
    obtain ⟨p, hp, rfl⟩ := List.mem_map.mp hc
    exact (h p hp).2⟩
  not h := ⟨trivial, by simpa [Expr.children] using h⟩
  negate h := ⟨trivial, by simpa [Expr.children] using h⟩
  binary hl hr := ⟨trivial, by simpa [Expr.children] using ⟨hl, hr⟩⟩
  compare hl hr := ⟨trivial, by simpa [Expr.children] using ⟨hl, hr⟩⟩
  nullTest h := ⟨trivial, by simpa [Expr.children] using h⟩
  call _ h := ⟨trivial, h⟩
  callStar _ := ⟨trivial, by simp [Expr.children]⟩

/-- The queries of the grammar: at least one clause, no clause without the parts that it needs, and in
maps each key once. -/
structure Formed (q : Query) : Prop where
  ne_nil : q ≠ []
  clauses : ∀ c ∈ q, c.Formed
  keysOnce : ∀ c ∈ q, c.Holds (fun _ => True) (Expr.Every Expr.KeysOnce)

theorem formed_of_parse {source : String} {q : Query} (h : parse source = .ok q) : q.Formed := by
  obtain ⟨hne, hclauses⟩ := holds_of_parse (fun _ _ => trivial) Closed.keysOnce h
  exact ⟨hne, fun c hc => (hclauses c hc).2, fun c hc => (hclauses c hc).1⟩

theorem Formed.parse_eq {q : Query} (hq : q.Formed) (hplain : ∀ c ∈ q, c.Plain) {text : String}
    (htext : q.Printed text) : parse text = .ok q := by
  obtain ⟨ts, hts, htext⟩ := htext
  have hprintable (c : Clause) (hc : c ∈ q) : c.Holds PlainName Expr.Printable :=
    Clause.Holds.both (fun _ h _ => h) (fun _ h h' => h.and h') (hplain c hc) (hq.keysOnce c hc)
  have hread := Parser.reads_query (d := text.toList.length + 1) hq.ne_nil
    (fun c hc => ⟨hprintable c hc, hq.clauses c hc⟩) hts
  obtain ⟨rest, hrun, -⟩ := hread text.toList (Nat.lt_succ_self _) (by rwa [List.append_nil])
  exact Except.map_eq_ok.mpr ⟨(q, rest), hrun, rfl⟩

/-- **Reading undoes printing.**  A query whose names and literals are plain has a text; the grammar
has the query exactly when it is formed, and then all its texts are read as that query. -/
theorem parse_of_printed {q : Query} (hplain : ∀ c ∈ q, c.Plain) :
    (∃ text, q.Printed text) ∧ ((∃ source, parse source = .ok q) ↔ q.Formed) ∧
      (q.Formed → ∀ text, q.Printed text → parse text = .ok q) := by
  obtain ⟨text, htext⟩ := exists_printed hplain
  refine ⟨⟨text, htext⟩, ⟨?_, ?_⟩, ?_⟩
  · rintro ⟨source, hsource⟩
    exact formed_of_parse hsource
  · intro hq
    exact ⟨text, hq.parse_eq hplain htext⟩
  · intro hq text htext
    exact hq.parse_eq hplain htext

theorem parse_of_printed_quote :
    let q : Query := [
      .matching { patterns := [{ first := { name := some "a" } }],
                  condition := some (.compare .eq (.property (.var "a") "name") (.text "O'Hara")) },
      .returning {
        items := [{ expr := .binary .sub (.integer 3) (.binary .sub (.integer 2) (.integer 1)) }] }]
    (∀ c ∈ q, c.Plain) ∧ q.Formed ∧ (∃ source, parse source = .ok q) ∧
      ∀ text, q.Printed text → parse text = .ok q := by
  intro q
  have hpair {p : Expr → Prop} {l r : Expr} (hl : l.Every p) (hr : r.Every p) :
      ∀ c ∈ [l, r], c.Every p :=
    List.forall_mem_cons.mpr ⟨hl, List.forall_mem_singleton.mpr hr⟩
  have hleaf {p : Expr → Prop} {e : Expr} (h : p e) (he : e.children = []) : e.Every p :=
    ⟨h, by simp [he]⟩
  have hholds {P : String → Prop} {p : Expr → Prop} (hname : P "a")
      (hequal : ∀ l r, p (.compare .eq l r)) (hproperty : ∀ e, p (.property e "name"))
      (hvar : p (.var "a")) (htext : p (.text "O'Hara")) (hminus : ∀ l r, p (.binary .sub l r))
      (hinteger : ∀ n ∈ [1, 2, 3], p (.integer n)) : ∀ c ∈ q, c.Holds P (Expr.Every p) := by
    have hcondition : (Expr.compare .eq (.property (.var "a") "name") (.text "O'Hara")).Every p :=
      ⟨hequal _ _, hpair ⟨hproperty _, List.forall_mem_singleton.mpr (hleaf hvar rfl)⟩
        (hleaf htext rfl)⟩
    have hdifference :
        (Expr.binary .sub (.integer 3) (.binary .sub (.integer 2) (.integer 1))).Every p :=
      ⟨hminus _ _, hpair (hleaf (hinteger 3 (by simp)) rfl)
        ⟨hminus _ _, hpair (hleaf (hinteger 2 (by simp)) rfl) (hleaf (hinteger 1 (by simp)) rfl)⟩⟩
    refine List.forall_mem_cons.mpr ⟨⟨List.forall_mem_singleton.mpr ⟨⟨?_, by simp, by simp⟩, by simp⟩,
      ?_⟩, List.forall_mem_singleton.mpr ⟨List.forall_mem_singleton.mpr ⟨hdifference, by simp⟩,
        by simp, by simp, by simp⟩⟩
    · exact fun x hx => Option.mem_some_iff.mp hx ▸ hname
    · exact fun e he => Option.mem_some_iff.mp he ▸ hcondition
  have ha : PlainName "a" := by decide +kernel
  have hplain : ∀ c ∈ q, c.Plain :=
    hholds ha (fun _ _ => trivial) (fun _ => show PlainName "name" by decide +kernel) ha
      (show '\\' ∉ "O'Hara".toList by decide +kernel) (fun _ _ => trivial)
      (show ∀ n ∈ [1, 2, 3], (Nat.toDigits 10 n).length ≤ Numeral.digitLimit by decide)
  have hformed : q.Formed := by
    refine ⟨by simp [q], ?_, hholds trivial (fun _ _ => trivial) (fun _ => trivial) trivial trivial
      (fun _ _ => trivial) fun _ _ => trivial⟩
    simp [q, Clause.Formed]
  obtain ⟨-, hgrammar, hread⟩ := parse_of_printed hplain
  exact ⟨hplain, hformed, hgrammar.mpr hformed, hread hformed⟩

end GraphSql.Query
