import GraphSql.Proofs.Outcome
import GraphSql.Proofs.Query.Lexing
import GraphSql.Query.Parser.Basic

/-!
# What a parser takes from a row of tokens

`Reads d p ts us a` says that in front of the tokens `us` the parser `p` takes the tokens `ts` and
answers `a`.  There is one rule for each way to put parsers together.  Since a parser looks ahead, a rule
can ask something of the first token that is left; `Front S us` says that this token satisfies `S` if
there is one.  The bound `d` on the length of the text is there for parsers that go down with the
depth of brackets: taking a token makes the text shorter (`Reads.next_bind_lt`).
-/

namespace GraphSql.Query

/-- The first token, if there is one, satisfies `S`. -/
def Front (S : Token → Prop) (us : List Token) : Prop := ∀ t ∈ us.head?, S t

/-- There is a first token, and it satisfies `S`. -/
def Starts (S : Token → Prop) (ts : List Token) : Prop := ∃ t ∈ ts.head?, S t

/-- The first token, or the end of the query. -/
def front (us : List Token) : Token := us.head?.getD .stop

section Fronts

variable {S T : Token → Prop} {t u : Token} {ts us : List Token}

theorem front_cons_ne (h : t ≠ u) : front (t :: us) ≠ u := h

theorem Front.nil : Front S [] := by
  intro t ht
  cases ht

theorem Front.cons (h : S t) : Front S (t :: ts) := by
  intro u hu
  cases hu
  exact h

theorem Front.mono (h : Front S us) (hS : ∀ t, S t → T t) : Front T us :=
  fun t ht => hS t (h t ht)

theorem Starts.cons (h : S t) : Starts S (t :: ts) := ⟨t, rfl, h⟩

theorem Starts.mono (h : Starts S ts) (hS : ∀ t, S t → T t) : Starts T ts := by
  obtain ⟨t, ht, h⟩ := h
  exact ⟨t, ht, hS t h⟩

theorem Starts.append (h : Starts S ts) : Starts S (ts ++ us) := by
  obtain ⟨t, ht, h⟩ := h
  cases ts with
  | nil => cases ht
  | cons u ts => exact ⟨t, ht, h⟩

theorem Starts.front_append (h : Starts S ts) : Front S (ts ++ us) := by
  obtain ⟨t, ht, h⟩ : Starts S (ts ++ us) := h.append
  intro u hu
  obtain rfl : t = u := Option.some.inj (ht.symm.trans hu)
  exact h

theorem Starts.ne_nil (h : Starts S ts) : ts ≠ [] := by
  rintro rfl
  obtain ⟨t, ht, -⟩ := h
  cases ht

theorem Starts.holds_front (h : Starts S ts) (us : List Token) : S (front (ts ++ us)) := by
  obtain ⟨t, ht, h⟩ : Starts S (ts ++ us) := h.append
  unfold front
  rw [ht]
  exact h

theorem Front.front_ne (h : Front S us) (hS : ¬ S u) (hu : u ≠ .stop) : front us ≠ u := by
  cases us with
  | nil => exact hu.symm
  | cons t us =>
    rintro rfl
    exact hS (h _ rfl)

theorem Front.optional {α : Type} {f : α → Language Token} {o : Option α} (hus : Front S us)
    (hsome : ∀ a ∈ o, ∀ ts ∈ f a, Starts S ts) (hts : ts ∈ Printing.optional f o) :
    Front S (ts ++ us) := by
  cases o with
  | none =>
    obtain rfl : ts = [] := hts
    exact hus
  | some a => exact (hsome a rfl ts hts).front_append

/-- In front of what starts with `S` stand only things that start with `S`. -/
theorem Front.prod {α : Type} {L : α → Language Token} {as : List α} (hus : Front S us)
    (hitem : ∀ a ∈ as, ∀ ts ∈ L a, Starts S ts) (hts : ts ∈ (as.map L).prod) :
    Front S (ts ++ us) := by
  cases as with
  | nil =>
    obtain rfl : ts = [] := hts
    exact hus
  | cons a as =>
    rw [List.map_cons, List.prod_cons] at hts
    obtain ⟨us₁, h₁, us₂, -, rfl⟩ := Language.mem_mul.mp hts
    exact (hitem a List.mem_cons_self us₁ h₁).append.front_append

end Fronts

namespace Parser

variable {α β : Type} {d : Nat} {ts ts' us : List Token} {t : Token} {expecting : Expecting}

/-- On every text shorter than `d` that spells `ts` and then `us`, the parser takes `ts` and answers
`a`. -/
def Reads (d : Nat) (p : Parser α) (ts us : List Token) (a : α) : Prop :=
  ∀ text : List Char, text.length < d → Spaced (ts ++ us) text →
    ∃ rest, p text = .ok (a, rest) ∧ Spaced us rest ∧ ts.length + rest.length ≤ text.length

section Sequence

variable {p : Parser α} {f : α → Parser β} {a : α} {b : β}

theorem Reads.pure (a : α) : Reads d (pure a) [] us a := by
  intro text _ htext
  exact ⟨text, rfl, htext, by simp⟩

theorem Reads.bind (hp : Reads d p ts (ts' ++ us) a) (hf : Reads d (f a) ts' us b) :
    Reads d (p >>= f) (ts ++ ts') us b := by
  intro text hlength htext
  rw [List.append_assoc] at htext
  obtain ⟨rest, hrun, hrest, hle⟩ := hp text hlength htext
  obtain ⟨rest', hrun', hrest', hle'⟩ := hf rest (by omega) hrest
  refine ⟨rest', Except.bind_eq_ok.mpr ⟨(a, rest), hrun, hrun'⟩, hrest', ?_⟩
  rw [List.length_append]
  omega

/-- The first parser takes nothing. -/
theorem Reads.bind_nil (hp : Reads d p [] (ts ++ us) a) (hf : Reads d (f a) ts us b) :
    Reads d (p >>= f) ts us b :=
  show Reads d (p >>= f) ([] ++ ts) us b from Reads.bind hp hf

/-- The first parser takes one token. -/
theorem Reads.bind_cons (hp : Reads d p [t] (ts ++ us) a) (hf : Reads d (f a) ts us b) :
    Reads d (p >>= f) ([t] ++ ts) us b :=
  Reads.bind hp hf

/-- The second parser takes nothing. -/
theorem Reads.bind_last (hp : Reads d p ts us a) (hf : Reads d (f a) [] us b) :
    Reads d (p >>= f) ts us b := by
  rw [← List.append_nil ts]
  exact Reads.bind hp hf

theorem Reads.peek_bind {f : Token → Parser β} (hfits : Front (Token.Fits expecting) (ts ++ us))
    (hf : Reads d (f (front (ts ++ us))) ts us b) : Reads d (peek expecting >>= f) ts us b := by
  refine Reads.bind_nil (a := front (ts ++ us)) ?_ hf
  intro text _ htext
  rw [List.nil_append] at htext
  refine ⟨text, ?_, htext, by simp⟩
  unfold peek
  generalize ts ++ us = vs at hfits htext ⊢
  cases vs with
  | nil => rw [scan_of_spaced_nil htext]; rfl
  | cons t vs =>
    obtain ⟨rest, hscan, -⟩ := scan_of_spaced htext (hfits t rfl)
    rw [hscan]
    rfl

theorem Reads.peek_bind_nil {f : Token → Parser β} (hfits : Front (Token.Fits expecting) us)
    (hf : Reads d (f (front us)) [] us b) : Reads d (peek expecting >>= f) [] us b :=
  Reads.peek_bind hfits hf

theorem Reads.peek_bind_cons {f : Token → Parser β} (hfits : t.Fits expecting)
    (hf : Reads d (f t) ([t] ++ ts) us b) : Reads d (peek expecting >>= f) ([t] ++ ts) us b :=
  Reads.peek_bind (Front.cons hfits) hf

theorem Reads.next_bind_lt {f : Token → Parser β} (hfits : t.Fits expecting)
    (hf : Reads d (f t) ts us b) : Reads (d + 1) (next expecting >>= f) ([t] ++ ts) us b := by
  intro text hlength htext
  obtain ⟨rest, hscan, hrest, hlt⟩ := scan_of_spaced htext hfits
  obtain ⟨rest', hrun, hrest', hle⟩ := hf rest (by omega) hrest
  refine ⟨rest', Except.bind_eq_ok.mpr ⟨(t, rest), ?_, hrun⟩, hrest', ?_⟩
  · unfold next
    rw [hscan]
  · rw [List.length_append, List.length_singleton]
    omega

theorem Reads.mono {d' : Nat} (h : Reads d' p ts us a) (hd : d ≤ d') : Reads d p ts us a :=
  fun text hlength => h text (by omega)

theorem Reads.next_bind {f : Token → Parser β} (hfits : t.Fits expecting)
    (hf : Reads d (f t) ts us b) : Reads d (next expecting >>= f) ([t] ++ ts) us b :=
  (Reads.next_bind_lt hfits hf).mono (by omega)

end Sequence

/-! ## Single tokens -/

theorem Reads.accept (hfits : t.Fits expecting) : Reads d (accept expecting t) [t] us true := by
  refine Reads.peek_bind (Front.cons hfits) ?_
  rw [if_pos (show front ([t] ++ us) = t from rfl)]
  exact Reads.next_bind hfits (Reads.pure true)

theorem Reads.accept_none (hfits : Front (Token.Fits expecting) us) (hne : front us ≠ t) :
    Reads d (Parser.accept expecting t) [] us false := by
  refine Reads.peek_bind hfits ?_
  rw [if_neg (by simpa using hne)]
  exact Reads.pure false

theorem Reads.expect (hfits : t.Fits expecting) : Reads d (expect expecting t) [t] us () := by
  refine Reads.next_bind hfits ?_
  rw [if_neg (by simp)]
  exact Reads.pure ()

/-- Nothing is left at the end. -/
theorem Reads.expect_stop : Reads d (Parser.expect expecting .stop) [] [] () := by
  intro text _ htext
  refine ⟨[], ?_, .nil (by simp), by simp⟩
  refine Except.bind_eq_ok.mpr ⟨(.stop, []), ?_, rfl⟩
  unfold next
  rw [scan_of_spaced_nil htext]

theorem Reads.name {x : String} (hx : PlainName x) : Reads d name [.name x] us x :=
  Reads.next_bind hx (Reads.pure x)

theorem Reads.after {p : Parser α} {a : α} (hfits : t.Fits expecting) (hp : Reads d p ts us a) :
    Reads d (after expecting t p) ([t] ++ ts) us (some a) := by
  refine Reads.bind_cons (Reads.accept hfits) ?_
  rw [if_pos rfl]
  exact Reads.bind_last hp (Reads.pure (some a))

theorem Reads.after_none {p : Parser α} (hfits : Front (Token.Fits expecting) us)
    (hne : front us ≠ t) : Reads d (Parser.after expecting t p) [] us none := by
  refine Reads.bind_nil (Reads.accept_none hfits hne) ?_
  exact Reads.pure none

/-! ## Repetition -/

section Repetition

variable {S : Token → Prop} {L : α → Language Token} {as : List α}

theorem Reads.repeatUpTo {step : Parser (Option α)} (hus : Front S us)
    (hstop : Reads d step [] us none) :
    ∀ {as : List α} {ts : List Token} {fuel : Nat}, (∀ a ∈ as, ∀ ts ∈ L a,
        Starts S ts ∧ ∀ vs, Front S vs → Reads d step ts vs (some a)) →
      ts ∈ (as.map L).prod → as.length < fuel →
        Reads d (Parser.repeatUpTo step fuel) ts us as ∧ as.length ≤ ts.length
  | _, _, 0, _, _, hfuel => by simp at hfuel
  | [], ts, fuel + 1, _, hts, _ => by
    obtain rfl : ts = [] := hts
    exact ⟨Reads.bind_nil hstop (Reads.pure []), by simp⟩
  | a :: as, ts, fuel + 1, hitem, hts, hfuel => by
    rw [List.map_cons, List.prod_cons] at hts
    obtain ⟨ts₁, h₁, ts₂, h₂, rfl⟩ := Language.mem_mul.mp hts
    have hitems : ∀ b ∈ as, ∀ ts ∈ L b, Starts S ts ∧
        ∀ vs, Front S vs → Reads d step ts vs (some b) :=
      fun b hb => hitem b (List.mem_cons_of_mem a hb)
    obtain ⟨hstarts, hstep⟩ := hitem a List.mem_cons_self ts₁ h₁
    have hless : as.length < fuel := by simpa using hfuel
    obtain ⟨hrest, hle⟩ := Reads.repeatUpTo hus hstop hitems h₂ hless
    have hfront : Front S (ts₂ ++ us) := hus.prod (fun b hb ts hts => (hitems b hb ts hts).1) h₂
    constructor
    · exact Reads.bind (hstep _ hfront) (Reads.bind_last hrest (Reads.pure (a :: as)))
    · have := List.length_pos_iff.mpr hstarts.ne_nil
      rw [List.length_cons, List.length_append]
      omega

/-- **Things that a step takes one after the other are taken by repeating it.**  Every one of them, and
what follows, starts with a token in `S`. -/
theorem Reads.many {step : Parser (Option α)} (hitem : ∀ a ∈ as, ∀ ts ∈ L a,
      Starts S ts ∧ ∀ vs, Front S vs → Reads d step ts vs (some a))
    (hus : Front S us) (hstop : Reads d step [] us none) (hts : ts ∈ (as.map L).prod) :
    Reads d (many step) ts us as := by
  intro text hlength htext
  have hcount := (Reads.repeatUpTo hus hstop hitem hts (Nat.lt_succ_self _)).2
  have htokens : (ts ++ us).length ≤ text.length := htext.length_le
  rw [List.length_append] at htokens
  exact (Reads.repeatUpTo hus hstop hitem hts (by omega)).1 text hlength htext

theorem Reads.commaSeparated {p : Parser α} (hcomma : S (.symbol .comma))
    (hmark : ∀ t, S t → t.Fits .mark)
    (hitem : ∀ a ∈ as, ∀ ts ∈ L a, ∀ vs, Front S vs → Reads d p ts vs a) (hus : Front S us)
    (hne : front us ≠ .symbol .comma) (has : as ≠ [])
    (hts : ts ∈ Printing.commas (as.map L)) : Reads d (commaSeparated p) ts us as := by
  cases as with
  | nil => exact absurd rfl has
  | cons a as =>
    rw [List.map_cons, Printing.commas, List.map_map] at hts
    obtain ⟨ts₁, h₁, ts₂, h₂, rfl⟩ := Language.mem_mul.mp hts
    have hfurther : ∀ b ∈ as, ∀ ts ∈ Printing.symbol .comma * L b,
        Starts S ts ∧ ∀ vs, Front S vs →
          Reads d (Parser.after .mark (.symbol .comma) p) ts vs (some b) := by
      intro b hb ts hts
      obtain ⟨_, rfl, ts', hts', rfl⟩ := Language.mem_mul.mp hts
      exact ⟨Starts.cons hcomma, fun vs hvs =>
        Reads.after trivial (hitem b (List.mem_cons_of_mem a hb) ts' hts' vs hvs)⟩
    have hfront : Front S (ts₂ ++ us) :=
      hus.prod (fun b hb ts hts => (hfurther b hb ts hts).1) h₂
    refine Reads.bind (hitem a List.mem_cons_self ts₁ h₁ _ hfront) ?_
    have hstop := Reads.after_none (p := p) (d := d) (hus.mono hmark) hne
    exact Reads.bind_last (Reads.many hfurther hus hstop h₂) (Reads.pure (a :: as))

end Repetition

end Parser

end GraphSql.Query
