import Mathlib.Data.Finset.Card
import Mathlib.Order.Interval.Finset.Nat
import GraphSql.Proofs.Script.Reader
import GraphSql.Proofs.Search
import GraphSql.Relational.Script

/-!
# Blocks between dollar quotes

`blockQuote` takes the first of the tagged dollar quotes that does not occur in a text.  There is one
among the first `text.length + 1` of them (`exists_taggedQuote_not_occurs`): at one place of the text
at most one of them can stand, because none is the start of another, and the text has too few places
for all.  A reader that has read the opening quote of a block leaves the block at its closing quote
and not before (`whole_block`), since an earlier end would be an occurrence in the text between
them.  Blanks keep the quotes and the text of a block apart, so its quote stands in the whole
statement at two places only (`encloses_loopBlock`).
-/

namespace GraphSql

variable {d cs : List Char}

/-! ## Occurrences -/

theorem Text.occursIn_iff_infix {needle : List Char} :
    ∀ {cs : List Char}, Text.occursIn needle cs = true ↔ needle <:+: cs
  | [] => by rw [Text.occursIn, List.isEmpty_iff, List.infix_nil]
  | c :: cs => by
    rw [Text.occursIn, Bool.or_eq_true, List.isPrefixOf_iff_prefix, occursIn_iff_infix,
      List.infix_cons_iff]

/-- The places of a text around a character that it lacks. -/
theorem prefix_drop_append_cons_iff {as bs : List Char} {s : Char} (hd : d ≠ []) (hs : s ∉ d)
    (i : Nat) :
    d <+: (as ++ s :: bs).drop i ↔
      d <+: as.drop i ∨ as.length < i ∧ d <+: bs.drop (i - (as.length + 1)) := by
  rw [List.drop_append]
  by_cases hi : i ≤ as.length
  · rw [Nat.sub_eq_zero_of_le hi, List.drop_zero]
    constructor
    · intro h
      by_cases hlen : d.length ≤ (as.drop i).length
      · exact .inl (List.prefix_of_prefix_length_le h (List.prefix_append _ _) hlen)
      · -- otherwise the text reaches over the character
        have hover : as.drop i ++ [s] <+: d := by
          refine List.prefix_of_prefix_length_le ⟨bs, ?_⟩ h ?_
          · rw [List.append_assoc, List.singleton_append]
          · rw [List.length_append, List.length_singleton]
            omega
        exact absurd (hover.subset (List.mem_append_right _ List.mem_cons_self)) hs
    · rintro (h | ⟨hlt, -⟩)
      · exact h.trans (List.prefix_append _ _)
      · omega
  · have hshift : i - as.length = (i - (as.length + 1)) + 1 := by omega
    rw [List.drop_eq_nil_of_le (by omega), hshift, List.nil_append, List.drop_succ_cons,
      List.prefix_nil]
    exact ⟨fun h => .inr ⟨by omega, h⟩, fun h => (h.resolve_left hd).2⟩

theorem infix_iff_exists_drop : d <:+: cs ↔ ∃ i, d <+: cs.drop i := by
  rw [List.infix_iff_prefix_suffix]
  constructor
  · rintro ⟨t, hd, ht⟩
    exact ⟨_, List.suffix_iff_eq_drop.mp ht ▸ hd⟩
  · rintro ⟨i, hd⟩
    exact ⟨_, hd, List.drop_suffix i cs⟩

/-- What stands in a text and lacks one of its characters stands on one side of that character. -/
theorem infix_of_infix_cons {as bs : List Char} {s : Char} (h : d <:+: as ++ s :: bs) (hd : d ≠ [])
    (hs : s ∉ d) : d <:+: as ∨ d <:+: bs := by
  obtain ⟨i, hi⟩ := infix_iff_exists_drop.mp h
  rcases (prefix_drop_append_cons_iff hd hs i).mp hi with hi | ⟨-, hi⟩
  · exact .inl (infix_iff_exists_drop.mpr ⟨_, hi⟩)
  · exact .inr (infix_iff_exists_drop.mpr ⟨_, hi⟩)

namespace Relational

variable {w : List Char}

/-! ## Tags -/

/-- What the words of all tagged dollar quotes start with. -/
def tagStart : List Char := ['c', 'y', 'p', 'h', 'e', 'r', '2', 's', 'q', 'l']

/-- The word between the two dollar signs of a tagged dollar quote. -/
def tagWord : Nat → List Char
  | 0 => tagStart
  | k + 1 => tagStart ++ '_' :: Nat.toDigits 10 (k + 2)

/-- A dollar quote with a given word. -/
def dollarQuote (w : List Char) : List Char := '$' :: w ++ ['$']

theorem toList_taggedQuote (k : Nat) : (taggedQuote k).toList = dollarQuote (tagWord k) := by
  cases k with
  | zero => decide +kernel
  | succ k =>
    have hstart : "$cypher2sql_".toList = '$' :: tagStart ++ ['_'] := by decide +kernel
    simp only [taggedQuote, Numeral.natural, String.toList_append, String.toList_ofList, hstart,
      dollarQuote, tagWord]
    simp

theorem isTagChar_of_isDigit {c : Char} (h : c.isDigit = true) : Reader.isTagChar c = true := by
  simp [Reader.isTagChar, Char.isAlphanum, h]

theorem tagWord_isTagChar (k : Nat) : ∀ c ∈ tagWord k, Reader.isTagChar c = true := by
  cases k with
  | zero => decide +kernel
  | succ k =>
    intro c hc
    have hstart : ∀ c ∈ tagStart ++ ['_'], Reader.isTagChar c = true := by decide
    rw [tagWord, ← List.singleton_append, ← List.append_assoc] at hc
    rcases List.mem_append.mp hc with hc | hc
    · exact hstart c hc
    · exact isTagChar_of_isDigit (Nat.isDigit_of_mem_toDigits (by decide) (by decide) hc)

theorem not_mem_of_isTagChar {s : Char} (hs : Reader.isTagChar s = false)
    (h : ∀ c ∈ w, Reader.isTagChar c = true) : s ∉ w := by
  intro hm
  rw [h s hm] at hs
  exact absurd hs (by decide)

theorem tagWord_injective {j k : Nat} (h : tagWord j = tagWord k) : j = k := by
  have hlen : ∀ n, tagWord 0 ≠ tagWord (n + 1) := by
    intro n e
    have := congrArg List.length e
    rw [tagWord, tagWord, List.length_append, List.length_cons] at this
    omega
  cases j with
  | zero =>
    cases k with
    | zero => rfl
    | succ k => exact absurd h (hlen k)
  | succ j =>
    cases k with
    | zero => exact absurd h.symm (hlen j)
    | succ k =>
      have hdigits := toDigits_injective (List.cons.inj (List.append_cancel_left h)).2
      omega

theorem dollarQuote_ne_nil (w : List Char) : dollarQuote w ≠ [] := List.cons_ne_nil _ _

theorem not_mem_dollarQuote {s : Char} (hs : Reader.isTagChar s = false) (hd : s ≠ '$')
    (h : ∀ c ∈ w, Reader.isTagChar c = true) : s ∉ dollarQuote w := by
  simp [dollarQuote, hd, not_mem_of_isTagChar hs h]

/-- At one place of a text at most one dollar quote can stand. -/
theorem dollarQuote_unique {v : List Char} (hv : '$' ∉ v) (hw : '$' ∉ w) (h : dollarQuote v <+: cs)
    (h' : dollarQuote w <+: cs) : v = w := by
  have key : ∀ {u : List Char}, '$' ∉ u → dollarQuote u <+: cs →
      cs.tail.takeWhile (· ≠ '$') = u := by
    rintro u hu ⟨t, rfl⟩
    have hall : ∀ c ∈ u, decide (c ≠ '$') = true := by
      intro c hc
      rw [decide_eq_true_eq]
      rintro rfl
      exact hu hc
    have e : (dollarQuote u ++ t).tail = u ++ '$' :: t := by simp [dollarQuote]
    rw [e, List.takeWhile_append_of_pos hall]
    simp
  rw [← key hv h, key hw h']

/-! ## A quote that does not occur -/

/-- **Too few places**: one of the first `cs.length + 1` tagged dollar quotes does not occur. -/
theorem exists_taggedQuote_not_occurs (cs : List Char) :
    ∃ k ≤ cs.length, ¬ (taggedQuote k).toList <:+: cs := by
  by_contra hn
  have hall : ∀ k ∈ Finset.range (cs.length + 1),
      ∃ t, t <:+ cs ∧ dollarQuote (tagWord k) <+: t := by
    intro k hk
    have hocc : (taggedQuote k).toList <:+: cs := by
      by_contra h
      exact hn ⟨k, Nat.le_of_lt_succ (Finset.mem_range.mp hk), h⟩
    rw [toList_taggedQuote] at hocc
    obtain ⟨t, hpre, hsuf⟩ := List.infix_iff_prefix_suffix.mp hocc
    exact ⟨t, hsuf, hpre⟩
  choose! place hsuffix hstarts using hall
  -- the place of an occurrence is given by the length of what follows it
  obtain ⟨j, hj, k, hk, hne, he⟩ := Finset.exists_ne_map_eq_of_card_lt_of_maps_to
    (s := Finset.range (cs.length + 1)) (t := Finset.Icc 1 cs.length)
    (f := fun k => (place k).length) (by simp) (by
      intro k hk
      have hlen := (hstarts k hk).length_le
      have hle := (hsuffix k hk).length_le
      simp only [dollarQuote, List.cons_append, List.length_cons] at hlen
      simp only [Finset.coe_Icc, Set.mem_Icc]
      omega)
  have hsame : place j = place k :=
    (List.suffix_of_suffix_length_le (hsuffix j hj) (hsuffix k hk) he.le).eq_of_length he
  have hw : tagWord j = tagWord k :=
    dollarQuote_unique (not_mem_of_isTagChar (by decide) (tagWord_isTagChar j))
      (not_mem_of_isTagChar (by decide) (tagWord_isTagChar k)) (hstarts j hj)
      (hsame ▸ hstarts k hk)
  exact hne (tagWord_injective hw)

theorem contains_iff {text needle : String} :
    Text.contains text needle = true ↔ needle.toList <:+: text.toList :=
  Text.occursIn_iff_infix

/-- **The quote of a block is where the search for a quote that does not occur stops**, if two dollar
signs alone occur. -/
theorem exists_stops_blockQuote (text : String) :
    ∃ n ≤ text.length, Stops (fun k => (taggedQuote k).toList <:+: text.toList) 0 n ∧
      blockQuote text = if Text.contains text "$$" then taggedQuote n else "$$" := by
  have hrejected : ∀ k, (!Text.contains text (taggedQuote k)) = false ↔
      (taggedQuote k).toList <:+: text.toList := fun k => by rw [Bool.not_eq_false', contains_iff]
  obtain ⟨n, hn, hfound, hstops⟩ :=
    exists_find?_range_stops hrejected (exists_taggedQuote_not_occurs text.toList)
  rw [String.length_toList] at hn hfound
  exact ⟨n, hn, hstops, by rw [blockQuote, hfound, Option.getD_some]⟩

/-- The quote of a block: two dollar signs around a word, and it does not occur in the block. -/
theorem blockQuote_spec (text : String) :
    ∃ w, (blockQuote text).toList = dollarQuote w ∧ (∀ c ∈ w, Reader.isTagChar c = true) ∧
      ¬ dollarQuote w <:+: text.toList := by
  obtain ⟨n, -, hstops, hquote⟩ := exists_stops_blockQuote text
  rw [hquote]
  split
  · refine ⟨tagWord n, toList_taggedQuote n, tagWord_isTagChar n, ?_⟩
    rw [← toList_taggedQuote]
    exact (stops_iff.mp hstops).2.1
  · rename_i hno
    exact ⟨[], by decide, by simp, fun h => hno (contains_iff.mpr h)⟩

/-! ## Reading a block -/

theorem read_opening (h : ∀ c ∈ w, Reader.isTagChar c = true) (d : List Char) :
    (Reader.opening d).read (w ++ ['$']) = some (.block ('$' :: w.reverse ++ d) []) := by
  induction w generalizing d with
  | nil => rfl
  | cons c w ih =>
    have hc : Reader.isTagChar c = true := h c List.mem_cons_self
    have hdollar : c ≠ '$' := by
      rintro rfl
      exact absurd hc (by decide)
    have hsemi : c ≠ ';' := by
      rintro rfl
      exact absurd hc (by decide)
    have he : (Reader.opening d).ends c = false := by simp [Reader.ends, hsemi]
    have hs : (Reader.opening d).step c = .opening (c :: d) := by
      simp [Reader.step, hdollar, hc]
    rw [List.cons_append, Reader.read, he, hs]
    have := ih (fun e h' => h e (List.mem_cons_of_mem c h')) (c :: d)
    simpa using this

theorem read_dollarQuote (h : ∀ c ∈ w, Reader.isTagChar c = true) :
    Reader.outside.read (dollarQuote w) = some (.block (dollarQuote w).reverse []) := by
  have := read_opening h ['$']
  simpa [dollarQuote, Reader.read, Reader.ends, Reader.step, Reader.start] using this

/-- Inside a block a reader goes on as long as the closing quote is not complete. -/
theorem read_block {d : List Char} :
    ∀ {cs read : List Char}, (∀ p, p ≠ [] → p <+: cs → ¬ d <+: p.reverse ++ read) →
      (Reader.block d read).read cs = some (.block d (cs.reverse ++ read))
  | [], _, _ => rfl
  | c :: cs, read, h => by
    have hc : ¬ d <+: c :: read := h [c] (by simp) (by simp)
    have hs : (Reader.block d read).step c = .block d (c :: read) := by
      simp [Reader.step, hc]
    have he : (Reader.block d read).ends c = false := by simp [Reader.ends]
    rw [Reader.read, he, hs, if_neg (by simp), read_block]
    · simp
    · intro p hp hpre hd
      refine h (c :: p) (by simp) ?_ (by simpa using hd)
      simpa using hpre

/-- **A block ends at its closing quote**: a reader that has read the opening quote stands outside
again behind the closing one. -/
theorem read_block_close (hw : ∀ c ∈ w, Reader.isTagChar c = true) (hno : ¬ dollarQuote w <:+: cs) :
    (Reader.block (dollarQuote w).reverse []).read (' ' :: cs ++ ' ' :: dollarQuote w) =
      some .outside := by
  have hblank : ' ' ∉ dollarQuote w := not_mem_dollarQuote (by decide) (by decide) hw
  have hsplit : ' ' :: cs ++ ' ' :: dollarQuote w = (' ' :: cs ++ ' ' :: '$' :: w) ++ ['$'] := by
    simp [dollarQuote]
  -- an earlier end would be an occurrence of the quote in the block or in a shorter text
  have hearly : ∀ p, p ≠ [] → p <+: ' ' :: cs ++ ' ' :: '$' :: w →
      ¬ (dollarQuote w).reverse <+: p.reverse ++ [] := by
    intro p _ hp hd
    rw [List.append_nil, List.reverse_prefix] at hd
    have hin : dollarQuote w <:+: (' ' :: cs) ++ ' ' :: '$' :: w := hd.isInfix.trans hp.isInfix
    rcases infix_of_infix_cons hin (dollarQuote_ne_nil w) hblank with h | h
    · have h : dollarQuote w <:+: [] ++ ' ' :: cs := h
      rcases infix_of_infix_cons h (dollarQuote_ne_nil w) hblank with h | h
      · simp [dollarQuote] at h
      · exact hno h
    · have := h.length_le
      simp only [dollarQuote, List.length_cons, List.length_append, List.length_nil] at this
      omega
  rw [hsplit, Reader.read_append, read_block hearly]
  have hclose : (dollarQuote w).reverse <+: '$' :: ((' ' :: cs ++ ' ' :: '$' :: w).reverse ++ []) := by
    simp [dollarQuote]
  have hs : (Reader.block (dollarQuote w).reverse
      ((' ' :: cs ++ ' ' :: '$' :: w).reverse ++ [])).step '$' = .outside := by
    rw [Reader.step, if_pos (List.isPrefixOf_iff_prefix.mpr hclose)]
  rw [Option.bind_some, Reader.read, hs]
  rfl

theorem whole_block (text : String) :
    Whole ("DO " ++ blockQuote text ++ " " ++ text ++ " " ++ blockQuote text ++ ";") := by
  obtain ⟨w, hq, hw, hno⟩ := blockQuote_spec text
  refine ⟨"DO ".toList ++ (dollarQuote w ++ (' ' :: text.toList ++ ' ' :: dollarQuote w)), .outside,
    ?_, ?_, rfl⟩
  · simp [hq]
  · have hdo : Reader.outside.read "DO ".toList = some .outside := by decide
    rw [Reader.read_append, hdo, Option.bind_some, Reader.read_append, read_dollarQuote hw,
      Option.bind_some, read_block_close hw hno]

/-! ## What a block encloses -/

/-- The text of a loop that stands between the quotes of its block. -/
def loopText (declarations : List (String × ColumnType)) (source : String) (body : List String) :
    String :=
  "DECLARE " ++ Text.join " " (declarations.map fun (name, type) => name ++ " " ++ type.sql ++ ";") ++
    " BEGIN FOR " ++ Text.join ", " (declarations.map Prod.fst) ++ " IN " ++ withoutSemicolon source ++
    " LOOP " ++ Text.join " " (body.map withSemicolon) ++ " END LOOP; END"

theorem loopBlock_eq (declarations : List (String × ColumnType)) (source : String) (body : List String) :
    loopBlock declarations source body =
      "DO " ++ blockQuote (loopText declarations source body) ++ " " ++
        loopText declarations source body ++ " " ++ blockQuote (loopText declarations source body) ++ ";" :=
  rfl

/-- A statement that is a text between two copies of a quote, with a blank on either side of the text,
and in which the quote stands at these two places only. -/
structure Encloses (quote text sql : List Char) : Prop where
  parts : sql = ['D', 'O', ' '] ++ quote ++ ([' '] ++ text ++ [' ']) ++ quote ++ [';']
  places : ∀ i, quote <+: sql.drop i ↔ i = 3 ∨ i = 3 + quote.length + (text.length + 2)

theorem prefix_drop_self_iff (hd : d ≠ []) (i : Nat) : d <+: d.drop i ↔ i = 0 := by
  constructor
  · intro h
    have hlen := h.length_le
    have hpos := List.length_pos_iff.mpr hd
    rw [List.length_drop] at hlen
    omega
  · rintro rfl
    exact List.prefix_rfl

/-- **A text is enclosed by a dollar quote that does not occur in it.** -/
theorem encloses_dollarQuote (hw : ∀ c ∈ w, Reader.isTagChar c = true)
    (hno : ¬ dollarQuote w <:+: cs) : Encloses (dollarQuote w) cs
      (['D', 'O', ' '] ++ dollarQuote w ++ ([' '] ++ cs ++ [' ']) ++ dollarQuote w ++ [';']) := by
  refine ⟨rfl, fun i => ?_⟩
  have hd := dollarQuote_ne_nil w
  have hblank : ' ' ∉ dollarQuote w := not_mem_dollarQuote (by decide) (by decide) hw
  have hsemi : ';' ∉ dollarQuote w := not_mem_dollarQuote (by decide) (by decide) hw
  have hnone : ∀ {as : List Char}, ¬ dollarQuote w <:+: as → ∀ j, ¬ dollarQuote w <+: as.drop j :=
    fun hno j h => hno (infix_iff_exists_drop.mpr ⟨j, h⟩)
  have hdo : ∀ j, ¬ dollarQuote w <+: ['D', 'O'].drop j :=
    hnone fun h => absurd (h.subset List.mem_cons_self) (by decide)
  have hnil : ∀ j, ¬ dollarQuote w <+: [].drop j := hnone fun h => hd (List.infix_nil.mp h)
  -- the blanks and the semicolon cut the statement into its parts
  have hcut : ['D', 'O', ' '] ++ dollarQuote w ++ ([' '] ++ cs ++ [' ']) ++ dollarQuote w ++ [';'] =
      ['D', 'O'] ++ ' ' :: (dollarQuote w ++ ' ' :: (cs ++ ' ' :: (dollarQuote w ++ ';' :: []))) := by
    simp
  rw [hcut, prefix_drop_append_cons_iff hd hblank, prefix_drop_append_cons_iff hd hblank,
    prefix_drop_append_cons_iff hd hblank, prefix_drop_append_cons_iff hd hsemi,
    prefix_drop_self_iff hd, prefix_drop_self_iff hd]
  simp only [hdo, hnone hno, hnil, List.length_cons, List.length_nil, false_or, and_false, or_false]
  omega

theorem encloses_loopBlock (declarations : List (String × ColumnType)) (source : String)
    (body : List String) :
    Encloses (blockQuote (loopText declarations source body)).toList
      (loopText declarations source body).toList (loopBlock declarations source body).toList := by
  obtain ⟨w, hq, hw, hno⟩ := blockQuote_spec (loopText declarations source body)
  have hsql : (loopBlock declarations source body).toList = ['D', 'O', ' '] ++ dollarQuote w ++
      ([' '] ++ (loopText declarations source body).toList ++ [' ']) ++ dollarQuote w ++ [';'] := by
    rw [loopBlock_eq]
    simp [hq]
  rw [hq, hsql]
  exact encloses_dollarQuote hw hno

/-- **Dollar quoting stops and is safe**: the search for a quote stops for every text, the quote does
not occur in the text, and in the statement of a loop the next place of the opening quote is that of
the closing one at the end. -/
theorem blockQuote_stops_encloses :
    (∀ text, (∃ n ≤ text.length, Stops (fun k => (taggedQuote k).toList <:+: text.toList) 0 n ∧
        blockQuote text = if Text.contains text "$$" then taggedQuote n else "$$") ∧
      ¬ (blockQuote text).toList <:+: text.toList) ∧
    ∀ declarations source body, Encloses (blockQuote (loopText declarations source body)).toList
      (loopText declarations source body).toList (loopBlock declarations source body).toList := by
  refine ⟨fun text => ⟨exists_stops_blockQuote text, ?_⟩, encloses_loopBlock⟩
  obtain ⟨w, hq, -, hno⟩ := blockQuote_spec text
  rw [hq]
  exact hno

end Relational

end GraphSql
