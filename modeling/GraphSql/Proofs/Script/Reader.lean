import GraphSql.Proofs.Words
import GraphSql.Relational.Literal

/-!
# Reading a script character by character

A script is cut into statements by a reader that knows three things: quoted texts, in which a doubled
quote stands for a quote, blocks between two copies of a dollar quote, and the semicolon, which ends a
statement outside of both.  `Reader.step` is one step of it and `cutScript` the whole run.

Texts are put together from parts, so the statements are about parts.  `Reads P s Q` says that a
reader in a state of `P` gets through `s` without ending a statement and stands in a state of `Q`
behind it.  Two sets of states suffice: `Ready`, where anything may follow, and `Free`, where anything
may follow but a quote, which would be taken for the second half of a doubled one.

* `Reads.append`: parts are read one after the other.
* `reads_quote`: a quoted text is left where it ends, whatever it contains.
* `Whole.cutFrom`: a statement that is read in one piece is cut off in one piece.
-/

namespace GraphSql.Relational

/-- Where a reader of a script stands. -/
inductive Reader where
  | outside
  /-- In a name or number, where a dollar sign opens nothing. -/
  | word
  | quoted
  /-- Behind a quote in a quoted text, which ends there unless another quote follows. -/
  | closing
  /-- In the dollar quote that opens a block, the part that was read last character first. -/
  | opening (delimiter : List Char)
  /-- In a block: its dollar quote and what was read of the block, both last character first. -/
  | block (delimiter read : List Char)
  deriving DecidableEq

namespace Reader

/-- The characters of names, numbers and tags. -/
def isTagChar (c : Char) : Bool := c.isAlphanum || c = '_' || decide (128 ≤ c.toNat)

/-- Where a character leads that stands outside of quoted texts and blocks. -/
def start (c : Char) : Reader :=
  if c = '\'' then quoted
  else if c = '$' then opening ['$']
  else if isTagChar c then word
  else outside

/-- Reading one character. -/
def step : Reader → Char → Reader
  | outside, c => start c
  | word, c => if c = '$' then word else start c
  | quoted, c => if c = '\'' then closing else quoted
  | closing, c => if c = '\'' then quoted else start c
  | opening d, c =>
    if c = '$' then block ('$' :: d) []
    else if isTagChar c then opening (c :: d)
    else start c
  | block d read, c => if d.isPrefixOf (c :: read) then outside else block d (c :: read)

/-- Whether a character ends a statement. -/
def ends (r : Reader) (c : Char) : Bool :=
  c = ';' && match r with
    | quoted | block _ _ => false
    | _ => true

/-- Reading a text in which no statement ends. -/
def read : Reader → List Char → Option Reader
  | r, [] => some r
  | r, c :: cs => if r.ends c then none else read (r.step c) cs

/-- Outside of quoted texts and blocks, and not right behind a quote. -/
def Ready (r : Reader) : Prop := r = outside ∨ r = word

/-- Outside of quoted texts and blocks. -/
def Free (r : Reader) : Prop := r = outside ∨ r = word ∨ r = closing

theorem Ready.free {r : Reader} (h : r.Ready) : r.Free := h.elim .inl (.inr ∘ .inl)

theorem Free.ends {r : Reader} (h : r.Free) : r.ends ';' = true := by
  rcases h with rfl | rfl | rfl <;> rfl

theorem read_append (r : Reader) (as bs : List Char) :
    r.read (as ++ bs) = (r.read as).bind (·.read bs) := by
  induction as generalizing r with
  | nil => rfl
  | cons a as ih =>
    rw [List.cons_append, read, read]
    split
    · rfl
    · exact ih _

end Reader

/-! ## Cutting a script -/

/-- The pieces of a script, each up to and with the semicolon that ends it; `piece` is what was read
of the first one, last character first. -/
def cutFrom (r : Reader) (piece : List Char) : List Char → List (List Char)
  | [] => if piece.isEmpty then [] else [piece.reverse]
  | c :: cs =>
    if r.ends c then (c :: piece).reverse :: cutFrom .outside [] cs
    else cutFrom (r.step c) (c :: piece) cs

/-- A piece without the blank that separates it from the one before it. -/
def dropSeparator : List Char → List Char
  | ' ' :: cs => cs
  | cs => cs

/-- The statements of a script. -/
def cutScript (script : String) : List String :=
  match cutFrom .outside [] script.toList with
  | [] => []
  | p :: ps => String.ofList p :: ps.map fun q => String.ofList (dropSeparator q)

example : cutScript "SELECT 'a;''b'; DO $x$ SELECT ';$$'; $x$;" =
    ["SELECT 'a;''b';", "DO $x$ SELECT ';$$'; $x$;"] := by decide +kernel

/-- A statement in one piece: the semicolon at its end is the only one that ends a statement, and
every quoted text and every block that it opens is closed in it. -/
def Whole (sql : String) : Prop :=
  ∃ cs r, sql.toList = cs ++ [';'] ∧ Reader.outside.read cs = some r ∧ r.ends ';' = true

theorem cutFrom_of_read {r r' : Reader} {cs : List Char} (h : r.read cs = some r')
    (he : r'.ends ';' = true) (piece rest : List Char) :
    cutFrom r piece (cs ++ ';' :: rest) =
      (piece.reverse ++ cs ++ [';']) :: cutFrom .outside [] rest := by
  induction cs generalizing r piece with
  | nil =>
    obtain rfl : r = r' := by simpa [Reader.read] using h
    simp [cutFrom, he]
  | cons c cs ih =>
    rw [Reader.read] at h
    split at h
    · simp at h
    · rename_i hc
      rw [List.cons_append, cutFrom, if_neg hc, ih h]
      simp

theorem Whole.cutFrom {sql : String} (h : Whole sql) (rest : List Char) :
    cutFrom .outside [] (sql.toList ++ rest) = sql.toList :: cutFrom .outside [] rest := by
  obtain ⟨cs, r, he, hr, hf⟩ := h
  have := cutFrom_of_read hr hf [] rest
  simpa [he] using this

/-- A statement behind the blank that separates it from another one. -/
theorem Whole.cutFrom_separator {sql : String} (h : Whole sql) (rest : List Char) :
    Relational.cutFrom .outside [] (' ' :: sql.toList ++ rest) =
      (' ' :: sql.toList) :: Relational.cutFrom .outside [] rest := by
  obtain ⟨cs, r, he, hr, hf⟩ := h
  have h' : Reader.outside.read (' ' :: cs) = some r := hr
  have := cutFrom_of_read h' hf [] rest
  simpa [he] using this

/-- **A script of whole statements is cut into just these.** -/
theorem cutScript_join {ss : List String} (h : ∀ s ∈ ss, Whole s) (hne : ss ≠ []) :
    cutScript (Text.join " " ss) = ss := by
  -- behind the first statement each further one comes with its separator
  have key : ∀ (ss : List String) (s : String), (∀ t ∈ s :: ss, Whole t) → ∀ pre : List Char,
      (∀ rest, cutFrom .outside [] (pre ++ s.toList ++ rest) =
        (pre ++ s.toList) :: cutFrom .outside [] rest) →
      cutFrom .outside [] (pre ++ (Text.join " " (s :: ss)).toList) =
        (pre ++ s.toList) :: ss.map fun t => ' ' :: t.toList := by
    intro ss
    induction ss with
    | nil =>
      intro s _ pre hpre
      have := hpre []
      simpa [Text.join, Relational.cutFrom] using this
    | cons t ts ih =>
      intro s hs pre hpre
      have ht : Whole t := hs t (by simp)
      have hrest := ih t (fun u hu => hs u (List.mem_cons_of_mem s hu)) [' ']
        (fun rest => ht.cutFrom_separator rest)
      rw [Text.join, String.toList_append, String.toList_append, ← List.append_assoc,
        ← List.append_assoc, List.append_assoc (pre ++ s.toList), hpre]
      simpa using hrest
  cases ss with
  | nil => exact absurd rfl hne
  | cons s ss =>
    have hs : Whole s := h s List.mem_cons_self
    have := key ss s h [] (fun rest => by simpa using hs.cutFrom rest)
    simp only [List.nil_append] at this
    rw [cutScript, this]
    simp [dropSeparator, Function.comp_def]

/-! ## Parts of statements -/

/-- A reader in a state of `P` reads `s` without ending a statement and is left in a state of `Q`. -/
def Reads (P : Reader → Prop) (s : String) (Q : Reader → Prop) : Prop :=
  ∀ r, P r → ∃ r', r.read s.toList = some r' ∧ Q r'

section Reads

variable {P Q R : Reader → Prop} {s t : String}

theorem Reads.append (hs : Reads P s Q) (ht : Reads Q t R) : Reads P (s ++ t) R := by
  intro r hr
  obtain ⟨r₁, h₁, hq⟩ := hs r hr
  obtain ⟨r₂, h₂, hr⟩ := ht r₁ hq
  refine ⟨r₂, ?_, hr⟩
  rw [String.toList_append, Reader.read_append, h₁]
  exact h₂

theorem Reads.free (h : Reads P s Reader.Ready) : Reads P s Reader.Free := fun r hr =>
  let ⟨r', h', hq⟩ := h r hr
  ⟨r', h', hq.free⟩

theorem Reads.ofReady (h : Reads Reader.Free s Q) : Reads Reader.Ready s Q :=
  fun r hr => h r hr.free

/-! ### Texts without quotes -/

/-- The characters that open and end nothing. -/
def isPlain (c : Char) : Bool := c ≠ '\'' && c ≠ ';' && c ≠ '$'

theorem isPlain_of_isWordChar {c : Char} (h : isWordChar c = true) : isPlain c = true := by
  obtain ⟨h1, h2, h3, -⟩ := not_special_of_isWordChar h
  simp [isPlain, h1, h2, h3]

theorem Reader.Free.step_plain {r : Reader} (h : r.Free) {c : Char} (hc : isPlain c = true) :
    r.ends c = false ∧ (r.step c).Ready := by
  simp only [isPlain, Bool.and_eq_true, decide_eq_true_eq] at hc
  obtain ⟨⟨h1, h2⟩, h3⟩ := hc
  have hstart : (Reader.start c).Ready := by
    simp only [Reader.start, if_neg h1, if_neg h3]
    split
    · exact .inr rfl
    · exact .inl rfl
  rcases h with rfl | rfl | rfl
  · exact ⟨by simp [Reader.ends, h2], hstart⟩
  · exact ⟨by simp [Reader.ends, h2], by simpa only [Reader.step, if_neg h3] using hstart⟩
  · exact ⟨by simp [Reader.ends, h2], by simpa only [Reader.step, if_neg h1] using hstart⟩

theorem read_plain : ∀ {cs : List Char} {r : Reader}, cs.all isPlain = true → r.Ready →
    ∃ r', r.read cs = some r' ∧ r'.Ready
  | [], r, _, hr => ⟨r, rfl, hr⟩
  | c :: cs, r, h, hr => by
    rw [List.all_cons, Bool.and_eq_true] at h
    obtain ⟨he, hs⟩ := hr.free.step_plain h.1
    obtain ⟨r', h', hr'⟩ := read_plain h.2 hs
    exact ⟨r', by simp [Reader.read, he, h'], hr'⟩

theorem reads_word (h : Wordy s) : Reads Reader.Ready s Reader.Ready := fun _ hr =>
  read_plain (List.all_eq_true.mpr fun c hc => isPlain_of_isWordChar (h c hc)) hr

/-- A text that is not empty and has neither quotes nor semicolons nor dollar signs. -/
def plainText (s : String) : Bool := !s.toList.isEmpty && s.toList.all isPlain

theorem reads_plain (h : plainText s = true) : Reads Reader.Free s Reader.Ready := by
  intro r hr
  simp only [plainText, Bool.and_eq_true, Bool.not_eq_true'] at h
  obtain ⟨hne, hall⟩ := h
  cases hs : s.toList with
  | nil => simp [hs] at hne
  | cons c cs =>
    rw [hs, List.all_cons, Bool.and_eq_true] at hall
    obtain ⟨he, hstep⟩ := hr.step_plain hall.1
    obtain ⟨r', h', hr'⟩ := read_plain hall.2 hstep
    exact ⟨r', by simp [Reader.read, he, h'], hr'⟩

/-! ### Adding a part -/

theorem Reads.text (h : Reads P s Reader.Free) (ht : plainText t = true) :
    Reads P (s ++ t) Reader.Ready :=
  h.append (reads_plain ht)

theorem Reads.part (h : Reads P s Reader.Ready) (ht : Reads Reader.Ready t Reader.Free) :
    Reads P (s ++ t) Reader.Free :=
  h.append ht

theorem Reads.word (h : Reads P s Reader.Ready) (ht : Wordy t) : Reads P (s ++ t) Reader.Ready :=
  h.append (reads_word ht)

/-! ### Quoted texts -/

theorem read_quoteChars (cs : List Char) :
    Reader.quoted.read (cs.flatMap quoteChar) = some .quoted := by
  induction cs with
  | nil => rfl
  | cons c cs ih =>
    rw [List.flatMap_cons, Reader.read_append]
    have hc : Reader.quoted.read (quoteChar c) = some .quoted := by
      unfold quoteChar
      split
      · rfl
      · rename_i hc
        simp [Reader.read, Reader.ends, Reader.step, hc]
    rw [hc]
    exact ih

/-- **A quoted text is left where it ends**, whatever quotes, semicolons and dollar signs are in
it. -/
theorem reads_quote (s : String) : Reads Reader.Ready (quote s) Reader.Free := by
  intro r hr
  refine ⟨.closing, ?_, .inr (.inr rfl)⟩
  have hopen : r.read "'".toList = some .quoted := by
    rcases hr with rfl | rfl <;> rfl
  simp only [quote, String.toList_append, Reader.read_append, hopen, Option.bind_some,
    String.toList_ofList, read_quoteChars]
  rfl

/-- A part with a semicolon behind it is a statement in one piece. -/
theorem Reads.whole (h : Reads Reader.Ready s fun r => r.ends ';' = true) : Whole (s ++ ";") := by
  obtain ⟨r, hr, he⟩ := h .outside (.inl rfl)
  exact ⟨s.toList, r, by simp, hr, he⟩

theorem Reads.ends (h : Reads P s Reader.Free) : Reads P s fun r => r.ends ';' = true := fun r hr =>
  let ⟨r', h', hq⟩ := h r hr
  ⟨r', h', hq.ends⟩

end Reads

/-! ## Leaving out what ends a part -/

namespace Reader

/-- The dollar quote of a block ends in a dollar sign, so a block can end only at one. -/
def Proper : Reader → Prop
  | block d _ => d.head? = some '$'
  | _ => True

theorem proper_start (c : Char) : (start c).Proper := by
  unfold start
  split_ifs <;> exact trivial

theorem Proper.step {r : Reader} (h : r.Proper) (c : Char) : (r.step c).Proper := by
  cases r with
  | outside => exact proper_start c
  | word =>
    rw [Reader.step]
    split
    · exact trivial
    · exact proper_start c
  | quoted =>
    rw [Reader.step]
    split <;> exact trivial
  | closing =>
    rw [Reader.step]
    split
    · exact trivial
    · exact proper_start c
  | opening d =>
    rw [Reader.step]
    split_ifs
    · rfl
    · exact trivial
    · exact proper_start c
  | block d read =>
    rw [Reader.step]
    split
    · exact trivial
    · exact h

theorem Proper.read : ∀ {cs : List Char} {r r' : Reader}, r.Proper → r.read cs = some r' → r'.Proper
  | [], r, r', h, hr => by
    obtain rfl : r = r' := by simpa [Reader.read] using hr
    exact h
  | c :: cs, r, r', h, hr => by
    rw [Reader.read] at hr
    split at hr
    · simp at hr
    · exact (h.step c).read hr

/-- A reader that gets out of quoted texts and blocks has read a quote or a dollar sign. -/
theorem ends_of_read : ∀ {cs : List Char} {r r' : Reader}, (∀ c ∈ cs, c ≠ '\'' ∧ c ≠ '$') →
    r.Proper → r.read cs = some r' → r'.ends ';' = true → r.ends ';' = true
  | [], r, r', _, _, hr, he => by
    obtain rfl : r = r' := by simpa [Reader.read] using hr
    exact he
  | c :: cs, r, r', hcs, hp, hr, he => by
    rw [Reader.read] at hr
    split at hr
    · simp at hr
    have hnext := ends_of_read (fun d hd => hcs d (List.mem_cons_of_mem c hd)) (hp.step c) hr he
    obtain ⟨h1, h2⟩ := hcs c List.mem_cons_self
    cases r with
    | quoted => simp [Reader.step, h1, Reader.ends] at hnext
    | block d read =>
      have hd : ¬ d <+: c :: read := by
        intro hpre
        cases d with
        | nil => simp [Proper] at hp
        | cons x d =>
          obtain ⟨rfl, -⟩ := List.cons_prefix_cons.mp hpre
          simp only [Proper, List.head?_cons, Option.some.injEq] at hp
          exact h2 hp
      simp [Reader.step, hd, Reader.ends] at hnext
    | outside => rfl
    | word => rfl
    | closing => rfl
    | opening d => rfl

end Reader

end GraphSql.Relational
