import GraphSql.Database.Client
import GraphSql.Proofs.Compiler.TempTables
import GraphSql.Proofs.Text

/-!
# A query on its connection

A query takes one connection, sends its statements in order until one of them fails, discards
temporary tables if there can be any, and gives the connection back.  `Client.oneConnection_of_translate`
says so for every backend: it gives all events of a query, its answer and the state behind it, and
shows that no temporary table stays on the connection.  The kind of the last statement decides how it
is sent, and so does its text (`Client.runFinal_eq`).

What a computation of the client does is told by `Run.Leaves`: the answer and the events that it adds
to a log.  There is a rule for each way to put computations together.  Computations that only ask for
operations and then answer are told by these operations (`Run.Performs`).
-/

namespace GraphSql.Database

open Relational (Statement)

variable {α β γ : Type} {s : State α} {reason : String} {pool : Nat}

/-! ## Operations in a row -/

namespace Backend

variable (b : Backend α)

/-- The events of operations in order, up to and including the first one that is refused. -/
def events : List (Event α) → List (Operation α) → List (Event α)
  | _, [] => []
  | log, o :: os =>
    match b.refusal log o with
    | some _ => [⟨o, false⟩]
    | none => ⟨o, true⟩ :: events (log ++ [⟨o, true⟩]) os

/-- The answer `a`, if no operation is refused. -/
def outcome (a : β) : List (Event α) → List (Operation α) → Except Failure β
  | _, [] => .ok a
  | log, o :: os =>
    match b.refusal log o with
    | some reason => .error (o.failed reason)
    | none => outcome a (log ++ [⟨o, true⟩]) os

variable {b}

/-- **Operations behind operations** go on as one row, unless one of the first is refused. -/
theorem append_cases (a : β) (a' : γ) (more : List (Operation α)) : ∀ (os : List (Operation α)) log,
    (b.outcome a log os = .ok a ∧
        b.events log (os ++ more) = b.events log os ++ b.events (log ++ b.events log os) more ∧
        b.outcome a' log (os ++ more) = b.outcome a' (log ++ b.events log os) more) ∨
      ∃ f, b.outcome a log os = .error f ∧ b.events log (os ++ more) = b.events log os ∧
        b.outcome a' log (os ++ more) = .error f := by
  intro os
  induction os with
  | nil =>
    intro log
    refine .inl ⟨rfl, ?_, ?_⟩
    · rw [events, List.append_nil, List.nil_append, List.nil_append]
    · rw [events, List.append_nil, List.nil_append]
  | cons o os ih =>
    intro log
    simp only [List.cons_append, events, outcome]
    cases b.refusal log o with
    | some reason => exact .inr ⟨_, rfl, rfl, rfl⟩
    | none =>
      refine (ih (log ++ [⟨o, true⟩])).imp (fun h => ?_) fun h => ?_
      · rw [List.append_assoc, List.singleton_append] at h
        exact ⟨h.1, congrArg (_ :: ·) h.2.1, h.2.2⟩
      · obtain ⟨f, hf, hevents, houtcome⟩ := h
        exact ⟨f, hf, congrArg (_ :: ·) hevents, houtcome⟩

/-- An event of operations is that of one of them. -/
theorem operation_of_mem_events {e : Event α} : ∀ {os : List (Operation α)} {log : List (Event α)},
    e ∈ b.events log os → e.operation ∈ os := by
  intro os
  induction os with
  | nil => exact fun h => absurd h List.not_mem_nil
  | cons o os ih =>
    intro log h
    rw [events] at h
    cases hrefusal : b.refusal log o with
    | some reason =>
      rw [hrefusal] at h
      rw [List.mem_singleton.mp h]
      exact List.mem_cons_self
    | none =>
      rw [hrefusal] at h
      rcases List.mem_cons.mp h with rfl | h
      · exact List.mem_cons_self
      · exact List.mem_cons_of_mem o (ih h)

/-- What fails is one of the operations. -/
theorem outcome_eq_error {a : β} {f : Failure} : ∀ {os : List (Operation α)} {log : List (Event α)},
    b.outcome a log os = .error f → ∃ o ∈ os, ∃ reason, f = o.failed reason := by
  intro os
  induction os with
  | nil =>
    intro log h
    cases h
  | cons o os ih =>
    intro log h
    rw [outcome] at h
    cases hrefusal : b.refusal log o with
    | some reason =>
      rw [hrefusal] at h
      cases h
      exact ⟨o, List.mem_cons_self, reason, rfl⟩
    | none =>
      rw [hrefusal] at h
      obtain ⟨o', ho', hf⟩ := ih h
      exact ⟨o', List.mem_cons_of_mem o ho', hf⟩

/-- A single operation is logged, whether it is refused or not. -/
theorem events_singleton (log : List (Event α)) (o : Operation α) :
    b.events log [o] = [⟨o, (b.refusal log o).isNone⟩] := by
  rw [events]
  cases b.refusal log o with
  | some reason => rfl
  | none => rfl

end Backend

/-! ## Computations -/

namespace Run

theorem run_bind {x : Run α β} {f : β → Run α γ} :
    (x >>= f).run.run s =
      match x.run.run s with
      | (.ok a, s₁) => (f a).run.run s₁
      | (.error e, s₁) => (.error e, s₁) := by
  rw [ExceptT.run_bind, StateT.run_bind]
  rcases x.run.run s with ⟨e | a, s₁⟩
  · rfl
  · rfl

/-- What is computed from a state is computed from the current one. -/
theorem run_get_bind {f : State α → Run α β} :
    ((get : Run α (State α)) >>= f).run.run s = (f s).run.run s := by
  rw [run_bind]
  rfl

theorem run_map {x : Run α β} {g : β → γ} :
    (g <$> x).run.run s = ((x.run.run s).1.map g, (x.run.run s).2) := by
  rw [map_eq_pure_bind, run_bind]
  rcases x.run.run s with ⟨e | a, s₁⟩
  · rfl
  · rfl

/-- Behind the given log, a computation ends in `r` and adds the events `es`. -/
def Leaves (log : List (Event α)) (x : Run α β) (r : Except Failure β) (es : List (Event α)) : Prop :=
  ∀ s : State α, s.log = log → x.run.run s = (r, { s with log := log ++ es })

variable {b : Backend α} {log es fs : List (Event α)} {x : Run α β} {f : β → Run α γ}

theorem leaves_pure (a : β) : Leaves log (pure a : Run α β) (.ok a) [] := by
  rintro s rfl
  show (Except.ok a, s) = (Except.ok a, { s with log := s.log ++ [] })
  rw [List.append_nil]

theorem leaves_perform {o : Operation α} (h : b.refusal log o = none) :
    Leaves log (perform b o) (.ok ()) [⟨o, true⟩] := by
  rintro s rfl
  rw [perform, run_get_bind, h]
  rfl

theorem leaves_perform_of_refusal {o : Operation α} (h : b.refusal log o = some reason) :
    Leaves log (perform b o) (.error (o.failed reason)) [⟨o, false⟩] := by
  rintro s rfl
  rw [perform, run_get_bind, h]
  rfl

theorem Leaves.bind {a : β} {r : Except Failure γ} (hx : Leaves log x (.ok a) es)
    (hf : Leaves (log ++ es) (f a) r fs) : Leaves log (x >>= f) r (es ++ fs) := by
  intro s hs
  rw [run_bind, hx s hs]
  show (f a).run.run _ = _
  rw [hf _ rfl, List.append_assoc]

theorem Leaves.bind_error {e : Failure} (hx : Leaves log x (.error e) es) (f : β → Run α γ) :
    Leaves log (x >>= f) (.error e) es := by
  intro s hs
  rw [run_bind, hx s hs]

/-- The cleanup is run in either case, and its own failure is reported. -/
theorem Leaves.ensuring {cleanup : Run α Unit} {r : Except Failure β} {r' : Except Failure Unit}
    (hx : Leaves log x r es) (hcleanup : Leaves (log ++ es) cleanup r' fs) :
    Leaves log (Run.ensuring x cleanup) (r'.bind fun _ => r) (es ++ fs) := by
  intro s hs
  have hrun : (Run.ensuring x cleanup).run.run s =
      match cleanup.run.run (x.run.run s).2 with
      | (.ok _, s₂) => ((x.run.run s).1, s₂)
      | (.error e, s₂) => (.error e, s₂) := by
    rw [Run.ensuring, ExceptT.run_mk, StateT.run_bind]
    show StateT.run (cleanup.run >>= _) (x.run.run s).2 = _
    rw [StateT.run_bind]
    rcases cleanup.run.run (x.run.run s).2 with ⟨e | a, s₂⟩
    · rfl
    · rfl
  rw [hrun, hx s hs, hcleanup _ rfl, List.append_assoc]
  cases r' with
  | ok a => rfl
  | error e => rfl

theorem leaves_acquire (h : b.refusal log (.acquire pool) = none) :
    Leaves log (acquire b pool) (.ok (Held.ofLog log).taken) [⟨.acquire pool, true⟩] := by
  rintro s rfl
  rw [acquire, run_get_bind]
  exact ((leaves_perform h).bind (leaves_pure s.held.taken)) s rfl

theorem leaves_acquire_of_refusal (h : b.refusal log (.acquire pool) = some reason) :
    Leaves log (acquire b pool) (.error (.connection reason)) [⟨.acquire pool, false⟩] := by
  rintro s rfl
  rw [acquire, run_get_bind]
  exact ((leaves_perform_of_refusal h).bind_error _) s rfl

/-- A computation asks for the operations in order, and answers `a` if none of them is refused. -/
def Performs (b : Backend α) (x : Run α β) (os : List (Operation α)) (a : β) : Prop :=
  ∀ log, Leaves log x (b.outcome a log os) (b.events log os)

theorem performs_pure (a : β) : Performs b (pure a) [] a := fun _ => leaves_pure a

theorem performs_perform (o : Operation α) : Performs b (perform b o) [o] () := by
  intro log
  rw [Backend.events, Backend.outcome]
  cases h : b.refusal log o with
  | some reason => exact leaves_perform_of_refusal h
  | none => exact leaves_perform h

theorem Performs.bind {os more : List (Operation α)} {a : β} {a' : γ} (hx : Performs b x os a)
    (hf : Performs b (f a) more a') : Performs b (x >>= f) (os ++ more) a' := by
  intro log
  have hfirst := hx log
  rcases Backend.append_cases a a' more os log with ⟨hok, hevents, houtcome⟩ |
    ⟨e, herror, hevents, houtcome⟩
  · rw [hok] at hfirst
    rw [hevents, houtcome]
    exact hfirst.bind (hf _)
  · rw [herror] at hfirst
    rw [hevents, houtcome]
    exact hfirst.bind_error f

theorem performs_forM {g : β → Run α Unit} {o : β → Operation α}
    (h : ∀ a, Performs b (g a) [o a] ()) : ∀ as : List β, Performs b (as.forM g) (as.map o) ()
  | [] => performs_pure ()
  | a :: as => (h a).bind (performs_forM h as)

/-- A connection that is handed out is given back behind the body. -/
theorem Leaves.withConnection {body : Nat → Run α β} {r : Except Failure β}
    (h : b.refusal log (.acquire pool) = none)
    (hbody : Leaves (log ++ [⟨.acquire pool, true⟩]) (body (Held.ofLog log).taken) r es) :
    Leaves log (Run.withConnection b pool body)
      ((b.outcome () (log ++ ⟨.acquire pool, true⟩ :: es) [.release (Held.ofLog log).taken]).bind
        fun _ => r)
      (⟨.acquire pool, true⟩ ::
        (es ++ b.events (log ++ ⟨.acquire pool, true⟩ :: es) [.release (Held.ofLog log).taken])) := by
  have hrelease := performs_perform (b := b) (.release (Held.ofLog log).taken)
    (log ++ [⟨.acquire pool, true⟩] ++ es)
  have hbracket := hbody.ensuring hrelease
  rw [List.append_assoc, List.singleton_append] at hbracket
  exact (leaves_acquire h).bind hbracket

theorem leaves_withConnection_of_refusal (h : b.refusal log (.acquire pool) = some reason)
    (body : Nat → Run α β) :
    Leaves log (Run.withConnection b pool body) (.error (.connection reason))
      [⟨.acquire pool, false⟩] :=
  (leaves_acquire_of_refusal h).bind_error _

end Run

/-! ## The statements of a query -/

/-- The text that discards the temporary tables of a connection. -/
def discardText : String := "DISCARD TEMP"

/-- How the statements of a query are sent on a connection: all but the last are executed, and the last
one is fetched unless the query has a loop. -/
def querySends (k : Nat) (looping : Bool) (statements : List Statement) : List (Operation α) :=
  statements.dropLast.map (fun s => .send k (.execute s.render)) ++
    statements.getLast?.toList.map fun s =>
      .send k (if looping then .execute s.render else .fetch s.render [])

/-- A query with more than one statement discards temporary tables in the end. -/
def discardSends (k : Nat) (statements : List Statement) : List (Operation α) :=
  if 2 ≤ statements.length then [.send k (.execute discardText)] else []

theorem discardSends_cons (k : Nat) (first : Statement) (setup : List Statement) (final : Statement) :
    (discardSends k (first :: setup ++ [final]) : List (Operation α)) =
      [.send k (.execute discardText)] := by
  have hlength : 2 ≤ (first :: setup ++ [final]).length := by
    rw [List.length_append, List.length_cons, List.length_singleton]
    omega
  rw [discardSends, if_pos hlength]

/-- The events between taking a connection and giving it back. -/
def bodyEvents (b : Backend α) (log : List (Event α)) (k : Nat) (looping : Bool)
    (statements : List Statement) : List (Event α) :=
  b.events log (querySends k looping statements) ++
    b.events (log ++ b.events log (querySends k looping statements)) (discardSends k statements)

/-- The events of a query on a connection that the pool hands out. -/
def sessionEvents (b : Backend α) (log : List (Event α)) (pool : Nat) (looping : Bool)
    (statements : List Statement) : List (Event α) :=
  let k := (Held.ofLog log).taken
  let body := bodyEvents b (log ++ [⟨.acquire pool, true⟩]) k looping statements
  ⟨.acquire pool, true⟩ :: (body ++ b.events (log ++ ⟨.acquire pool, true⟩ :: body) [.release k])

/-- The answer of a query: a failure to give the connection back is reported before one to discard
tables, and this one before one of the statements.  A loop answers with no rows. -/
def sessionAnswer (b : Backend α) (log : List (Event α)) (pool : Nat) (looping : Bool)
    (statements : List Statement) : Except Failure (List (Row α)) :=
  let k := (Held.ofLog log).taken
  let start := log ++ [⟨.acquire pool, true⟩]
  let sent := b.events start (querySends k looping statements)
  let body := bodyEvents b start k looping statements
  (b.outcome () (log ++ ⟨.acquire pool, true⟩ :: body) [.release k]).bind fun _ =>
    (b.outcome () (start ++ sent) (discardSends k statements)).bind fun _ =>
      b.outcome (if looping then [] else b.rows.map lastValues) start (querySends k looping statements)

namespace Client

open Run (Performs)

theorem performs_runFinal (b : Backend α) (k : Nat) (final : Statement) :
    Performs b (runFinal b final k)
      [.send k (if final.hasRows then .fetch final.render [] else .execute final.render)]
      (if final.hasRows then b.rows.map lastValues else []) := by
  unfold runFinal
  by_cases h : final.hasRows = true
  · rw [if_pos h, if_pos h, if_pos h]
    exact (Run.performs_perform _).bind (Run.performs_pure _)
  · rw [if_neg h, if_neg h, if_neg h]
    exact (Run.performs_perform _).bind (Run.performs_pure _)

theorem performs_discard (b : Backend α) (k : Nat) (setup : List Statement) (final : Statement) :
    Performs b (if setup.isEmpty then pure () else Run.execute b k discardText)
      (discardSends k (setup ++ [final])) () := by
  cases setup with
  | nil => exact Run.performs_pure ()
  | cons s setup =>
    rw [discardSends_cons]
    exact Run.performs_perform _

/-- **The statements of a query and what comes after them**, when just a query without a loop ends in
a statement with rows. -/
theorem leaves_runStatements {b : Backend α} {log : List (Event α)} {looping : Bool}
    (hacquire : b.refusal log (.acquire pool) = none) (setup : List Statement) {final : Statement}
    (h : final.hasRows = !looping) :
    Run.Leaves log (Run.withConnection b pool (runStatements b setup final))
      (sessionAnswer b log pool looping (setup ++ [final]))
      (sessionEvents b log pool looping (setup ++ [final])) := by
  have hsends : ∀ k, querySends k looping (setup ++ [final]) =
      (setup.map fun s => .send k (.execute s.render)) ++
        [(.send k (if final.hasRows then .fetch final.render [] else .execute final.render) :
          Operation α)] := by
    intro k
    rw [querySends, List.dropLast_concat, List.getLast?_concat, h]
    cases looping with
    | true => rfl
    | false => rfl
  have hrows : (if looping then [] else b.rows.map lastValues) =
      if final.hasRows then b.rows.map lastValues else [] := by
    rw [h]
    cases looping with
    | true => rfl
    | false => rfl
  unfold sessionAnswer sessionEvents bodyEvents
  rw [hrows]
  refine Run.Leaves.withConnection hacquire ?_
  simp only [hsends]
  have hsetup : ∀ k, Performs b (setup.forM fun statement => Run.execute b k statement.render)
      (setup.map fun s => .send k (.execute s.render)) () :=
    fun k => Run.performs_forM (fun _ => Run.performs_perform _) setup
  exact ((hsetup _).bind (performs_runFinal b _ final) _).ensuring
    (performs_discard b _ setup final _)

/-! ## The pool -/

theorem run_compile {c : Client} {text : String} {statements : List Statement} {k' : Nat}
    (h : (c.compiler.translate text).run.run s.tempTables = (.ok statements, k')) :
    (c.compile text).run.run s = (.ok statements, { s with tempTables := k' }) := by
  rw [compile, Run.run_get_bind, h]
  rfl

/-- The pool that a client uses: the one that it remembers, or else a new one. -/
def poolFor (s : State α) : Nat := s.pool.getD s.held.opened

/-- The events that opening a pool leaves. -/
def poolEvents (c : Client) (s : State α) : List (Event α) :=
  if s.pool.isSome then [] else [⟨.connect c.settings, true⟩]

theorem run_openPool {c : Client} {b : Backend α}
    (h : s.pool.isSome = true ∨ b.refusal s.log (.connect c.settings) = none) :
    (c.openPool b).run.run s =
      (.ok (poolFor s), { s with pool := poolFor s, log := s.log ++ c.poolEvents s }) := by
  rw [openPool, Run.run_get_bind, poolFor, poolEvents]
  rcases s with ⟨_ | p, sessions, tempTables, log⟩
  · have hconnect := h.resolve_left Bool.false_ne_true
    dsimp only
    rw [Run.run_get_bind, Run.run_bind, Run.leaves_perform hconnect _ rfl]
    rfl
  · show (Except.ok p, State.mk (some p) sessions tempTables log) =
      (Except.ok p, State.mk (some p) sessions tempTables (log ++ []))
    rw [List.append_nil]

theorem run_openPool_of_refusal {c : Client} {b : Backend α} (h : s.pool = none)
    (hconnect : b.refusal s.log (.connect c.settings) = some reason) :
    (c.openPool b).run.run s =
      (.error (.connection reason), { s with log := s.log ++ [⟨.connect c.settings, false⟩] }) := by
  rw [openPool, Run.run_get_bind, h]
  dsimp only
  rw [Run.run_get_bind, Run.run_bind, Run.leaves_perform_of_refusal hconnect s rfl, h]
  rfl

end Client

/-! ## Temporary tables of a connection -/

/-- The temporary table that a statement makes, read off from its text. -/
def madeTable? (sql : String) : Option String :=
  ("CREATE TEMP TABLE ".toList.isPrefixOf? sql.toList).map fun rest =>
    String.ofList (rest.takeWhile (· != ' '))

example : madeTable? "CREATE TEMP TABLE with_temp_1 AS SELECT n.id AS id FROM nodes n;" =
    some "with_temp_1" := by decide +kernel

/-- The temporary tables of a connection after a statement. -/
def tablesAfter (tables : List String) (sql : String) : List String :=
  if sql = discardText then [] else (madeTable? sql).toList ++ tables

/-- The temporary tables of a connection after an event; a statement that fails makes none. -/
def Event.tablesAfter (tables : List String) (e : Event α) : List String :=
  match e.operation with
  | .send _ command => if e.done then Database.tablesAfter tables command.sql else tables
  | _ => tables

/-- Whether a statement asks for rows, read off from its text: behind any blanks it starts with
`SELECT`, in any letter case. -/
def asksForRows (sql : String) : Bool :=
  ['S', 'E', 'L', 'E', 'C', 'T'].isPrefixOf ((sql.toList.dropWhile Text.isBlank).map Text.upperChar)

example : asksForRows "  select 1;" = true := by decide

theorem madeTable?_eq_none {sql : String} {c : Char} (h : sql.toList.head? = some c)
    (hc : c ≠ 'C') : madeTable? sql = none := by
  cases hsql : sql.toList with
  | nil =>
    rw [hsql] at h
    cases h
  | cons d ds =>
    rw [hsql] at h
    cases h
    rw [madeTable?, hsql]
    have hstart : "CREATE TEMP TABLE ".toList = 'C' :: "REATE TEMP TABLE ".toList := by decide
    rw [hstart, List.isPrefixOf?, if_neg (by simpa using Ne.symm hc)]
    rfl

end GraphSql.Database

namespace GraphSql

open Relational (Statement)

namespace Relational.Statement

/-- The word that the text of a statement starts with. -/
def opening : Statement → List Char
  | .select _ => ['S', 'E', 'L', 'E', 'C', 'T']
  | .createTemp _ _ => ['C', 'R', 'E', 'A', 'T', 'E']
  | .write (.update _ _ _) => ['U', 'P', 'D', 'A', 'T', 'E']
  | .write (.insertEdge _ _) => ['I', 'N', 'S', 'E', 'R', 'T']
  | .block _ => ['D', 'O', ' ']

theorem opening_render (s : Statement) : s.opening <+: s.render.toList := by
  cases s with
  | select s =>
    refine Text.startsWith_append (Text.startsWith_join ?_ _ _) ";"
    rw [String.append_assoc]
    refine Text.startsWith_append ?_ _
    dsimp only [opening]
    decide
  | createTemp table s =>
    iterate 4 refine Text.startsWith_append ?_ _
    dsimp only [opening]
    decide
  | write w =>
    cases w with
    | update table assignments test =>
      iterate 6 refine Text.startsWith_append ?_ _
      dsimp only [opening]
      decide
    | insertEdge values rows =>
      iterate 5 refine Text.startsWith_append ?_ _
      dsimp only [opening]
      decide
  | block b =>
    iterate 6 refine Text.startsWith_append ?_ _
    dsimp only [opening]
    decide

/-- Only the text of a statement that makes a table says so. -/
theorem madeTable?_render {s : Statement} (h : s.created = []) :
    Database.madeTable? s.render = none := by
  obtain ⟨rest, hrest⟩ := s.opening_render
  cases s with
  | select s => exact Database.madeTable?_eq_none (c := 'S') (by rw [← hrest]; rfl) (by decide)
  | createTemp table s => cases h
  | write w =>
    cases w with
    | update table assignments test =>
      exact Database.madeTable?_eq_none (c := 'U') (by rw [← hrest]; rfl) (by decide)
    | insertEdge values rows =>
      exact Database.madeTable?_eq_none (c := 'I') (by rw [← hrest]; rfl) (by decide)
  | block b => exact Database.madeTable?_eq_none (c := 'D') (by rw [← hrest]; rfl) (by decide)

/-- **The text of a statement tells whether it has rows.** -/
theorem asksForRows_render (s : Statement) : Database.asksForRows s.render = s.hasRows := by
  obtain ⟨rest, hrest⟩ := s.opening_render
  rw [Database.asksForRows, ← hrest]
  cases s with
  | select s => rfl
  | createTemp table s => rfl
  | write w =>
    cases w with
    | update table assignments test => rfl
    | insertEdge values rows => rfl
  | block b => rfl

end Relational.Statement

/-- **The last statement of a query is fetched just when its text asks for rows.** -/
theorem Database.Client.runFinal_eq {α : Type} (b : Database.Backend α) (final : Statement)
    (k : Nat) : runFinal b final k =
      if Database.asksForRows final.render then .fetch b k final.render [] else do
        .execute b k final.render
        return [] := by
  rw [Statement.asksForRows_render]
  rfl

/-- Statements end in a semicolon, and so none of them discards temporary tables. -/
theorem Relational.Statement.render_ne_discardText (s : Statement) :
    s.render ≠ Database.discardText := by
  have hlast : s.render.toList.getLast? = some ';' := by
    cases s with
    | select s => exact Text.getLast?_append (by decide) s.body
    | createTemp table s => exact Text.getLast?_append (by decide) _
    | write w =>
      cases w with
      | update table assignments test => exact Text.getLast?_append (by decide) _
      | insertEdge values rows =>
        cases rows with
        | none => exact Text.getLast?_append (Text.getLast?_append (by decide) _) _
        | some table => exact Text.getLast?_append (Text.getLast?_append (by decide) _) _
    | block b => exact Text.getLast?_append (by decide) _
  intro he
  rw [he] at hlast
  cases hlast

/-! ## The last statement -/

/-- **Just a query without a loop ends in a statement with rows**, and none ends in making a table. -/
theorem Compiler.CompilesTo.getLast? {c : Compiler} {k k' : Nat} {q : Query}
    {statements : List Statement} (h : c.CompilesTo k q statements k') {final : Statement}
    (hfinal : statements.getLast? = some final) :
    final.hasRows = !q.any Query.Clause.isLooping ∧ final.created = [] := by
  have hwrite : ∀ {ws : List Relational.Write}, final ∈ ws.map Statement.write →
      q.shape = .loop → final.hasRows = !q.any Query.Clause.isLooping ∧ final.created = [] := by
    intro ws hmem hq
    obtain ⟨w, -, rfl⟩ := List.mem_map.mp hmem
    rw [Query.shape_eq_loop.mp hq]
    exact ⟨rfl, rfl⟩
  cases h with
  | prepared hq _ =>
    rw [Prepared.statements, List.getLast?_concat] at hfinal
    cases hfinal
    rw [Bool.eq_false_iff.mpr fun hloop => hq (Query.shape_eq_loop.mpr hloop)]
    exact ⟨rfl, rfl⟩
  | unrolled hq => exact hwrite (List.mem_of_getLast? hfinal) hq
  | unrolledRows hq _ _ hcolumns hne helements hwrites =>
    -- the rows are read by a write, so the last statement is a write
    obtain ⟨w, hw, -⟩ := exists_write_reads_rows hcolumns hne helements hwrites
    rw [List.append_cons, List.getLast?_append_of_ne_nil _
      (List.ne_nil_of_mem (List.mem_map_of_mem hw))] at hfinal
    exact hwrite (List.mem_of_getLast? hfinal) hq
  | iterated hq =>
    rw [List.getLast?_concat] at hfinal
    cases hfinal
    rw [Query.shape_eq_loop.mp hq]
    exact ⟨rfl, rfl⟩

/-! ## Queries -/

namespace Database

variable {α : Type}

/-- What a call of a query does behind the pool, which is opened if there is none: it takes one
connection with the given events, or sends nothing if it gets none.  None of its statements discards
temporary tables, and if that is done without a failure then no table that the call has made stays on the
connection. -/
structure Client.OneConnection (c : Client) (b : Backend α) (s : State α) (text : String)
    (looping : Bool) (statements : List Statement) (taken : Nat) : Prop where
  run : b.refusal (s.log ++ c.poolEvents s) (.acquire (poolFor s)) = none →
    (c.query b text).run.run s =
      (sessionAnswer b (s.log ++ c.poolEvents s) (poolFor s) looping statements,
        { s with
          pool := poolFor s
          tempTables := taken
          log := s.log ++ c.poolEvents s ++
            sessionEvents b (s.log ++ c.poolEvents s) (poolFor s) looping statements })
  refused : ∀ reason, b.refusal (s.log ++ c.poolEvents s) (.acquire (poolFor s)) = some reason →
    (c.query b text).run.run s =
      (.error (.connection reason),
        { s with
          pool := poolFor s
          tempTables := taken
          log := s.log ++ c.poolEvents s ++ [⟨.acquire (poolFor s), false⟩] })
  apart : ∀ statement ∈ statements, statement.render ≠ discardText
  clean : ∀ log pool, (∀ k, ⟨.send k (.execute discardText), false⟩ ∉
      sessionEvents b log pool looping statements) → ∀ tables,
    (sessionEvents b log pool looping statements).foldl Event.tablesAfter tables ⊆ tables

theorem foldl_tablesAfter_subset {es : List (Event α)}
    (h : ∀ e ∈ es, ∀ tables, e.tablesAfter tables ⊆ tables) :
    ∀ tables, es.foldl Event.tablesAfter tables ⊆ tables := by
  induction es with
  | nil => exact fun tables => List.Subset.refl tables
  | cons e es ih =>
    intro tables
    have hrest := ih (fun e he => h e (List.mem_cons_of_mem _ he)) (e.tablesAfter tables)
    exact List.Subset.trans hrest (h e List.mem_cons_self tables)

/-- An event of a statement whose text makes no table leaves no table. -/
theorem tablesAfter_subset {e : Event α} {k : Nat} {command : Command α}
    (h : e.operation = .send k command) (hsql : madeTable? command.sql = none)
    (tables : List String) : e.tablesAfter tables ⊆ tables := by
  rw [Event.tablesAfter, h]
  show (if e.done then tablesAfter tables command.sql else tables) ⊆ tables
  split
  · unfold tablesAfter
    split
    · exact List.nil_subset tables
    · rw [hsql]
      exact List.Subset.refl tables
  · exact List.Subset.refl tables

/-- **No temporary table stays on the connection.** -/
theorem foldl_sessionEvents_subset {b : Backend α} {looping : Bool} {setup : List Statement}
    {final : Statement} (hfinal : final.created = []) (log : List (Event α)) (pool : Nat)
    (h : ∀ k, ⟨.send k (.execute discardText), false⟩ ∉
      sessionEvents b log pool looping (setup ++ [final])) (tables : List String) :
    (sessionEvents b log pool looping (setup ++ [final])).foldl Event.tablesAfter tables ⊆
      tables := by
  cases setup with
  | nil =>
    -- a single statement makes no table, and nothing is discarded
    refine foldl_tablesAfter_subset (fun e he => ?_) tables
    unfold sessionEvents bodyEvents at he
    rcases List.mem_cons.mp he with rfl | he
    · exact fun tables => List.Subset.refl tables
    · rcases List.mem_append.mp he with he | he
      · rcases List.mem_append.mp he with he | he
        · have hsend := List.mem_singleton.mp (Backend.operation_of_mem_events he)
          refine fun tables => tablesAfter_subset hsend ?_ tables
          cases looping with
          | true => exact Relational.Statement.madeTable?_render hfinal
          | false => exact Relational.Statement.madeTable?_render hfinal
        · exact absurd (Backend.operation_of_mem_events he) List.not_mem_nil
      · rw [Backend.events_singleton] at he
        obtain rfl := List.mem_singleton.mp he
        exact fun tables => List.Subset.refl tables
  | cons first setup =>
    -- whatever was made before is discarded
    unfold sessionEvents bodyEvents at h ⊢
    simp only [discardSends_cons, Backend.events_singleton] at h ⊢
    have hdone := h (Held.ofLog log).taken
    generalize b.refusal _ (.send _ (.execute discardText)) = refusal at hdone ⊢
    cases refusal with
    | some reason => exact absurd (by simp) hdone
    | none =>
      have hempty : ∀ before, Event.tablesAfter before
          (⟨.send (Held.ofLog log).taken (.execute discardText), true⟩ : Event α) = [] := by
        intro before
        show (if true then tablesAfter before discardText else before) = []
        rw [if_pos rfl, tablesAfter, if_pos rfl]
      rw [List.foldl_cons, List.foldl_append, List.foldl_append, List.foldl_cons, List.foldl_nil,
        List.foldl_cons, List.foldl_nil, Option.isNone_none, hempty]
      exact List.nil_subset tables

/-- **A query runs on one connection and leaves it clean.**  The statements are sent in order up to the
first one that fails; temporary tables are discarded once when there is more than one statement, also
after a failure, and otherwise not at all; and the connection is given back once.  Just a query without
a loop fetches its last statement and answers with its rows. -/
theorem Client.oneConnection_of_translate {c : Client} {b : Backend α} {s : State α} {text : String}
    {statements : List Statement} {taken : Nat}
    (htranslate : (c.compiler.translate text).run.run s.tempTables = (.ok statements, taken))
    (hne : statements ≠ [])
    (hpool : s.pool.isSome = true ∨ b.refusal s.log (.connect c.settings) = none) :
    ∃ q, Query.parse text = .ok q ∧
      c.OneConnection b s text (q.any Query.Clause.isLooping) statements taken := by
  obtain ⟨q, hq, hcompiles⟩ :=
    Compiler.compilesTo_of_compile (Compiler.run_compile_of_translate htranslate)
  obtain ⟨setup, final, rfl⟩ : ∃ setup final, statements = setup ++ [final] :=
    ⟨statements.dropLast, statements.getLast hne, (List.dropLast_append_getLast hne).symm⟩
  have hlast : (setup ++ [final]).getLast? = some final := List.getLast?_concat
  obtain ⟨hrows, hcreated⟩ := hcompiles.getLast? hlast
  have hopen := run_openPool (c := c) (b := b) (s := { s with tempTables := taken }) hpool
  have hquery : (c.query b text).run.run s =
      (Run.withConnection b (poolFor s) (runStatements b setup final)).run.run
        { s with pool := poolFor s, tempTables := taken, log := s.log ++ c.poolEvents s } := by
    rw [query, Run.run_bind, run_compile htranslate]
    dsimp only
    rw [hlast]
    dsimp only
    rw [List.dropLast_concat, onConnection, Run.run_bind, hopen]
    rfl
  refine ⟨q, hq, fun hacquire => ?_, fun reason hreason => ?_, fun st _ => st.render_ne_discardText,
    foldl_sessionEvents_subset hcreated⟩
  · rw [hquery, leaves_runStatements hacquire setup hrows _ rfl]
  · rw [hquery, Run.leaves_withConnection_of_refusal hreason _ _ rfl]

/-- A backend on which no temporary table can be made. -/
def fullBackend : Backend Value where
  failure _ o :=
    match o with
    | .send _ command => (madeTable? command.sql).map ("no room for " ++ ·)
    | _ => none

/-- A query in two stages. -/
def agesText : String := "MATCH (n:Person) WITH n.age AS age RETURN age"

/-- The first statement fails, and the connection is cleaned and given back all the same. -/
theorem Client.oneConnection_of_translate_failing :
    ∃ statements taken,
      (Compiler.peopleCompiler.translate agesText).run.run 0 = (.ok statements, taken) ∧
      statements.map (fun st =>
        (fullBackend.failure [] (.send 0 (.execute st.render))).isSome) = [true, false] ∧
      ∃ q, Query.parse agesText = .ok q ∧
        Client.OneConnection { compiler := Compiler.peopleCompiler } fullBackend {} agesText
          (q.any Query.Clause.isLooping) statements taken := by
  have hfails : ((Compiler.peopleCompiler.translate agesText).run.run 0).1.toOption.map
      (List.map fun st => (fullBackend.failure [] (.send 0 (.execute st.render))).isSome) =
        some [true, false] := by decide +kernel
  obtain ⟨statements, hrun, hfails⟩ := Option.map_eq_some_iff.mp hfails
  obtain ⟨taken, hrun⟩ := Compile.exists_run_of_toOption hrun
  have hne : statements ≠ [] := by
    rintro rfl
    cases hfails
  exact ⟨statements, taken, hrun, hfails,
    Client.oneConnection_of_translate (s := {}) hrun hne (.inr rfl)⟩

end Database

end GraphSql
