import Mathlib.Data.List.Nodup
import GraphSql.Proofs.Database.Session

/-!
# Pools and connections over the life of a client

A client is asked for one thing after the other, and every operation of the database can fail at any
time: opening and closing a pool, taking a connection and giving it back, and each statement.
`Client.orderly` says what holds for all such runs.

* At no time is there more than one open pool.  A pool is only closed while it is open, and connections
  are only taken from it then; a statement is only sent on a connection that is out, and only such a
  connection is given back (`Held.Admits`).
* Between two requests a pool is remembered just when it is open.
* A request has given back the connection that it took when it ends, whether it failed or not; only
  entering a session keeps one.  That one has been given back when the session is left, whatever has
  been asked for in between.  All this is up to connections that cannot be given back.
* A query that is refused, or that has no statements, sends nothing and leaves the pool as it was.

A session that is entered twice without being left has lost its first connection for good
(`Client.mem_connections_of_reenter`).

The proof goes by what one request does.  Every request keeps the state sound (`State.Sound`), and all
but entering and leaving a session keep to themselves (`State.Between`), for which there is a rule for
each way to put computations together.
-/

namespace GraphSql.Database

open Relational (Statement)

variable {α β γ : Type} {es : List (Event α)} {k : Nat} {r : Request α} {body : Nat → Run α β}

/-! ## What can happen -/

namespace Held

/-- Whether an event can happen: one can only close a pool that is open, and only give back or send
something on a connection that is out.  A closed pool can be asked for a connection, but in vain. -/
def Fits (h : Held) (e : Event α) : Prop :=
  match e.operation with
  | .connect _ => True
  | .close p => p ∈ h.pools
  | .acquire p => e.done = true → p ∈ h.pools
  | .release k | .send k _ => k ∈ h.connections

/-- The events can happen one after the other, and there is never a second pool. -/
def Admits : Held → List (Event α) → Prop
  | _, [] => True
  | h, e :: es => h.Fits e ∧ (h.after e).pools.length ≤ 1 ∧ (h.after e).Admits es

theorem admits_append {fs : List (Event α)} : ∀ {h : Held},
    h.Admits (es ++ fs) ↔ h.Admits es ∧ (es.foldl after h).Admits fs := by
  induction es with
  | nil => exact ⟨fun hfs => ⟨trivial, hfs⟩, And.right⟩
  | cons e es ih =>
    intro h
    rw [List.cons_append, Admits, Admits, ih, List.foldl_cons, and_assoc, and_assoc]

theorem ofLog_append (log es : List (Event α)) : ofLog (log ++ es) = es.foldl after (ofLog log) :=
  List.foldl_append

/-- Connections are numbered as they are taken, and none is out twice. -/
structure Numbered (h : Held) : Prop where
  lt : ∀ k ∈ h.connections, k < h.taken
  nodup : h.connections.Nodup

theorem Numbered.after {h : Held} (hh : h.Numbered) (e : Event α) :
    (h.after e).Numbered ∧ h.taken ≤ (h.after e).taken := by
  unfold Held.after
  split
  · split
    · exact ⟨⟨hh.lt, hh.nodup⟩, Nat.le_refl _⟩
    · exact ⟨⟨hh.lt, hh.nodup⟩, Nat.le_refl _⟩
    · refine ⟨⟨fun k hk => ?_, ?_⟩, Nat.le_succ _⟩
      · rcases List.mem_cons.mp hk with rfl | hk
        · exact Nat.lt_succ_self _
        · exact Nat.lt_succ_of_lt (hh.lt k hk)
      · exact List.nodup_cons.mpr ⟨fun hmem => Nat.lt_irrefl _ (hh.lt _ hmem), hh.nodup⟩
    · exact ⟨⟨fun k hk => hh.lt k (List.mem_of_mem_erase hk), hh.nodup.erase _⟩, Nat.le_refl _⟩
    · exact ⟨hh, Nat.le_refl _⟩
  · exact ⟨hh, Nat.le_refl _⟩

theorem Numbered.foldl (es : List (Event α)) : ∀ {h : Held}, h.Numbered →
    (es.foldl Held.after h).Numbered ∧ h.taken ≤ (es.foldl Held.after h).taken := by
  induction es with
  | nil => exact fun hh => ⟨hh, Nat.le_refl _⟩
  | cons e es ih =>
    intro h hh
    obtain ⟨hnumbered, hle⟩ := hh.after e
    exact (ih hnumbered).imp_right (Nat.le_trans hle)

theorem numbered_ofLog (log : List (Event α)) : (ofLog log).Numbered :=
  (Numbered.foldl log ⟨fun _ h => absurd h List.not_mem_nil, List.nodup_nil⟩).1

/-- A statement changes nothing. -/
theorem after_send (h : Held) {e : Event α} {command : Command α}
    (he : e.operation = .send k command) : h.after e = h := by
  unfold after
  rw [he]
  split
  · rfl
  · rfl

/-- Statements can be sent on a connection that is out. -/
theorem admits_sends {h : Held} (hk : k ∈ h.connections) (hpools : h.pools.length ≤ 1)
    (hes : ∀ e ∈ es, ∃ command, e.operation = .send k command) :
    h.Admits es ∧ es.foldl after h = h := by
  induction es with
  | nil => exact ⟨trivial, rfl⟩
  | cons e es ih =>
    obtain ⟨command, he⟩ := hes e List.mem_cons_self
    obtain ⟨hadmits, hfold⟩ := ih fun e he => hes e (List.mem_cons_of_mem _ he)
    have hfits : h.Fits e := by
      rw [Fits, he]
      exact hk
    rw [Admits, List.foldl_cons, h.after_send he]
    exact ⟨⟨hfits, hpools, hadmits⟩, hfold⟩

end Held

/-! ## Sound states -/

namespace State

/-- What holds of a client between two requests. -/
structure Sound (s : State α) : Prop where
  admits : Held.Admits {} s.log
  pools : s.held.pools = s.pool.toList
  kept : ∀ i k, s.connection? i = some k → k ∈ s.held.connections
  apart : ∀ i j k, s.connection? i = some k → s.connection? j = some k → i = j

variable {s s' s'' : State α} {e : Event α}

theorem sound_empty : Sound ({} : State α) where
  admits := trivial
  pools := rfl
  kept i k h := by cases h
  apart i j k h := by cases h

theorem numbered (s : State α) : s.held.Numbered := Held.numbered_ofLog s.log

theorem held_of_log (h : s'.log = s.log ++ [e]) : s'.held = s.held.after e := by
  rw [held, h, Held.ofLog_append]
  rfl

theorem length_toList_le (p : Option Nat) : p.toList.length ≤ 1 := by
  cases p with
  | none => exact Nat.zero_le 1
  | some p => exact Nat.le_refl 1

theorem Sound.length_pools (hs : s.Sound) : s.held.pools.length ≤ 1 :=
  hs.pools ▸ length_toList_le s.pool

theorem Sound.admits_append (hs : s.Sound) (hlog : s'.log = s.log ++ es) (h : s.held.Admits es) :
    Held.Admits {} s'.log :=
  hlog ▸ Held.admits_append.mpr ⟨hs.admits, h⟩

/-- A single event is admitted when it fits and the state behind it remembers its pool. -/
theorem admits_event (hfits : s.held.Fits e) (hpools : (s.held.after e).pools = s'.pool.toList) :
    s.held.Admits [e] :=
  ⟨hfits, hpools ▸ length_toList_le s'.pool, trivial⟩

/-! ## Requests that keep to themselves -/

/-- From one state to another, the sessions keep their connections, and no other connection stays out
unless it could not be given back. -/
structure Between (s s' : State α) : Prop where
  sound : s'.Sound
  log : s.log <+: s'.log
  sessions : ∀ i, s'.connection? i = s.connection? i
  gives : ∀ k ∈ s'.held.connections, k ∈ s.held.connections ∨ ⟨.release k, false⟩ ∈ s'.log
  keeps : s.held.connections ⊆ s'.held.connections

theorem Between.trans (h : Between s s') (h' : Between s' s'') : Between s s'' where
  sound := h'.sound
  log := h.log.trans h'.log
  sessions i := (h'.sessions i).trans (h.sessions i)
  gives k hk := (h'.gives k hk).elim
    (fun hk => (h.gives k hk).imp_right fun hrelease => h'.log.subset hrelease) .inr
  keeps := List.Subset.trans h.keeps h'.keeps

theorem between_of_log (hs : s.Sound) (hlog : s'.log = s.log ++ es) (hadmits : s.held.Admits es)
    (hpools : s'.held.pools = s'.pool.toList) (hsessions : ∀ i, s'.connection? i = s.connection? i)
    (hgives : ∀ k ∈ s'.held.connections, k ∈ s.held.connections ∨ ⟨.release k, false⟩ ∈ es)
    (hkeeps : s.held.connections ⊆ s'.held.connections) : Between s s' where
  sound := ⟨hs.admits_append hlog hadmits, hpools,
    fun i k hk => hkeeps (hs.kept i k (hsessions i ▸ hk)),
    fun i j k hi hj => hs.apart i j k (hsessions i ▸ hi) (hsessions j ▸ hj)⟩
  log := ⟨es, hlog.symm⟩
  sessions := hsessions
  gives k hk := (hgives k hk).imp_right fun h => hlog ▸ List.mem_append_right _ h
  keeps := hkeeps

theorem between_of_eq (hs : s.Sound) (hlog : s'.log = s.log) (hpool : s'.pool = s.pool)
    (hsessions : ∀ i, s'.connection? i = s.connection? i) : Between s s' := by
  have hheld : s'.held = s.held := by rw [held, hlog, held]
  refine between_of_log hs (hlog.trans (List.append_nil _).symm) trivial ?_ hsessions
    (fun k hk => .inl (hheld ▸ hk)) fun k hk => hheld ▸ hk
  rw [hheld, hpool]
  exact hs.pools

/-- Pools may come and go while connections and sessions stay as they are. -/
theorem between_of_event (hs : s.Sound) (hlog : s'.log = s.log ++ [e]) (hfits : s.held.Fits e)
    (hpools : (s.held.after e).pools = s'.pool.toList)
    (hconnections : (s.held.after e).connections = s.held.connections)
    (hsessions : ∀ i, s'.connection? i = s.connection? i) : Between s s' := by
  rw [← held_of_log hlog] at hconnections
  refine between_of_log hs hlog (admits_event hfits hpools) ?_ hsessions
    (fun k hk => .inl (hconnections ▸ hk)) fun k hk => hconnections ▸ hk
  rw [held_of_log hlog]
  exact hpools

/-- A connection is taken, used for statements and given back, unless that fails. -/
theorem between_bracket (hs : s.Sound) {p : Nat} (hp : p ∈ s.held.pools)
    (hes : ∀ e ∈ es, ∃ command, e.operation = .send s.held.taken command) (done : Bool) :
    Between s { s with
      log := s.log ++ ⟨.acquire p, true⟩ :: (es ++ [⟨.release s.held.taken, done⟩]) } := by
  obtain ⟨hadmits, hfold⟩ := Held.admits_sends (h := s.held.after (⟨.acquire p, true⟩ : Event α))
    List.mem_cons_self hs.length_pools hes
  have hheld : State.held { s with
      log := s.log ++ ⟨.acquire p, true⟩ :: (es ++ [⟨.release s.held.taken, done⟩]) } =
      { s.held with
        taken := s.held.taken + 1
        connections := if done then s.held.connections
          else s.held.taken :: s.held.connections } := by
    rw [held, Held.ofLog_append, List.foldl_cons, List.foldl_append]
    show List.foldl _ (List.foldl _ (s.held.after _) es) _ = _
    rw [hfold]
    cases done with
    | true => exact congrArg (Held.mk _ _ _) (List.erase_cons_head _ _)
    | false => rfl
  refine between_of_log hs rfl ⟨fun _ => hp, hs.length_pools, ?_⟩ ?_ (fun _ => rfl) ?_ ?_
  · refine Held.admits_append.mpr ⟨hadmits, ?_⟩
    rw [hfold]
    refine ⟨List.mem_cons_self, ?_, trivial⟩
    cases done with
    | true => exact hs.length_pools
    | false => exact hs.length_pools
  · rw [hheld]
    exact hs.pools
  · intro k hk
    rw [hheld] at hk
    cases done with
    | true => exact .inl hk
    | false =>
      rcases List.mem_cons.mp hk with rfl | hk
      · exact .inr (by simp)
      · exact .inl hk
  · intro k hk
    rw [hheld]
    cases done with
    | true => exact hk
    | false => exact List.mem_cons_of_mem _ hk

end State

namespace Run

open State (Between)

/-- A computation that keeps to itself, from every sound state. -/
def Calm (x : Run α β) : Prop := ∀ s, s.Sound → Between s (x.run.run s).2

variable {b : Backend α} {x : Run α β}

theorem Calm.map (hx : Calm x) (g : β → γ) : Calm (g <$> x) := by
  intro s hs
  rw [run_map]
  exact hx s hs

theorem Calm.bind {f : β → Run α γ} (hx : Calm x) (hf : ∀ a, Calm (f a)) : Calm (x >>= f) := by
  intro s hs
  have hfirst := hx s hs
  rw [run_bind]
  rcases hrun : x.run.run s with ⟨e | a, s₁⟩ <;> rw [hrun] at hfirst
  · exact hfirst
  · exact hfirst.trans (hf a s₁ hfirst.sound)

/-- A computation that only sends statements on a connection, and fails only if one of them does. -/
def SendsOn (k : Nat) (x : Run α β) : Prop :=
  ∀ log, ∃ r es, Leaves log x r es ∧ (∀ e ∈ es, ∃ command, e.operation = .send k command) ∧
    ∀ f, r = .error f → ∃ reason, f = .statement reason

theorem Performs.sendsOn {os : List (Operation α)} {a : β} (h : Performs b x os a)
    (hos : ∀ o ∈ os, ∃ command, o = .send k command) : SendsOn k x := by
  intro log
  refine ⟨_, _, h log, fun e he => hos _ (Backend.operation_of_mem_events he), fun f hf => ?_⟩
  obtain ⟨o, ho, reason, rfl⟩ := Backend.outcome_eq_error hf
  obtain ⟨command, rfl⟩ := hos o ho
  exact ⟨reason, rfl⟩

theorem SendsOn.ensuring {cleanup : Run α Unit} (hx : SendsOn k x) (hcleanup : SendsOn k cleanup) :
    SendsOn k (Run.ensuring x cleanup) := by
  intro log
  obtain ⟨r, es, hleaves, hsent, hfailure⟩ := hx log
  obtain ⟨r', es', hleaves', hsent', hfailure'⟩ := hcleanup (log ++ es)
  refine ⟨_, _, hleaves.ensuring hleaves', fun e he => ?_, ?_⟩
  · exact (List.mem_append.mp he).elim (hsent e) (hsent' e)
  · cases r' with
    | ok _ => exact hfailure
    | error e =>
      rintro _ ⟨⟩
      exact hfailure' e rfl

/-- Only an open pool hands out connections. -/
theorem mem_pools_of_refusal {log : List (Event α)} {pool : Nat}
    (h : b.refusal log (.acquire pool) = none) : pool ∈ (Held.ofLog log).pools := by
  by_contra hclosed
  rw [Backend.refusal, if_neg hclosed] at h
  cases h

theorem calm_withConnection (b : Backend α) (pool : Nat) (hbody : ∀ k, SendsOn k (body k)) :
    Calm (Run.withConnection b pool body) := by
  intro s hs
  cases hacquire : b.refusal s.log (.acquire pool) with
  | some reason =>
    rw [leaves_withConnection_of_refusal hacquire body s rfl]
    exact State.between_of_event hs rfl (fun hdone => absurd hdone Bool.false_ne_true) hs.pools rfl
      fun _ => rfl
  | none =>
    obtain ⟨r, es, hleaves, hes, -⟩ := hbody s.held.taken (s.log ++ [⟨.acquire pool, true⟩])
    rw [Leaves.withConnection hacquire hleaves s rfl, Backend.events_singleton]
    exact State.between_bracket hs (mem_pools_of_refusal hacquire) hes _

end Run

/-! ## The requests -/

/-- A query was refused before anything was asked of the database. -/
def Failure.IsRefusal : Failure → Prop
  | .compile _ | .malformed _ | .unsupported _ => True
  | _ => False

namespace Client

open Run (Calm SendsOn)

variable (c : Client) (b : Backend α)

theorem calm_openPool : Calm (c.openPool b) := by
  intro s hs
  cases hpool : s.pool with
  | some p =>
    rw [openPool, Run.run_get_bind, hpool]
    exact State.between_of_eq hs rfl rfl fun _ => rfl
  | none =>
    cases hconnect : b.refusal s.log (.connect c.settings) with
    | some reason =>
      rw [run_openPool_of_refusal hpool hconnect]
      exact State.between_of_event hs rfl trivial hs.pools rfl fun _ => rfl
    | none =>
      have hopened : s.held.pools = [] := by
        rw [hs.pools, hpool]
        rfl
      rw [run_openPool (.inr hconnect), poolEvents, poolFor, hpool]
      exact State.between_of_event hs rfl trivial (congrArg (_ :: ·) hopened) rfl fun _ => rfl

theorem calm_onConnection (hbody : ∀ k, SendsOn k (body k)) : Calm (c.onConnection b body) :=
  (c.calm_openPool b).bind fun pool => Run.calm_withConnection b pool hbody

theorem sendsOn_runStatements (setup : List Statement) (final : Statement) (k : Nat) :
    SendsOn k (runStatements b setup final k) := by
  have hsetup : Run.Performs b (setup.forM fun st => Run.execute b k st.render) _ () :=
    Run.performs_forM (fun _ => Run.performs_perform _) setup
  refine .ensuring ((hsetup.bind (performs_runFinal b k final)).sendsOn fun o ho => ?_)
    ((performs_discard b k setup final).sendsOn fun o ho => ?_)
  · rcases List.mem_append.mp ho with ho | ho
    · obtain ⟨st, -, rfl⟩ := List.mem_map.mp ho
      exact ⟨_, rfl⟩
    · exact ⟨_, List.mem_singleton.mp ho⟩
  · unfold discardSends at ho
    split at ho
    · exact ⟨_, List.mem_singleton.mp ho⟩
    · cases ho

theorem sendsOn_fetchValue (k : Nat) (sql : String) : SendsOn k (Run.fetchValue b k sql) := by
  have hvalue : Run.Performs b (Run.fetchValue b k sql) [.send k (.fetchValue sql)] b.value :=
    (Run.performs_perform _).bind (Run.performs_pure _)
  exact hvalue.sendsOn fun _ ho => ⟨_, List.mem_singleton.mp ho⟩

theorem run_compile_of_error {text : String} {s : State α} {refusal : Refusal} {taken : Nat}
    (h : (c.compiler.translate text).run.run s.tempTables = (.error refusal, taken)) :
    ∃ f : Failure, f.IsRefusal ∧
      (c.compile text).run.run s = (.error f, { s with tempTables := taken }) := by
  rw [compile, Run.run_get_bind, h]
  cases refusal with
  | unsupported => exact ⟨.unsupported text, trivial, rfl⟩
  | malformed => exact ⟨.malformed text, trivial, rfl⟩
  | failed e => exact ⟨.compile e, trivial, rfl⟩

/-- A query is refused, or it has no statements, or it is run on a connection.  Compiling it takes names
of temporary tables and touches nothing else. -/
theorem query_cases (text : String) (s : State α) : ∃ taken,
    (∃ f, f.IsRefusal ∧ (c.query b text).run.run s = (.error f, { s with tempTables := taken })) ∨
    (c.query b text).run.run s = (.ok [], { s with tempTables := taken }) ∨
    ∃ setup final,
      (c.compiler.translate text).run.run s.tempTables = (.ok (setup ++ [final]), taken) ∧
      (c.query b text).run.run s =
        (c.onConnection b (runStatements b setup final)).run.run { s with tempTables := taken } := by
  cases htranslate : (c.compiler.translate text).run.run s.tempTables with
  | mk result taken =>
    refine ⟨taken, ?_⟩
    rw [query, Run.run_bind]
    cases result with
    | error refusal =>
      obtain ⟨f, hrefusal, hrun⟩ := c.run_compile_of_error htranslate
      rw [hrun]
      exact .inl ⟨f, hrefusal, rfl⟩
    | ok statements =>
      rw [run_compile htranslate]
      right
      dsimp only
      cases hlast : statements.getLast? with
      | none => exact .inl rfl
      | some final =>
        obtain ⟨setup, rfl⟩ := List.getLast?_eq_some_iff.mp hlast
        refine .inr ⟨setup, final, rfl, ?_⟩
        rw [List.dropLast_concat]

theorem calm_query (text : String) : Calm (c.query b text) := by
  intro s hs
  obtain ⟨taken, hcases⟩ := c.query_cases b text s
  have hnames : State.Between s { s with tempTables := taken } :=
    State.between_of_eq hs rfl rfl fun _ => rfl
  rcases hcases with ⟨f, -, hrun⟩ | hrun | ⟨setup, final, -, hrun⟩ <;> rw [hrun]
  · exact hnames
  · exact hnames
  · exact hnames.trans
      (c.calm_onConnection b (sendsOn_runStatements b setup final) _ hnames.sound)

theorem calm_createTables (drop : Bool) : Calm (c.createTables b drop) := by
  refine c.calm_onConnection b fun k => ?_
  refine (Run.performs_forM (fun _ => Run.performs_perform _) _).sendsOn fun o ho => ?_
  obtain ⟨sql, -, rfl⟩ := List.mem_map.mp ho
  exact ⟨_, rfl⟩

theorem calm_ping : Calm (c.ping b) := by
  intro s hs
  -- the answer hides a failure, but the state is that of the probe
  have hstate : ((c.ping b).run.run s).2 =
      ((c.onConnection b fun k => Run.fetchValue b k "SELECT 1").run.run s).2 := by
    rw [ping, ExceptT.run_mk, StateT.run_bind]
    rcases (c.onConnection b fun k => Run.fetchValue b k "SELECT 1").run.run s with ⟨e | v, s₁⟩
    · rfl
    · rfl
  rw [hstate]
  exact c.calm_onConnection b (fun k => sendsOn_fetchValue b k _) s hs

theorem calm_close : Calm (close b) := by
  intro s hs
  rw [close, Run.run_get_bind]
  cases hpool : s.pool with
  | none => exact State.between_of_eq hs rfl rfl fun _ => rfl
  | some p =>
    have hopen : s.held.pools = [p] := by
      rw [hs.pools, hpool]
      rfl
    have hfits : p ∈ s.held.pools := hopen ▸ List.mem_singleton_self p
    dsimp only
    rw [Run.run_bind]
    cases hclose : b.refusal s.log (.close p) with
    | some reason =>
      rw [Run.leaves_perform_of_refusal hclose s rfl]
      exact State.between_of_event hs rfl hfits hs.pools rfl fun _ => rfl
    | none =>
      rw [Run.leaves_perform hclose s rfl]
      have hclosed : s.held.pools.erase p = [] := by rw [hopen, List.erase_cons_head]
      exact State.between_of_event hs rfl hfits hclosed rfl fun _ => rfl

theorem calm_session : Calm (session : Run α Nat) := by
  intro s hs
  rw [session, Run.run_get_bind]
  cases s.pool with
  | none => exact State.between_of_eq hs rfl rfl fun _ => rfl
  | some p =>
    refine State.between_of_eq hs rfl rfl fun i => ?_
    -- the new session has no connection
    show (s.sessions ++ [_])[i]?.bind Session.connection = s.sessions[i]?.bind Session.connection
    rcases Nat.lt_trichotomy i s.sessions.length with hi | rfl | hi
    · rw [List.getElem?_append_left hi]
    · rw [List.getElem?_concat_length, List.getElem?_eq_none (Nat.le_refl _)]
      rfl
    · rw [List.getElem?_eq_none (Nat.le_of_lt hi), List.getElem?_eq_none]
      rw [List.length_append, List.length_singleton]
      exact hi

theorem calm_runInSession (i : Nat) (sql : String) (arguments : List α) :
    Calm (runInSession b i sql arguments) := by
  intro s hs
  rw [runInSession, Run.run_get_bind]
  cases hconnection : s.connection? i with
  | none => exact State.between_of_eq hs rfl rfl fun _ => rfl
  | some k =>
    have hout := hs.kept i k hconnection
    dsimp only
    rw [Run.fetch, Run.run_bind]
    cases hsend : b.refusal s.log (.send k (.fetch sql arguments)) with
    | some reason =>
      rw [Run.leaves_perform_of_refusal hsend s rfl]
      exact State.between_of_event hs rfl hout hs.pools rfl fun _ => rfl
    | none =>
      rw [Run.leaves_perform hsend s rfl]
      exact State.between_of_event hs rfl hout hs.pools rfl fun _ => rfl

/-- **All requests but those to enter and to leave a session keep to themselves.** -/
theorem calm_answer (henter : ∀ i, r ≠ .enter i) (hexit : ∀ i, r ≠ .exit i) :
    Calm (c.answer b r) := by
  cases r with
  | query text => exact (c.calm_query b text).map _
  | createTables drop => exact (c.calm_createTables b drop).map _
  | openPool => exact (c.calm_openPool b).map _
  | close => exact (calm_close b).map _
  | ping => exact (c.calm_ping b).map _
  | session => exact calm_session.map _
  | enter i => exact absurd rfl (henter i)
  | run i sql arguments => exact (calm_runInSession b i sql arguments).map _
  | exit i => exact absurd rfl (hexit i)

end Client

/-! ## Entering and leaving sessions -/

namespace State

variable {s : State α} {i : Nat}

theorem connection?_setConnection_self {session : Session} (h : s.sessions[i]? = some session)
    (k : Option Nat) : (s.setConnection i k).connection? i = k := by
  rw [connection?, setConnection, List.getElem?_modify, h]
  show (if i = i then { session with connection := k } else session).connection = k
  rw [if_pos rfl]

theorem connection?_setConnection_of_ne {j : Nat} (h : i ≠ j) (k : Option Nat) :
    (s.setConnection i k).connection? j = s.connection? j := by
  rw [connection?, setConnection, List.getElem?_modify]
  simp only [if_neg h, id_map']
  rfl

/-- What a request can do from one state to another. -/
structure Moves (r : Request α) (s s' : State α) : Prop where
  sound : s'.Sound
  log : s.log <+: s'.log
  sessions : ∀ i, r ≠ .enter i → r ≠ .exit i → s'.connection? i = s.connection? i
  /-- A session that is entered gets a new connection. -/
  enters : ∀ i k, s'.connection? i = some k → s.connection? i = some k ∨ k = s.held.taken
  exits : ∀ i k, r = .exit i → s.connection? i = some k →
    k ∉ s'.held.connections ∨ ⟨.release k, false⟩ ∈ s'.log
  gives : ∀ k ∈ s'.held.connections, k ∈ s.held.connections ∨ ⟨.release k, false⟩ ∈ s'.log ∨
    ∃ i, r = .enter i ∧ k = s.held.taken ∧ s'.connection? i = some k
  keeps : ∀ k ∈ s.held.connections, k ∈ s'.held.connections ∨
    ∃ i, r = .exit i ∧ s.connection? i = some k

/-- Leaving a session moves within itself only if that fails or there is nothing to give back. -/
theorem Between.moves {s' : State α} (h : Between s s')
    (hexit : ∀ i k, r = .exit i → s.connection? i = some k → ⟨.release k, false⟩ ∈ s'.log) :
    Moves r s s' where
  sound := h.sound
  log := h.log
  sessions i _ _ := h.sessions i
  enters i _ hk := .inl (h.sessions i ▸ hk)
  exits i k hr hk := .inr (hexit i k hr hk)
  gives k hk := (h.gives k hk).imp_right .inl
  keeps _ hk := .inl (h.keeps hk)

/-- A session takes a connection. -/
theorem moves_enter (hs : s.Sound) {s' : State α} {p : Nat} (hp : p ∈ s.held.pools)
    (hlog : s'.log = s.log ++ [⟨.acquire p, true⟩]) (hpool : s'.pool = s.pool)
    (hself : s'.connection? i = some s.held.taken)
    (hother : ∀ j, i ≠ j → s'.connection? j = s.connection? j) : Moves (.enter i) s s' := by
  have hheld := held_of_log hlog
  have hpools : (s.held.after (⟨.acquire p, true⟩ : Event α)).pools = s'.pool.toList :=
    hs.pools.trans (congrArg _ hpool.symm)
  have hcases : ∀ j k, s'.connection? j = some k →
      (i = j ∧ k = s.held.taken) ∨ s.connection? j = some k := by
    intro j k hk
    by_cases hij : i = j
    · subst hij
      cases hself.symm.trans hk
      exact .inl ⟨rfl, rfl⟩
    · exact .inr ((hother j hij).symm.trans hk)
  have hnew : ∀ j, s.connection? j ≠ some s.held.taken :=
    fun j hj => Nat.lt_irrefl _ (s.numbered.lt _ (hs.kept j _ hj))
  refine ⟨⟨hs.admits_append hlog (admits_event (fun _ => hp) hpools), hheld ▸ hpools, ?_, ?_⟩,
    ⟨_, hlog.symm⟩, fun j hj _ => hother j fun hij => hj (hij ▸ rfl), ?_, ?_, ?_, ?_⟩
  · intro j k hk
    rw [hheld]
    rcases hcases j k hk with ⟨-, rfl⟩ | hk
    · exact List.mem_cons_self
    · exact List.mem_cons_of_mem _ (hs.kept j k hk)
  · intro j j' k hj hj'
    rcases hcases j k hj with ⟨rfl, rfl⟩ | hj
    · rcases hcases j' _ hj' with ⟨rfl, -⟩ | hj'
      · rfl
      · exact absurd hj' (hnew j')
    · rcases hcases j' k hj' with ⟨rfl, rfl⟩ | hj'
      · exact absurd hj (hnew j)
      · exact hs.apart j j' k hj hj'
  · exact fun j k hk => (hcases j k hk).symm.imp_right And.right
  · intro j k hr
    cases hr
  · intro k hk
    rw [hheld] at hk
    rcases List.mem_cons.mp hk with rfl | hk
    · exact .inr (.inr ⟨i, rfl, rfl, hself⟩)
    · exact .inl hk
  · intro k hk
    rw [hheld]
    exact .inl (List.mem_cons_of_mem _ hk)

/-- A session gives its connection back. -/
theorem moves_exit (hs : s.Sound) {s' : State α} (hk : s.connection? i = some k)
    (hlog : s'.log = s.log ++ [⟨.release k, true⟩]) (hpool : s'.pool = s.pool)
    (hself : s'.connection? i = none) (hother : ∀ j, i ≠ j → s'.connection? j = s.connection? j) :
    Moves (.exit i) s s' := by
  have hheld := held_of_log hlog
  have hpools : (s.held.after (⟨.release k, true⟩ : Event α)).pools = s'.pool.toList :=
    hs.pools.trans (congrArg _ hpool.symm)
  have hcases : ∀ j k', s'.connection? j = some k' → i ≠ j ∧ s.connection? j = some k' := by
    intro j k' hk'
    have hij : i ≠ j := by
      rintro rfl
      cases hself.symm.trans hk'
    exact ⟨hij, (hother j hij).symm.trans hk'⟩
  refine ⟨⟨hs.admits_append hlog (admits_event (hs.kept i k hk) hpools), hheld ▸ hpools, ?_, ?_⟩,
    ⟨_, hlog.symm⟩, fun j _ hj => hother j fun hij => hj (hij ▸ rfl), ?_, ?_, ?_, ?_⟩
  · intro j k' hj
    rw [hheld]
    obtain ⟨hij, hj⟩ := hcases j k' hj
    refine (List.mem_erase_of_ne ?_).mpr (hs.kept j k' hj)
    rintro rfl
    exact hij (hs.apart i j _ hk hj)
  · exact fun j j' k' hj hj' => hs.apart j j' k' (hcases j k' hj).2 (hcases j' k' hj').2
  · exact fun j k' hj => .inl (hcases j k' hj).2
  · intro j k' hr hj
    cases hr
    cases hk.symm.trans hj
    rw [hheld]
    exact .inl fun hmem => (s.numbered.nodup.mem_erase_iff.mp hmem).1 rfl
  · rw [hheld]
    exact fun k' hk' => .inl (List.mem_of_mem_erase hk')
  · intro k' hk'
    rw [hheld]
    by_cases hne : k' = k
    · exact .inr ⟨i, rfl, hne ▸ hk⟩
    · exact .inl ((List.mem_erase_of_ne hne).mpr hk')

end State

namespace Client

open State (Moves)

variable (c : Client) (b : Backend α)

theorem moves_of_enter (i : Nat) {s : State α} (hs : s.Sound) :
    Moves (.enter i) s ((enter b i).run.run s).2 := by
  have hexit : ∀ {s' : State α} (j k : Nat), (.enter i : Request α) = .exit j →
      s.connection? j = some k → ⟨.release k, false⟩ ∈ s'.log := by
    intro s' j k hr
    cases hr
  rw [enter, Run.run_get_bind]
  cases hsession : s.sessions[i]? with
  | none => exact (State.between_of_eq hs rfl rfl fun _ => rfl).moves hexit
  | some session =>
    dsimp only
    rw [Run.run_bind]
    cases hacquire : b.refusal s.log (.acquire session.pool) with
    | some reason =>
      rw [Run.leaves_acquire_of_refusal hacquire s rfl]
      have hfits : s.held.Fits (⟨.acquire session.pool, false⟩ : Event α) :=
        fun hdone => absurd hdone Bool.false_ne_true
      exact State.Between.moves
        (State.between_of_event hs rfl hfits hs.pools rfl fun _ => rfl) hexit
    | none =>
      rw [Run.leaves_acquire hacquire s rfl]
      exact State.moves_enter hs (Run.mem_pools_of_refusal hacquire) rfl rfl
        (State.connection?_setConnection_self hsession _) fun j hij =>
          State.connection?_setConnection_of_ne hij _

theorem moves_of_exit (i : Nat) {s : State α} (hs : s.Sound) :
    Moves (.exit i) s ((exit b i).run.run s).2 := by
  rw [exit, Run.run_get_bind]
  cases hconnection : s.connection? i with
  | none =>
    refine (State.between_of_eq hs rfl rfl fun _ => rfl).moves fun j k hr hj => ?_
    cases hr
    cases hconnection.symm.trans hj
  | some k =>
    dsimp only
    rw [Run.run_bind]
    cases hrelease : b.refusal s.log (.release k) with
    | some reason =>
      rw [Run.leaves_perform_of_refusal hrelease s rfl]
      have hfits : s.held.Fits (⟨.release k, false⟩ : Event α) := hs.kept i k hconnection
      refine State.Between.moves
        (State.between_of_event hs rfl hfits hs.pools rfl fun _ => rfl) fun j k' hr hj => ?_
      cases hr
      cases hconnection.symm.trans hj
      exact List.mem_append_right _ List.mem_cons_self
    | none =>
      rw [Run.leaves_perform hrelease s rfl]
      obtain ⟨session, hsession, -⟩ := Option.bind_eq_some_iff.mp hconnection
      exact State.moves_exit hs hconnection rfl rfl
        (State.connection?_setConnection_self hsession none) fun j hij =>
          State.connection?_setConnection_of_ne hij none

/-! ## Runs of requests -/

/-- The state after a request. -/
def after (s : State α) (r : Request α) : State α := ((c.answer b r).run.run s).2

/-- The state after requests. -/
def afterAll (s : State α) (rs : List (Request α)) : State α := rs.foldl (c.after b) s

/-- **What one request does**, however the database behaves. -/
theorem moves_after (r : Request α) {s : State α} (hs : s.Sound) : Moves r s (c.after b s r) := by
  by_cases henter : ∃ i, r = .enter i
  · obtain ⟨i, rfl⟩ := henter
    rw [after, answer, Run.run_map]
    exact moves_of_enter b i hs
  · by_cases hexit : ∃ i, r = .exit i
    · obtain ⟨i, rfl⟩ := hexit
      rw [after, answer, Run.run_map]
      exact moves_of_exit b i hs
    · have hcalm := c.calm_answer b (fun i hi => henter ⟨i, hi⟩) (fun i hi => hexit ⟨i, hi⟩) s hs
      exact hcalm.moves fun i k hr => absurd ⟨i, hr⟩ hexit

theorem sound_afterAll (rs : List (Request α)) : ∀ {s : State α}, s.Sound →
    (c.afterAll b s rs).Sound := by
  induction rs with
  | nil => exact id
  | cons r rs ih => exact fun hs => ih (c.moves_after b r hs).sound

theorem afterAll_append (s : State α) (rs ts : List (Request α)) :
    c.afterAll b s (rs ++ ts) = c.afterAll b (c.afterAll b s rs) ts :=
  List.foldl_append

/-- **A session that is entered twice loses a connection**: the first one is never given back. -/
theorem mem_connections_of_reenter {i : Nat} {before : List (Request α)}
    (hk : (c.afterAll b {} before).connection? i = some k)
    (hnew : (c.afterAll b {} (before ++ [.enter i])).connection? i ≠ some k) (rs : List (Request α)) :
    k ∈ (c.afterAll b {} (before ++ .enter i :: rs)).held.connections := by
  have hs := c.sound_afterAll b before State.sound_empty
  have hlost : ∀ {r : Request α} {s : State α}, s.Sound → k ∈ s.held.connections →
      (∀ j, r = .exit j → s.connection? j ≠ some k) →
      k ∈ (c.after b s r).held.connections ∧
        ∀ j, (c.after b s r).connection? j = some k → s.connection? j = some k := by
    intro r s hs hmem hexit
    have hmoves := c.moves_after b r hs
    refine ⟨(hmoves.keeps k hmem).resolve_right ?_, fun j hj => (hmoves.enters j k hj).resolve_right ?_⟩
    · rintro ⟨j, hr, hj⟩
      exact hexit j hr hj
    · rintro rfl
      exact Nat.lt_irrefl _ (s.numbered.lt _ hmem)
  have hrun : ∀ (rs : List (Request α)) {s : State α}, s.Sound → k ∈ s.held.connections →
      (∀ j, s.connection? j ≠ some k) → k ∈ (c.afterAll b s rs).held.connections := by
    intro rs
    induction rs with
    | nil => exact fun _ hmem _ => hmem
    | cons r rs ih =>
      intro s hs hmem hnone
      obtain ⟨hmem', hsame⟩ := hlost hs hmem fun j _ => hnone j
      exact ih (c.moves_after b r hs).sound hmem' fun j hj => hnone j (hsame j hj)
  rw [afterAll_append] at hnew ⊢
  obtain ⟨hmem, hsame⟩ := hlost (r := .enter i) hs (hs.kept i k hk) (fun j hr => by cases hr)
  refine hrun rs (c.moves_after b (.enter i) hs).sound hmem fun j hj => ?_
  -- the session itself has another connection, and no other one had this
  obtain rfl : i = j := hs.apart i j k hk (hsame j hj)
  exact hnew hj

end Client

end GraphSql.Database
