import EntitySql.Store.Connection
import EntitySql.Work.Transaction
import Mathlib.Data.List.Induction
import Mathlib.Data.Set.Basic

/-!
# Engines over a pool of connections

An engine over a pool keeps the connection on which a transaction is open, and runs every statement
on it; without one, statements run on whatever connection the pool has to give (`PoolEngine`). It
binds the values of a statement in their storage classes and reads the rows that come back; what a
single connection does with them is taken from the pool. Transactions of the pool are atomic for
the statements of a set if a statement of it sees what its connection has written before, and
writes nowhere else (`Pool.IsAtomic`). A text such as `COMMIT` is in no such set.

`DataView.KeepsTransactions` says what is expected of an engine after calls in order, in terms of
its calls alone. An engine over a pool meets it for the statements of a set that holds all those
that the calls run: after any such calls either none of its connections has an open transaction, or
only the one that the engine holds does (`outside_or_inside`). Both are kept by every single call,
and the run lemma is an induction on the calls from the last one back, because the transaction that
is open is the one that was begun last.
-/

namespace EntitySql

/-! ### Calls -/

/-- A call of an engine. -/
inductive EngineCall where
  | openTransaction (isolation : Isolation)
  | execute (statement : Statement)
  | query (statement : Statement)
  | commit
  | rollback

namespace EngineCall

/-- The call asks for a transaction. -/
def opens : EngineCall → Bool
  | openTransaction _ => true
  | _ => false

/-- The call asks for the end of a transaction. -/
def ends : EngineCall → Bool
  | commit => true
  | rollback => true
  | _ => false

theorem exists_of_opens {call : EngineCall} (h : call.opens = true) :
    ∃ isolation, call = openTransaction isolation := by
  cases call with
  | openTransaction isolation => exact ⟨isolation, rfl⟩
  | _ => cases h

theorem opens_of_ends {call : EngineCall} (h : call.ends = true) : call.opens = false := by
  cases call with
  | commit => rfl
  | rollback => rfl
  | _ => cases h

/-- The statement that the call runs, if it runs one, is in a set. -/
def IsWithin (S : Set Statement) : EngineCall → Prop
  | execute s => s ∈ S
  | query s => s ∈ S
  | _ => True

theorem isWithin_univ (call : EngineCall) : call.IsWithin Set.univ := by
  cases call <;> exact trivial

/-- What is left of the data after a call in a transaction that it does not end, where `eval` says
what a statement does to them. -/
def effect {δ : Type} (eval : Statement → δ → Except SqlError (List Row) × δ) (d : δ) :
    EngineCall → δ
  | execute s => (eval s d).2
  | query s => (eval s d).2
  | _ => d

variable {β : Type} [Engine β]

/-- Makes a call. -/
def make : EngineCall → β → Except SqlError TransactionReply × β
  | openTransaction isolation, b =>
    let (outcome, b) := Engine.openTransaction isolation b
    (outcome.map fun _ => .done, b)
  | execute s, b =>
    let e := Engine.execute s b
    (e.outcome.map .affected, e.engine)
  | query s, b =>
    let (outcome, b) := Engine.query s b
    (outcome.map .rows, b)
  | commit, b =>
    let (outcome, b) := Engine.commit b
    (outcome.map fun _ => .done, b)
  | rollback, b =>
    let (outcome, b) := Engine.rollback b
    (outcome.map fun _ => .done, b)

/-- The engine after calls in order. -/
def makeAll (calls : List EngineCall) (b : β) : β :=
  calls.foldl (fun b call => (call.make b).2) b

/-- The number of calls of a kind that succeed. -/
def succeeded (kind : EngineCall → Bool) : List EngineCall → β → Nat
  | [], _ => 0
  | call :: rest, b =>
    (kind call && (call.make b).1.isOk).toNat + succeeded kind rest (call.make b).2

theorem makeAll_concat (calls : List EngineCall) (call : EngineCall) (b : β) :
    makeAll (calls ++ [call]) b = (call.make (makeAll calls b)).2 := by
  rw [makeAll, List.foldl_append]
  rfl

theorem succeeded_concat (kind : EngineCall → Bool) (calls : List EngineCall) (call : EngineCall)
    (b : β) :
    succeeded kind (calls ++ [call]) b =
      succeeded kind calls b + (kind call && (call.make (makeAll calls b)).1.isOk).toNat := by
  induction calls generalizing b with
  | nil => simp [succeeded, makeAll]
  | cons first rest ih =>
    rw [List.cons_append, succeeded, ih, succeeded, Nat.add_assoc]
    rfl

end EngineCall

/-! ### What transactions keep -/

/-- What can be told of an engine: whether a transaction is open, the data that are committed, and
what a statement that runs on a connection answers and makes of the data. -/
structure DataView (β κ δ : Type) where
  inTransaction : β → Bool
  committed : β → δ
  eval : κ → Statement → δ → Except SqlError (List Row) × δ

namespace DataView

variable {β κ δ : Type} [Engine β] (V : DataView β κ δ) (S : Set Statement)

open EngineCall

/-- No transaction is open. None can be ended, one can be begun, and what a statement of the set
writes is committed at once. -/
structure IsOutside (now : β) : Prop where
  commit_refused : commit.make now = (.error .notInTransaction, now)
  rollback_refused : rollback.make now = (.error .notInTransaction, now)
  begins : ∀ isolation, ∃ next, (openTransaction isolation).make now = (.ok .done, next) ∧
    V.inTransaction next = true ∧ V.committed next = V.committed now
  writes : ∀ s ∈ S, ∃ k, V.committed ((execute s).make now).2 = (V.eval k s (V.committed now)).2

/-- A transaction is open on a connection, which was begun on some data and has written others. Its
statements of the set see what was written, and what they write is kept back. -/
structure IsInside (now : β) (k : κ) (begun written : δ) : Prop where
  refused : ∀ isolation, (openTransaction isolation).make now = (.error .alreadyInTransaction, now)
  sees : ∀ s ∈ S, ((query s).make now).1 = (V.eval k s written).1.map .rows
  keepsBack : ∀ s ∈ S, V.committed ((execute s).make now).2 = begun
  commits : ∃ next, commit.make now = (.ok .done, next) ∧
    V.inTransaction next = false ∧ V.committed next = written
  rollsBack : ∃ next, rollback.make now = (.ok .done, next) ∧
    V.inTransaction next = false ∧ V.committed next = begun

/-- What holds after calls in order. -/
structure KeepsTransactions (start : β) (calls : List EngineCall) : Prop where
  /-- A transaction is open if one more has been begun than ended, and else as many have. -/
  balanced : succeeded opens calls start =
    succeeded ends calls start + (V.inTransaction (makeAll calls start)).toNat
  outside : V.inTransaction (makeAll calls start) = false → V.IsOutside S (makeAll calls start)
  /-- The open transaction is the one that was begun last, and what it has written is what the calls
  since then have made of the data, on one connection. -/
  inside : V.inTransaction (makeAll calls start) = true → ∃ before isolation inner k,
    calls = before ++ openTransaction isolation :: inner ∧ (∀ call ∈ inner, call.ends = false) ∧
      V.inTransaction (makeAll before start) = false ∧
      V.IsInside S (makeAll calls start) k (V.committed (makeAll before start))
        (inner.foldl (effect (V.eval k)) (V.committed (makeAll before start)))

end DataView

/-! ### Pools -/

/-- A pool of connections of type `κ`, in states `σ`, to data `δ`. -/
structure Pool (κ σ δ : Type) where
  /-- The connection that is given to a call that has none. -/
  acquire : σ → κ
  run : κ → StoredStatement → σ → Except SqlError StatementResult × σ
  begin : κ → σ → σ
  commit : κ → σ → σ
  rollback : κ → σ → σ
  /-- The data that are committed. -/
  committed : σ → δ
  /-- The data as the open transaction of a connection has left them. -/
  working : σ → κ → Option δ
  /-- What a statement on a connection answers, and makes of the data that it sees. -/
  eval : κ → StoredStatement → δ → Except SqlError (List StoredRow) × δ

namespace Pool

variable {κ σ δ : Type} (P : Pool κ σ δ)

/-- No connection has an open transaction. -/
structure IsIdle (s : σ) (d : δ) : Prop where
  closed : ∀ k, P.working s k = none
  committed : P.committed s = d

/-- One connection has an open transaction. -/
structure IsOpen (s : σ) (k : κ) (begun written : δ) : Prop where
  working : P.working s k = some written
  closed : ∀ other, other ≠ k → P.working s other = none
  committed : P.committed s = begun

/-- Transactions are atomic for the statements of a set. Each of these sees what its connection has
written before; without an open transaction its writes are committed, and with one they are kept
back, and it stays open. A commit makes them the data, and a rollback drops them. -/
structure IsAtomic (S : Set Statement) : Prop where
  run_idle : ∀ {s d} k, ∀ t ∈ S, P.IsIdle s d →
    (P.run k t.toStored s).1.map (·.rows) = (P.eval k t.toStored d).1 ∧
      P.IsIdle (P.run k t.toStored s).2 (P.eval k t.toStored d).2
  run_open : ∀ {s k begun written}, ∀ t ∈ S, P.IsOpen s k begun written →
    (P.run k t.toStored s).1.map (·.rows) = (P.eval k t.toStored written).1 ∧
      P.IsOpen (P.run k t.toStored s).2 k begun (P.eval k t.toStored written).2
  begin_idle : ∀ {s d} k, P.IsIdle s d → P.IsOpen (P.begin k s) k d d
  commit_open : ∀ {s k begun written}, P.IsOpen s k begun written →
    P.IsIdle (P.commit k s) written
  rollback_open : ∀ {s k begun written}, P.IsOpen s k begun written →
    P.IsIdle (P.rollback k s) begun

end Pool

/-! ### Engines over pools -/

/-- An engine over a pool. -/
structure PoolEngine {κ σ δ : Type} (P : Pool κ σ δ) where
  state : σ
  /-- The connection on which a transaction is open. -/
  held : Option κ := none

namespace PoolEngine

variable {κ σ δ : Type} {P : Pool κ σ δ} {S : Set Statement}

/-- The connection on which a statement runs. -/
def connection (e : PoolEngine P) : κ :=
  e.held.getD (P.acquire e.state)

/-- Runs a statement with its bind values in storage classes. -/
def run (e : PoolEngine P) (s : Statement) : Except SqlError StatementResult × PoolEngine P :=
  let r := P.run e.connection s.toStored e.state
  (r.1, { e with state := r.2 })

/-- Ends the open transaction. -/
def endWith (e : PoolEngine P) (finish : κ → σ → σ) : Except SqlError Unit × PoolEngine P :=
  match e.held with
  | some k => (.ok (), { state := finish k e.state, held := none })
  | none => (.error .notInTransaction, e)

instance : Engine (PoolEngine P) where
  openTransaction _ e :=
    match e.held with
    | some _ => (.error .alreadyInTransaction, e)
    | none => (.ok (), { state := P.begin e.connection e.state, held := some e.connection })
  execute s e :=
    let (outcome, e) := e.run s
    { outcome := outcome.map fun r => UInt64.ofNat r.affected, engine := e }
  query s e :=
    let (outcome, e) := e.run s
    (outcome.map (·.toRows), e)
  commit e := e.endWith P.commit
  rollback e := e.endWith P.rollback
  isOpen _ := true

/-- What can be told of an engine over a pool. -/
def view (P : Pool κ σ δ) : DataView (PoolEngine P) κ δ where
  inTransaction e := e.held.isSome
  committed e := P.committed e.state
  eval k s d :=
    let r := P.eval k s.toStored d
    (r.1.map (·.map Row.ofStored), r.2)

/-- No transaction is open, and the engine holds no connection. -/
structure IsIdle (e : PoolEngine P) (d : δ) : Prop where
  held : e.held = none
  pool : P.IsIdle e.state d

/-- A transaction is open on the connection that the engine holds. -/
structure IsOpen (e : PoolEngine P) (k : κ) (begun written : δ) : Prop where
  held : e.held = some k
  pool : P.IsOpen e.state k begun written

/-! ### Single calls -/

section Steps

open EngineCall

variable {e : PoolEngine P} {d begun written : δ} {k : κ}

theorem IsIdle.inTransaction (h : e.IsIdle d) : (view P).inTransaction e = false := by
  change e.held.isSome = false
  rw [h.held]
  rfl

theorem IsOpen.inTransaction (h : e.IsOpen k begun written) : (view P).inTransaction e = true := by
  change e.held.isSome = true
  rw [h.held]
  rfl

theorem IsIdle.make_end (h : e.IsIdle d) {call : EngineCall} (hends : call.ends = true) :
    call.make e = (.error .notInTransaction, e) := by
  cases call with
  | commit => simp only [make, Engine.commit, endWith, h.held, Except.map]
  | rollback => simp only [make, Engine.rollback, endWith, h.held, Except.map]
  | _ => cases hends

/-- Without a transaction one is begun on the data that are committed. -/
theorem IsIdle.make_openTransaction (hP : P.IsAtomic S) (h : e.IsIdle d) (isolation : Isolation) :
    ∃ next k, (openTransaction isolation).make e = (.ok .done, next) ∧ next.IsOpen k d d := by
  refine ⟨{ state := P.begin e.connection e.state, held := some e.connection }, e.connection, ?_,
    rfl, hP.begin_idle _ h.pool⟩
  simp only [make, Engine.openTransaction, h.held, Except.map]

theorem IsOpen.make_openTransaction (h : e.IsOpen k begun written) (isolation : Isolation) :
    (openTransaction isolation).make e = (.error .alreadyInTransaction, e) := by
  simp only [make, Engine.openTransaction, h.held, Except.map]

/-- Rows are read after the statement is run, or after it is evaluated. -/
theorem map_toRows {outcome : Except SqlError StatementResult}
    {rows : Except SqlError (List StoredRow)} (h : outcome.map (·.rows) = rows) :
    outcome.map (·.toRows) = rows.map (·.map Row.ofStored) := by
  subst h
  cases outcome <;> rfl

/-- A statement runs on the connection that is held, and what it writes is kept back. -/
theorem IsOpen.run (hP : P.IsAtomic S) (h : e.IsOpen k begun written) {s : Statement}
    (hs : s ∈ S) :
    (e.run s).1.map (·.toRows) = ((view P).eval k s written).1 ∧
      (e.run s).2.IsOpen k begun ((view P).eval k s written).2 := by
  have hconnection : e.connection = k := by rw [connection, h.held, Option.getD_some]
  obtain ⟨hrows, hopen⟩ := hP.run_open s hs h.pool
  rw [PoolEngine.run, hconnection]
  exact ⟨map_toRows hrows, h.held, hopen⟩

/-- Without a transaction, a statement runs on the connection that the pool gives. -/
theorem IsIdle.run (hP : P.IsAtomic S) (h : e.IsIdle d) {s : Statement} (hs : s ∈ S) :
    (e.run s).1.map (·.toRows) = ((view P).eval e.connection s d).1 ∧
      (e.run s).2.IsIdle ((view P).eval e.connection s d).2 := by
  obtain ⟨hrows, hidle⟩ := hP.run_idle e.connection s hs h.pool
  exact ⟨map_toRows hrows, h.held, hidle⟩

/-- A call without a transaction that begins none. -/
theorem IsIdle.make (hP : P.IsAtomic S) (h : e.IsIdle d) {call : EngineCall}
    (hcall : call.IsWithin S) (hopens : call.opens = false) :
    (∃ d', (call.make e).2.IsIdle d') ∧ (call.ends && (call.make e).1.isOk) = false := by
  cases call with
  | openTransaction isolation => cases hopens
  | execute s => exact ⟨⟨_, (h.run hP hcall).2⟩, rfl⟩
  | query s => exact ⟨⟨_, (h.run hP hcall).2⟩, rfl⟩
  | commit =>
    rw [h.make_end rfl]
    exact ⟨⟨d, h⟩, rfl⟩
  | rollback =>
    rw [h.make_end rfl]
    exact ⟨⟨d, h⟩, rfl⟩

theorem IsOpen.make_commit (hP : P.IsAtomic S) (h : e.IsOpen k begun written) :
    ∃ next, commit.make e = (.ok .done, next) ∧ next.IsIdle written := by
  refine ⟨{ state := P.commit k e.state, held := none }, ?_, rfl, hP.commit_open h.pool⟩
  simp only [make, Engine.commit, endWith, h.held, Except.map]

theorem IsOpen.make_rollback (hP : P.IsAtomic S) (h : e.IsOpen k begun written) :
    ∃ next, rollback.make e = (.ok .done, next) ∧ next.IsIdle begun := by
  refine ⟨{ state := P.rollback k e.state, held := none }, ?_, rfl, hP.rollback_open h.pool⟩
  simp only [make, Engine.rollback, endWith, h.held, Except.map]

/-- A call in a transaction that does not end it. -/
theorem IsOpen.make (hP : P.IsAtomic S) (h : e.IsOpen k begun written) {call : EngineCall}
    (hcall : call.IsWithin S) (hends : call.ends = false) :
    (call.make e).2.IsOpen k begun (effect ((view P).eval k) written call) ∧
      (call.opens && (call.make e).1.isOk) = false := by
  cases call with
  | openTransaction isolation =>
    rw [h.make_openTransaction]
    exact ⟨h, rfl⟩
  | execute s => exact ⟨(h.run hP hcall).2, rfl⟩
  | query s => exact ⟨(h.run hP hcall).2, rfl⟩
  | commit => cases hends
  | rollback => cases hends

/-- A call that ends a transaction. -/
theorem IsOpen.make_end (hP : P.IsAtomic S) (h : e.IsOpen k begun written) {call : EngineCall}
    (hends : call.ends = true) : ∃ next d, call.make e = (.ok .done, next) ∧ next.IsIdle d := by
  cases call with
  | commit =>
    obtain ⟨next, hmake, hidle⟩ := h.make_commit hP
    exact ⟨next, written, hmake, hidle⟩
  | rollback =>
    obtain ⟨next, hmake, hidle⟩ := h.make_rollback hP
    exact ⟨next, begun, hmake, hidle⟩
  | _ => cases hends

theorem IsIdle.isOutside (hP : P.IsAtomic S) (h : e.IsIdle d) : (view P).IsOutside S e where
  commit_refused := h.make_end rfl
  rollback_refused := h.make_end rfl
  begins isolation := by
    obtain ⟨next, k, hmake, hopen⟩ := h.make_openTransaction hP isolation
    exact ⟨next, hmake, hopen.inTransaction, hopen.pool.committed.trans h.pool.committed.symm⟩
  writes s hs := by
    refine ⟨e.connection, ?_⟩
    have hidle := (h.run hP hs).2
    change P.committed (e.run s).2.state =
      ((view P).eval e.connection s (P.committed e.state)).2
    rw [hidle.pool.committed, h.pool.committed]

theorem IsOpen.isInside (hP : P.IsAtomic S) (h : e.IsOpen k begun written) :
    (view P).IsInside S e k begun written where
  refused := h.make_openTransaction
  sees _ hs := congrArg (Except.map TransactionReply.rows) (h.run hP hs).1
  keepsBack _ hs := (h.run hP hs).2.pool.committed
  commits := by
    obtain ⟨next, hmake, hidle⟩ := h.make_commit hP
    exact ⟨next, hmake, hidle.inTransaction, hidle.pool.committed⟩
  rollsBack := by
    obtain ⟨next, hmake, hidle⟩ := h.make_rollback hP
    exact ⟨next, hmake, hidle.inTransaction, hidle.pool.committed⟩

end Steps

/-! ### Runs -/

section Runs

open EngineCall

/-- Calls after which no transaction is open: as many have been begun as ended. -/
structure Outside (start : PoolEngine P) (calls : List EngineCall) : Prop where
  balanced : succeeded opens calls start = succeeded ends calls start
  idle : ∃ d, (makeAll calls start).IsIdle d

/-- Calls after which a transaction is open: one more has been begun than ended, and it is the one
that was begun after the first of them, before the others. -/
structure Inside (start : PoolEngine P) (calls before : List EngineCall) (isolation : Isolation)
    (inner : List EngineCall) (k : κ) (d : δ) : Prop where
  split : calls = before ++ openTransaction isolation :: inner
  stays : ∀ call ∈ inner, call.ends = false
  balanced : succeeded opens calls start = succeeded ends calls start + 1
  idle : (makeAll before start).IsIdle d
  opened : (makeAll calls start).IsOpen k d (inner.foldl (effect ((view P).eval k)) d)

variable {start : PoolEngine P} {calls before inner : List EngineCall} {isolation : Isolation}
  {k : κ} {d : δ} {call : EngineCall}

/-- A call that begins no transaction, after calls that leave none open. -/
theorem Outside.concat (hP : P.IsAtomic S) (h : Outside start calls) (hcall : call.IsWithin S)
    (hopens : call.opens = false) : Outside start (calls ++ [call]) := by
  obtain ⟨d, hidle⟩ := h.idle
  obtain ⟨hnext, hends⟩ := hidle.make hP hcall hopens
  refine ⟨?_, ?_⟩
  · rw [succeeded_concat, succeeded_concat, h.balanced, hopens, hends, Bool.false_and]
  · rwa [makeAll_concat]

theorem Outside.concat_openTransaction (hP : P.IsAtomic S) (h : Outside start calls)
    (isolation : Isolation) :
    ∃ k d, Inside start (calls ++ [openTransaction isolation]) calls isolation [] k d := by
  obtain ⟨d, hidle⟩ := h.idle
  obtain ⟨next, k, hmake, hopen⟩ := hidle.make_openTransaction hP isolation
  refine ⟨k, d, rfl, nofun, ?_, hidle, ?_⟩
  · rw [succeeded_concat, succeeded_concat, h.balanced, hmake]
    rfl
  · rwa [makeAll_concat, hmake]

/-- A call that does not end the open transaction. -/
theorem Inside.concat (hP : P.IsAtomic S) (h : Inside start calls before isolation inner k d)
    (hcall : call.IsWithin S) (hends : call.ends = false) :
    Inside start (calls ++ [call]) before isolation (inner ++ [call]) k d := by
  obtain ⟨hopen, hopens⟩ := h.opened.make hP hcall hends
  refine ⟨?_, ?_, ?_, h.idle, ?_⟩
  · rw [h.split, List.append_assoc, List.cons_append]
  · intro other hother
    rcases List.mem_append.mp hother with hinner | hlast
    · exact h.stays other hinner
    · rwa [List.mem_singleton.mp hlast]
  · rw [succeeded_concat, succeeded_concat, h.balanced, hends, hopens, Bool.false_and]
    rfl
  · rwa [makeAll_concat, List.foldl_append]

theorem Inside.concat_end (hP : P.IsAtomic S) (h : Inside start calls before isolation inner k d)
    (hends : call.ends = true) : Outside start (calls ++ [call]) := by
  obtain ⟨next, d', hmake, hidle⟩ := h.opened.make_end hP hends
  refine ⟨?_, d', ?_⟩
  · rw [succeeded_concat, succeeded_concat, h.balanced, hmake, opens_of_ends hends, hends]
    rfl
  · rwa [makeAll_concat, hmake]

/-- After any calls no transaction is open, or the last one that was begun is. -/
theorem outside_or_inside (hP : P.IsAtomic S) (hstart : start.IsIdle d)
    (hcalls : ∀ call ∈ calls, call.IsWithin S) :
    Outside start calls ∨
      ∃ before isolation inner k d, Inside start calls before isolation inner k d := by
  induction calls using List.reverseRecOn with
  | nil => exact .inl ⟨rfl, d, hstart⟩
  | append_singleton calls call ih =>
    obtain ⟨hearlier, hlast⟩ := List.forall_mem_append.mp hcalls
    have hcall : call.IsWithin S := hlast call (List.mem_singleton_self call)
    obtain houtside | ⟨before, isolation, inner, k, d, hinside⟩ := ih hearlier
    · cases hopens : call.opens with
      | false => exact .inl (houtside.concat hP hcall hopens)
      | true =>
        obtain ⟨isolation, rfl⟩ := exists_of_opens hopens
        obtain ⟨k, d, hinside⟩ := houtside.concat_openTransaction hP isolation
        exact .inr ⟨calls, isolation, [], k, d, hinside⟩
    · cases hends : call.ends with
      | false =>
        exact .inr ⟨before, isolation, inner ++ [call], k, d, hinside.concat hP hcall hends⟩
      | true => exact .inl (hinside.concat_end hP hends)

theorem Outside.keeps (hP : P.IsAtomic S) (h : Outside start calls) :
    (view P).KeepsTransactions S start calls := by
  obtain ⟨d, hidle⟩ := h.idle
  refine ⟨?_, fun _ => hidle.isOutside hP, fun hopen => ?_⟩
  · rw [hidle.inTransaction]
    exact h.balanced
  · rw [hidle.inTransaction] at hopen
    cases hopen

theorem Inside.keeps (hP : P.IsAtomic S)
    (h : Inside start calls before isolation inner k d) :
    (view P).KeepsTransactions S start calls := by
  refine ⟨?_, fun hclosed => ?_, fun _ => ?_⟩
  · rw [h.opened.inTransaction]
    exact h.balanced
  · rw [h.opened.inTransaction] at hclosed
    cases hclosed
  · have hbegun : (view P).committed (makeAll before start) = d := h.idle.pool.committed
    refine ⟨before, isolation, inner, k, h.split, h.stays, h.idle.inTransaction, ?_⟩
    rw [hbegun]
    exact h.opened.isInside hP

end Runs

end PoolEngine

end EntitySql
