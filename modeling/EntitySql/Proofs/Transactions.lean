import EntitySql.Proofs.ConnectionPool

/-!
# Transactions

The main statement, `PoolEngine.keepsTransactions`, is about every sequence of calls of an engine
over a pool whose transactions are atomic for the statements that the calls run: a transaction is
open exactly while one more has been begun than ended, calls that do not fit change nothing, a query
in a transaction sees what was written in it, a commit leaves the data as the writes left them, and
a rollback leaves them as they were when the transaction began.

A `Connection` to the embedded database is such an engine, for all statements
(`Connection.keepsTransactions_of_closed`).
-/

namespace EntitySql

namespace Connection

/-- What can be told of a connection. -/
def view : DataView Connection Unit (Database × Bool) where
  inTransaction := inTransaction
  committed := committed
  eval _ s d :=
    let r := eval s.toStored d
    (r.1.map (·.map Row.ofStored), r.2)

variable {c : Connection} {S : Set Statement} {calls : List EngineCall}

theorem inTransaction_pooled (c : Connection) :
    (PoolEngine.view pool).inTransaction c.pooled = c.inTransaction :=
  Option.isSome_map

theorem committed_pooled (c : Connection) :
    (PoolEngine.view pool).committed c.pooled = c.committed :=
  rfl

theorem eval_pooled : (PoolEngine.view pool).eval = view.eval :=
  rfl

theorem makeAll_pooled (calls : List EngineCall) (c : Connection) :
    EngineCall.makeAll calls c.pooled = (EngineCall.makeAll calls c).pooled := by
  induction calls generalizing c with
  | nil => rfl
  | cons call rest ih =>
    simp only [EngineCall.makeAll, List.foldl_cons, make_pooled] at ih ⊢
    exact ih _

theorem succeeded_pooled (kind : EngineCall → Bool) (calls : List EngineCall) (c : Connection) :
    EngineCall.succeeded kind calls c.pooled = EngineCall.succeeded kind calls c := by
  induction calls generalizing c with
  | nil => rfl
  | cons call rest ih => rw [EngineCall.succeeded, EngineCall.succeeded, make_pooled, ih]

/-- A call of the engine over a connection is one of the connection. -/
theorem make_of_pooled {call : EngineCall} {outcome : Except SqlError TransactionReply}
    {next : PoolEngine pool} (h : call.make c.pooled = (outcome, next)) :
    call.make c = (outcome, next.state) ∧ next = next.state.pooled := by
  rw [make_pooled] at h
  obtain ⟨rfl, rfl⟩ := Prod.mk.inj h
  exact ⟨rfl, rfl⟩

theorem isOutside_of_pooled (h : (PoolEngine.view pool).IsOutside S c.pooled) :
    view.IsOutside S c where
  commit_refused := (make_of_pooled h.commit_refused).1
  rollback_refused := (make_of_pooled h.rollback_refused).1
  begins isolation := by
    obtain ⟨next, hmake, hopen, hdata⟩ := h.begins isolation
    obtain ⟨hcall, hnext⟩ := make_of_pooled hmake
    rw [hnext, inTransaction_pooled] at hopen
    exact ⟨next.state, hcall, hopen, hdata⟩
  writes s hs := by
    obtain ⟨k, hdata⟩ := h.writes s hs
    simp only [make_pooled, committed_pooled, eval_pooled] at hdata
    exact ⟨k, hdata⟩

theorem isInside_of_pooled {k : Unit} {begun written : Database × Bool}
    (h : (PoolEngine.view pool).IsInside S c.pooled k begun written) :
    view.IsInside S c k begun written where
  refused isolation := (make_of_pooled (h.refused isolation)).1
  sees s hs := by
    have hrows := h.sees s hs
    simp only [make_pooled, eval_pooled] at hrows
    exact hrows
  keepsBack s hs := by
    have hdata := h.keepsBack s hs
    simp only [make_pooled, committed_pooled] at hdata
    exact hdata
  commits := by
    obtain ⟨next, hmake, hclosed, hdata⟩ := h.commits
    obtain ⟨hcall, hnext⟩ := make_of_pooled hmake
    rw [hnext, inTransaction_pooled] at hclosed
    exact ⟨next.state, hcall, hclosed, hdata⟩
  rollsBack := by
    obtain ⟨next, hmake, hclosed, hdata⟩ := h.rollsBack
    obtain ⟨hcall, hnext⟩ := make_of_pooled hmake
    rw [hnext, inTransaction_pooled] at hclosed
    exact ⟨next.state, hcall, hclosed, hdata⟩

theorem keepsTransactions_of_pooled
    (h : (PoolEngine.view pool).KeepsTransactions S c.pooled calls) :
    view.KeepsTransactions S c calls where
  balanced := by
    have hbalanced := h.balanced
    rwa [succeeded_pooled, succeeded_pooled, makeAll_pooled, inTransaction_pooled] at hbalanced
  outside hclosed := by
    have houtside := h.outside
    rw [makeAll_pooled, inTransaction_pooled] at houtside
    exact isOutside_of_pooled (houtside hclosed)
  inside hopen := by
    have hinside := h.inside
    rw [makeAll_pooled, inTransaction_pooled] at hinside
    obtain ⟨before, isolation, inner, k, hsplit, hstays, hbefore, hnow⟩ := hinside hopen
    rw [makeAll_pooled] at hbefore hnow
    rw [inTransaction_pooled] at hbefore
    exact ⟨before, isolation, inner, k, hsplit, hstays, hbefore, isInside_of_pooled hnow⟩

/-- So a connection that has no open transaction keeps its own, whatever statements are run. -/
theorem keepsTransactions_of_closed (hclosed : c.inTransaction = false)
    (calls : List EngineCall) : view.KeepsTransactions Set.univ c calls := by
  have hbegin : c.atBegin = none :=
    Option.isNone_iff_eq_none.mp (Option.isSome_eq_false_iff.mp hclosed)
  have hidle : c.pooled.IsIdle c.seen :=
    ⟨Option.map_eq_none_iff.mpr hbegin, pool_isIdle_iff.mpr ⟨hbegin, rfl⟩⟩
  have hatomic := pool_isAtomic Set.univ
  obtain houtside | ⟨before, isolation, inner, k, d, hinside⟩ :=
    PoolEngine.outside_or_inside hatomic hidle fun call _ => call.isWithin_univ
  · exact keepsTransactions_of_pooled (houtside.keeps hatomic)
  · exact keepsTransactions_of_pooled (hinside.keeps hatomic)

end Connection

/-! ### Sequences of calls -/

/-- After calls that run statements for which the transactions of the pool are atomic, an engine
over it has kept its own, if no transaction was open at the start. -/
theorem PoolEngine.keepsTransactions {κ σ δ : Type} {P : Pool κ σ δ} {S : Set Statement}
    (hP : P.IsAtomic S) {start : PoolEngine P} {d : δ} (hstart : start.IsIdle d)
    {calls : List EngineCall} (hcalls : ∀ call ∈ calls, call.IsWithin S) :
    (view P).KeepsTransactions S start calls := by
  obtain houtside | ⟨before, isolation, inner, k, d, hinside⟩ :=
    outside_or_inside hP hstart hcalls
  · exact houtside.keeps hP
  · exact hinside.keeps hP

/-- Creates the table, and inserts a row into it in a transaction. -/
def insertInTransaction : List EngineCall :=
  [.execute { sql := "CREATE TABLE t (k UNIQUE, v)" }, .openTransaction .serializable,
    .execute { sql := "INSERT INTO t (k, v) VALUES (?1, ?2)" }]

/-- A connection is an engine over itself, so it keeps its transactions too. -/
theorem keepsTransactions_insertInTransaction :
    Connection.pool.IsAtomic Set.univ ∧ ({} : Connection).pooled.IsIdle ({}, false) ∧
    (∀ call ∈ insertInTransaction, call.IsWithin Set.univ) ∧
    (PoolEngine.view Connection.pool).KeepsTransactions Set.univ ({} : Connection).pooled
      insertInTransaction ∧
    Connection.view.KeepsTransactions Set.univ {} insertInTransaction ∧
    (EngineCall.makeAll insertInTransaction ({} : Connection)).data.table.map List.length = some 1 ∧
    (EngineCall.makeAll (insertInTransaction ++ [.rollback]) ({} : Connection)).data.table.map
      List.length = some 0 := by
  have hatomic := Connection.pool_isAtomic Set.univ
  have hidle : ({} : Connection).pooled.IsIdle ({}, false) :=
    ⟨rfl, Connection.pool_isIdle_iff.mpr ⟨rfl, rfl⟩⟩
  have hcalls : ∀ call ∈ insertInTransaction, call.IsWithin Set.univ :=
    fun call _ => call.isWithin_univ
  exact ⟨hatomic, hidle, hcalls, PoolEngine.keepsTransactions hatomic hidle hcalls,
    Connection.keepsTransactions_of_closed rfl _, by decide +kernel, by decide +kernel⟩

end EntitySql
