import EntitySql.Proofs.PoolEngine

/-!
# Connections as pools

A `Connection` to the embedded database is a pool of its own (`Connection.pool`). Its transactions
are atomic for all statements (`Connection.pool_isAtomic`), because what a statement reads and
writes depends on the data alone (`Connection.run_seen`), and a rollback returns to data that no
statement touches. Its calls are those of the engine over that pool (`Connection.make_pooled`), so
what holds of the one holds of the other.
-/

namespace EntitySql

namespace Connection

/-! ### What statements see -/

/-- What the statements of a connection see: its data, and whether they may be changed. -/
def seen (c : Connection) : Database × Bool :=
  (c.data, c.readOnly)

/-- A new connection that sees given data. -/
def ofSeen (d : Database × Bool) : Connection :=
  { data := d.1, readOnly := d.2 }

/-- What a statement answers and makes of what it sees. -/
def eval (s : StoredStatement) (d : Database × Bool) :
    Except SqlError (List StoredRow) × (Database × Bool) :=
  (((ofSeen d).run s).1.map (·.rows), ((ofSeen d).run s).2.seen)

theorem runCommand_eq_of_seen {c c' : Connection} (h : c.seen = c'.seen) (binds : List Stored)
    (command : Command) : c.runCommand binds command = c'.runCommand binds command := by
  obtain ⟨hdata, hreadOnly⟩ := Prod.mk.inj h
  rw [runCommand, runCommand, hdata, hreadOnly]

theorem seen_afterFault (c : Connection) (fault : CommandFault) :
    (c.afterFault fault).seen = c.seen ∧ (c.afterFault fault).atBegin = c.atBegin := by
  cases fault with
  | keyTaken => exact ⟨rfl, rfl⟩
  | _ => exact ⟨rfl, rfl⟩

/-- Two runs give the same rows and leave the same to be seen, and the first of them, of a given
connection, does not touch what a rollback returns to. -/
structure RunsAlike {ε : Type} (c : Connection)
    (left right : Except ε StatementResult × Connection) : Prop where
  rows : left.1.map (·.rows) = right.1.map (·.rows)
  seen : left.2.seen = right.2.seen
  atBegin : left.2.atBegin = c.atBegin
  readOnly : left.2.readOnly = c.readOnly

theorem runAll_congr {c c' : Connection} (h : c.seen = c'.seen) (binds : List Stored)
    (commands : List (Option Command)) :
    RunsAlike c (c.runAll binds commands) (c'.runAll binds commands) := by
  induction commands generalizing c c' with
  | nil => exact ⟨rfl, h, rfl, rfl⟩
  | cons first rest ih =>
    cases first with
    | none => exact ⟨rfl, h, rfl, rfl⟩
    | some command =>
      simp only [runAll, runCommand_eq_of_seen h binds command]
      cases c'.runCommand binds command with
      | error fault =>
        obtain ⟨hseen, hbegin⟩ := seen_afterFault c fault
        obtain ⟨hseen', -⟩ := seen_afterFault c' fault
        exact ⟨rfl, hseen.trans (h.trans hseen'.symm), hbegin, (Prod.mk.inj hseen).2⟩
      | ok r =>
        have hnext : (c.afterCommand r).seen = (c'.afterCommand r).seen :=
          congrArg (Prod.mk r.database) (Prod.mk.inj h).2
        obtain ⟨hrows, hseen, hbegin, hmark⟩ := ih hnext
        dsimp only
        generalize (c.afterCommand r).runAll binds rest = left at *
        generalize (c'.afterCommand r).runAll binds rest = right at *
        obtain ⟨_ | more, last⟩ := left <;> obtain ⟨_ | more', last'⟩ := right
        · exact ⟨hrows, hseen, hbegin, hmark⟩
        · cases hrows
        · cases hrows
        · have hmore : more.rows = more'.rows := Except.ok.inj hrows
          refine ⟨?_, hseen, hbegin, hmark⟩
          simp only [Except.map, hmore]

theorem run_congr {c c' : Connection} (h : c.seen = c'.seen) (s : StoredStatement) :
    RunsAlike c (c.run s) (c'.run s) := by
  obtain ⟨hrows, hseen, hbegin, hmark⟩ :=
    runAll_congr h s.binds (Command.ofText s.sql)
  simp only [run]
  generalize c.runAll _ _ = left at *
  generalize c'.runAll _ _ = right at *
  obtain ⟨_ | result, last⟩ := left <;> obtain ⟨_ | result', last'⟩ := right
  · exact ⟨rfl, hseen, hbegin, hmark⟩
  · cases hrows
  · cases hrows
  · exact ⟨congrArg Except.ok (Except.ok.inj hrows), hseen, hbegin, hmark⟩

/-- What a statement answers and leaves is told by what the connection sees. -/
theorem run_seen (c : Connection) (s : StoredStatement) :
    RunsAlike c (c.run s) ((ofSeen c.seen).run s) :=
  have hseen : c.seen = (ofSeen c.seen).seen := rfl
  run_congr hseen s

/-! ### The pool -/

/-- The data that are left when an open transaction is rolled back. -/
def committed (c : Connection) : Database × Bool :=
  (c.atBegin.getD c.data, c.readOnly)

/-- The connection as a pool that has no other. -/
def pool : Pool Unit Connection (Database × Bool) where
  acquire _ := ()
  run _ s c := c.run s
  begin _ c := { c with atBegin := some c.data }
  commit _ c := { c with atBegin := none }
  rollback _ c := { c with data := c.atBegin.getD c.data, atBegin := none }
  committed := committed
  working c _ := c.atBegin.map fun _ => c.seen
  eval _ := eval

theorem pool_run (k : Unit) (s : StoredStatement) (c : Connection) : pool.run k s c = c.run s := by
  simp only [pool]

theorem pool_eval (k : Unit) (s : StoredStatement) (d : Database × Bool) :
    pool.eval k s d = (((ofSeen d).run s).1.map (·.rows), ((ofSeen d).run s).2.seen) :=
  rfl

theorem pool_isIdle_iff {c : Connection} {d : Database × Bool} :
    pool.IsIdle c d ↔ c.atBegin = none ∧ c.seen = d := by
  constructor
  · rintro ⟨hclosed, hdata⟩
    have hbegin : c.atBegin = none := Option.map_eq_none_iff.mp (hclosed ())
    simp only [pool, committed, hbegin] at hdata
    exact ⟨hbegin, hdata⟩
  · rintro ⟨hbegin, rfl⟩
    constructor
    · exact fun _ => Option.map_eq_none_iff.mpr hbegin
    · simp only [pool, committed, hbegin]
      rfl

theorem pool_isOpen_iff {c : Connection} {k : Unit} {begun written : Database × Bool} :
    pool.IsOpen c k begun written ↔
      c.atBegin = some begun.1 ∧ c.readOnly = begun.2 ∧ c.seen = written := by
  constructor
  · rintro ⟨hworking, -, hdata⟩
    obtain ⟨data, hbegin, hseen⟩ := Option.map_eq_some_iff.mp hworking
    simp only [pool, committed, hbegin] at hdata
    obtain rfl := hdata
    exact ⟨hbegin, rfl, hseen⟩
  · rintro ⟨hbegin, hmark, hseen⟩
    refine ⟨Option.map_eq_some_iff.mpr ⟨begun.1, hbegin, hseen⟩,
      fun other hother => absurd rfl hother, ?_⟩
    simp only [pool, committed, hbegin, hmark]
    rfl

/-- A connection keeps its transactions apart from what is committed. -/
theorem pool_isAtomic (S : Set Statement) : pool.IsAtomic S where
  run_idle {c d} k s _ h := by
    obtain ⟨hbegin, rfl⟩ := pool_isIdle_iff.mp h
    have hrun := c.run_seen s.toStored
    simp only [pool_run, pool_eval]
    exact ⟨hrun.rows, pool_isIdle_iff.mpr ⟨hrun.atBegin.trans hbegin, hrun.seen⟩⟩
  run_open {c k begun written} s _ h := by
    obtain ⟨hbegin, hmark, rfl⟩ := pool_isOpen_iff.mp h
    have hrun := c.run_seen s.toStored
    simp only [pool_run, pool_eval]
    exact ⟨hrun.rows,
      pool_isOpen_iff.mpr ⟨hrun.atBegin.trans hbegin, hrun.readOnly.trans hmark, hrun.seen⟩⟩
  begin_idle {c d} k h := by
    obtain ⟨-, rfl⟩ := pool_isIdle_iff.mp h
    exact pool_isOpen_iff.mpr ⟨rfl, rfl, rfl⟩
  commit_open {c k begun written} h := by
    obtain ⟨-, -, rfl⟩ := pool_isOpen_iff.mp h
    exact pool_isIdle_iff.mpr ⟨rfl, rfl⟩
  rollback_open {c k begun written} h := by
    obtain ⟨hbegin, hmark, -⟩ := pool_isOpen_iff.mp h
    refine pool_isIdle_iff.mpr ⟨rfl, ?_⟩
    change (c.atBegin.getD c.data, c.readOnly) = begun
    rw [hbegin, hmark]
    rfl

/-! ### The engine -/

/-- The connection as an engine over itself. -/
def pooled (c : Connection) : PoolEngine pool where
  state := c
  held := c.atBegin.map fun _ => ()

/-- Every call of a connection is the call of the engine over it. -/
theorem make_pooled (call : EngineCall) (c : Connection) :
    call.make c.pooled = ((call.make c).1, (call.make c).2.pooled) := by
  have hrun (s : Statement) :
      c.pooled.run s = ((c.run s.toStored).1, (c.run s.toStored).2.pooled) := by
    simp only [PoolEngine.run, pooled, (run_seen c s.toStored).atBegin]
    rfl
  cases call with
  | execute s => simp only [EngineCall.make, Engine.execute, hrun]
  | query s => simp only [EngineCall.make, Engine.query, hrun]
  | openTransaction isolation =>
    cases hbegin : c.atBegin <;>
      simp [EngineCall.make, Engine.openTransaction, pooled, begin?, after, inTransaction, hbegin,
        PoolEngine.connection, pool, Except.map]
  | commit =>
    cases hbegin : c.atBegin <;>
      simp [EngineCall.make, Engine.commit, PoolEngine.endWith, pooled, commit?, after,
        inTransaction, hbegin, pool, Except.map]
  | rollback =>
    cases hbegin : c.atBegin <;>
      simp [EngineCall.make, Engine.rollback, PoolEngine.endWith, pooled, rollback?, after,
        hbegin, pool, Except.map]

end Connection

end EntitySql
