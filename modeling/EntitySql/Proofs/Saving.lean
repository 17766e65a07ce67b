import EntitySql.Proofs.Sending
import EntitySql.Work.Script
import EntitySql.Work.UnitOfWork

/-!
# Saving

A save sends what is queued, and enters the calls that this makes and what other clients did in
the meantime (`UnitOfWork.save_eq`).

The main statement is about the transaction that a save opens: it is closed by a successful commit
or by a rollback exactly if no commit failed (`UnitOfWork.save_closes_iff`). After a commit that
fails it is left open, as `save_commitFails` shows.
-/

namespace EntitySql

/-! ### Events -/

/-- The call that an event records. -/
def Event.call? : Event → Option Call
  | .call made => some made
  | .arrival _ _ _ => none

/-- The calls among events. -/
def callsOf (events : List Event) : List Call :=
  events.filterMap Event.call?

namespace UnitOfWork

variable {β : Type} (u : UnitOfWork)

theorem callsOf_arriveAll (p : Pending) (arrivals : List Arrival) :
    callsOf (u.arriveAll p arrivals).2 = [] := by
  induction arrivals generalizing p with
  | nil => rfl
  | cons arrival arrivals ih =>
    have hevent : (u.arrive p arrival).2.call? = none := by
      cases arrival with
      | look => rfl
      | queue m =>
        rw [arrive]
        split <;> rfl
    rw [arriveAll, callsOf, List.filterMap_cons_none hevent]
    exact ih _

/-- The calls that are entered are those of the journal. -/
theorem callsOf_absorb (p : Pending) (calls : List Call) :
    callsOf (u.absorb p calls).2 = calls := by
  induction calls generalizing p with
  | nil => rfl
  | cons call calls ih =>
    have harrived := u.callsOf_arriveAll p (arrivals call)
    have hrest := ih (u.arriveAll p (arrivals call)).1
    have hevents : (u.absorb p (call :: calls)).2 = .call call ::
        ((u.arriveAll p (arrivals call)).2 ++
          (u.absorb (u.arriveAll p (arrivals call)).1 calls).2) := rfl
    have hcall : (Event.call call).call? = some call := rfl
    rw [callsOf] at harrived hrest
    rw [hevents, callsOf, List.filterMap_cons_some hcall, List.filterMap_append, harrived, hrest,
      List.nil_append]

/-- Calls during which nobody else was active change nothing else. -/
theorem absorb_of_quiet (p : Pending) {calls : List Call}
    (h : ∀ call ∈ calls, arrivals call = []) : u.absorb p calls = (p, calls.map .call) := by
  induction calls with
  | nil => rfl
  | cons call calls ih =>
    rw [List.forall_mem_cons] at h
    rw [absorb, h.1, arriveAll]
    dsimp only
    rw [ih h.2]
    rfl

/-- A program is run, and its calls are entered. -/
theorem run_eq {α : Type} (program : Session β α) (w : WorkState β) :
    u.run program w =
      let (outcome, journal) := program.result { engine := w.engine }
      (outcome,
        { engine := journal.engine
          pending := (u.absorb w.pending journal.calls).1
          trace := w.trace ++ (u.absorb w.pending journal.calls).2 }) := by
  unfold run Session.result
  cases program { engine := w.engine } <;> rfl

variable [Engine β]

/-- The queue after it was taken. -/
def taken : Pending where
  phase := .flushing

theorem takeAll?_of_ne {p : Pending} (h : p.queued ≠ []) :
    p.takeAll? = some (p.queued.map (·.statement), taken) := by
  rw [Pending.takeAll?, if_neg (by simpa [Pending.isEmpty] using h)]
  rfl

/-- A save sends the queued statements. -/
theorem save_eq (w : WorkState β) (h : w.pending.queued ≠ []) :
    ∃ calls b', Sends u.settings w.engine (w.pending.queued.map (·.statement)) calls b' ∧
      u.save w = ((outcomeOf calls).mapError .flush,
        { engine := b'
          pending := (u.absorb taken calls).1.settle
          trace := w.trace ++ (u.absorb taken calls).2 }) := by
  obtain ⟨calls, b', hsends, hresult⟩ := Session.result_send u.settings
    (w.pending.queued.map (·.statement)) { engine := w.engine }
  refine ⟨calls, b', hsends, ?_⟩
  rw [save, takeAll?_of_ne h]
  dsimp only
  rw [run_eq, hresult]
  rfl

/-- A save of an empty queue does nothing. -/
theorem save_of_empty (w : WorkState β) (h : w.pending.queued = []) : u.save w = (.ok 0, w) := by
  rw [save, (Pending.takeAll?_eq_none_iff _).mpr h]

/-! ### Open transactions -/

/-- **A save closes the transaction that it opened**, by a successful commit or by a rollback and
not by both, exactly if no commit failed. If the save fails, the transaction is rolled back under
the same condition: after a commit that fails no rollback is asked for. -/
theorem save_closes_iff (w : WorkState β) :
    ∃ events, (u.save w).2.trace = w.trace ++ events ∧
      (WasOpened (callsOf events) →
        (Xor (WasCommitted (callsOf events)) (WasRolledBack (callsOf events)) ↔
          ¬ CommitFailed (callsOf events)) ∧
        ((u.save w).1.isOk = false →
          (WasRolledBack (callsOf events) ↔ ¬ CommitFailed (callsOf events)))) := by
  by_cases h : w.pending.queued = []
  · rw [u.save_of_empty w h]
    refine ⟨[], (List.append_nil _).symm, ?_⟩
    rintro ⟨_, hmem⟩
    cases hmem
  · obtain ⟨calls, b', hsends, hsave⟩ := u.save_eq w h
    rw [hsave]
    refine ⟨_, rfl, fun hopened => ?_⟩
    rw [callsOf_absorb] at hopened ⊢
    have hclosed := hsends.closed_iff hopened
    refine ⟨hclosed, fun hfailed => ?_⟩
    -- a save whose commit succeeded did not fail
    have hnot : ¬ WasCommitted calls := by
      intro hcommitted
      obtain ⟨rows, hrows⟩ := hsends.outcomeOf_of_committed hcommitted
      rw [hrows] at hfailed
      cases hfailed
    rw [← hclosed]
    constructor
    · exact fun hrolled => .inr ⟨hrolled, hnot⟩
    · rintro (⟨hcommitted, -⟩ | ⟨hrolled, -⟩)
      · exact absurd hcommitted hnot
      · exact hrolled

end UnitOfWork

/-- A type of users with a key. -/
def users : EntityDecl where
  typeName := "User"
  table := "Members_User"
  members := [.key "ID", .field "UserName"]

/-- The delete of user number 4. -/
def deleteUser : Mutation :=
  .delete { dialect := .sqlServer, entity := users,
            filter := some (.binary .eq (.ofMember "ID") (.constant (.number (.int 4 rfl)))) }

/-- A unit of work with the default settings. -/
def defaultUnit : UnitOfWork where
  dialect := .sqlServer

/-- A state in which a delete is pending, on an engine whose first commit fails. -/
def commitFails : WorkState Script :=
  (defaultUnit.mutate deleteUser
    { engine := { failures := [⟨.commit, 1, .database "constraint violation"⟩] } }).2

/-- The statement of the delete. -/
def deleteUserSql : Statement where
  sql := "DELETE FROM [Members_User] WHERE [ID] = @p0_ID"
  binds := [⟨⟨0, "ID"⟩, .number (.int 4 rfl), "p0_ID", "@p0_ID", 1⟩]

/-- The save that opened the transaction fails, and neither commits it nor rolls it back. -/
theorem save_commitFails :
    (defaultUnit.save commitFails).1 = .error (.flush (.database "constraint violation")) ∧
      ∃ events, (defaultUnit.save commitFails).2.trace = commitFails.trace ++ events ∧
        WasOpened (callsOf events) ∧
        ¬ Xor (WasCommitted (callsOf events)) (WasRolledBack (callsOf events)) := by
  refine ⟨rfl, [.call (.openTransaction .serializable (.ok ())),
    .call (.execute deleteUserSql (.ok 1) []),
    .call (.commit (.error (.database "constraint violation")))], rfl, ?_, ?_⟩
  · exact ⟨.serializable, List.mem_cons_self⟩
  · rintro (⟨hcommitted, -⟩ | ⟨⟨_, hrolled⟩, -⟩)
    · simp [WasCommitted, callsOf, Event.call?] at hcommitted
    · simp [callsOf, Event.call?] at hrolled

end EntitySql
