import EntitySql.Work.Engine
import Mathlib.Logic.Basic

/-!
# What sending asks of an engine

`Sends` says which calls sending a batch makes of an engine, answer by answer: the statements in
order up to the first that fails, and in a transaction what opens and what closes it. The outcome
of the sending is read off the calls (`outcomeOf`): it is the failure of the first call that
failed, or else the sum of the affected rows.

A transaction that was opened is closed by one call, a successful commit or a rollback, unless it
is the commit that fails (`Sends.closed_iff`): no rollback is asked for after that.
-/

namespace EntitySql

/-! ### Outcomes -/

namespace Call

/-- How a call failed, if it did. -/
def failure? : Call → Option SqlError
  | .openTransaction _ (.error e) | .execute _ (.error e) _ | .query _ (.error e)
  | .commit (.error e) | .rollback (.error e) => some e
  | _ => none

/-- The number of rows that a call affected. -/
def affected? : Call → Option UInt64
  | .execute _ (.ok rows) _ => some rows
  | _ => none

end Call

/-- The sum of the rows that calls affected. -/
def affectedRows (calls : List Call) : UInt64 :=
  (calls.filterMap Call.affected?).foldr (· + ·) 0

/-- What calls come to: the first failure, or the affected rows. -/
def outcomeOf (calls : List Call) : Except SqlError UInt64 :=
  match calls.findSome? Call.failure? with
  | some e => .error e
  | none => .ok (affectedRows calls)

/-- A call that succeeds adds the rows that it affected. -/
theorem outcomeOf_cons {call : Call} {calls : List Call} (h : call.failure? = none) :
    outcomeOf (call :: calls) = (outcomeOf calls).map ((call.affected?.getD 0) + ·) := by
  rw [outcomeOf, outcomeOf, List.findSome?_cons, h]
  cases calls.findSome? Call.failure? with
  | some e => rfl
  | none =>
    rw [affectedRows, affectedRows, List.filterMap_cons]
    cases call.affected? with
    | none => simp [Except.map]
    | some rows => simp [Except.map]

/-- A call that succeeds and affects no rows does not count. -/
theorem outcomeOf_cons_of_plain {call : Call} {calls : List Call} (h : call.failure? = none)
    (hrows : call.affected? = none) : outcomeOf (call :: calls) = outcomeOf calls := by
  rw [outcomeOf_cons h, hrows]
  cases outcomeOf calls <;> simp [Except.map]

/-- The calls after a failure do not count. -/
theorem outcomeOf_append_of_failure {calls : List Call} {e : SqlError}
    (h : calls.findSome? Call.failure? = some e) (rest : List Call) :
    outcomeOf (calls ++ rest) = .error e := by
  rw [outcomeOf, List.findSome?_append, h]
  rfl

/-- A last call that affects no rows only counts if it fails. -/
theorem outcomeOf_concat {calls : List Call} {call : Call}
    (h : calls.findSome? Call.failure? = none) (hrows : call.affected? = none) :
    outcomeOf (calls ++ [call]) = match call.failure? with
      | some e => .error e
      | none => .ok (affectedRows calls) := by
  rw [outcomeOf, List.findSome?_append, h, affectedRows, List.filterMap_append,
    List.filterMap_cons, hrows]
  cases hfail : call.failure? with
  | some e => simp [hfail]
  | none => simp [hfail, affectedRows]

/-! ### Calls -/

section Engine

variable {β : Type} [Engine β]

/-- From the first engine to the second, the statements are executed in order up to the first that
fails. -/
inductive Executes : β → List Statement → List Call → β → Prop where
  | done (b : β) : Executes b [] [] b
  | next {b b' : β} {s : Statement} {ss : List Statement} {rows : UInt64} {calls : List Call} :
    (Engine.execute s b).outcome = .ok rows → Executes (Engine.execute s b).engine ss calls b' →
    Executes b (s :: ss) (.execute s (.ok rows) (Engine.execute s b).arrivals :: calls) b'
  | stop {b : β} {s : Statement} {ss : List Statement} {e : SqlError} :
    (Engine.execute s b).outcome = .error e →
    Executes b (s :: ss) [.execute s (.error e) (Engine.execute s b).arrivals]
      (Engine.execute s b).engine

/-- From the first engine to the second, the statements are sent. -/
inductive Sends (settings : Settings) : β → List Statement → List Call → β → Prop where
  | plain {b b' : β} {ss : List Statement} {calls : List Call} :
    settings.transactional = false → Executes b ss calls b' → Sends settings b ss calls b'
  | notOpened {b b' : β} {ss : List Statement} {e : SqlError} :
    settings.transactional = true → Engine.openTransaction settings.isolation b = (.error e, b') →
    Sends settings b ss [.openTransaction settings.isolation (.error e)] b'
  | committed {b b₁ b₂ b' : β} {ss : List Statement} {calls : List Call}
    {outcome : Except SqlError Unit} :
    settings.transactional = true → Engine.openTransaction settings.isolation b = (.ok (), b₁) →
    Executes b₁ ss calls b₂ → calls.findSome? Call.failure? = none →
    Engine.commit b₂ = (outcome, b') →
    Sends settings b ss
      (.openTransaction settings.isolation (.ok ()) :: calls ++ [.commit outcome]) b'
  | rolledBack {b b₁ b₂ b' : β} {ss : List Statement} {calls : List Call} {e : SqlError}
    {outcome : Except SqlError Unit} :
    settings.transactional = true → Engine.openTransaction settings.isolation b = (.ok (), b₁) →
    Executes b₁ ss calls b₂ → calls.findSome? Call.failure? = some e →
    Engine.rollback b₂ = (outcome, b') →
    Sends settings b ss
      (.openTransaction settings.isolation (.ok ()) :: calls ++ [.rollback outcome]) b'

end Engine

/-! ### Running sessions -/

namespace Session

variable {β α : Type}

/-- The outcome of a program with the journal that it leaves. -/
def result (program : Session β α) (j : Journal β) : Except SqlError α × Journal β :=
  match program j with
  | .ok a j => (.ok a, j)
  | .error e j => (.error e, j)

theorem result_bind (p : Session β α) {γ : Type} (f : α → Session β γ) (j : Journal β) :
    (p >>= f).result j = match p.result j with
      | (.ok a, j) => (f a).result j
      | (.error e, j) => (.error e, j) := by
  simp only [result, bind, EStateM.bind]
  cases p j <;> rfl

theorem result_record (call : Call) (outcome : Except SqlError α) (engine : β) (j : Journal β) :
    (record call outcome engine).result j = (outcome, ⟨engine, j.calls ++ [call]⟩) := by
  cases outcome <;> rfl

variable [Engine β]

theorem result_execute (s : Statement) (j : Journal β) :
    (execute s).result j = ((Engine.execute s j.engine).outcome,
      ⟨(Engine.execute s j.engine).engine, j.calls ++ [.execute s (Engine.execute s j.engine).outcome
        (Engine.execute s j.engine).arrivals]⟩) :=
  result_record _ _ _ j

theorem result_openTransaction (isolation : Isolation) (j : Journal β) :
    (openTransaction isolation).result j = ((Engine.openTransaction isolation j.engine).1,
      ⟨(Engine.openTransaction isolation j.engine).2,
        j.calls ++ [.openTransaction isolation (Engine.openTransaction isolation j.engine).1]⟩) :=
  result_record _ _ _ j

theorem result_commit (j : Journal β) :
    (commit : Session β Unit).result j = ((Engine.commit j.engine).1,
      ⟨(Engine.commit j.engine).2, j.calls ++ [.commit (Engine.commit j.engine).1]⟩) :=
  result_record _ _ _ j

theorem result_rollback (j : Journal β) :
    (rollback : Session β Unit).result j = ((Engine.rollback j.engine).1,
      ⟨(Engine.rollback j.engine).2, j.calls ++ [.rollback (Engine.rollback j.engine).1]⟩) :=
  result_record _ _ _ j

/-- What executing statements in order comes to. -/
theorem result_executeAll (ss : List Statement) (j : Journal β) :
    ∃ calls b', Executes j.engine ss calls b' ∧
      (executeAll ss).result j = (outcomeOf calls, ⟨b', j.calls ++ calls⟩) := by
  induction ss generalizing j with
  | nil =>
    refine ⟨[], j.engine, .done _, ?_⟩
    rw [List.append_nil]
    rfl
  | cons s ss ih =>
    rw [executeAll, result_bind, result_execute]
    cases houtcome : (Engine.execute s j.engine).outcome with
    | error e => exact ⟨_, _, .stop houtcome, rfl⟩
    | ok rows =>
      dsimp only
      obtain ⟨calls, b', hexecutes, hresult⟩ := ih ⟨(Engine.execute s j.engine).engine,
        j.calls ++ [.execute s (.ok rows) (Engine.execute s j.engine).arrivals]⟩
      refine ⟨_, b', .next houtcome hexecutes, ?_⟩
      rw [result_bind, hresult, outcomeOf_cons rfl, List.append_assoc, List.singleton_append]
      cases outcomeOf calls <;> rfl

/-- Executing statements in an open transaction and closing it. -/
theorem result_sendAndClose (ss : List Statement) (j : Journal β) :
    (sendAndClose ss).result j = match (executeAll ss).result j with
      | (.ok rows, j) => match (commit : Session β Unit).result j with
        | (.ok _, j) => (.ok rows, j)
        | (.error e, j) => (.error e, j)
      | (.error e, j) => (.error e, ((rollback : Session β Unit).result j).2) := by
  simp only [result, sendAndClose]
  cases executeAll ss j with
  | ok rows j =>
    dsimp only
    cases (commit : Session β Unit) j <;> rfl
  | error e j =>
    dsimp only
    cases (rollback : Session β Unit) j <;> rfl

/-- **What sending comes to.** -/
theorem result_send (settings : Settings) (ss : List Statement) (j : Journal β) :
    ∃ calls b', Sends settings j.engine ss calls b' ∧
      (send settings ss).result j = (outcomeOf calls, ⟨b', j.calls ++ calls⟩) := by
  rw [send]
  cases htx : settings.transactional with
  | false =>
    obtain ⟨calls, b', hexecutes, hresult⟩ := result_executeAll ss j
    exact ⟨calls, b', .plain htx hexecutes, hresult⟩
  | true =>
    rw [if_pos rfl, result_bind, result_openTransaction]
    obtain ⟨opened, b₁, hopen⟩ : ∃ opened b₁,
        Engine.openTransaction settings.isolation j.engine = (opened, b₁) := ⟨_, _, rfl⟩
    rw [hopen]
    cases opened with
    | error e => exact ⟨_, b₁, .notOpened htx hopen, rfl⟩
    | ok u =>
      dsimp only
      obtain ⟨calls, b₂, hexecutes, hresult⟩ := result_executeAll ss
        ⟨b₁, j.calls ++ [.openTransaction settings.isolation (.ok ())]⟩
      rw [result_sendAndClose, hresult]
      cases hfailure : calls.findSome? Call.failure? with
      | none =>
        obtain ⟨outcome, b', hcommit⟩ : ∃ outcome b', Engine.commit b₂ = (outcome, b') :=
          ⟨_, _, rfl⟩
        -- nothing failed so far, so the commit decides
        refine ⟨_, b', .committed htx hopen hexecutes hfailure hcommit, ?_⟩
        rw [List.cons_append, outcomeOf_cons_of_plain rfl rfl, outcomeOf_concat hfailure rfl,
          outcomeOf, hfailure]
        dsimp only
        rw [result_commit, hcommit]
        cases outcome <;> simp [Call.failure?]
      | some e =>
        obtain ⟨outcome, b', hrollback⟩ : ∃ outcome b', Engine.rollback b₂ = (outcome, b') :=
          ⟨_, _, rfl⟩
        -- the failure stays the outcome, whatever becomes of the rollback
        refine ⟨_, b', .rolledBack htx hopen hexecutes hfailure hrollback, ?_⟩
        rw [List.cons_append, outcomeOf_cons_of_plain rfl rfl,
          outcomeOf_append_of_failure hfailure, outcomeOf, hfailure]
        dsimp only
        rw [result_rollback, hrollback]
        simp

end Session

/-! ### Closing transactions -/

section Engine

variable {β : Type} [Engine β] {settings : Settings} {b b' : β} {ss : List Statement}
  {calls : List Call}

/-- Executing statements makes no other calls. -/
theorem Executes.eq_execute (h : Executes b ss calls b') {call : Call} (hcall : call ∈ calls) :
    ∃ s outcome arrivals, call = .execute s outcome arrivals := by
  induction h with
  | done b => cases hcall
  | next hrows hrest ih =>
    obtain rfl | hrest := List.mem_cons.mp hcall
    · exact ⟨_, _, _, rfl⟩
    · exact ih hrest
  | stop hfailure =>
    obtain rfl := List.mem_singleton.mp hcall
    exact ⟨_, _, _, rfl⟩

/-- The calls of a transaction: what opens it, executions, and what closes it. -/
theorem Executes.mem_transaction (h : Executes b ss calls b') {first last call : Call}
    (hcall : call ∈ first :: calls ++ [last]) :
    call = first ∨ call = last ∨ ∃ s outcome arrivals, call = .execute s outcome arrivals := by
  obtain hfront | hlast := List.mem_append.mp hcall
  · obtain rfl | hcalls := List.mem_cons.mp hfront
    · exact .inl rfl
    · exact .inr (.inr (h.eq_execute hcalls))
  · exact .inr (.inl (List.mem_singleton.mp hlast))

/-- A transaction was opened. -/
def WasOpened (calls : List Call) : Prop :=
  ∃ isolation, .openTransaction isolation (.ok ()) ∈ calls

/-- A commit succeeded. -/
def WasCommitted (calls : List Call) : Prop :=
  .commit (.ok ()) ∈ calls

/-- A rollback was asked for. -/
def WasRolledBack (calls : List Call) : Prop :=
  ∃ outcome, .rollback outcome ∈ calls

/-- A commit failed. -/
def CommitFailed (calls : List Call) : Prop :=
  ∃ e, .commit (.error e) ∈ calls

/-- In a transaction that ends with a commit, no rollback is asked for. -/
theorem Executes.closed_by_commit (h : Executes b ss calls b') (isolation : Isolation)
    (outcome : Except SqlError Unit) :
    let all := .openTransaction isolation (.ok ()) :: calls ++ [.commit outcome]
    (WasCommitted all ↔ outcome = .ok ()) ∧ ¬ WasRolledBack all ∧
      (CommitFailed all ↔ ∃ e, outcome = .error e) := by
  intro all
  have hlast : Call.commit outcome ∈ all := List.mem_append_right _ List.mem_cons_self
  refine ⟨⟨fun hmem => ?_, ?_⟩, ?_, ⟨?_, ?_⟩⟩
  · obtain heq | heq | ⟨_, _, _, heq⟩ := h.mem_transaction hmem <;> cases heq
    rfl
  · rintro rfl
    exact hlast
  · rintro ⟨_, hmem⟩
    obtain heq | heq | ⟨_, _, _, heq⟩ := h.mem_transaction hmem <;> cases heq
  · rintro ⟨e, hmem⟩
    obtain heq | heq | ⟨_, _, _, heq⟩ := h.mem_transaction hmem <;> cases heq
    exact ⟨e, rfl⟩
  · rintro ⟨e, rfl⟩
    exact ⟨e, hlast⟩

/-- In a transaction that ends with a rollback, nothing is committed. -/
theorem Executes.closed_by_rollback (h : Executes b ss calls b') (isolation : Isolation)
    (outcome : Except SqlError Unit) :
    let all := .openTransaction isolation (.ok ()) :: calls ++ [.rollback outcome]
    ¬ WasCommitted all ∧ WasRolledBack all ∧ ¬ CommitFailed all := by
  intro all
  refine ⟨fun hmem => ?_, ⟨outcome, List.mem_append_right _ List.mem_cons_self⟩, ?_⟩
  · obtain heq | heq | ⟨_, _, _, heq⟩ := h.mem_transaction hmem <;> cases heq
  · rintro ⟨e, hmem⟩
    obtain heq | heq | ⟨_, _, _, heq⟩ := h.mem_transaction hmem <;> cases heq

/-- **A transaction that was opened is closed** by a successful commit or by a rollback, and not
by both, unless it is the commit that fails. -/
theorem Sends.closed_iff (h : Sends settings b ss calls b') (hopen : WasOpened calls) :
    Xor (WasCommitted calls) (WasRolledBack calls) ↔ ¬ CommitFailed calls := by
  obtain ⟨isolation, hmem⟩ := hopen
  cases h with
  | plain _ hexecutes =>
    obtain ⟨_, _, _, heq⟩ := hexecutes.eq_execute hmem
    cases heq
  | notOpened _ _ => cases List.mem_singleton.mp hmem
  -- no rollback is asked for, so it is the commit that has to close the transaction
  | @committed _ _ _ _ _ outcome _ _ hexecutes _ _ =>
    obtain ⟨hcommitted, hrolled, hfailed⟩ := hexecutes.closed_by_commit settings.isolation outcome
    rw [hcommitted, hfailed]
    cases outcome with
    | ok u => exact iff_of_true (.inl ⟨rfl, hrolled⟩) nofun
    | error e =>
      refine iff_of_false ?_ fun hno => hno ⟨e, rfl⟩
      rintro (⟨hok, -⟩ | ⟨hrolled', -⟩)
      · cases hok
      · exact hrolled hrolled'
  | @rolledBack _ _ _ _ _ _ outcome _ _ hexecutes _ _ =>
    obtain ⟨hcommitted, hrolled, hfailed⟩ := hexecutes.closed_by_rollback settings.isolation outcome
    exact iff_of_true (.inr ⟨hrolled, hcommitted⟩) hfailed

/-- Sending that committed succeeded. -/
theorem Sends.outcomeOf_of_committed (h : Sends settings b ss calls b')
    (hcommit : WasCommitted calls) : ∃ rows, outcomeOf calls = .ok rows := by
  cases h with
  | plain _ hexecutes =>
    obtain ⟨_, _, _, heq⟩ := hexecutes.eq_execute hcommit
    cases heq
  | notOpened _ _ => cases List.mem_singleton.mp hcommit
  | @committed _ _ _ _ _ outcome _ _ hexecutes hfailure _ =>
    obtain ⟨hcommitted, -⟩ := hexecutes.closed_by_commit settings.isolation outcome
    obtain rfl := hcommitted.mp hcommit
    rw [List.cons_append, outcomeOf_cons_of_plain rfl rfl, outcomeOf_concat hfailure rfl]
    exact ⟨_, rfl⟩
  | @rolledBack _ _ _ _ _ _ outcome _ _ hexecutes _ _ =>
    exact absurd hcommit (hexecutes.closed_by_rollback settings.isolation outcome).1

/-! ### Executed statements -/

/-- The statement that a call executed. -/
def Call.executed? : Call → Option Statement
  | .execute s (.ok _) _ => some s
  | _ => none

/-- If no execution fails, all statements are executed. -/
theorem Executes.executed (h : Executes b ss calls b')
    (hnone : calls.findSome? Call.failure? = none) : calls.filterMap Call.executed? = ss := by
  induction h with
  | done b => rfl
  | next hrows hrest ih =>
    have htail := ih hnone
    rw [List.filterMap_cons, htail]
    rfl
  | stop hfailure => cases hnone

/-- **Sending that succeeds executed all statements**, and committed them if the settings ask for
a transaction. -/
theorem Sends.executed_of_ok (h : Sends settings b ss calls b') {rows : UInt64}
    (hrows : outcomeOf calls = .ok rows) :
    calls.filterMap Call.executed? = ss ∧
      (settings.transactional = true → WasCommitted calls) := by
  have hnone : calls.findSome? Call.failure? = none := by
    rw [outcomeOf] at hrows
    split at hrows
    · cases hrows
    · assumption
  cases h with
  | plain htx hexecutes => exact ⟨hexecutes.executed hnone, fun htrue => by simp [htx] at htrue⟩
  | notOpened _ _ => cases hnone
  | @committed _ _ _ _ calls outcome _ _ hexecutes hfailure _ =>
    rw [List.cons_append, List.findSome?_cons_of_isNone rfl, List.findSome?_append, hfailure,
      Option.none_or] at hnone
    cases outcome with
    | error e => cases hnone
    | ok u =>
      refine ⟨?_, fun _ => List.mem_append_right _ List.mem_cons_self⟩
      rw [List.cons_append, List.filterMap_cons_none rfl, List.filterMap_append,
        hexecutes.executed hfailure]
      exact List.append_nil _
  | rolledBack _ _ _ hfailure _ =>
    rw [List.cons_append, List.findSome?_cons_of_isNone rfl, List.findSome?_append, hfailure]
      at hnone
    cases hnone

end Engine

end EntitySql
