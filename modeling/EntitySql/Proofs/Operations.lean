import EntitySql.Proofs.Saving

/-!
# Operations of a unit of work

What the operations of a unit of work do when they come one after another. `Performs` lists the
five things that may happen, and the main statement, `perform_after`, says that in every run each
operation does one of them.

Between operations the state is settled (`Pending.IsSettled`): the phase says whether something is
queued, and the next index is the number of queued mutations. This is what a single operation
preserves (`perform_settled`), and what carries the induction over a run.
-/

namespace EntitySql

/-! ### Queueing -/

/-- The queued form of a mutation under an index. -/
def Mutation.compile (dialect : Dialect) (index : Nat) (m : Mutation) : Except SqlError Queued := do
  let statement ← m.statement dialect index
  let table ← mappedTable m.entity
  return ⟨⟨table, m.verb⟩, statement⟩

namespace Pending

theorem add_eq (dialect : Dialect) (m : Mutation) (p : Pending) :
    p.add dialect m = (m.compile dialect p.nextIndex).map p.append := by
  rw [add, Mutation.compile]
  cases m.statement dialect p.nextIndex with
  | error e => rfl
  | ok statement => cases mappedTable m.entity <;> rfl

/-- Nothing is under way: the phase says whether something is queued, and the next index is the
number of queued mutations. -/
structure IsSettled (p : Pending) : Prop where
  phase : p.phase = if p.queued = [] then .idle else .accumulating
  nextIndex : p.nextIndex = p.queued.length

theorem isSettled_empty : IsSettled {} :=
  ⟨rfl, rfl⟩

/-- A mutation is queued in a settled state under its place in the queue. -/
theorem IsSettled.append {p : Pending} (h : p.IsSettled) (q : Queued) :
    p.append q = { phase := .accumulating, nextIndex := p.queued.length + 1,
                   queued := p.queued ++ [q] } := by
  have hphase : (if p.phase = .idle then Phase.accumulating else p.phase) = .accumulating := by
    rw [h.phase]
    split <;> simp_all
  rw [Pending.append, hphase, h.nextIndex]

theorem isSettled_accumulating (queued : List Queued) (q : Queued) :
    IsSettled { phase := .accumulating, nextIndex := queued.length + 1,
                queued := queued ++ [q] } where
  phase := by simp
  nextIndex := by simp

end Pending

/-! ### Operations -/

/-- An operation that changes a unit of work. -/
inductive Operation where
  | mutate (m : Mutation)
  | save

namespace UnitOfWork

section Operations

variable {β : Type} [Engine β]

/-- Performs an operation. -/
def perform (u : UnitOfWork) : Operation → Step β UInt64
  | .mutate m => u.mutate m
  | .save => u.save

/-- The state after operations, one after another. -/
def after (u : UnitOfWork) (ops : List Operation) (w : WorkState β) : WorkState β :=
  ops.foldl (fun w op => (u.perform op w).2) w

/-- What an operation may do to a settled state, with its outcome.

* `refused`: a mutation has no statement, and nothing happens;
* `queued`: a mutation is appended under its place in the queue;
* `idle`: there is nothing to save;
* `saved`: the queue is sent;
* `sent`: a mutation is appended, and the queue is sent at once. -/
inductive Performs (u : UnitOfWork) (w : WorkState β) :
    Operation → Except SqlError UInt64 × WorkState β → Prop where
  | refused {m : Mutation} {e : SqlError} :
    m.compile u.dialect w.pending.queued.length = .error e →
    Performs u w (.mutate m) (.error e, w)
  | queued {m : Mutation} {q : Queued} :
    u.settings.merging = true → m.compile u.dialect w.pending.queued.length = .ok q →
    Performs u w (.mutate m) (.ok 0, { w with
      pending := { phase := .accumulating, nextIndex := w.pending.queued.length + 1,
                   queued := w.pending.queued ++ [q] } })
  | idle : w.pending.queued = [] → Performs u w .save (.ok 0, w)
  | saved {calls : List Call} {b : β} :
    w.pending.queued ≠ [] →
    Sends u.settings w.engine (w.pending.queued.map (·.statement)) calls b →
    Performs u w .save ((outcomeOf calls).mapError .flush,
      { engine := b, pending := {}, trace := w.trace ++ calls.map .call })
  | sent {m : Mutation} {q : Queued} {calls : List Call} {b : β} :
    u.settings.merging = false → m.compile u.dialect w.pending.queued.length = .ok q →
    Sends u.settings w.engine ((w.pending.queued ++ [q]).map (·.statement)) calls b →
    Performs u w (.mutate m) ((outcomeOf calls).mapError .flush,
      { engine := b, pending := {}, trace := w.trace ++ calls.map .call })

variable {u : UnitOfWork} {w : WorkState β}

/-- Nobody else was active while statements executed. -/
def IsQuiet (w : WorkState β) : Prop :=
  ∀ call ∈ callsOf w.trace, arrivals call = []

/-! ### Single operations -/

/-- The trace of an operation starts with what was there before. -/
theorem perform_trace (op : Operation) (w : WorkState β) :
    ∃ events, (u.perform op w).2.trace = w.trace ++ events := by
  have hsave : ∀ w : WorkState β, ∃ events, (u.save w).2.trace = w.trace ++ events := by
    intro w
    by_cases h : w.pending.queued = []
    · exact ⟨[], by rw [u.save_of_empty w h, List.append_nil]⟩
    · obtain ⟨calls, b, -, hsave⟩ := u.save_eq w h
      exact ⟨_, by rw [hsave]⟩
  cases op with
  | save => exact hsave w
  | mutate m =>
    rw [perform, mutate]
    split
    · exact ⟨[], (List.append_nil _).symm⟩
    · split
      · exact ⟨[], (List.append_nil _).symm⟩
      · exact hsave _

omit [Engine β] in
theorem IsQuiet.of_append {w' : WorkState β} {events : List Event} (h : IsQuiet w')
    (htrace : w'.trace = w.trace ++ events) : IsQuiet w := by
  intro call hcall
  refine h call ?_
  rw [htrace, callsOf, List.filterMap_append]
  exact List.mem_append_left _ hcall

/-- A save of a queue while nobody else is active sends the queue and empties it. -/
theorem save_quiet (h : w.pending.queued ≠ []) (hquiet : IsQuiet (u.save w).2) :
    ∃ calls b, Sends u.settings w.engine (w.pending.queued.map (·.statement)) calls b ∧
      u.save w = ((outcomeOf calls).mapError .flush,
        { engine := b, pending := {}, trace := w.trace ++ calls.map .call }) := by
  obtain ⟨calls, b, hsends, hsave⟩ := u.save_eq w h
  have hcalls : ∀ call ∈ calls, arrivals call = [] := by
    intro call hcall
    refine hquiet call ?_
    rw [hsave, callsOf, List.filterMap_append]
    refine List.mem_append_right _ ?_
    have habsorb := u.callsOf_absorb taken calls
    rw [callsOf] at habsorb
    rwa [habsorb]
  refine ⟨calls, b, hsends, ?_⟩
  rw [hsave, u.absorb_of_quiet taken hcalls]
  rfl

/-- In a settled state an operation does one of the five things, if nobody else is active. -/
theorem perform_settled (h : w.pending.IsSettled) (op : Operation)
    (hquiet : IsQuiet (u.perform op w).2) : Performs u w op (u.perform op w) := by
  cases op with
  | save =>
    by_cases hempty : w.pending.queued = []
    · rw [perform, u.save_of_empty w hempty]
      exact .idle hempty
    · obtain ⟨calls, b, hsends, hsave⟩ := save_quiet hempty hquiet
      rw [perform, hsave]
      exact .saved hempty hsends
  | mutate m =>
    have hadd := Pending.add_eq u.dialect m w.pending
    rw [h.nextIndex] at hadd
    rw [perform, mutate] at hquiet ⊢
    cases hcompile : m.compile u.dialect w.pending.queued.length with
    | error e =>
      rw [hadd, hcompile]
      exact .refused hcompile
    | ok q =>
      -- the new state is the same whether the queue was empty or not
      have happend : w.pending.add u.dialect m = .ok
          { phase := .accumulating, nextIndex := w.pending.queued.length + 1,
            queued := w.pending.queued ++ [q] } := by
        rw [hadd, hcompile, Except.map, h.append]
      rw [happend] at hquiet ⊢
      cases hmerging : u.settings.merging with
      | true => exact .queued hmerging hcompile
      | false =>
        -- the queue that is sent at once ends with this mutation
        simp only [hmerging] at hquiet
        obtain ⟨calls, b, hsends, hsave⟩ := save_quiet (by simp) hquiet
        have hsent := Performs.sent hmerging hcompile hsends
        rw [← hsave] at hsent
        exact hsent

/-- An operation leaves a settled state. -/
theorem Performs.isSettled {op : Operation} {r : Except SqlError UInt64 × WorkState β}
    (hr : Performs u w op r) (h : w.pending.IsSettled) : r.2.pending.IsSettled := by
  cases hr with
  | refused _ => exact h
  | queued _ _ => exact Pending.isSettled_accumulating _ _
  | idle _ => exact h
  | saved _ _ => exact Pending.isSettled_empty
  | sent _ _ _ => exact Pending.isSettled_empty

/-! ### Affected rows -/

/-- The sum of the rows that calls affected, as a number. -/
def affectedTotal (calls : List Call) : Nat :=
  ((calls.filterMap Call.affected?).map UInt64.toNat).foldr (· + ·) 0

omit [Engine β] in
/-- The sum is exact if it fits a word. -/
theorem toNat_affectedRows {calls : List Call} (h : affectedTotal calls < wordCount) :
    (affectedRows calls).toNat = affectedTotal calls := by
  rw [affectedTotal] at h ⊢
  rw [affectedRows]
  generalize calls.filterMap Call.affected? = counts at h ⊢
  induction counts with
  | nil => rfl
  | cons rows rest ih =>
    rw [List.map_cons, List.foldr_cons] at h ⊢
    have hrest : (rest.foldr (· + ·) 0).toNat = (rest.map UInt64.toNat).foldr (· + ·) 0 :=
      ih (by omega)
    rw [List.foldr_cons, UInt64.toNat_add, hrest]
    exact Nat.mod_eq_of_lt h

/-- The rows that an operation reports are those that its calls affected. -/
theorem Performs.rows {op : Operation} {r : Except SqlError UInt64 × WorkState β} {rows : UInt64}
    (hr : Performs u w op r) (hrows : r.1 = .ok rows) :
    ∃ calls, r.2.trace = w.trace ++ calls.map .call ∧
      calls.findSome? Call.failure? = none ∧ rows = affectedRows calls := by
  have hsent : ∀ {calls : List Call}, (outcomeOf calls).mapError SqlError.flush = .ok rows →
      calls.findSome? Call.failure? = none ∧ rows = affectedRows calls := by
    intro calls houtcome
    rw [outcomeOf] at houtcome
    cases hfailure : calls.findSome? Call.failure? with
    | some e =>
      rw [hfailure] at houtcome
      cases houtcome
    | none =>
      rw [hfailure] at houtcome
      cases houtcome
      exact ⟨rfl, rfl⟩
  have hnothing : ∃ calls : List Call, w.trace = w.trace ++ calls.map .call ∧
      calls.findSome? Call.failure? = none ∧ (0 : UInt64) = affectedRows calls :=
    ⟨[], (List.append_nil _).symm, rfl, rfl⟩
  cases hr with
  | refused _ => cases hrows
  | queued _ _ =>
    cases hrows
    exact hnothing
  | idle _ =>
    cases hrows
    exact hnothing
  | saved _ _ => exact ⟨_, rfl, hsent hrows⟩
  | sent _ _ _ => exact ⟨_, rfl, hsent hrows⟩

/-! ### Runs -/

theorem after_trace (ops : List Operation) (w : WorkState β) :
    ∃ events, (u.after ops w).trace = w.trace ++ events := by
  induction ops generalizing w with
  | nil => exact ⟨[], (List.append_nil _).symm⟩
  | cons op ops ih =>
    obtain ⟨first, hfirst⟩ := u.perform_trace op w
    obtain ⟨rest, hrest⟩ := ih (u.perform op w).2
    exact ⟨first ++ rest, by rw [← List.append_assoc, ← hfirst]; exact hrest⟩

/-- A run during which nobody else is active leads from settled states to settled states. -/
theorem after_settled (ops : List Operation) (h : w.pending.IsSettled)
    (hquiet : IsQuiet (u.after ops w)) : (u.after ops w).pending.IsSettled := by
  induction ops generalizing w with
  | nil => exact h
  | cons op ops ih =>
    obtain ⟨events, htrace⟩ := u.after_trace ops (u.perform op w).2
    -- the first operation of a quiet run is quiet, as its trace is the start of the whole one
    have hstep := perform_settled h op (hquiet.of_append htrace)
    exact ih (hstep.isSettled h) hquiet

/-- **Operations one after another.** After any operations on a new unit of work, with nobody else
active, the state is settled and the next operation does one of the five things. The rows that it
reports are the sum of the rows that its calls affected, if this sum fits a word. -/
theorem perform_after (u : UnitOfWork) (b : β) (ops : List Operation) (op : Operation)
    (hquiet : IsQuiet (u.perform op (u.after ops { engine := b })).2) :
    let w := u.after ops { engine := b }
    w.pending.IsSettled ∧ Performs u w op (u.perform op w) ∧
      ∀ rows, (u.perform op w).1 = .ok rows →
        ∃ calls, (u.perform op w).2.trace = w.trace ++ calls.map .call ∧
          (affectedTotal calls < wordCount → rows.toNat = affectedTotal calls) := by
  intro w
  obtain ⟨events, htrace⟩ := u.perform_trace op w
  have hsettled : w.pending.IsSettled :=
    after_settled ops Pending.isSettled_empty (hquiet.of_append htrace)
  have hstep := perform_settled hsettled op hquiet
  refine ⟨hsettled, hstep, fun rows hrows => ?_⟩
  obtain ⟨calls, hcalls, -, rfl⟩ := hstep.rows hrows
  exact ⟨calls, hcalls, toNat_affectedRows⟩

end Operations

end UnitOfWork

/-- A state in which two deletes are pending. -/
def twoDeletes : WorkState Script :=
  defaultUnit.after [.mutate deleteUser, .mutate deleteUser] { engine := {} }

/-- Two deletes have slots of their own, and one save sends both. -/
theorem perform_after_twoDeletes :
    twoDeletes.pending.queued.map (fun q => q.statement.sql)
        = ["DELETE FROM [Members_User] WHERE [ID] = @p0_ID",
          "DELETE FROM [Members_User] WHERE [ID] = @p1_ID"] ∧
      defaultUnit.Performs twoDeletes .save (defaultUnit.perform .save twoDeletes) ∧
      (defaultUnit.perform .save twoDeletes).1 = .ok 2 := by
  have hall : (callsOf (defaultUnit.perform .save twoDeletes).2.trace).all
      (fun call => (UnitOfWork.arrivals call).isEmpty) = true := rfl
  have hquiet : UnitOfWork.IsQuiet (defaultUnit.perform .save twoDeletes).2 := fun call hcall =>
    List.isEmpty_iff.mp (List.all_eq_true.mp hall call hcall)
  have hperform := UnitOfWork.perform_after defaultUnit ({} : Script)
    [.mutate deleteUser, .mutate deleteUser] .save hquiet
  exact ⟨rfl, hperform.2.1, rfl⟩

end EntitySql
