import EntitySql.Proofs.SharedWork

/-!
# Answers of shared units of work

What the answer to a mutation says about its statement when mutations are saved at once and
clients share the unit of work. A statement is done when it was executed, and committed if saves
are transactions (`SharedWork.IsDone`).

When a call ends, its statement has left the queue, but it may be another client that took it: the
statement is done if the call succeeds and has taken it itself (`SharedWork.run_answered`). A call
that finds the queue empty succeeds without sending anything, and what becomes of its statement is
open. Another client's save may still fail, as `answered_before_failure` shows.

The fact that carries the induction over a run is that calls that were made for a batch stay
(`SharedWork.Keeps`).
-/

namespace EntitySql

namespace SharedWork

variable {κ β : Type}

/-! ### Statements in batches -/

/-- A save has taken the statement. -/
def IsTaken (w : SharedWork κ β) (ticket : Ticket) : Prop :=
  ∃ (i : Nat) (b : Batch), w.batches[i]? = some b ∧ ticket ∈ b.tickets

/-- The statement was executed, as the one at its place in a batch, and it was committed if saves
are transactions. -/
def IsDone (u : UnitOfWork) (w : SharedWork κ β) (ticket : Ticket) : Prop :=
  ∃ b ∈ w.batches, ∃ calls, b.calls = some calls ∧
    (∃ (k : Nat) (q : Queued), b.tickets[k]? = some ticket ∧
      ticket.mutation.compile u.dialect k = .ok q ∧
      (calls.filterMap Call.executed?)[k]? = some q.statement) ∧
    (u.settings.transactional = true → WasCommitted calls)

/-- Everything that is not pending was taken. -/
theorem Accounted.isTaken {u : UnitOfWork} {w : SharedWork κ β} (h : Accounted u w)
    (hempty : w.pending.queued = []) {ticket : Ticket} (hticket : ticket ∈ w.issued) :
    w.IsTaken ticket := by
  have hwaiting : w.waiting = [] := by
    simpa [IsQueueOf, hempty] using h.queue
  rw [← h.placed, hwaiting, List.append_nil] at hticket
  obtain ⟨b, hb, hmem⟩ := List.mem_flatMap.mp hticket
  obtain ⟨i, hi⟩ := List.mem_iff_getElem?.mp hb
  exact ⟨i, b, hi, hmem⟩

/-! ### What stays -/

/-- Nothing that was issued or taken is forgotten, and calls that were made for a batch stay. -/
structure Keeps (w w' : SharedWork κ β) : Prop where
  issued : ∀ ticket ∈ w.issued, ticket ∈ w'.issued
  taken : ∀ ticket, w.IsTaken ticket → w'.IsTaken ticket
  sent : ∀ (i : Nat) (b : Batch), w.batches[i]? = some b → b.calls ≠ none →
    w'.batches[i]? = some b

theorem Keeps.of_eq {w w' : SharedWork κ β} (hissued : w'.issued = w.issued)
    (hbatches : w'.batches = w.batches) : Keeps w w' where
  issued := fun _ h => hissued ▸ h
  taken := fun _ h => by rwa [IsTaken, hbatches]
  sent := fun _ _ h _ => hbatches ▸ h

theorem keeps_enter (w : SharedWork κ β) (m : Mutation) (pending : Pending) :
    Keeps w (w.enter m pending) where
  issued := fun _ h => List.mem_append_left _ h
  taken := fun _ h => h
  sent := fun _ _ h _ => h

theorem keeps_leave (w : SharedWork κ β) (statements : List Statement) (pending : Pending) :
    Keeps w (w.leave statements pending) := by
  have hbatch : ∀ i b, w.batches[i]? = some b →
      (w.batches ++ [{ tickets := w.waiting, statements }])[i]? = some b := fun i b hb => by
    rw [List.getElem?_append_left (List.getElem?_eq_some_iff.mp hb).1, hb]
  refine ⟨fun _ h => h, ?_, fun i b hb _ => hbatch i b hb⟩
  rintro ticket ⟨i, b, hb, hticket⟩
  exact ⟨i, b, hbatch i b hb, hticket⟩

/-- Only a batch without calls gets calls. -/
theorem keeps_sent {w : SharedWork κ β} {i : Nat} {b : Batch} (hb : w.batches[i]? = some b)
    (hcalls : b.calls = none) (calls : List Call) (engine : β) :
    Keeps w (w.sent i b calls engine) := by
  refine ⟨fun _ h => h, ?_, ?_⟩
  · rintro ticket ⟨j, b', hb', hticket⟩
    by_cases hj : i = j
    · subst hj
      obtain rfl := Option.some.inj (hb.symm.trans hb')
      exact ⟨i, { b with calls := some calls },
        List.getElem?_set_self (List.getElem?_eq_some_iff.mp hb).1, hticket⟩
    · exact ⟨j, b', (List.getElem?_set_ne hj).trans hb', hticket⟩
  · intro j b' hb' hsome
    have hj : i ≠ j := by
      rintro rfl
      obtain rfl := Option.some.inj (hb.symm.trans hb')
      exact hsome hcalls
    exact (List.getElem?_set_ne hj).trans hb'

/-! ### Records of outcomes -/

section Recorded

variable [Engine β] {u : UnitOfWork} {w w' : SharedWork κ β} {c : κ}

/-- The batch was sent, with this outcome. -/
def IsSent (u : UnitOfWork) (w : SharedWork κ β) (i : Nat) (outcome : Except SqlError UInt64) :
    Prop :=
  ∃ (b : Batch) (calls : List Call), w.batches[i]? = some b ∧ b.calls = some calls ∧
    outcome = outcomeOf calls ∧ ∃ e e' : β, Sends u.settings e b.statements calls e'

/-- What a client is doing agrees with what was issued, taken and sent. -/
def Activity.Agrees (u : UnitOfWork) (w : SharedWork κ β) : Activity → Prop
  | .resting => True
  | .saving ticket => ticket ∈ w.issued
  | .holding ticket _ => ∀ t ∈ ticket, w.IsTaken t
  | .settling ticket i outcome => (∀ t ∈ ticket, w.IsTaken t) ∧ IsSent u w i outcome

/-- An answer agrees with what was taken and sent. -/
structure Answer.Agrees (u : UnitOfWork) (w : SharedWork κ β) (a : Answer κ) : Prop where
  taken : ∀ t ∈ a.ticket, w.IsTaken t
  sent : ∀ i ∈ a.batch, ∃ outcome, IsSent u w i outcome ∧ a.outcome = outcome.mapError .flush

/-- What clients are doing and what they were answered agrees with the batches. -/
structure Recorded (u : UnitOfWork) (w : SharedWork κ β) : Prop where
  activity : ∀ c, Activity.Agrees u w (w.activity c)
  answers : ∀ a ∈ w.answers, Answer.Agrees u w a

theorem recorded_new (u : UnitOfWork) (b : β) :
    Recorded u ({ engine := b } : SharedWork κ β) where
  activity := fun _ => trivial
  answers := fun _ ha => absurd ha List.not_mem_nil

theorem IsSent.keep {i : Nat} {outcome : Except SqlError UInt64} (h : IsSent u w i outcome)
    (hkeeps : Keeps w w') : IsSent u w' i outcome := by
  obtain ⟨b, calls, hb, hcalls, hrest⟩ := h
  exact ⟨b, calls, hkeeps.sent i b hb (by simp [hcalls]), hcalls, hrest⟩

theorem Activity.Agrees.keep {a : Activity} (h : Activity.Agrees u w a) (hkeeps : Keeps w w') :
    Activity.Agrees u w' a := by
  cases a with
  | resting => trivial
  | saving ticket => exact hkeeps.issued ticket h
  | holding ticket i => exact fun t ht => hkeeps.taken t (h t ht)
  | settling ticket i outcome =>
    exact ⟨fun t ht => hkeeps.taken t (h.1 t ht), h.2.keep hkeeps⟩

theorem Answer.Agrees.keep {a : Answer κ} (h : Answer.Agrees u w a) (hkeeps : Keeps w w') :
    Answer.Agrees u w' a where
  taken := fun t ht => hkeeps.taken t (h.taken t ht)
  sent := fun i hi => by
    obtain ⟨outcome, hsent, houtcome⟩ := h.sent i hi
    exact ⟨outcome, hsent.keep hkeeps, houtcome⟩

variable [DecidableEq κ]

/-- A client goes on, in a state that keeps what was there. -/
theorem Recorded.turn (h : Recorded u w) (hkeeps : Keeps w w')
    (hactivity : w'.activity = w.activity) (hanswers : w'.answers = w.answers) {a : Activity}
    (ha : Activity.Agrees u w' a) : Recorded u (w'.turn c a) where
  activity := by
    intro x
    have hagrees : Activity.Agrees u w' ((w'.turn c a).activity x) := by
      rw [SharedWork.turn]
      dsimp only
      split
      · exact ha
      · rw [hactivity]
        exact (h.activity x).keep hkeeps
    exact hagrees.keep (.of_eq rfl rfl)
  answers := by
    intro answer hanswer
    rw [SharedWork.turn, hanswers] at hanswer
    exact ((h.answers answer hanswer).keep hkeeps).keep (.of_eq rfl rfl)

/-- A call ends, in a state that keeps what was there. -/
theorem Recorded.answer (h : Recorded u w) (hkeeps : Keeps w w')
    (hactivity : w'.activity = w.activity) (hanswers : w'.answers = w.answers)
    {ticket : Option Ticket} {batch : Option Nat} {outcome : Except SqlError UInt64}
    (ha : Answer.Agrees u w' (⟨c, ticket, batch, outcome⟩ : Answer κ)) :
    Recorded u (w'.answer c ticket batch outcome) := by
  have hturn := h.turn (c := c) hkeeps hactivity hanswers (a := .resting) trivial
  refine ⟨fun x => (hturn.activity x).keep (.of_eq rfl rfl), fun answer hanswer => ?_⟩
  obtain hold | hnew := List.mem_append.mp hanswer
  · rw [hanswers] at hold
    exact ((h.answers answer hold).keep hkeeps).keep (.of_eq rfl rfl)
  · obtain rfl := List.mem_singleton.mp hnew
    exact ha.keep (.of_eq rfl rfl)

/-- One section keeps the records, if mutations are saved at once. -/
theorem Does.recorded (hdoes : Does u w c w') (hmerging : u.settings.merging = false)
    (hcoherent : Coherent u w) (h : Recorded u w) : Recorded u w' := by
  cases hdoes with
  | refused _ _ =>
    refine h.answer (.of_eq rfl rfl) rfl rfl ⟨fun t ht => ?_, nofun⟩
    exact absurd ht (Option.not_mem_none t)
  | queued _ hmerged _ => simp [hmerging] at hmerged
  | @entered m q _ _ hcompile =>
    refine h.turn (keeps_enter w m _) rfl rfl ?_
    exact List.mem_append_right _ List.mem_cons_self
  | @idle ticket htaking hempty =>
    refine h.answer (.of_eq rfl rfl) rfl rfl ⟨?_, nofun⟩
    intro t ht
    obtain rfl := Option.mem_def.mp ht
    have hagrees := h.activity c
    have hactivity : w.activity c = .saving t := htaking
    rw [hactivity] at hagrees
    exact hcoherent.isTaken hempty hagrees
  | @taken ticket htaking hqueued =>
    refine h.turn (keeps_leave w _ _) rfl rfl ?_
    intro t ht
    obtain rfl := Option.mem_def.mp ht
    have hagrees := h.activity c
    have hactivity : w.activity c = .saving t := htaking
    rw [hactivity] at hagrees
    -- nothing is left in the queue, so the statement is in the batch or in an earlier one
    exact hcoherent.leave.isTaken rfl hagrees
  | @sent ticket i b calls b' hactivity hb hsends =>
    obtain ⟨b₀, hb₀, hcalls⟩ := hcoherent.holds c i ⟨ticket, hactivity⟩
    obtain rfl := Option.some.inj (hb.symm.trans hb₀)
    have hkeeps := keeps_sent hb hcalls calls b'
    have hagrees := h.activity c
    rw [hactivity] at hagrees
    refine h.turn hkeeps rfl rfl ⟨fun t ht => hkeeps.taken t (hagrees t ht), ?_⟩
    exact ⟨_, calls, List.getElem?_set_self (List.getElem?_eq_some_iff.mp hb).1, rfl, rfl,
      w.engine, b', hsends⟩
  | @settled ticket i outcome hactivity =>
    have hagrees := h.activity c
    rw [hactivity] at hagrees
    have hkeeps : Keeps w { w with pending := w.pending.settle } := .of_eq rfl rfl
    refine h.answer hkeeps rfl rfl ⟨fun t ht => hkeeps.taken t (hagrees.1 t ht), ?_⟩
    intro j hj
    obtain rfl := Option.mem_some_iff.mp hj
    exact ⟨outcome, hagrees.2.keep hkeeps, rfl⟩

end Recorded

/-! ### Answers -/

section Answers

variable [Engine β] {u : UnitOfWork} {w : SharedWork κ β}

/-- A batch whose sending succeeded is done. -/
theorem IsSent.isDone {i : Nat} {rows : UInt64} (h : IsSent u w i (.ok rows))
    (haccounted : Accounted u w) {b : Batch} (hb : w.batches[i]? = some b) {ticket : Ticket}
    (hticket : ticket ∈ b.tickets) : IsDone u w ticket := by
  obtain ⟨b', calls, hb', hcalls, houtcome, e, e', hsends⟩ := h
  obtain rfl := Option.some.inj (hb.symm.trans hb')
  obtain ⟨hexecuted, hcommitted⟩ := hsends.executed_of_ok houtcome.symm
  have hmem := List.mem_of_getElem? hb
  obtain ⟨queued, hqueue, hstatements⟩ := haccounted.batch b hmem
  obtain ⟨k, hk⟩ := List.mem_iff_getElem?.mp hticket
  -- the statement at a place of the batch is the one that the ticket at this place compiles to
  have hplace : some (ticket.mutation.compile u.dialect k) = (queued.map Except.ok)[k]? := by
    rw [← hqueue, List.getElem?_mapIdx, hk, Option.map_some]
  rw [List.getElem?_map] at hplace
  obtain ⟨q, hq, hcompile⟩ := Option.map_eq_some_iff.mp hplace.symm
  refine ⟨b, hmem, calls, hcalls, ⟨k, q, hk, hcompile.symm, ?_⟩, hcommitted⟩
  rw [hexecuted, hstatements, List.getElem?_map, hq, Option.map_some]

/-- **Answers to mutations that are saved at once.** In any run of any clients, a mutation that was
queued and answered is in a batch. If the call took this batch itself and succeeds, the statement
is done. -/
theorem run_answered [DecidableEq κ] (u : UnitOfWork) (b : β) {moves : List (κ × Section)}
    (hrun : run u moves { engine := b } = some w) (hmerging : u.settings.merging = false)
    {a : Answer κ} (ha : a ∈ w.answers) {ticket : Ticket} (hticket : a.ticket = some ticket) :
    ∃ i batch, w.batches[i]? = some batch ∧ ticket ∈ batch.tickets ∧
      (a.batch = some i → a.outcome.isOk = true → IsDone u w ticket) := by
  obtain ⟨hcoherent, hrecorded⟩ : Coherent u w ∧ Recorded u w := by
    refine run_induction (motive := fun w => Coherent u w ∧ Recorded u w) ?_ hrun
      ⟨coherent_new u b, recorded_new u b⟩
    exact fun hdoes h => ⟨hdoes.coherent h.1, hdoes.recorded hmerging h.1 h.2⟩
  have hagrees := hrecorded.answers a ha
  obtain ⟨i, batch, hbatch, hmem⟩ := hagrees.taken ticket hticket
  refine ⟨i, batch, hbatch, hmem, fun hi hok => ?_⟩
  obtain ⟨outcome, hsent, houtcome⟩ := hagrees.sent i hi
  cases outcome with
  | error e =>
    rw [houtcome] at hok
    cases hok
  | ok rows => exact hsent.isDone hcoherent.toAccounted hbatch hmem

end Answers

/-- A unit of work that saves mutations at once. -/
def savingAtOnce : UnitOfWork where
  dialect := .sqlServer
  settings := { merging := false }

/-- A client that nobody overtakes is answered when its statement is done. -/
theorem run_answered_alone :
    ∃ w : SharedWork Bool Script,
      run savingAtOnce [(true, .queue deleteUser), (true, .take), (true, .send), (true, .settle)]
        { engine := {} } = some w ∧ IsDone savingAtOnce w ⟨0, deleteUser⟩ := by
  obtain ⟨w, hrun, hanswers, hbatches⟩ : ∃ w : SharedWork Bool Script,
      run savingAtOnce [(true, .queue deleteUser), (true, .take), (true, .send), (true, .settle)]
        { engine := {} } = some w ∧
        w.answers = [⟨true, some ⟨0, deleteUser⟩, some 0, .ok 1⟩] ∧ w.batches.length = 1 :=
    ⟨_, rfl, rfl, rfl⟩
  refine ⟨w, hrun, ?_⟩
  have hanswer : ⟨true, some ⟨0, deleteUser⟩, some 0, .ok 1⟩ ∈ w.answers := by
    rw [hanswers]
    exact List.mem_cons_self
  obtain ⟨i, batch, hbatch, -, hdone⟩ :=
    run_answered savingAtOnce ({} : Script) hrun rfl hanswer rfl
  have hi : i = 0 := by
    obtain ⟨hlt, -⟩ := List.getElem?_eq_some_iff.mp hbatch
    omega
  exact hdone (hi ▸ rfl) rfl

/-- A run in which the second client takes what the first one has queued. -/
def overtaken : List (Bool × Section) :=
  [(true, .queue deleteUser), (false, .queue deleteUser), (false, .take), (true, .take),
    (false, .send), (false, .settle)]

/-- The first client is told that its delete succeeded; the save of the second one fails, and none
of the two deletes is executed. -/
theorem answered_before_failure :
    ∃ w : SharedWork Bool Script,
      run savingAtOnce overtaken
        { engine := { failures := [⟨.execute, 1, .database "constraint violation"⟩] } } = some w ∧
      w.answers = [⟨true, some ⟨0, deleteUser⟩, none, .ok 0⟩,
        ⟨false, some ⟨1, deleteUser⟩, some 0,
          .error (.flush (.database "constraint violation"))⟩] ∧
      ¬ IsDone savingAtOnce w ⟨0, deleteUser⟩ := by
  obtain ⟨w, hrun, hanswers, hcalls⟩ : ∃ w : SharedWork Bool Script,
      run savingAtOnce overtaken
        { engine := { failures := [⟨.execute, 1, .database "constraint violation"⟩] } } = some w ∧
      w.answers = [⟨true, some ⟨0, deleteUser⟩, none, .ok 0⟩,
        ⟨false, some ⟨1, deleteUser⟩, some 0,
          .error (.flush (.database "constraint violation"))⟩] ∧
      w.batches.map (fun b => (b.calls.getD []).filterMap Call.executed?) = [[]] :=
    ⟨_, rfl, rfl, rfl⟩
  refine ⟨w, hrun, hanswers, ?_⟩
  rintro ⟨b, hb, calls, hsome, ⟨k, q, -, -, hexecuted⟩, -⟩
  have hnone : calls.filterMap Call.executed? = [] := by
    have hmem := List.mem_map_of_mem (f := fun b => (b.calls.getD []).filterMap Call.executed?) hb
    rw [hcalls] at hmem
    simpa [hsome] using List.mem_singleton.mp hmem
  rw [hnone] at hexecuted
  cases hexecuted

end SharedWork

end EntitySql
