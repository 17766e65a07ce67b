import EntitySql.Proofs.Operations
import Mathlib.Data.List.Basic

/-!
# Units of work that clients share

Clients call a unit of work at the same time. What a client does is cut into sections that nobody
interrupts: it queues a mutation, it takes the queue, it sends what it took, and it settles the
phase. Between the sections of one client any sections of others may stand, so a run is a list of
clients with sections (`SharedWork.run`).

Every mutation that is queued gets a ticket, and a save takes tickets together with statements:
tickets tell statements apart that have the same text. The main statement is `run_coherent`:
whatever the order of the sections, the batches in the order in which they were taken, and after
them the queue, hold each ticket once and in the order of issue. The next index is the length of
the queue, and the phase agrees with it. Sections of one client without interruption do what the
operation does that they are cut from (`isCall_perform`), so a run goes on with any operation of a
client that is at rest.
-/

namespace EntitySql

/-- A queued mutation with its number among all that were queued. -/
structure Ticket where
  number : Nat
  mutation : Mutation

/-- What a save took from the queue, with the calls that it made to send this, once it did. -/
structure Batch where
  tickets : List Ticket
  statements : List Statement
  calls : Option (List Call) := none

/-- What a client is doing. A call of a mutation has a ticket, a call of a save has none. -/
inductive Activity where
  /-- The client is between two calls. -/
  | resting
  /-- A mutation is queued and goes on to be saved. -/
  | saving (ticket : Ticket)
  /-- A batch is taken. -/
  | holding (ticket : Option Ticket) (batch : Nat)
  /-- A batch is sent. -/
  | settling (ticket : Option Ticket) (batch : Nat) (outcome : Except SqlError UInt64)

/-- What a call came to, and the batch that it took, if it took one. -/
structure Answer (κ : Type) where
  client : κ
  ticket : Option Ticket
  batch : Option Nat
  outcome : Except SqlError UInt64

/-- A section of a call, which nobody interrupts. -/
inductive Section where
  | queue (m : Mutation)
  | take
  | send
  | settle

/-- A unit of work that the clients `κ` share. -/
structure SharedWork (κ β : Type) where
  engine : β
  pending : Pending := {}
  /-- The tickets of what is pending. -/
  waiting : List Ticket := []
  /-- The tickets of everything that was queued, in order. -/
  issued : List Ticket := []
  /-- The batches, in the order in which they were taken. -/
  batches : List Batch := []
  activity : κ → Activity := fun _ => .resting
  answers : List (Answer κ) := []

namespace SharedWork

variable {κ β : Type} [DecidableEq κ]

/-! ### Sections -/

/-- The client goes on to something else. -/
def turn (w : SharedWork κ β) (c : κ) (a : Activity) : SharedWork κ β :=
  { w with activity := fun x => if x = c then a else w.activity x }

/-- The call of a client ends. -/
def answer (w : SharedWork κ β) (c : κ) (ticket : Option Ticket) (batch : Option Nat)
    (outcome : Except SqlError UInt64) : SharedWork κ β :=
  { w.turn c .resting with answers := w.answers ++ [⟨c, ticket, batch, outcome⟩] }

/-- The ticket of the next mutation. -/
def nextTicket (w : SharedWork κ β) (m : Mutation) : Ticket :=
  ⟨w.issued.length, m⟩

/-- A mutation enters the queue. -/
def enter (w : SharedWork κ β) (m : Mutation) (pending : Pending) : SharedWork κ β :=
  { w with
    pending
    waiting := w.waiting ++ [w.nextTicket m]
    issued := w.issued ++ [w.nextTicket m] }

/-- What waits becomes a batch. -/
def leave (w : SharedWork κ β) (statements : List Statement) (pending : Pending) :
    SharedWork κ β :=
  { w with
    pending
    waiting := []
    batches := w.batches ++ [{ tickets := w.waiting, statements }] }

/-- A batch was sent. -/
def sent (w : SharedWork κ β) (i : Nat) (b : Batch) (calls : List Call) (engine : β) :
    SharedWork κ β :=
  { w with engine, batches := w.batches.set i { b with calls := some calls } }

/-- Queues a mutation. Unless mutations are merged the call goes on to a save. -/
def queue (u : UnitOfWork) (w : SharedWork κ β) (c : κ) (m : Mutation) : SharedWork κ β :=
  match w.pending.add u.dialect m with
  | .error e => w.answer c none none (.error e)
  | .ok pending =>
    if u.settings.merging then (w.enter m pending).answer c (some (w.nextTicket m)) none (.ok 0)
    else (w.enter m pending).turn c (.saving (w.nextTicket m))

/-- Takes the queue. If there is nothing to take the call ends. -/
def take (w : SharedWork κ β) (c : κ) (ticket : Option Ticket) : SharedWork κ β :=
  match w.pending.takeAll? with
  | none => w.answer c ticket none (.ok 0)
  | some (statements, pending) =>
    (w.leave statements pending).turn c (.holding ticket w.batches.length)

/-- Settles the phase and ends the call. -/
def settle (w : SharedWork κ β) (c : κ) (ticket : Option Ticket) (i : Nat)
    (outcome : Except SqlError UInt64) : SharedWork κ β :=
  { w with pending := w.pending.settle }.answer c ticket (some i) (outcome.mapError .flush)

variable [Engine β]

/-- Sends a batch. -/
def send (u : UnitOfWork) (w : SharedWork κ β) (c : κ) (ticket : Option Ticket) (i : Nat)
    (b : Batch) : SharedWork κ β :=
  let (outcome, journal) := (Session.send u.settings b.statements).result { engine := w.engine }
  (w.sent i b journal.calls journal.engine).turn c (.settling ticket i outcome)

/-- A section of a client, if it is the turn of this section. -/
def step? (u : UnitOfWork) (w : SharedWork κ β) (c : κ) : Section → Option (SharedWork κ β)
  | .queue m =>
    match w.activity c with
    | .resting => some (queue u w c m)
    | _ => none
  | .take =>
    match w.activity c with
    | .resting => some (w.take c none)
    | .saving ticket => some (w.take c (some ticket))
    | _ => none
  | .send =>
    match w.activity c with
    | .holding ticket i => (w.batches[i]?).map (send u w c ticket i)
    | _ => none
  | .settle =>
    match w.activity c with
    | .settling ticket i outcome => some (w.settle c ticket i outcome)
    | _ => none

/-- Sections of clients, one after another. -/
def run (u : UnitOfWork) : List (κ × Section) → SharedWork κ β → Option (SharedWork κ β)
  | [], w => some w
  | (c, s) :: rest, w => (step? u w c s).bind (run u rest)

/-! ### What a section does -/

/-- The client is about to take the queue, in a call with or without a ticket. -/
def IsTaking (w : SharedWork κ β) (c : κ) : Option Ticket → Prop
  | none => w.activity c = .resting
  | some ticket => w.activity c = .saving ticket

/-- What a section of a client may come to.

* `refused`: a mutation has no statement;
* `queued`: a mutation is queued and the call ends;
* `entered`: a mutation is queued and the call goes on;
* `idle`: there is nothing to take;
* `taken`: the queue becomes a batch;
* `sent`: a batch is sent;
* `settled`: the phase is settled and the call ends. -/
inductive Does (u : UnitOfWork) (w : SharedWork κ β) (c : κ) : SharedWork κ β → Prop where
  | refused {m : Mutation} {e : SqlError} :
    w.activity c = .resting → m.compile u.dialect w.pending.nextIndex = .error e →
    Does u w c (w.answer c none none (.error e))
  | queued {m : Mutation} {q : Queued} :
    w.activity c = .resting → u.settings.merging = true →
    m.compile u.dialect w.pending.nextIndex = .ok q →
    Does u w c
      ((w.enter m (w.pending.append q)).answer c (some (w.nextTicket m)) none (.ok 0))
  | entered {m : Mutation} {q : Queued} :
    w.activity c = .resting → u.settings.merging = false →
    m.compile u.dialect w.pending.nextIndex = .ok q →
    Does u w c ((w.enter m (w.pending.append q)).turn c (.saving (w.nextTicket m)))
  | idle {ticket : Option Ticket} :
    w.IsTaking c ticket → w.pending.queued = [] →
    Does u w c (w.answer c ticket none (.ok 0))
  | taken {ticket : Option Ticket} :
    w.IsTaking c ticket → w.pending.queued ≠ [] →
    Does u w c ((w.leave (w.pending.queued.map (·.statement)) UnitOfWork.taken).turn c
      (.holding ticket w.batches.length))
  | sent {ticket : Option Ticket} {i : Nat} {b : Batch} {calls : List Call} {b' : β} :
    w.activity c = .holding ticket i → w.batches[i]? = some b →
    Sends u.settings w.engine b.statements calls b' →
    Does u w c ((w.sent i b calls b').turn c (.settling ticket i (outcomeOf calls)))
  | settled {ticket : Option Ticket} {i : Nat} {outcome : Except SqlError UInt64} :
    w.activity c = .settling ticket i outcome →
    Does u w c (w.settle c ticket i outcome)

variable {u : UnitOfWork} {w w' : SharedWork κ β} {c : κ}

theorem does_queue (h : w.activity c = .resting) (m : Mutation) :
    Does u w c (queue u w c m) := by
  rw [queue, Pending.add_eq]
  cases hcompile : m.compile u.dialect w.pending.nextIndex with
  | error e => exact .refused h hcompile
  | ok q =>
    cases hmerging : u.settings.merging with
    | true => exact .queued h hmerging hcompile
    | false => exact .entered h hmerging hcompile

theorem does_take {ticket : Option Ticket} (h : w.IsTaking c ticket) :
    Does u w c (w.take c ticket) := by
  by_cases hempty : w.pending.queued = []
  · rw [take, (Pending.takeAll?_eq_none_iff _).mpr hempty]
    exact .idle h hempty
  · rw [take, UnitOfWork.takeAll?_of_ne hempty]
    exact .taken h hempty

theorem does_send {ticket : Option Ticket} {i : Nat} {b : Batch}
    (h : w.activity c = .holding ticket i) (hb : w.batches[i]? = some b) :
    Does u w c (send u w c ticket i b) := by
  obtain ⟨calls, b', hsends, hresult⟩ :=
    Session.result_send u.settings b.statements { engine := w.engine }
  rw [send, hresult]
  exact .sent h hb hsends

/-- A section does one of the seven things. -/
theorem does_of_step? {s : Section} (h : step? u w c s = some w') : Does u w c w' := by
  cases s with
  | queue m =>
    rw [step?] at h
    split at h
    · next hactivity =>
      cases h
      exact does_queue hactivity m
    · cases h
  | take =>
    rw [step?] at h
    split at h
    · next hactivity =>
      cases h
      have htaking : w.IsTaking c none := hactivity
      exact does_take htaking
    · next ticket hactivity =>
      cases h
      have htaking : w.IsTaking c (some ticket) := hactivity
      exact does_take htaking
    · cases h
  | send =>
    rw [step?] at h
    split at h
    · next hactivity =>
      obtain ⟨b, hb, rfl⟩ := Option.map_eq_some_iff.mp h
      exact does_send hactivity hb
    · cases h
  | settle =>
    rw [step?] at h
    split at h
    · next hactivity =>
      cases h
      exact .settled hactivity
    · cases h

end SharedWork

/-! ### Coherence -/

/-- The statements of mutations, each of them compiled under its place. -/
def IsQueueOf (dialect : Dialect) (tickets : List Ticket) (queued : List Queued) : Prop :=
  (tickets.mapIdx fun k ticket => ticket.mutation.compile dialect k) = queued.map .ok

theorem IsQueueOf.concat {dialect : Dialect} {tickets : List Ticket} {queued : List Queued}
    (h : IsQueueOf dialect tickets queued) {ticket : Ticket} {q : Queued}
    (hq : ticket.mutation.compile dialect queued.length = .ok q) :
    IsQueueOf dialect (tickets ++ [ticket]) (queued ++ [q]) := by
  have hlength : tickets.length = queued.length := by
    simpa using congrArg List.length h
  rw [IsQueueOf, List.mapIdx_concat, h, hlength, hq, List.map_append, List.map_singleton]

namespace SharedWork

variable {κ β : Type}

/-- The client has the batch and has not sent it yet. -/
def Holds (w : SharedWork κ β) (c : κ) (i : Nat) : Prop :=
  ∃ ticket, w.activity c = .holding ticket i

/-- Everything that was queued is accounted for. -/
structure Accounted (u : UnitOfWork) (w : SharedWork κ β) : Prop where
  /-- Every ticket is in one place: the batches and the queue hold them in the order of issue. -/
  placed : w.batches.flatMap (·.tickets) ++ w.waiting = w.issued
  /-- Tickets are numbered in the order of issue. -/
  numbered : w.issued.map (·.number) = List.range w.issued.length
  queue : IsQueueOf u.dialect w.waiting w.pending.queued
  batch : ∀ b ∈ w.batches, ∃ queued, IsQueueOf u.dialect b.tickets queued ∧
    b.statements = queued.map (·.statement)
  nextIndex : w.pending.nextIndex = w.pending.queued.length
  idle : w.pending.phase = .idle → w.pending.queued = []
  accumulating : w.pending.phase = .accumulating → w.pending.queued ≠ []

/-- A batch that is not sent yet is in the hands of one client. -/
structure InHand (w : SharedWork κ β) : Prop where
  held : ∀ i b, w.batches[i]? = some b → b.calls = none → ∃! c, w.Holds c i
  holds : ∀ c i, w.Holds c i → ∃ b, w.batches[i]? = some b ∧ b.calls = none

/-- What holds between any two sections. -/
structure Coherent (u : UnitOfWork) (w : SharedWork κ β) : Prop extends
  Accounted u w, InHand w

/-! ### Accounting -/

section Accounted

variable {u : UnitOfWork} {w : SharedWork κ β}

theorem Accounted.turn [DecidableEq κ] (h : Accounted u w) (c : κ) (a : Activity) :
    Accounted u (w.turn c a) :=
  ⟨h.placed, h.numbered, h.queue, h.batch, h.nextIndex, h.idle, h.accumulating⟩

theorem Accounted.answer [DecidableEq κ] (h : Accounted u w) (c : κ) (ticket : Option Ticket)
    (batch : Option Nat) (outcome : Except SqlError UInt64) :
    Accounted u (w.answer c ticket batch outcome) :=
  ⟨h.placed, h.numbered, h.queue, h.batch, h.nextIndex, h.idle, h.accumulating⟩

/-- A mutation enters the queue under its place. -/
theorem Accounted.enter (h : Accounted u w) {m : Mutation} {q : Queued}
    (hq : m.compile u.dialect w.pending.nextIndex = .ok q) :
    Accounted u (w.enter m (w.pending.append q)) where
  placed := by
    rw [SharedWork.enter, ← List.append_assoc, h.placed]
  numbered := by
    rw [SharedWork.enter, List.map_append, h.numbered, List.length_append, List.length_singleton,
      List.range_succ]
    rfl
  queue := by
    rw [h.nextIndex] at hq
    exact h.queue.concat hq
  batch := h.batch
  nextIndex := by
    rw [SharedWork.enter, Pending.append, h.nextIndex, List.length_append, List.length_singleton]
  idle := by
    intro hphase
    simp only [SharedWork.enter, Pending.append] at hphase
    split at hphase
    · cases hphase
    · next hnot => exact absurd hphase hnot
  accumulating := fun _ => by simp [SharedWork.enter]

/-- The queue leaves as a batch. -/
theorem Accounted.leave (h : Accounted u w) :
    Accounted u (w.leave (w.pending.queued.map (·.statement)) UnitOfWork.taken) where
  placed := by
    simpa [SharedWork.leave] using h.placed
  numbered := h.numbered
  queue := rfl
  batch := by
    intro b hb
    obtain hb | hb := List.mem_append.mp hb
    · exact h.batch b hb
    · obtain rfl := List.mem_singleton.mp hb
      exact ⟨w.pending.queued, h.queue, rfl⟩
  nextIndex := rfl
  idle := fun _ => rfl
  accumulating := nofun

/-- Sending a batch leaves what is in it. -/
theorem Accounted.sent (h : Accounted u w) {i : Nat} {b : Batch} (hb : w.batches[i]? = some b)
    (calls : List Call) (engine : β) : Accounted u (w.sent i b calls engine) where
  placed := by
    have htickets : (w.batches.set i { b with calls := some calls }).map (·.tickets)
        = w.batches.map (·.tickets) := by
      refine List.ext_getElem? fun j => ?_
      rw [List.getElem?_map, List.getElem?_map]
      by_cases hj : i = j
      · subst hj
        rw [List.getElem?_set_self (List.getElem?_eq_some_iff.mp hb).1, hb]
        rfl
      · rw [List.getElem?_set_ne hj]
    rw [SharedWork.sent, List.flatMap_def, htickets, ← List.flatMap_def]
    exact h.placed
  numbered := h.numbered
  queue := h.queue
  batch := by
    intro b' hb'
    obtain hb' | rfl := List.mem_or_eq_of_mem_set hb'
    · exact h.batch b' hb'
    · exact h.batch b (List.mem_of_getElem? hb)
  nextIndex := h.nextIndex
  idle := h.idle
  accumulating := h.accumulating

/-- Settling says in the phase whether something is pending. -/
theorem Accounted.settle [DecidableEq κ] (h : Accounted u w) (c : κ) (ticket : Option Ticket)
    (i : Nat) (outcome : Except SqlError UInt64) :
    Accounted u (w.settle c ticket i outcome) where
  placed := h.placed
  numbered := h.numbered
  queue := h.queue
  batch := h.batch
  nextIndex := h.nextIndex
  idle := by
    intro hphase
    simpa [SharedWork.settle, SharedWork.answer, SharedWork.turn, Pending.settle,
      Pending.isEmpty] using hphase
  accumulating := by
    intro hphase
    simpa [SharedWork.settle, SharedWork.answer, SharedWork.turn, Pending.settle,
      Pending.isEmpty] using hphase

end Accounted

/-! ### Batches in hand -/

section InHand

variable {w : SharedWork κ β} {c : κ}

theorem Holds.eq {i j : Nat} {ticket : Option Ticket} (h : w.Holds c j)
    (hactivity : w.activity c = .holding ticket i) : j = i := by
  obtain ⟨_, hholding⟩ := h
  cases hactivity.symm.trans hholding
  rfl

theorem not_holds_of_resting (h : w.activity c = .resting) (i : Nat) : ¬ w.Holds c i := by
  rintro ⟨_, hholding⟩
  cases h.symm.trans hholding

theorem not_holds_of_settling {ticket : Option Ticket} {j : Nat} {outcome : Except SqlError UInt64}
    (h : w.activity c = .settling ticket j outcome) (i : Nat) : ¬ w.Holds c i := by
  rintro ⟨_, hholding⟩
  cases h.symm.trans hholding

theorem IsTaking.not_holds {ticket : Option Ticket} (h : w.IsTaking c ticket) (i : Nat) :
    ¬ w.Holds c i := by
  rintro ⟨_, hholding⟩
  cases ticket with
  | none => cases h.symm.trans hholding
  | some ticket => cases h.symm.trans hholding

variable [DecidableEq κ]

/-- Only the client that goes on holds something else. -/
theorem holds_turn (a : Activity) (x : κ) (i : Nat) :
    (w.turn c a).Holds x i ↔ if x = c then ∃ ticket, a = .holding ticket i else w.Holds x i := by
  by_cases hx : x = c <;> simp [Holds, SharedWork.turn, hx]

/-- A client that holds nothing goes on to something other than sending. -/
theorem InHand.turn (h : InHand w) {a : Activity} (hbefore : ∀ i, ¬ w.Holds c i)
    (hafter : ∀ ticket i, a ≠ .holding ticket i) : InHand (w.turn c a) := by
  have hsame : ∀ x i, (w.turn c a).Holds x i ↔ w.Holds x i := by
    intro x i
    rw [holds_turn]
    split
    · next hx => simp [hx, hbefore, hafter]
    · rfl
  constructor
  · intro i b hb hcalls
    simpa only [hsame] using h.held i b hb hcalls
  · intro x i hx
    exact h.holds x i ((hsame x i).mp hx)

/-- A client that holds nothing ends its call. -/
theorem InHand.answer (h : InHand w) (hbefore : ∀ i, ¬ w.Holds c i) (ticket : Option Ticket)
    (batch : Option Nat) (outcome : Except SqlError UInt64) :
    InHand (w.answer c ticket batch outcome) := by
  have hturn := h.turn hbefore (a := .resting) (by simp)
  exact ⟨hturn.held, hturn.holds⟩

omit [DecidableEq κ] in
theorem InHand.enter (h : InHand w) (m : Mutation) (pending : Pending) :
    InHand (w.enter m pending) :=
  ⟨h.held, h.holds⟩

/-- A client takes a batch, which comes after the others. -/
theorem InHand.leave (h : InHand w) (statements : List Statement) (pending : Pending)
    (ticket : Option Ticket) (hbefore : ∀ i, ¬ w.Holds c i) :
    InHand ((w.leave statements pending).turn c (.holding ticket w.batches.length)) := by
  have hsame : ∀ x i, ((w.leave statements pending).turn c
      (.holding ticket w.batches.length)).Holds x i ↔
        if x = c then i = w.batches.length else w.Holds x i := by
    intro x i
    rw [holds_turn]
    simp only [Activity.holding.injEq, exists_and_right, exists_eq', true_and, eq_comm]
    rfl
  have hold : ∀ x i, w.Holds x i → i < w.batches.length := by
    intro x i hx
    obtain ⟨b, hb, -⟩ := h.holds x i hx
    exact (List.getElem?_eq_some_iff.mp hb).1
  constructor
  · intro i b hb hcalls
    have hb : (w.batches ++ [{ tickets := w.waiting, statements }])[i]? = some b := hb
    obtain hi | hi := Nat.lt_or_ge i w.batches.length
    · -- an earlier batch is in the hands of another client
      rw [List.getElem?_append_left hi] at hb
      obtain ⟨x, hx, hunique⟩ := h.held i b hb hcalls
      have hne : x ≠ c := fun heq => hbefore i (heq ▸ hx)
      refine ⟨x, (hsame x i).mpr (by rwa [if_neg hne]), fun y hy => ?_⟩
      have hy := (hsame y i).mp hy
      split at hy
      · omega
      · exact hunique y hy
    · obtain ⟨hlt, -⟩ := List.getElem?_eq_some_iff.mp hb
      have hlast : i = w.batches.length := by
        rw [List.length_append, List.length_singleton] at hlt
        omega
      refine ⟨c, (hsame c i).mpr (by rwa [if_pos rfl]), fun y hy => ?_⟩
      have hy := (hsame y i).mp hy
      split at hy
      · assumption
      · exact absurd (hold y i hy) (by omega)
  · intro x i hx
    have hx := (hsame x i).mp hx
    split at hx
    · exact ⟨{ tickets := w.waiting, statements }, by simp [SharedWork.turn, SharedWork.leave, hx],
        rfl⟩
    · obtain ⟨b, hb, hcalls⟩ := h.holds x i hx
      refine ⟨b, ?_, hcalls⟩
      have hlt := hold x i hx
      simpa [SharedWork.turn, SharedWork.leave, List.getElem?_append_left hlt] using hb

/-- The client that has a batch sends it. -/
theorem InHand.sent (h : InHand w) {ticket : Option Ticket} {i : Nat} {b : Batch}
    (hactivity : w.activity c = .holding ticket i) (hb : w.batches[i]? = some b)
    (calls : List Call) (engine : β) (outcome : Except SqlError UInt64) :
    InHand ((w.sent i b calls engine).turn c (.settling ticket i outcome)) := by
  have hsame : ∀ x j, ((w.sent i b calls engine).turn c (.settling ticket i outcome)).Holds x j ↔
      x ≠ c ∧ w.Holds x j := by
    intro x j
    rw [holds_turn]
    by_cases hx : x = c
    · simp [hx]
    · rw [if_neg hx]
      exact (and_iff_right hx).symm
  have hother : ∀ j, j ≠ i → (w.batches.set i { b with calls := some calls })[j]?
      = w.batches[j]? := fun j hj => List.getElem?_set_ne hj.symm
  constructor
  · intro j b' hb' hcalls
    have hb' : (w.batches.set i { b with calls := some calls })[j]? = some b' := hb'
    have hj : j ≠ i := by
      rintro rfl
      obtain ⟨hlt, -⟩ := List.getElem?_eq_some_iff.mp hb
      rw [List.getElem?_set_self hlt] at hb'
      cases hb'
      cases hcalls
    rw [hother j hj] at hb'
    obtain ⟨x, hx, hunique⟩ := h.held j b' hb' hcalls
    have hne : x ≠ c := fun heq => hj ((heq ▸ hx : w.Holds c j).eq hactivity)
    exact ⟨x, (hsame x j).mpr ⟨hne, hx⟩, fun y hy => hunique y ((hsame y j).mp hy).2⟩
  · intro x j hx
    obtain ⟨hne, hholds⟩ := (hsame x j).mp hx
    obtain ⟨b', hb', hcalls⟩ := h.holds x j hholds
    have hj : j ≠ i := by
      rintro rfl
      exact hne ((h.held j b' hb' hcalls).unique hholds ⟨ticket, hactivity⟩)
    exact ⟨b', (hother j hj).trans hb', hcalls⟩

end InHand

/-! ### Runs -/

section Runs

variable [DecidableEq κ] [Engine β] {u : UnitOfWork} {w w' : SharedWork κ β} {c : κ}

omit [DecidableEq κ] [Engine β] in
theorem coherent_new (u : UnitOfWork) (b : β) :
    Coherent u ({ engine := b } : SharedWork κ β) where
  placed := rfl
  numbered := rfl
  queue := rfl
  batch := nofun
  nextIndex := rfl
  idle := fun _ => rfl
  accumulating := nofun
  held := nofun
  holds := fun _ i hholds => absurd hholds (not_holds_of_resting rfl i)

/-- One section keeps a coherent state coherent. -/
theorem Does.coherent (hdoes : Does u w c w') (h : Coherent u w) : Coherent u w' := by
  have haccounted := h.toAccounted
  have hinhand := h.toInHand
  cases hdoes with
  | refused hactivity _ =>
    exact ⟨haccounted.answer c none none _,
      hinhand.answer (not_holds_of_resting hactivity) none none _⟩
  | queued hactivity _ hcompile =>
    exact ⟨(haccounted.enter hcompile).answer c _ none _,
      (hinhand.enter _ _).answer (not_holds_of_resting hactivity) _ none _⟩
  | entered hactivity _ hcompile =>
    exact ⟨(haccounted.enter hcompile).turn c _,
      (hinhand.enter _ _).turn (not_holds_of_resting hactivity) (by simp)⟩
  | idle htaking _ =>
    exact ⟨haccounted.answer c _ none _, hinhand.answer htaking.not_holds _ none _⟩
  | taken htaking _ =>
    exact ⟨haccounted.leave.turn c _, hinhand.leave _ _ _ htaking.not_holds⟩
  | sent hactivity hb _ =>
    exact ⟨(haccounted.sent hb _ _).turn c _, hinhand.sent hactivity hb _ _ _⟩
  | settled hactivity =>
    have hsettled : InHand { w with pending := w.pending.settle } := ⟨hinhand.held, hinhand.holds⟩
    exact ⟨haccounted.settle c _ _ _,
      hsettled.answer (not_holds_of_settling hactivity) _ (some _) _⟩

/-- What one section preserves is preserved by a run. -/
theorem run_induction {motive : SharedWork κ β → Prop}
    (step : ∀ {w w' : SharedWork κ β} {c : κ}, Does u w c w' → motive w → motive w')
    {moves : List (κ × Section)} (hrun : run u moves w = some w') (h : motive w) : motive w' := by
  induction moves generalizing w with
  | nil =>
    cases hrun
    exact h
  | cons move moves ih =>
    obtain ⟨c, s⟩ := move
    obtain ⟨v, hstep, hrest⟩ := Option.bind_eq_some_iff.mp hrun
    exact ih hrest (step (does_of_step? hstep) h)

theorem coherent_of_run {b : β} {moves : List (κ × Section)}
    (h : run u moves { engine := b } = some w) : Coherent u w :=
  run_induction Does.coherent h (coherent_new u b)

end Runs

/-! ### Calls without interruption -/

section Alone

variable [DecidableEq κ] [Engine β] {u : UnitOfWork} {w : SharedWork κ β} {c : κ}

/-- The unit of work as a client sees it that is alone. -/
def view (w : SharedWork κ β) : WorkState β where
  engine := w.engine
  pending := w.pending

/-- The run is a call of one client alone, with this outcome, that leaves this state. -/
def IsCall (u : UnitOfWork) (w : SharedWork κ β) (c : κ) (sections : List Section)
    (r : Except SqlError UInt64 × WorkState β) : Prop :=
  ∃ w' ticket batch, run u (sections.map fun s => (c, s)) w = some w' ∧
    w'.engine = r.2.engine ∧ w'.pending = r.2.pending ∧
    w'.answers = w.answers ++ [⟨c, ticket, batch, r.1⟩]

/-- A save of what is queued is a call that takes, sends and settles. -/
theorem isCall_save {ticket : Option Ticket} (htaking : w.IsTaking c ticket)
    (hqueued : w.pending.queued ≠ []) (hquiet : UnitOfWork.IsQuiet (u.save w.view).2) :
    IsCall u w c [.take, .send, .settle] (u.save w.view) := by
  obtain ⟨calls, b', -, hresult⟩ := Session.result_send u.settings
    (w.pending.queued.map (·.statement)) { engine := w.engine }
  have hsave : u.save w.view = ((outcomeOf calls).mapError .flush,
      { engine := b'
        pending := (u.absorb UnitOfWork.taken calls).1.settle
        trace := [] ++ (u.absorb UnitOfWork.taken calls).2 }) := by
    rw [UnitOfWork.save, view, UnitOfWork.takeAll?_of_ne hqueued]
    dsimp only
    rw [UnitOfWork.run_eq, hresult]
    rfl
  rw [hsave] at hquiet ⊢
  have hcalls : ∀ call ∈ calls, UnitOfWork.arrivals call = [] := by
    intro call hcall
    refine hquiet call ?_
    rwa [List.nil_append, u.callsOf_absorb UnitOfWork.taken calls]
  rw [u.absorb_of_quiet UnitOfWork.taken hcalls]
  -- the batch that the client takes is the last one, and nobody takes another
  let b : Batch := { tickets := w.waiting, statements := w.pending.queued.map (·.statement) }
  let w₁ := (w.leave b.statements UnitOfWork.taken).turn c (.holding ticket w.batches.length)
  let w₂ := (w₁.sent w.batches.length b calls b').turn c
    (.settling ticket w.batches.length (outcomeOf calls))
  have htake : step? u w c .take = some w₁ := by
    have htaken : w.take c ticket = w₁ := by
      rw [take, UnitOfWork.takeAll?_of_ne hqueued]
    cases ticket with
    | none =>
      have hactivity : w.activity c = .resting := htaking
      rw [step?, hactivity, ← htaken]
    | some ticket =>
      have hactivity : w.activity c = .saving ticket := htaking
      rw [step?, hactivity, ← htaken]
  have hsend : step? u w₁ c .send = some w₂ := by
    have hactivity : w₁.activity c = .holding ticket w.batches.length := if_pos rfl
    have hbatch : w₁.batches[w.batches.length]? = some b := List.getElem?_concat_length
    rw [step?, hactivity]
    dsimp only
    rw [hbatch, Option.map_some, send]
    have hengine : w₁.engine = w.engine := rfl
    rw [hengine, hresult]
    rfl
  have hsettle : step? u w₂ c .settle
      = some (w₂.settle c ticket w.batches.length (outcomeOf calls)) := by
    have hactivity : w₂.activity c = .settling ticket w.batches.length (outcomeOf calls) :=
      if_pos rfl
    rw [step?, hactivity]
  refine ⟨w₂.settle c ticket w.batches.length (outcomeOf calls), ticket, some w.batches.length,
    ?_, rfl, rfl, rfl⟩
  simp only [List.map_cons, List.map_nil, run, htake, hsend, hsettle, Option.bind_some]

/-- **Calls one after another are runs.** What an operation does while nobody else is active is
what the sections of one client do without interruption. -/
theorem isCall_perform (hactivity : w.activity c = .resting) (op : Operation)
    (hquiet : UnitOfWork.IsQuiet (u.perform op w.view).2) :
    ∃ sections, IsCall u w c sections (u.perform op w.view) := by
  cases op with
  | save =>
    by_cases hempty : w.pending.queued = []
    · refine ⟨[.take], w.answer c none none (.ok 0), none, none, ?_, ?_⟩
      · rw [List.map_singleton, run, step?, hactivity]
        dsimp only
        rw [take, (Pending.takeAll?_eq_none_iff _).mpr hempty]
        rfl
      · have hsave : u.perform .save w.view = (.ok 0, w.view) := u.save_of_empty w.view hempty
        rw [hsave]
        exact ⟨rfl, rfl, rfl⟩
    · have htaking : w.IsTaking c none := hactivity
      exact ⟨_, isCall_save htaking hempty hquiet⟩
  | mutate m =>
    have hqueue : step? u w c (.queue m) = some (queue u w c m) := by
      rw [step?, hactivity]
    have hfirst : ∀ sections, run u ((Section.queue m :: sections).map fun s => (c, s)) w
        = run u (sections.map fun s => (c, s)) (queue u w c m) := by
      intro sections
      rw [List.map_cons, run, hqueue, Option.bind_some]
    rw [UnitOfWork.perform, UnitOfWork.mutate, view] at hquiet ⊢
    dsimp only at hquiet ⊢
    rw [queue] at hfirst
    cases hadd : w.pending.add u.dialect m with
    | error e =>
      rw [hadd] at hfirst
      exact ⟨[.queue m], w.answer c none none (.error e), none, none, hfirst [], rfl, rfl, rfl⟩
    | ok pending =>
      rw [hadd] at hfirst hquiet
      dsimp only at hfirst hquiet ⊢
      cases hmerging : u.settings.merging with
      | true =>
        rw [hmerging] at hfirst
        exact ⟨[.queue m], (w.enter m pending).answer c (some (w.nextTicket m)) none (.ok 0), _,
          none, hfirst [], rfl, rfl, rfl⟩
      | false =>
        rw [hmerging] at hfirst hquiet
        -- the call goes on with the save of a queue that ends with this mutation
        have hqueued : pending.queued ≠ [] := by
          rw [Pending.add_eq] at hadd
          cases hcompile : m.compile u.dialect w.pending.nextIndex with
          | error e =>
            rw [hcompile] at hadd
            cases hadd
          | ok q =>
            rw [hcompile] at hadd
            cases hadd
            simp
        have htaking : ((w.enter m pending).turn c (.saving (w.nextTicket m))).IsTaking c
            (some (w.nextTicket m)) := if_pos rfl
        obtain ⟨w', ticket, batch, hrun, hcall⟩ := isCall_save htaking hqueued hquiet
        exact ⟨_, w', ticket, batch, (hfirst _).trans hrun, hcall⟩

/-- **Clients in any order keep a shared unit of work coherent.** And what a resting client would do
next, if nobody interrupted it, is always what a unit of work of its own would do. -/
theorem run_coherent (u : UnitOfWork) (b : β) {moves : List (κ × Section)}
    (h : run u moves { engine := b } = some w) :
    Coherent u w ∧
      ∀ c op, w.activity c = .resting → UnitOfWork.IsQuiet (u.perform op w.view).2 →
        ∃ sections, IsCall u w c sections (u.perform op w.view) :=
  ⟨coherent_of_run h, fun _ op hactivity hquiet => isCall_perform hactivity op hquiet⟩

end Alone

/-- Two clients queue deletes. The first one has sent both, and the second one has queued another
in the meantime. -/
def overlapping : List (Bool × Section) :=
  [(true, .queue deleteUser), (false, .queue deleteUser), (true, .take),
    (false, .queue deleteUser), (true, .send)]

theorem run_coherent_overlapping :
    ∃ w : SharedWork Bool Script, run defaultUnit overlapping { engine := {} } = some w ∧
      Coherent defaultUnit w ∧ w.batches.map (fun b => b.tickets.map (·.number)) = [[0, 1]] ∧
      w.waiting.map (·.number) = [2] ∧ w.pending.phase = .flushing := by
  obtain ⟨w, hrun, hbatches, hwaiting, hphase⟩ : ∃ w : SharedWork Bool Script,
      run defaultUnit overlapping { engine := {} } = some w ∧
        w.batches.map (fun b => b.tickets.map (·.number)) = [[0, 1]] ∧
        w.waiting.map (·.number) = [2] ∧ w.pending.phase = .flushing :=
    ⟨_, rfl, rfl, rfl, rfl⟩
  exact ⟨w, hrun, (run_coherent defaultUnit {} hrun).1, hbatches, hwaiting, hphase⟩

end SharedWork

end EntitySql
