import EntitySql.Proofs.Answers
import Mathlib.Data.List.Nodup

/-!
# The order of sending

In which order the statements of a shared unit of work reach the engine. A save lets go of the queue
before it sends what it took, so the batches need not be sent in the order in which they were taken
(`SharedWork.sendOrder`), and a statement that was queued later may be sent earlier.

The main statement, `run_log`, says when this happens. Of two statements that are sent, the one that
was queued later goes first exactly if its batch was sent while another client had the batch of the
other one in its hands (`SharedWork.Overtakes`). Within a batch, and between saves of which one ends
before the other one takes its batch, the order of queueing is kept.

Every section keeps two facts: tickets stay in their batches (`Does.tickets_prefix`), and a batch
has calls once the client that had it has sent it, and not before (`Does.hasCalls_iff`).
-/

namespace EntitySql

/-! ### Lists -/

section Lists

variable {α ι : Type} {l : List α} {a b : α}

/-- One item stands before another one where the list can be cut between them. -/
theorem pair_sublist_iff :
    [a, b].Sublist l ↔ ∃ front back, l = front ++ back ∧ a ∈ front ∧ b ∈ back := by
  rw [List.cons_sublist_iff]
  simp only [List.singleton_sublist]

theorem not_pair_sublist_of_nodup (hnodup : l.Nodup) (h : [a, b].Sublist l) :
    ¬ [b, a].Sublist l := by
  intro hback
  obtain ⟨front, rest, rfl, ha, hb⟩ := pair_sublist_iff.mp h
  obtain ⟨front', rest', hcut, hb', ha'⟩ := pair_sublist_iff.mp hback
  have hapart := (List.nodup_append.mp hnodup).2.2
  rcases List.append_eq_append_iff.mp hcut with ⟨between, rfl, rfl⟩ | ⟨between, rfl, rfl⟩
  · exact hapart a ha a (List.mem_append_right between ha') rfl
  · exact hapart b (List.mem_append_left between hb') b hb rfl

theorem pair_sublist_or (ha : a ∈ l) (hb : b ∈ l) (hne : a ≠ b) :
    [a, b].Sublist l ∨ [b, a].Sublist l := by
  obtain ⟨front, back, rfl⟩ := List.append_of_mem ha
  rcases List.mem_append.mp hb with hb | hb
  · exact .inr (pair_sublist_iff.mpr ⟨front, a :: back, rfl, hb, List.mem_cons_self⟩)
  · have hback : b ∈ back := (List.mem_cons.mp hb).resolve_left hne.symm
    have hcut : front ++ a :: back = (front ++ [a]) ++ back := by simp
    exact .inl (pair_sublist_iff.mpr ⟨front ++ [a], back, hcut, by simp, hback⟩)

theorem pair_sublist_flatMap {f : ι → List α} {l : List ι} {i j : ι} (h : [i, j].Sublist l)
    (ha : a ∈ f i) (hb : b ∈ f j) : [a, b].Sublist (l.flatMap f) := by
  obtain ⟨front, back, rfl, hi, hj⟩ := pair_sublist_iff.mp h
  rw [List.flatMap_append]
  exact pair_sublist_iff.mpr ⟨front.flatMap f, back.flatMap f, rfl,
    List.mem_flatMap.mpr ⟨i, hi, ha⟩, List.mem_flatMap.mpr ⟨j, hj, hb⟩⟩

end Lists

/-! ### What the engine is given -/

/-- The statement that a call gives to the engine to execute. -/
def Call.statement? : Call → Option Statement
  | .execute s _ _ => some s
  | _ => none

section Engine

variable {β : Type} [Engine β] {b b' : β} {ss : List Statement} {calls : List Call}

/-- Executing gives statements in order, up to one that fails. -/
theorem Executes.statements (h : Executes b ss calls b') :
    calls.filterMap Call.statement? <+: ss := by
  induction h with
  | done b => exact List.prefix_rfl
  | next hrows _ ih =>
    rw [List.filterMap_cons]
    exact (List.prefix_cons_inj _).mpr ih
  | stop hfailed =>
    rw [List.filterMap_cons]
    exact List.prefix_cons_inj _ |>.mpr List.nil_prefix

/-- Sending gives no other statements. -/
theorem Sends.statements {settings : Settings} (h : Sends settings b ss calls b') :
    calls.filterMap Call.statement? <+: ss := by
  have hclosed : ∀ {first last : Call} {calls : List Call}, first.statement? = none →
      last.statement? = none →
      (first :: calls ++ [last]).filterMap Call.statement? = calls.filterMap Call.statement? := by
    intro first last calls hfirst hlast
    rw [List.cons_append, List.filterMap_cons_none hfirst, List.filterMap_append,
      List.filterMap_cons_none hlast, List.filterMap_nil, List.append_nil]
  cases h with
  | plain _ hexecutes => exact hexecutes.statements
  | notOpened _ _ => exact List.nil_prefix
  | committed _ _ hexecutes _ _ =>
    rw [hclosed rfl rfl]
    exact hexecutes.statements
  | rolledBack _ _ hexecutes _ _ =>
    rw [hclosed rfl rfl]
    exact hexecutes.statements

end Engine

namespace SharedWork

variable {κ β : Type}

/-- The calls that were made to send a batch. -/
def callsFor (w : SharedWork κ β) (i : Nat) : List Call :=
  ((w.batches[i]?).bind (·.calls)).getD []

/-- The tickets of a batch. -/
def ticketsOf (w : SharedWork κ β) (i : Nat) : List Ticket :=
  ((w.batches.map (·.tickets))[i]?).getD []

/-- The statements of a batch that were given to the engine, with their tickets. -/
def given (w : SharedWork κ β) (i : Nat) : List (Ticket × Statement) :=
  (w.ticketsOf i).zip ((w.callsFor i).filterMap Call.statement?)

/-- The ticket is in a batch. -/
def InBatch (w : SharedWork κ β) (i : Nat) (ticket : Ticket) : Prop :=
  ∃ b, w.batches[i]? = some b ∧ ticket ∈ b.tickets

theorem mem_ticketsOf {w : SharedWork κ β} {i : Nat} {ticket : Ticket} :
    ticket ∈ w.ticketsOf i ↔ w.InBatch i ticket := by
  rw [ticketsOf, InBatch, List.getElem?_map]
  rcases w.batches[i]? with _ | b <;> simp

/-- The batch was sent. -/
def HasCalls (w : SharedWork κ β) (i : Nat) : Prop :=
  ∃ b, w.batches[i]? = some b ∧ b.calls ≠ none

/-- The batch that a client has and will send. -/
def inHand (w : SharedWork κ β) (c : κ) : List Nat :=
  match w.activity c with
  | .holding _ i => [i]
  | _ => []

theorem mem_inHand {w : SharedWork κ β} {c : κ} {i : Nat} : i ∈ w.inHand c ↔ w.Holds c i := by
  rw [inHand, Holds]
  rcases w.activity c with _ | _ | ⟨ticket, j⟩ | _ <;> simp [eq_comm]

variable [DecidableEq κ] [Engine β]

/-- The batches in the order in which they are sent. A client that has a batch can only send it. -/
def sendOrder (u : UnitOfWork) : List (κ × Section) → SharedWork κ β → List Nat
  | [], _ => []
  | (c, s) :: rest, w =>
    match step? u w c s with
    | some v => w.inHand c ++ sendOrder u rest v
    | none => []

/-- In the run, the batch of the one ticket is sent while another client has the batch of the other
one in its hands. -/
def Overtakes (u : UnitOfWork) (moves : List (κ × Section)) (w : SharedWork κ β)
    (one other : Ticket) : Prop :=
  ∃ (before rest : List (κ × Section)) (v : SharedWork κ β) (c x : κ) (i j : Nat),
    moves = before ++ (c, .send) :: rest ∧ run u before w = some v ∧
      v.Holds c j ∧ v.InBatch j one ∧ x ≠ c ∧ v.Holds x i ∧ v.InBatch i other

/-! ### What a section keeps -/

variable {u : UnitOfWork} {w w' : SharedWork κ β} {c : κ}

/-- Tickets stay in their batches. -/
theorem Does.tickets_prefix (hdoes : Does u w c w') :
    w.batches.map (·.tickets) <+: w'.batches.map (·.tickets) := by
  cases hdoes with
  | refused _ _ => exact List.prefix_rfl
  | queued _ _ _ => exact List.prefix_rfl
  | entered _ _ _ => exact List.prefix_rfl
  | idle _ _ => exact List.prefix_rfl
  | taken _ _ => exact (List.prefix_append _ _).map _
  | @sent _ i b calls _ _ hb _ =>
    have hsame : (w.batches.set i { b with calls := some calls }).map (·.tickets)
        = w.batches.map (·.tickets) := by
      obtain ⟨hlt, rfl⟩ := List.getElem?_eq_some_iff.mp hb
      have hmap : i < (w.batches.map (·.tickets)).length := by rwa [List.length_map]
      have hset := List.set_getElem_self hmap
      rw [List.getElem_map] at hset
      rw [List.map_set]
      exact hset
    exact hsame ▸ List.prefix_rfl
  | settled _ => exact List.prefix_rfl

/-- A batch has calls once the client that has it goes on. -/
theorem Does.hasCalls_iff (hdoes : Does u w c w') (i : Nat) :
    w'.HasCalls i ↔ w.HasCalls i ∨ w.Holds c i := by
  cases hdoes with
  | refused hactivity _ => exact (or_iff_left (not_holds_of_resting hactivity i)).symm
  | queued hactivity _ _ => exact (or_iff_left (not_holds_of_resting hactivity i)).symm
  | entered hactivity _ _ => exact (or_iff_left (not_holds_of_resting hactivity i)).symm
  | idle htaking _ => exact (or_iff_left (htaking.not_holds i)).symm
  | taken htaking _ =>
    rw [or_iff_left (htaking.not_holds i)]
    constructor
    · rintro ⟨b, hb, hcalls⟩
      rcases Nat.lt_or_ge i w.batches.length with hi | hi
      · exact ⟨b, (List.getElem?_append_left hi).symm.trans hb, hcalls⟩
      · have hlast := (List.getElem?_append_right hi).symm.trans hb
        obtain rfl := List.mem_singleton.mp (List.mem_of_getElem? hlast)
        exact absurd rfl hcalls
    · rintro ⟨b, hb, hcalls⟩
      obtain ⟨hlt, -⟩ := List.getElem?_eq_some_iff.mp hb
      exact ⟨b, (List.getElem?_append_left hlt).trans hb, hcalls⟩
  | @sent ticket j b calls _ hactivity hb _ =>
    obtain ⟨hlt, -⟩ := List.getElem?_eq_some_iff.mp hb
    by_cases hj : j = i
    · subst hj
      have hsent : ∃ b', (w.batches.set j { b with calls := some calls })[j]? = some b' ∧
          b'.calls ≠ none := ⟨_, List.getElem?_set_self hlt, by simp⟩
      exact iff_of_true hsent (.inr ⟨ticket, hactivity⟩)
    · have hother : ¬ w.Holds c i := fun hholds => hj (hholds.eq hactivity).symm
      have hsame : (w.batches.set j { b with calls := some calls })[i]? = w.batches[i]? :=
        List.getElem?_set_ne hj
      rw [or_iff_left hother, HasCalls, HasCalls, ← hsame]
      rfl
  | settled hactivity => exact (or_iff_left (not_holds_of_settling hactivity i)).symm

omit [DecidableEq κ] [Engine β] in
/-- A batch that somebody has was not sent. -/
theorem InHand.not_hasCalls (h : InHand w) {i : Nat} (hholds : w.Holds c i) : ¬ w.HasCalls i := by
  obtain ⟨b, hb, hnone⟩ := h.holds c i hholds
  rintro ⟨b', hb', hcalls⟩
  obtain rfl := Option.some.inj (hb.symm.trans hb')
  exact hcalls hnone

/-- A client that has a batch can only send it. -/
theorem eq_send_of_holds {s : Section} {i : Nat} (hholds : w.Holds c i)
    (hstep : step? u w c s = some w') : s = .send := by
  obtain ⟨ticket, hactivity⟩ := hholds
  cases s with
  | send => rfl
  | queue m =>
    rw [step?, hactivity] at hstep
    cases hstep
  | take =>
    rw [step?, hactivity] at hstep
    cases hstep
  | settle =>
    rw [step?, hactivity] at hstep
    cases hstep

/-! ### Runs -/

theorem run_append (before rest : List (κ × Section)) :
    run u (before ++ rest) w = (run u before w).bind (run u rest) := by
  induction before generalizing w with
  | nil => rfl
  | cons move before ih =>
    obtain ⟨c, s⟩ := move
    rw [List.cons_append, run, run]
    rcases step? u w c s with _ | v
    · rfl
    · exact ih

theorem sendOrder_append {before : List (κ × Section)} (hrun : run u before w = some w')
    (rest : List (κ × Section)) :
    sendOrder u (before ++ rest) w = sendOrder u before w ++ sendOrder u rest w' := by
  induction before generalizing w with
  | nil =>
    obtain rfl := Option.some.inj hrun
    rfl
  | cons move before ih =>
    obtain ⟨c, s⟩ := move
    obtain ⟨v, hstep, hrest⟩ := Option.bind_eq_some_iff.mp hrun
    rw [List.cons_append, sendOrder, sendOrder, hstep]
    dsimp only
    rw [ih hrest, List.append_assoc]

/-- What a run says about calls: the batches that it sends had none before, it sends each of them
once, and after it these have calls and no others. -/
structure Sent (w w' : SharedWork κ β) (order : List Nat) : Prop where
  fresh : ∀ i ∈ order, ¬ w.HasCalls i
  nodup : order.Nodup
  hasCalls : ∀ i, w'.HasCalls i ↔ w.HasCalls i ∨ i ∈ order

theorem sent_sendOrder {moves : List (κ × Section)} (h : Coherent u w)
    (hrun : run u moves w = some w') : Sent w w' (sendOrder u moves w) := by
  induction moves generalizing w with
  | nil =>
    obtain rfl := Option.some.inj hrun
    exact ⟨nofun, List.nodup_nil, fun i => (or_iff_left List.not_mem_nil).symm⟩
  | cons move moves ih =>
    obtain ⟨c, s⟩ := move
    obtain ⟨v, hstep, hrest⟩ := Option.bind_eq_some_iff.mp hrun
    have hdoes := does_of_step? hstep
    have hlater := ih (hdoes.coherent h) hrest
    have horder : sendOrder u ((c, s) :: moves) w = w.inHand c ++ sendOrder u moves v := by
      rw [sendOrder, hstep]
    rw [horder]
    constructor
    · intro i hi
      rcases List.mem_append.mp hi with hi | hi
      · exact h.not_hasCalls (mem_inHand.mp hi)
      · exact fun hcalls => hlater.fresh i hi ((hdoes.hasCalls_iff i).mpr (.inl hcalls))
    · refine List.nodup_append.mpr ⟨?_, hlater.nodup, ?_⟩
      · rw [inHand]
        split
        · exact List.nodup_singleton _
        · exact List.nodup_nil
      -- what the client sends has calls afterwards, and is not sent again
      · rintro i hi _ hlast rfl
        exact hlater.fresh i hlast ((hdoes.hasCalls_iff i).mpr (.inr (mem_inHand.mp hi)))
    · intro i
      rw [hlater.hasCalls, hdoes.hasCalls_iff, List.mem_append, mem_inHand, or_assoc]

/-- The moment at which a batch is sent. -/
theorem exists_moment {moves : List (κ × Section)} (hrun : run u moves w = some w') {j : Nat}
    (hj : j ∈ sendOrder u moves w) :
    ∃ before c rest v, moves = before ++ (c, .send) :: rest ∧ run u before w = some v ∧
      v.Holds c j := by
  induction moves generalizing w with
  | nil => cases hj
  | cons move moves ih =>
    obtain ⟨c, s⟩ := move
    obtain ⟨v, hstep, hrest⟩ := Option.bind_eq_some_iff.mp hrun
    rw [sendOrder, hstep] at hj
    rcases List.mem_append.mp hj with hj | hj
    · have hholds := mem_inHand.mp hj
      obtain rfl := eq_send_of_holds hholds hstep
      exact ⟨[], c, moves, w, rfl, rfl, hholds⟩
    · obtain ⟨before, x, rest, y, rfl, hbefore, hholds⟩ := ih hrest hj
      refine ⟨(c, s) :: before, x, rest, y, rfl, ?_, hholds⟩
      rw [run, hstep]
      exact hbefore

/-- At the moment at which a client has a batch and goes on, this batch is the next one. -/
theorem exists_later {before rest : List (κ × Section)} {s : Section} {v : SharedWork κ β}
    (hrun : run u (before ++ (c, s) :: rest) w = some w') (hbefore : run u before w = some v)
    {j : Nat} (hholds : v.Holds c j) :
    ∃ later, sendOrder u (before ++ (c, s) :: rest) w = sendOrder u before w ++ j :: later := by
  rw [run_append, hbefore, Option.bind_some] at hrun
  obtain ⟨v', hstep, -⟩ := Option.bind_eq_some_iff.mp hrun
  obtain ⟨ticket, hactivity⟩ := hholds
  rw [sendOrder_append hbefore, sendOrder, hstep]
  dsimp only
  rw [inHand, hactivity]
  exact ⟨_, rfl⟩

/-- Of two batches that are sent, the later one goes first exactly if it is sent while another
client has the earlier one. -/
theorem pair_sublist_sendOrder_iff {moves : List (κ × Section)} {e : β}
    (hrun : run u moves { engine := e } = some w) {i j : Nat} (hij : i < j)
    (hi : i ∈ sendOrder u moves { engine := e }) (hj : j ∈ sendOrder u moves { engine := e }) :
    [j, i].Sublist (sendOrder u moves { engine := e }) ↔
      ∃ before rest v c x, moves = before ++ (c, .send) :: rest ∧
        run u before { engine := e } = some v ∧ v.Holds c j ∧ x ≠ c ∧ v.Holds x i := by
  set start : SharedWork κ β := { engine := e }
  have hstart : ∀ i, ¬ start.HasCalls i := by
    rintro i ⟨b, hb, -⟩
    cases hb
  have hsent := sent_sendOrder (coherent_new u e) hrun
  -- until a moment the batches that have calls are those that were sent before it
  have hbefore : ∀ before v, run u before start = some v →
      Coherent u v ∧ ∀ i, v.HasCalls i ↔ i ∈ sendOrder u before start := by
    intro before v hrun
    refine ⟨coherent_of_run hrun, fun i => ?_⟩
    rw [(sent_sendOrder (coherent_new u e) hrun).hasCalls, or_iff_right (hstart i)]
  constructor
  · intro hpair
    obtain ⟨before, c, rest, v, rfl, hrunBefore, hholds⟩ := exists_moment hrun hj
    obtain ⟨hcoherent, hcalls⟩ := hbefore before v hrunBefore
    obtain ⟨later, horder⟩ := exists_later hrun hrunBefore hholds
    have hnot : i ∉ sendOrder u before start := by
      intro hmem
      have hback : [i, j].Sublist (sendOrder u (before ++ (c, .send) :: rest) start) :=
        pair_sublist_iff.mpr ⟨_, _, horder, hmem, List.mem_cons_self⟩
      exact not_pair_sublist_of_nodup hsent.nodup hpair hback
    -- the earlier batch was taken before, and it has no calls yet
    obtain ⟨b, hb, -⟩ := hcoherent.holds c j hholds
    obtain ⟨hlt, -⟩ := List.getElem?_eq_some_iff.mp hb
    have hearlier : v.batches[i]? = some v.batches[i] := List.getElem?_eq_getElem _
    have hnone : v.batches[i].calls = none := by
      by_contra hsome
      exact hnot ((hcalls i).mp ⟨_, hearlier, hsome⟩)
    obtain ⟨x, hx, -⟩ := hcoherent.held i _ hearlier hnone
    refine ⟨before, rest, v, c, x, rfl, hrunBefore, hholds, ?_, hx⟩
    rintro rfl
    obtain ⟨ticket, hactivity⟩ := hholds
    have heq := hx.eq hactivity
    omega
  · rintro ⟨before, rest, v, c, x, rfl, hrunBefore, hholds, -, hother⟩
    obtain ⟨hcoherent, hcalls⟩ := hbefore before v hrunBefore
    obtain ⟨later, horder⟩ := exists_later hrun hrunBefore hholds
    have hnot : i ∉ sendOrder u before start := fun hmem =>
      hcoherent.not_hasCalls hother ((hcalls i).mpr hmem)
    have hlater : i ∈ later := by
      rw [horder] at hi
      have hrest := (List.mem_append.mp hi).resolve_left hnot
      exact (List.mem_cons.mp hrest).resolve_left (by omega)
    have hcut : sendOrder u (before ++ (c, .send) :: rest) start
        = (sendOrder u before start ++ [j]) ++ later := by
      rw [horder, List.append_assoc, List.singleton_append]
    exact pair_sublist_iff.mpr ⟨_, _, hcut, by simp, hlater⟩

/-! ### Tickets of batches -/

section Tickets

omit [DecidableEq κ] [Engine β]

/-- Tickets are numbered through, in a batch and from batch to batch. -/
theorem Accounted.pairwise_tickets (h : Accounted u w) :
    (∀ b ∈ w.batches, b.tickets.Pairwise fun s t => s.number < t.number) ∧
      w.batches.Pairwise fun b b' => ∀ s ∈ b.tickets, ∀ t ∈ b'.tickets, s.number < t.number := by
  have hissued : w.issued.Pairwise fun s t => s.number < t.number := by
    have hrange : (w.issued.map (·.number)).Pairwise (· < ·) := by
      rw [h.numbered]
      exact List.pairwise_lt_range
    exact List.pairwise_map.mp hrange
  rw [← h.placed] at hissued
  exact List.pairwise_flatMap.mp (List.pairwise_append.mp hissued).1

theorem Accounted.number_lt (h : Accounted u w) {i j : Nat} {s t : Ticket} (hs : w.InBatch i s)
    (ht : w.InBatch j t) (hij : i < j) : s.number < t.number := by
  obtain ⟨b, hb, hs⟩ := hs
  obtain ⟨b', hb', ht⟩ := ht
  obtain ⟨hi, rfl⟩ := List.getElem?_eq_some_iff.mp hb
  obtain ⟨hj, rfl⟩ := List.getElem?_eq_some_iff.mp hb'
  exact List.pairwise_iff_getElem.mp h.pairwise_tickets.2 i j hi hj hij s hs t ht

/-- A ticket is in one batch. -/
theorem Accounted.inBatch_unique (h : Accounted u w) {i j : Nat} {s t : Ticket}
    (hs : w.InBatch i s) (ht : w.InBatch j t) (hnumber : s.number = t.number) : i = j := by
  rcases Nat.lt_trichotomy i j with hij | hij | hij
  · have hlt := h.number_lt hs ht hij
    omega
  · exact hij
  · have hlt := h.number_lt ht hs hij
    omega

theorem inBatch_of_mem_given {i : Nat} {p : Ticket × Statement} (hp : p ∈ w.given i) :
    w.InBatch i p.1 :=
  mem_ticketsOf.mp (List.of_mem_zip hp).1

/-- What is given of a batch is in the order of queueing. -/
theorem Accounted.pairwise_given (h : Accounted u w) (i : Nat) :
    (w.given i).Pairwise fun p q => p.1.number < q.1.number := by
  have htickets : (w.ticketsOf i).Pairwise fun s t => s.number < t.number := by
    rw [ticketsOf, List.getElem?_map]
    rcases hb : w.batches[i]? with _ | b
    · exact List.Pairwise.nil
    · exact h.pairwise_tickets.1 b (List.mem_of_getElem? hb)
  rw [List.pairwise_iff_getElem] at htickets ⊢
  intro k l hk hl hkl
  simp only [given, List.getElem_zip]
  exact htickets k l _ _ hkl

/-- No ticket is given twice. -/
theorem Accounted.nodup_given (h : Accounted u w) {order : List Nat} (hnodup : order.Nodup) :
    ((order.flatMap w.given).map fun p => p.1.number).Nodup := by
  rw [List.nodup_iff_pairwise_ne, List.pairwise_map, List.pairwise_flatMap]
  constructor
  · exact fun i _ => (h.pairwise_given i).imp Nat.ne_of_lt
  · refine hnodup.imp fun hne p hp q hq heq => ?_
    exact hne (h.inBatch_unique (inBatch_of_mem_given hp) (inBatch_of_mem_given hq) heq)

end Tickets

/-! ### What is given of a batch -/

/-- Only statements of a batch are given to send it, in order and from the first one on. -/
def GivesInOrder (w : SharedWork κ β) : Prop :=
  ∀ b ∈ w.batches, ∀ calls, b.calls = some calls →
    calls.filterMap Call.statement? <+: b.statements

theorem Does.givesInOrder (hdoes : Does u w c w') (h : GivesInOrder w) : GivesInOrder w' := by
  cases hdoes with
  | refused _ _ => exact h
  | queued _ _ _ => exact h
  | entered _ _ _ => exact h
  | idle _ _ => exact h
  | taken _ _ =>
    intro b hb calls hcalls
    rcases List.mem_append.mp hb with hb | hb
    · exact h b hb calls hcalls
    · obtain rfl := List.mem_singleton.mp hb
      cases hcalls
  | sent _ hb hsends =>
    intro b' hb' calls hcalls
    rcases List.mem_or_eq_of_mem_set hb' with hb' | rfl
    · exact h b' hb' calls hcalls
    · obtain rfl := Option.some.inj hcalls
      exact hsends.statements
  | settled _ => exact h

section Given

omit [DecidableEq κ] [Engine β]

/-- The tickets of a batch and the statements that were given of it. -/
theorem Accounted.exists_queued (h : Accounted u w) (hgives : GivesInOrder w) (i : Nat) :
    ∃ queued, IsQueueOf u.dialect (w.ticketsOf i) queued ∧
      (w.callsFor i).filterMap Call.statement? <+: queued.map (·.statement) := by
  rw [ticketsOf, callsFor, List.getElem?_map]
  rcases hb : w.batches[i]? with _ | b
  · exact ⟨[], rfl, List.prefix_rfl⟩
  · have hmem := List.mem_of_getElem? hb
    obtain ⟨queued, hqueue, hstatements⟩ := h.batch b hmem
    refine ⟨queued, hqueue, ?_⟩
    rw [← hstatements, Option.bind_some]
    rcases hcalls : b.calls with _ | calls
    · exact List.nil_prefix
    · exact hgives b hmem calls hcalls

theorem Accounted.map_snd_given (h : Accounted u w) (hgives : GivesInOrder w) (i : Nat) :
    (w.given i).map Prod.snd = (w.callsFor i).filterMap Call.statement? := by
  obtain ⟨queued, hqueue, hprefix⟩ := h.exists_queued hgives i
  have hlength := congrArg List.length hqueue
  have hle := hprefix.length_le
  simp only [List.length_mapIdx, List.length_map] at hlength hle
  exact List.map_snd_zip (by omega)

/-- What is given with a ticket is the statement of its mutation. -/
theorem Accounted.compile_of_mem_given (h : Accounted u w) (hgives : GivesInOrder w) {i : Nat}
    {p : Ticket × Statement} (hp : p ∈ w.given i) :
    ∃ k q, p.1.mutation.compile u.dialect k = .ok q ∧ q.statement = p.2 := by
  obtain ⟨queued, hqueue, hprefix⟩ := h.exists_queued hgives i
  obtain ⟨k, hk⟩ := List.mem_iff_getElem?.mp hp
  obtain ⟨hticket, hstatement⟩ := List.getElem?_zip_eq_some.mp hk
  -- the statement at a place of the batch is the one that the ticket at this place compiles to
  obtain ⟨q, hq, hqueued⟩ : ∃ q, queued[k]? = some q ∧ q.statement = p.2 := by
    obtain ⟨rest, hrest⟩ := hprefix
    obtain ⟨hlt, -⟩ := List.getElem?_eq_some_iff.mp hstatement
    have happend : ((w.callsFor i).filterMap Call.statement? ++ rest)[k]? = some p.2 :=
      (List.getElem?_append_left hlt).trans hstatement
    rw [hrest, List.getElem?_map] at happend
    exact Option.map_eq_some_iff.mp happend
  have hcompile := congrArg (·[k]?) hqueue
  simp only [List.getElem?_mapIdx, List.getElem?_map, hticket, hq, Option.map_some] at hcompile
  exact ⟨k, q, Option.some.inj hcompile, hqueued⟩

end Given

/-! ### The order of statements -/

/-- A batch has the same tickets in the rest of a run. -/
theorem inBatch_iff_of_run {before rest : List (κ × Section)} {v : SharedWork κ β}
    (hrun : run u (before ++ rest) w = some w') (hbefore : run u before w = some v) {i : Nat}
    (hlt : i < v.batches.length) {ticket : Ticket} : w'.InBatch i ticket ↔ v.InBatch i ticket := by
  rw [run_append, hbefore, Option.bind_some] at hrun
  have hprefix : v.batches.map (·.tickets) <+: w'.batches.map (·.tickets) := by
    refine run_induction
      (motive := fun x => v.batches.map (·.tickets) <+: x.batches.map (·.tickets))
      ?_ hrun List.prefix_rfl
    intro x x' c hdoes h
    exact h.trans hdoes.tickets_prefix
  obtain ⟨later, hlater⟩ := hprefix
  have hlt : i < (v.batches.map (·.tickets)).length := by rwa [List.length_map]
  rw [← mem_ticketsOf, ← mem_ticketsOf, ticketsOf, ticketsOf, ← hlater,
    List.getElem?_append_left hlt]

omit [DecidableEq κ] [Engine β] in
theorem InHand.lt_length (h : InHand w) {i : Nat} (hholds : w.Holds c i) :
    i < w.batches.length := by
  obtain ⟨b, hb, -⟩ := h.holds c i hholds
  exact (List.getElem?_eq_some_iff.mp hb).1

section Order

variable {moves : List (κ × Section)} {e : β} {s t : Ticket} {i j : Nat}

/-- A ticket overtakes another one exactly if its batch is sent while the batch of the other one is
in the hands of another client. -/
theorem overtakes_iff (hrun : run u moves { engine := e } = some w) (hs : w.InBatch i s)
    (ht : w.InBatch j t) :
    Overtakes u moves { engine := e } t s ↔
      ∃ before rest v c x, moves = before ++ (c, .send) :: rest ∧
        run u before { engine := e } = some v ∧ v.Holds c j ∧ x ≠ c ∧ v.Holds x i := by
  have haccounted := (coherent_of_run hrun).toAccounted
  constructor
  · rintro ⟨before, rest, v, c, x, i', j', rfl, hbefore, hc, ht', hne, hx, hs'⟩
    have hinhand := (coherent_of_run hbefore).toInHand
    have hs' := (inBatch_iff_of_run hrun hbefore (hinhand.lt_length hx)).mpr hs'
    have ht' := (inBatch_iff_of_run hrun hbefore (hinhand.lt_length hc)).mpr ht'
    obtain rfl := haccounted.inBatch_unique hs' hs rfl
    obtain rfl := haccounted.inBatch_unique ht' ht rfl
    exact ⟨before, rest, v, c, x, rfl, hbefore, hc, hne, hx⟩
  · rintro ⟨before, rest, v, c, x, rfl, hbefore, hc, hne, hx⟩
    have hinhand := (coherent_of_run hbefore).toInHand
    have hs' := (inBatch_iff_of_run hrun hbefore (hinhand.lt_length hx)).mp hs
    have ht' := (inBatch_iff_of_run hrun hbefore (hinhand.lt_length hc)).mp ht
    exact ⟨before, rest, v, c, x, i, j, rfl, hbefore, hc, ht', hne, hx, hs'⟩

/-- Tickets of one batch do not overtake each other. -/
theorem not_overtakes_of_inBatch (hrun : run u moves { engine := e } = some w)
    (hs : w.InBatch i s) (ht : w.InBatch i t) : ¬ Overtakes u moves { engine := e } t s := by
  intro h
  obtain ⟨before, rest, v, c, x, rfl, hbefore, hc, hne, hx⟩ := (overtakes_iff hrun hs ht).mp h
  have hinhand := (coherent_of_run hbefore).toInHand
  obtain ⟨b, hb, hcalls⟩ := hinhand.holds c i hc
  exact hne ((hinhand.held i b hb hcalls).unique hx hc)

variable {p q : Ticket × Statement}

/-- Of two tickets in the log the one that was issued first comes first, unless the other one
overtakes it. -/
theorem pair_sublist_log_iff (hrun : run u moves { engine := e } = some w)
    (hi : i ∈ sendOrder u moves { engine := e }) (hj : j ∈ sendOrder u moves { engine := e })
    (hp : p ∈ w.given i) (hq : q ∈ w.given j) (hlt : p.1.number < q.1.number) :
    [p, q].Sublist ((sendOrder u moves { engine := e }).flatMap w.given) ↔
      ¬ Overtakes u moves { engine := e } q.1 p.1 := by
  have haccounted := (coherent_of_run hrun).toAccounted
  have horder := (sent_sendOrder (coherent_new u e) hrun).nodup
  have hpi := inBatch_of_mem_given hp
  have hqj := inBatch_of_mem_given hq
  have hne : p ≠ q := by
    rintro rfl
    omega
  rcases Nat.lt_trichotomy i j with hij | rfl | hji
  -- different batches: what counts is which of them is sent first
  · rw [overtakes_iff hrun hpi hqj, ← pair_sublist_sendOrder_iff hrun hij hi hj]
    have hnodup := List.Nodup.of_map _ (haccounted.nodup_given horder)
    rcases pair_sublist_or hi hj (Nat.ne_of_lt hij) with hfirst | hlast
    · exact iff_of_true (pair_sublist_flatMap hfirst hp hq)
        (not_pair_sublist_of_nodup horder hfirst)
    · exact iff_of_false (not_pair_sublist_of_nodup hnodup (pair_sublist_flatMap hlast hq hp))
        (not_not_intro hlast)
  -- one batch: it is given in the order of issue
  · refine iff_of_true ?_ (not_overtakes_of_inBatch hrun hpi hqj)
    have hsorted : ∀ {p q}, [p, q].Sublist (w.given i) → p.1.number < q.1.number :=
      List.pairwise_iff_forall_sublist.mp (haccounted.pairwise_given i)
    have hgiven : (w.given i).Sublist ((sendOrder u moves { engine := e }).flatMap w.given) := by
      rw [List.flatMap_def]
      exact List.sublist_flatten_of_mem (List.mem_map_of_mem hi)
    rcases pair_sublist_or hp hq hne with hfirst | hlast
    · exact hfirst.trans hgiven
    · have hback := hsorted hlast
      omega
  · have hback := haccounted.number_lt hqj hpi hji
    omega

end Order

/-- **The order of sending.** In any run of any clients, the statements that the engine is given are
those of the tickets in the log, in this order, and each ticket is in the log once at most. Of two
tickets in it the one that was issued first comes first, unless the batch of the other one is sent
while another client has the batch of the first one in its hands. -/
theorem run_log (u : UnitOfWork) (e : β) {moves : List (κ × Section)}
    (hrun : run u moves { engine := e } = some w) :
    let order := sendOrder u moves { engine := e }
    let log := order.flatMap w.given
    log.map Prod.snd = (order.flatMap w.callsFor).filterMap Call.statement? ∧
      (∀ p ∈ log, ∃ k q, p.1.mutation.compile u.dialect k = .ok q ∧ q.statement = p.2) ∧
      (log.map fun p => p.1.number).Nodup ∧
      ∀ p ∈ log, ∀ q ∈ log, p.1.number < q.1.number →
        ([p, q].Sublist log ↔ ¬ Overtakes u moves { engine := e } q.1 p.1) := by
  intro order log
  have haccounted := (coherent_of_run hrun).toAccounted
  have hgives : GivesInOrder w := run_induction Does.givesInOrder hrun nofun
  have horder : order.Nodup := (sent_sendOrder (coherent_new u e) hrun).nodup
  refine ⟨?_, ?_, haccounted.nodup_given horder, ?_⟩
  · rw [List.map_flatMap, List.filterMap_flatMap]
    exact List.flatMap_congr fun i _ => haccounted.map_snd_given hgives i
  · intro p hp
    obtain ⟨i, -, hp⟩ := List.mem_flatMap.mp hp
    exact haccounted.compile_of_mem_given hgives hp
  · intro p hp q hq hlt
    obtain ⟨i, hi, hp⟩ := List.mem_flatMap.mp hp
    obtain ⟨j, hj, hq⟩ := List.mem_flatMap.mp hq
    exact pair_sublist_log_iff hrun hi hj hp hq hlt

/-- A client takes its delete, another one queues two deletes, takes and sends them, and only then
the first one sends. -/
def overtaking : List (Bool × Section) :=
  [(true, .queue deleteUser), (true, .take), (false, .queue deleteUser),
    (false, .queue deleteUser), (false, .take), (false, .send), (true, .send)]

theorem exists_overtaking :
    ∃ (w : SharedWork Bool Script) (first second third : Ticket × Statement),
      run defaultUnit overtaking { engine := {} } = some w ∧
      (sendOrder defaultUnit overtaking
        ({ engine := {} } : SharedWork Bool Script)).flatMap w.given = [second, third, first] ∧
      first.1.number = 0 ∧ second.1.number = 1 ∧ third.1.number = 2 ∧
      ¬ [first, second].Sublist [second, third, first] := by
  obtain ⟨w, hrun, first, second, third, hlog, hfirst, hsecond, hthird⟩ :
      ∃ w : SharedWork Bool Script, run defaultUnit overtaking { engine := {} } = some w ∧
        ∃ first second third, (sendOrder defaultUnit overtaking
          ({ engine := {} } : SharedWork Bool Script)).flatMap w.given = [second, third, first] ∧
          first.1.number = 0 ∧ second.1.number = 1 ∧ third.1.number = 2 :=
    ⟨_, rfl, _, _, _, rfl, rfl, rfl, rfl⟩
  refine ⟨w, first, second, third, hrun, hlog, hfirst, hsecond, hthird, fun hpair => ?_⟩
  have hnumbers : [first.1.number, second.1.number].Sublist
      [second.1.number, third.1.number, first.1.number] :=
    hpair.map fun p : Ticket × Statement => p.1.number
  rw [hfirst, hsecond, hthird] at hnumbers
  exact absurd hnumbers (by decide)

/-- The deletes of the second client overtake that of the first one, and not each other. -/
theorem run_log_overtaking :
    ∃ (w : SharedWork Bool Script) (first second third : Ticket × Statement),
      run defaultUnit overtaking { engine := {} } = some w ∧
      (sendOrder defaultUnit overtaking
        ({ engine := {} } : SharedWork Bool Script)).flatMap w.given = [second, third, first] ∧
      first.1.number = 0 ∧ second.1.number = 1 ∧ third.1.number = 2 ∧
      Overtakes defaultUnit overtaking ({ engine := {} } : SharedWork Bool Script)
        second.1 first.1 ∧
      ¬ Overtakes defaultUnit overtaking ({ engine := {} } : SharedWork Bool Script)
        third.1 second.1 := by
  obtain ⟨w, first, second, third, hrun, hlog, hfirst, hsecond, hthird, hnot⟩ := exists_overtaking
  obtain ⟨-, -, -, horder⟩ := run_log defaultUnit ({} : Script) hrun
  rw [hlog] at horder
  refine ⟨w, first, second, third, hrun, hlog, hfirst, hsecond, hthird, ?_, ?_⟩
  · by_contra hovertakes
    exact hnot ((horder first (by simp) second (by simp) (by omega)).mpr hovertakes)
  · exact (horder second (by simp) third (by simp) (by omega)).mp (by simp)

/-- What was queued first is not always sent first. -/
theorem not_sent_as_queued :
    ∃ w : SharedWork Bool Script, run defaultUnit overtaking { engine := {} } = some w ∧
      let log := (sendOrder defaultUnit overtaking
        ({ engine := {} } : SharedWork Bool Script)).flatMap w.given
      ∃ p ∈ log, ∃ q ∈ log, p.1.number < q.1.number ∧ ¬ [p, q].Sublist log := by
  obtain ⟨w, first, second, third, hrun, hlog, hfirst, hsecond, -, hnot⟩ := exists_overtaking
  refine ⟨w, hrun, ?_⟩
  dsimp only
  rw [hlog]
  exact ⟨first, by simp, second, by simp, by omega, hnot⟩

end SharedWork

end EntitySql
