import EntitySql.Proofs.ClauseAnswer

/-!
# What a failed call leaves

A call asks for its slots one after another, and one that fails has asked for those of the
constants before the place where it fails (`Scope.requestsOf`). What it leaves is the bind table
after these requests (`binds_afterCall`): nothing is taken back. So a failed call leaves no trace
exactly if every slot that it asked for was there before. Select lists and orderings ask for none.

The main statement, `failed_traceless_iff`, is about any call that fails on any draft, and what it
says of the table it says of everything that can be seen later: the next call, whichever it is,
comes to what it would have come to without the failed one. That the table is all there is to see
is `perform_result`; that a new slot is seen by some call is shown by a select list of nothing.
-/

namespace EntitySql

open Drafting

/-! ### Requests that find their slots -/

namespace BindTable

variable {d : Dialect}

/-- The table has a slot for the request. -/
def Knows (t : BindTable) (r : String × Value) : Prop :=
  (t.find? r.1 r.2).isSome = true

instance (t : BindTable) (r : String × Value) : Decidable (t.Knows r) :=
  inferInstanceAs (Decidable (_ = true))

/-- A request leaves the table as it is exactly if it finds a slot there. -/
theorem bind_snd_eq_self_iff (t : BindTable) (r : String × Value) :
    (t.bind d r.1 r.2).2 = t ↔ t.Knows r := by
  rw [Knows, bind]
  cases t.find? r.1 r.2 with
  | some s => exact iff_of_true rfl rfl
  | none =>
    refine iff_of_false (fun h => ?_) Bool.false_ne_true
    have hlength := congrArg (fun u => u.slots.length) h
    simp at hlength

/-- Requests leave the table as it is exactly if each of them finds a slot there. -/
theorem bindAll_eq_self_iff (t : BindTable) (requests : List (String × Value)) :
    t.bindAll d requests = t ↔ ∀ r ∈ requests, t.Knows r := by
  induction requests with
  | nil => exact iff_of_true rfl nofun
  | cons r rest ih =>
    have hstep : t.bindAll d (r :: rest) = (t.bind d r.1 r.2).2.bindAll d rest := rfl
    rw [List.forall_mem_cons, hstep]
    constructor
    · intro h
      -- the first request cannot have appended a slot, since later ones take none away
      have hfirst : t.Knows r := by
        have hgrows : (t.bind d r.1 r.2).2.Grows d t := ⟨rest, h.symm⟩
        have hlength := hgrows.isPrefix.length_le
        rw [Knows]
        cases hfind : t.find? r.1 r.2 with
        | some s => rfl
        | none =>
          rw [bind, hfind, List.length_append, List.length_singleton] at hlength
          omega
      rw [(t.bind_snd_eq_self_iff r).mpr hfirst] at h
      exact ⟨hfirst, ih.mp h⟩
    · rintro ⟨hr, hrest⟩
      rw [(t.bind_snd_eq_self_iff r).mpr hr]
      exact ih.mpr hrest

end BindTable

namespace Scope

variable (c : Scope)

/-! ### Calls -/

/-- What a call asks slots for: the values with their columns, in the order in which they stand. A
call that fails asks for those before the place where it fails. -/
def requestsOf : ClauseCall → List (String × Value)
  | .filter e => (c.clauseTemplate (.filter e)).requests
  | .assignment e => (c.clauseTemplate (.assignment e)).requests
  | .select _ | .selectItems _ | .order _ | .orderItems _ => []
  | .entityAssignment entity | .insert entity => c.writableValues entity

theorem binds_afterCall_eq (d : Draft) (call : ClauseCall) :
    (c.afterCall d call).binds = ((c.perform call).result d).2 := by
  rw [← after_perform, after, result]
  cases c.perform call d <;> rfl

/-- A call leaves the bind table after its requests, also when it fails. -/
theorem binds_afterCall (d : Draft) (call : ClauseCall) :
    (c.afterCall d call).binds = d.binds.bindAll c.dialect (c.requestsOf call) := by
  rw [binds_afterCall_eq, perform_result]
  cases call with
  | filter e => exact c.fill_snd _ d.binds
  | assignment e => exact c.fill_snd _ d.binds
  | _ => rfl

/-- **A failed call leaves no trace** exactly if the bind table knows every value that the call
asked a slot for before it failed. Then the next call, whichever it is, comes to what it would
have come to without the failed one; and otherwise some call does not. -/
theorem failed_traceless_iff {d : Draft} {call : ClauseCall} {e : SqlError} {u : BindTable}
    (h : (c.perform call).result d = (.error e, u)) :
    u = d.binds.bindAll c.dialect (c.requestsOf call) ∧
      (u = d.binds ↔ ∀ r ∈ c.requestsOf call, d.binds.Knows r) ∧
      ((∀ next, (c.perform next).result (c.afterCall d call) = (c.perform next).result d) ↔
        ∀ r ∈ c.requestsOf call, d.binds.Knows r) := by
  have hleft : (c.afterCall d call).binds = u := by
    rw [binds_afterCall_eq, h]
  have hbinds := c.binds_afterCall d call
  have htable : u = d.binds ↔ ∀ r ∈ c.requestsOf call, d.binds.Knows r := by
    rw [← hleft, hbinds]
    exact d.binds.bindAll_eq_self_iff (c.requestsOf call)
  refine ⟨hleft.symm.trans hbinds, htable, ?_⟩
  rw [← htable, ← hleft]
  constructor
  · intro hnext
    -- a select list of nothing binds nothing, so what it leaves is what it found
    have hselect := hnext (.select [])
    rw [perform_result, perform_result] at hselect
    exact (Prod.mk.inj hselect).2
  · intro hsame next
    rw [perform_result, perform_result, hsame]

end Scope

/-- A type with a number. -/
def tickets : EntityMap where
  entity := "Ticket"
  table := "tickets"
  fields := [⟨"Number", ⟨"number", false, true, .scalar⟩⟩]
  key := none

/-- The number is the one given. -/
def numberIs (n : Fin 10) : Expr :=
  .binary .eq (.ofMember "Number") (.constant (.text (toString n)))

/-- The number is the one given, and something that is no condition. -/
def brokenAfter (n : Fin 10) : Expr :=
  .conj (numberIs n) (.parameter "o")

/-- The failed filter asks for a slot that an earlier one has bound. The next filter gets the
second slot, as it would have without the failure. -/
theorem failed_traceless_iff_knownNumber :
    let c : Scope := ⟨tickets, .sqlServer⟩
    let d := c.draftAfter [.filter (numberIs 1)] (Draft.fresh 0)
    (c.perform (.filter (brokenAfter 1))).result d
        = (.error (.unsupported .parameter .predicate), d.binds) ∧
      (∀ r ∈ c.requestsOf (.filter (brokenAfter 1)), d.binds.Knows r) ∧
      ∀ next, (c.perform next).result (c.afterCall d (.filter (brokenAfter 1)))
        = (c.perform next).result d := by
  intro c d
  have hfails : (c.perform (.filter (brokenAfter 1))).result d
      = (.error (.unsupported .parameter .predicate), d.binds) := rfl
  have hknown : ∀ r ∈ c.requestsOf (.filter (brokenAfter 1)), d.binds.Knows r := by decide
  obtain ⟨-, -, hnext⟩ := c.failed_traceless_iff hfails
  exact ⟨hfails, hknown, hnext.mpr hknown⟩

/-- A failed filter on a fresh draft leaves its first slot, and the next filter gets another name
for its own. -/
theorem failed_leavesSlot :
    let c : Scope := ⟨tickets, .sqlServer⟩
    let d := c.afterCall (Draft.fresh 0) (.filter (brokenAfter 1))
    ((c.perform (.filter (brokenAfter 1))).result (Draft.fresh 0)).1
        = .error (.unsupported .parameter .predicate) ∧
      d.binds.slots.length = 1 ∧
      ((c.filterSql (numberIs 2)).result d).1 = .ok (some "[number] = @p0_number_1") ∧
      ((c.filterSql (numberIs 2)).result (Draft.fresh 0)).1 = .ok (some "[number] = @p0_number") :=
  ⟨rfl, rfl, rfl, rfl⟩

end EntitySql
