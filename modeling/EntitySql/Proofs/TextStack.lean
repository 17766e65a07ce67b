import EntitySql.Proofs.Faults

/-!
# The stack of texts

A clause is written with its unfinished parts on a stack, and a writer takes the parts of a node
back once all of them are written. `Drafting.Adds n` is what a writer may rely on in its parts:
whatever stands on the stack stays there, a success puts `n` texts on top of it, and a failure,
which may leave some of them, is not `SqlError.underflow`. This is the error of taking a text back
from an empty stack, and no writer catches errors; so nothing is ever taken back that is not there.

The main statement, `adds_texts`: a filter and an operand add one text each. A tree of assignments
adds one for each assignment, but an assignment may also stand below a member, at the root of a
chain, and there it is passed over like any other root (`emitAssignments_belowMember`). Hence no
clause fails with an underflow.

Writers fail as their templates do, and a template that stops has a fault, whose error is another
one (`Fault.error_ne_underflow`).
-/

namespace EntitySql

/-! ### Counting assignments -/

namespace Expr

mutual

/-- The number of assignments in a tree, with those that stand below a member or without them. -/
def assignCount (below : Bool) : Expr → Nat
  | .parameter _ | .constant _ => 0
  | .member owner _ => if below then owner.assignCount below else 0
  | .convert inner | .not inner => inner.assignCount below
  | .binary _ left right => left.assignCount below + right.assignCount below
  | .call _ target args => target.assignCount below + allAssignCount below args
  | .record items => allAssignCount below items
  | .lambda _ body => body.assignCount below
  | .assign target value => 1 + target.assignCount below + value.assignCount below
  | .conditional test whenTrue whenFalse =>
    test.assignCount below + whenTrue.assignCount below + whenFalse.assignCount below

/-- The number of assignments in several trees. -/
def allAssignCount (below : Bool) : List Expr → Nat
  | [] => 0
  | e :: es => e.assignCount below + allAssignCount below es

end

end Expr

namespace EntityMap

variable {m : EntityMap} {d : Dialect}

theorem Resolves.assignCount {e : Expr} {f : MappedField} (h : m.Resolves e f) :
    e.assignCount false = 0 := by
  obtain ⟨owner, name, rfl⟩ := h.eq_member
  rfl

/-- An operand has assignments below members only. -/
theorem IsOperand.assignCount {e : Expr} (h : m.IsOperand e) : e.assignCount false = 0 := by
  induction h with
  | member hresolves => exact hresolves.assignCount
  | constant value => rfl
  | convert _ ih => exact ih
  | arithmetic _ _ _ ihl ihr => rw [Expr.assignCount, ihl, ihr]

mutual

/-- The assignments of an update are all that it has, but for those below members. -/
theorem IsUpdate.assignCount : ∀ {e : Expr}, m.IsUpdate d e →
    e.assignCount false = e.assignments.length
  | .lambda _ _, h => by
    rw [Expr.assignCount, Expr.assignments, (isUpdate_lambda.mp h).assignCount]
  | .record _, h => by
    rw [Expr.assignCount, Expr.assignments, allAssignCount_of_isUpdate (isUpdate_record.mp h)]
  | .assign _ _, h => by
    obtain ⟨f, htarget, -, hvalue⟩ := isUpdate_assign.mp h
    rw [Expr.assignCount, htarget.assignCount, hvalue.assignCount]
    rfl

theorem allAssignCount_of_isUpdate : ∀ {es : List Expr}, (∀ e ∈ es, m.IsUpdate d e) →
    Expr.allAssignCount false es = (Expr.allAssignments es).length
  | [], _ => rfl
  | _ :: _, h => by
    obtain ⟨he, hes⟩ := List.forall_mem_cons.mp h
    rw [Expr.allAssignCount, Expr.allAssignments, List.length_append, he.assignCount,
      allAssignCount_of_isUpdate hes]

end

end EntityMap

/-! ### Errors of writers -/

/-- No fault is reported as a missing text. -/
theorem Fault.error_ne_underflow (c : Scope) (clause : ClauseKind) (fault : Fault) :
    fault.error c clause ≠ .underflow := by
  cases fault with
  | notWritable f =>
    -- both are errors of one kind, but their texts begin differently
    intro h
    have htexts := congrArg (·.toList.head?) (SqlError.query.inj h)
    simp [String.toList_append] at htexts
  | _ => nofun

namespace Scope

variable {c : Scope}

theorem firstError_ne_underflow (clause : ClauseKind) (faults : List Fault) :
    c.firstError clause faults ≠ some .underflow := by
  rw [firstError]
  intro h
  obtain ⟨fault, -, hfault⟩ := Option.map_eq_some_iff.mp h
  exact fault.error_ne_underflow c clause hfault

/-- Templates in turn fail with the first error among them. -/
theorem mapM_write_eq_error {ts : List Template} {t u : BindTable} {e : SqlError}
    (h : ts.mapM c.write t = .error e u) : ts.findSome? (·.stop?) = some e := by
  rw [← Template.stop?_join ""]
  exact (write_eq_error.mp (write_join_eq_error h "")).1

end Scope

/-! ### What writers do to the stack -/

namespace Drafting

/-- Whatever stands on the stack stays there. A success puts `n` texts on top of it, and a failure
is not that a text was missing. -/
def Adds (n : Nat) (p : Drafting Unit) : Prop :=
  ∀ d, match p d with
    | .ok _ d' => ∃ texts, texts.length = n ∧ d'.texts.toList = d.texts.toList ++ texts
    | .error e d' => d.texts.toList <+: d'.texts.toList ∧ e ≠ .underflow

/-- A writer adds as many texts as the other program gives. -/
theorem WritesAll.adds {n : Nat} {p : Drafting Unit} {q : Binding (List String)}
    (h : WritesAll p q) (hok : ∀ {t texts u}, q t = .ok texts u → texts.length = n)
    (herror : ∀ {t e u}, q t = .error e u → e ≠ .underflow) : Adds n p := by
  intro d
  have hd := h d
  cases hq : q d.binds with
  | ok texts u =>
    rw [hq] at hd
    dsimp only at hd
    rw [hd]
    exact ⟨texts, hok hq, by simp [Stack.toList]⟩
  | error e u =>
    rw [hq] at hd
    obtain ⟨left, hleft⟩ := hd
    rw [hleft]
    exact ⟨⟨left.reverse, by simp [Stack.toList]⟩, herror hq⟩

/-- A writer of templates adds a text for each of them. -/
theorem WritesAll.adds_of_templates {c : Scope} {clause : ClauseKind} {ts : List Template}
    {faults : List Fault} {n : Nat} {p : Drafting Unit} (h : WritesAll p (ts.mapM c.write))
    (hfaults : ts.findSome? (·.stop?) = c.firstError clause faults)
    (hn : (∀ s ∈ ts, s.stop? = none) → ts.length = n) : Adds n p := by
  refine h.adds (fun hq => ?_) fun hq he => ?_
  · obtain ⟨hstop, hlength⟩ := Scope.mapM_write_eq_ok hq
    exact hlength.trans (hn hstop)
  · have herror := Scope.mapM_write_eq_error hq
    rw [hfaults, he] at herror
    exact Scope.firstError_ne_underflow clause faults herror

/-- A writer of one template adds its text. -/
theorem Writes.adds_of_template {c : Scope} {clause : ClauseKind} {t : Template}
    {faults : List Fault} {p : Drafting Unit} (h : Writes p (c.write t))
    (hfaults : t.stop? = c.firstError clause faults) : Adds 1 p := by
  have hall : WritesAll p ([t].mapM c.write) := by
    simpa using h.all
  exact hall.adds_of_templates (by rwa [List.findSome?_singleton]) fun _ => rfl

end Drafting

namespace Scope

open Drafting

variable (c : Scope)

theorem adds_emitFilter (e : Expr) : Adds 1 (c.emitFilter e) := by
  have hwrites := c.emitFilter_writes e
  rw [conditionText_eq] at hwrites
  exact hwrites.adds_of_template (stop?_conditionTemplate_eq e)

theorem adds_emitOperand (column : String) (clause : ClauseKind) (e : Expr) :
    Adds 1 (c.emitOperand column clause e) := by
  have hwrites := c.emitOperand_writes column clause e
  rw [operandText_eq] at hwrites
  exact hwrites.adds_of_template (stop?_operandTemplate_eq column clause e)

/-- What is written is an update, and its assignments are all that it has outside of chains. -/
theorem adds_emitAssignments (e : Expr) : Adds (e.assignCount false) (c.emitAssignments e) := by
  refine (c.emitAssignments_writes e).adds_of_templates (stop?_assignmentTemplates_eq e) ?_
  intro hstop
  have hupdate := (stop?_assignmentTemplates e).mp hstop
  rw [assignmentTemplates_eq hupdate, List.length_map, hupdate.assignCount]

/-- No call fails because a text was missing. -/
theorem perform_ne_underflow (call : ClauseCall) (d : Draft) :
    ((c.perform call).result d).1 ≠ .error .underflow := by
  intro h
  have herror := error?_answer (c := c) call d.binds
  rw [← perform_result, h] at herror
  exact firstError_ne_underflow call.kind (c.faults call) herror.symm

/-- What clauses do to the stack, whatever stands on it and whether they succeed or fail. -/
theorem adds_texts :
    (∀ e, Adds 1 (c.emitFilter e)) ∧
    (∀ column clause e, Adds 1 (c.emitOperand column clause e)) ∧
    (∀ e, Adds (e.assignCount false) (c.emitAssignments e)) ∧
    ∀ call d, ((c.perform call).result d).1 ≠ .error .underflow :=
  ⟨c.adds_emitFilter, c.adds_emitOperand, c.adds_emitAssignments, c.perform_ne_underflow⟩

end Scope

/-- Renames a person and puts the assignment below the member that is set. -/
def activatedRenaming : Expr :=
  .assign (.member (.assign (.ofMember "Name") (.constant (.text "Ada"))) "Active")
    (.constant (.bool true))

/-- The assignment below the member is passed over, so one text is added for the two. -/
theorem emitAssignments_belowMember :
    let c : Scope := ⟨people, BuiltinDialect.sqlServer.dialect⟩
    activatedRenaming.assignCount true = 2 ∧ activatedRenaming.assignCount false = 1 ∧
      (∃ d, c.emitAssignments activatedRenaming (Draft.fresh 0) = .ok () d ∧
        d.texts.toList = ["[active] = @p0_active"]) ∧
      ¬ Drafting.Adds (activatedRenaming.assignCount true)
        (c.emitAssignments activatedRenaming) := by
  intro c
  obtain ⟨d, hrun, htexts⟩ : ∃ d, c.emitAssignments activatedRenaming (Draft.fresh 0) = .ok () d ∧
      d.texts.toList = ["[active] = @p0_active"] := ⟨_, rfl, by decide⟩
  refine ⟨rfl, rfl, ⟨d, hrun, htexts⟩, fun hadds => ?_⟩
  have hfresh := hadds (Draft.fresh 0)
  rw [hrun] at hfresh
  obtain ⟨texts, htwo, hall⟩ := hfresh
  have hone : texts = ["[active] = @p0_active"] := hall.symm.trans htexts
  rw [hone] at htwo
  cases htwo

end EntitySql
