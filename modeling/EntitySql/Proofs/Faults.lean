import EntitySql.Proofs.ClauseAnswer
import EntitySql.Proofs.Leaves
import EntitySql.Proofs.PartialUpdates

/-!
# What errors say

A call can fail for four reasons: a node that the clause does not accept where it stands, another
node where a member chain has to stand, a member chain that stands for no field, and an assignment
to a column that may not be written. `Scope.faults` lists all of these in the trees of a call, from
left to right, without stopping at the first.

The main statement, `perform_reports`: a call succeeds if there are no faults, and fails with the
error of the first of them otherwise. The errors tell the faults apart with one exception. A node
that stands where a member chain has to stand is reported as a chain without a field, under the
name of its kind, and not as a node that is not accepted (`Fault.isNamedBy_error_iff`).
-/

namespace EntitySql

/-- The clause accepts the tree. -/
def Scope.Accepts (c : Scope) : ClauseKind → Expr → Prop
  | .predicate => c.map.IsFilter
  | .projection | .ordering => c.map.IsColumns
  | .assignment => c.map.IsUpdate c.dialect

/-! ### Parts of a tree -/

namespace Expr

/-- The trees directly below the root. -/
def children : Expr → List Expr
  | .parameter _ | .constant _ => []
  | .member owner _ => [owner]
  | .convert inner | .not inner => [inner]
  | .binary _ left right => [left, right]
  | .call _ target args => target :: args
  | .record items => items
  | .lambda _ body => [body]
  | .assign target value => [target, value]
  | .conditional test whenTrue whenFalse => [test, whenTrue, whenFalse]

/-- The tree is a part of another. -/
inductive Within (part : Expr) : Expr → Prop where
  | refl : Within part part
  | inside {child e : Expr} : child ∈ e.children → Within part child → Within part e

theorem Within.trans {a b e : Expr} (hab : a.Within b) (hbe : b.Within e) : a.Within e := by
  induction hbe with
  | refl => exact hab
  | inside hchild _ ih => exact .inside hchild ih

theorem within_iff {part e : Expr} :
    part.Within e ↔ part = e ∨ ∃ child ∈ e.children, part.Within child := by
  constructor
  · rintro (_ | ⟨hchild, h⟩)
    · exact .inl rfl
    · exact .inr ⟨_, hchild, h⟩
  · rintro (rfl | ⟨child, hchild, h⟩)
    · exact .refl
    · exact .inside hchild h

/-- A constant has no other parts. -/
theorem within_constant_iff {part : Expr} {value : Value} :
    part.Within (.constant value) ↔ part = .constant value := by
  rw [within_iff]
  simp [children]

theorem within_unconverted (e : Expr) : e.unconverted.Within e := by
  fun_induction unconverted e with
  | case1 inner ih => exact .inside (List.mem_singleton_self _) ih
  | case2 e => exact .refl

mutual

theorem within_of_mem_leaves : ∀ {e leaf : Expr}, leaf ∈ e.leaves → leaf.Within e
  | .lambda _ _, _, h => .inside (List.mem_singleton_self _) (within_of_mem_leaves h)
  | .convert _, _, h => .inside (List.mem_singleton_self _) (within_of_mem_leaves h)
  | .record _, _, h => by
    obtain ⟨e, he, hleaf⟩ := within_of_mem_allLeaves h
    exact .inside he hleaf
  | .member _ _, _, h | .parameter _, _, h | .constant _, _, h | .not _, _, h | .binary _ _ _, _, h
  | .call _ _ _, _, h | .assign _ _, _, h | .conditional _ _ _, _, h => by
    obtain rfl := List.mem_singleton.mp h
    exact .refl

theorem within_of_mem_allLeaves : ∀ {es : List Expr} {leaf : Expr}, leaf ∈ allLeaves es →
    ∃ e ∈ es, leaf.Within e
  | e :: es, leaf, h => by
    obtain h | h := List.mem_append.mp h
    · exact ⟨e, List.mem_cons_self, within_of_mem_leaves h⟩
    · obtain ⟨e', he', hleaf⟩ := within_of_mem_allLeaves h
      exact ⟨e', List.mem_cons_of_mem _ he', hleaf⟩

end

end Expr

/-! ### Faults -/

/-- What can be wrong with a tree. -/
inductive Fault where
  /-- A node that the clause does not accept where it stands. -/
  | refused (node : Expr)
  /-- Another node where a member chain has to stand. -/
  | noMember (node : Expr)
  /-- A member chain that stands for no field. -/
  | unresolved (chain : Expr)
  /-- An assignment to a column that may not be written. -/
  | notWritable (f : MappedField)

namespace Fault

/-- The fault is one of the tree: the node at fault is a part of it, and is what the fault says. -/
def IsIn (c : Scope) (e : Expr) : Fault → Prop
  | .refused node => node.Within e
  | .noMember node => node.Within e ∧ node.kind ≠ .memberAccess
  | .unresolved chain =>
    chain.Within e ∧ chain.kind = .memberAccess ∧ ¬ ∃ f, c.map.Resolves chain f
  | .notWritable f =>
    ∃ target, target.Within e ∧ c.map.Resolves target f ∧ c.isWritable f = false

/-- The error of a fault. -/
def error (c : Scope) (clause : ClauseKind) : Fault → SqlError
  | .refused node => .unsupported node.kind clause
  | .noMember node => .unmapped c.map.entity node.kind.name
  | .unresolved chain => .unmapped c.map.entity
    (match c.nearest? chain with
      | some f => f.member
      | none => chain.chainText)
  | .notWritable f => .notWritable f.column.name c.map.entity

/-- The error names the fault: a node that is not accepted by its kind and the clause, and a
chain without a field as such. -/
def IsNamedBy (c : Scope) (clause : ClauseKind) (error : SqlError) : Fault → Prop
  | .refused node | .noMember node => error = .unsupported node.kind clause
  | .unresolved _ => ∃ name, error = .unmapped c.map.entity name
  | .notWritable f => error = .notWritable f.column.name c.map.entity

/-- All faults but one kind are named by their errors. -/
theorem isNamedBy_error_iff (c : Scope) (clause : ClauseKind) (fault : Fault) :
    fault.IsNamedBy c clause (fault.error c clause) ↔ ∀ node, fault ≠ .noMember node := by
  cases fault with
  | refused node => exact iff_of_true rfl nofun
  | noMember node => exact iff_of_false nofun fun h => h node rfl
  | unresolved chain => exact iff_of_true ⟨_, rfl⟩ nofun
  | notWritable f => exact iff_of_true rfl nofun

/-- A fault of a part is one of the whole. -/
theorem IsIn.within {c : Scope} {part e : Expr} {fault : Fault} (h : fault.IsIn c part)
    (hpart : part.Within e) : fault.IsIn c e := by
  cases fault with
  | refused node => exact h.trans hpart
  | noMember node => exact ⟨h.1.trans hpart, h.2⟩
  | unresolved chain => exact ⟨h.1.trans hpart, h.2⟩
  | notWritable f =>
    obtain ⟨target, htarget, hf⟩ := h
    exact ⟨target, htarget.trans hpart, hf⟩

theorem IsIn.below {c : Scope} {child e : Expr} {fault : Fault} (h : fault.IsIn c child)
    (hchild : child ∈ e.children) : fault.IsIn c e :=
  h.within (.inside hchild .refl)

end Fault

namespace ClauseCall

/-- The kind of the clause that is called for. -/
def kind : ClauseCall → ClauseKind
  | .filter _ => .predicate
  | .select _ | .selectItems _ => .projection
  | .order _ | .orderItems _ => .ordering
  | .assignment _ | .entityAssignment _ | .insert _ => .assignment

/-- The trees of a call. -/
def trees : ClauseCall → List Expr
  | .filter e | .assignment e => [e]
  | .select exprs | .selectItems exprs => exprs
  | .order keys | .orderItems keys => keys.map (·.expr)
  | .entityAssignment _ | .insert _ => []

end ClauseCall

namespace Scope

variable {c : Scope}

/-! ### The faults of a tree -/

/-- The faults of a position where a member chain has to stand. -/
def chainFaults (c : Scope) (e : Expr) : List Fault :=
  match c.resolve e with
  | .ok _ => []
  | .error _ => if e.kind = .memberAccess then [.unresolved e] else [.noMember e]

/-- The faults of an operand. -/
def operandFaults (c : Scope) : Expr → List Fault
  | .member owner name => c.chainFaults (.member owner name)
  | .constant _ => []
  | .convert inner => c.operandFaults inner
  | .binary op left right =>
    if op.isArithmetic then c.operandFaults left ++ c.operandFaults right
    else [.refused (.binary op left right)]
  | e => [.refused e]

/-- The faults of a call. The text of a match is looked at before its target. -/
def callFaults (c : Scope) (method : Callee) (target : Expr) (args : List Expr) : List Fault :=
  match args with
  | [] => [.refused (.call method target args)]
  | arg :: _ =>
    match CallForm.of method target arg with
    | .comparison => c.operandFaults target ++ c.operandFaults arg
    | .membership _ => c.chainFaults arg.unconverted
    | .textMatch owner name _ => c.chainFaults (.member owner name)
    | .badArgument => .refused arg :: c.chainFaults target.unconverted
    | .refused => [.refused (.call method target args)]

/-- The faults of a filter. -/
def filterFaults (c : Scope) : Expr → List Fault
  | .lambda _ body => c.filterFaults body
  | .convert inner => c.filterFaults inner
  | .binary op left right =>
    if op.isLogical then c.filterFaults left ++ c.filterFaults right
    else if op.isComparison then c.operandFaults left ++ c.operandFaults right
    else [.refused (.binary op left right)]
  | .member owner name => c.chainFaults (.member owner name)
  | .not inner => c.filterFaults inner
  | .call method target args => c.callFaults method target args
  | .constant (.bool _) => []
  | e => [.refused e]

/-- The faults of a leaf of a select list or an ordering. -/
def leafFaults (c : Scope) (leaf : Expr) : List Fault :=
  if leaf.kind = .memberAccess then c.chainFaults leaf else [.refused leaf]

/-- The faults of the target of an assignment. -/
def targetFaults (c : Scope) (target : Expr) : List Fault :=
  match c.resolve target with
  | .ok f => if c.isWritable f then [] else [.notWritable f]
  | .error _ => c.chainFaults target

mutual

/-- The faults of a partial update. -/
def updateFaults (c : Scope) : Expr → List Fault
  | .lambda _ body => c.updateFaults body
  | .record items => c.allUpdateFaults items
  | .assign target value => c.targetFaults target ++ c.operandFaults value
  | e => [.refused e]

/-- The faults of several partial updates. -/
def allUpdateFaults (c : Scope) : List Expr → List Fault
  | [] => []
  | e :: es => c.updateFaults e ++ c.allUpdateFaults es

end

/-- The faults of a call, from left to right. Whole entities have none. -/
def faults (c : Scope) : ClauseCall → List Fault
  | .filter e => c.filterFaults e
  | .select exprs | .selectItems exprs => (Expr.allLeaves exprs).flatMap c.leafFaults
  | .order keys | .orderItems keys => (Expr.allLeaves (keys.map (·.expr))).flatMap c.leafFaults
  | .assignment e => c.updateFaults e
  | .entityAssignment _ | .insert _ => []

end Scope

/-! ### The error of the first fault -/

/-- The error of an outcome, if it failed. -/
def error? {α : Type} : Except SqlError α → Option SqlError
  | .ok _ => none
  | .error e => some e

theorem error?_map {α β : Type} (f : α → β) (x : Except SqlError α) :
    error? (x.map f) = error? x := by
  cases x <;> rfl

theorem error?_outcome {α : Type} (t : Template) (a : α) : error? (t.outcome a) = t.stop? := by
  rw [Template.outcome]
  cases t.stop? <;> rfl

namespace Scope

open Drafting

variable {c : Scope}

/-- The error of the first fault, if there is one. -/
def firstError (c : Scope) (clause : ClauseKind) (faults : List Fault) : Option SqlError :=
  faults.head?.map (·.error c clause)

@[simp]
theorem firstError_nil (clause : ClauseKind) : c.firstError clause [] = none := rfl

@[simp]
theorem firstError_append (clause : ClauseKind) (faults more : List Fault) :
    c.firstError clause (faults ++ more)
      = (c.firstError clause faults).or (c.firstError clause more) := by
  cases faults <;> rfl

theorem firstError_eq_none_iff (clause : ClauseKind) {faults : List Fault} :
    c.firstError clause faults = none ↔ faults = [] := by
  cases faults <;> simp [firstError]

/-- What does not resolve is reported as its fault is. -/
theorem firstError_chainFaults {e : Expr} {error : SqlError} (clause : ClauseKind)
    (h : c.resolve e = .error error) : c.firstError clause (c.chainFaults e) = some error := by
  have herror : error = .unmapped c.map.entity
      (match c.nearest? e with
        | some f => f.member
        | none => e.chainText) := by
    rw [resolve] at h
    cases hnearest : c.nearest? e with
    | none =>
      rw [hnearest] at h
      exact (Except.error.inj h).symm
    | some f =>
      rw [hnearest] at h
      dsimp only at h
      split at h
      · cases h
      · exact (Except.error.inj h).symm
  rw [chainFaults, h, herror]
  dsimp only
  split
  · rfl
  · next hkind =>
    cases e with
    | member owner name => exact absurd rfl hkind
    | _ => rfl

theorem stop?_onField {e : Expr} {k : MappedField → Template} (hk : ∀ f, (k f).stop? = none)
    (clause : ClauseKind) : (c.onField e k).stop? = c.firstError clause (c.chainFaults e) := by
  rw [onField]
  cases h : c.resolve e with
  | ok f => simp [hk, chainFaults, h]
  | error error => rw [firstError_chainFaults clause h, Template.stop?_fail]

theorem stop?_operandTemplate_eq (column : String) (clause : ClauseKind) (e : Expr) :
    (c.operandTemplate column clause e).stop? = c.firstError clause (c.operandFaults e) := by
  fun_induction operandTemplate c column clause e with
  | case1 owner name => exact stop?_onField (fun _ => rfl) clause
  | case2 value => rfl
  | case3 inner ih => exact ih
  | case4 op left right hop ihl ihr =>
    rw [operandFaults, if_pos hop]
    simp [ihl, ihr]
  | case5 op left right hop =>
    rw [operandFaults, if_neg hop]
    rfl
  | case6 e =>
    rw [operandFaults] <;> first | rfl | assumption

theorem operandFaults_of_isNullLiteral {e : Expr} (h : e.isNullLiteral = true) :
    c.operandFaults e = [] := by
  obtain rfl := Expr.eq_null_of_isNullLiteral h
  rfl

theorem stop?_comparisonTemplate_eq (op : Operator) (left right : Expr) :
    (c.comparisonTemplate op left right).stop?
      = c.firstError .predicate (c.operandFaults left ++ c.operandFaults right) := by
  rw [comparisonTemplate]
  split
  -- the side that is not written is a literal null, which has no faults
  · next hnull =>
    rw [nullTestTemplate, Template.stop?_append, Template.stop?_words, Option.or_none,
      stop?_operandTemplate_eq]
    split
    · next hright => rw [operandFaults_of_isNullLiteral hright, List.append_nil]
    · next hright =>
      have hleft := ((Bool.or_eq_true _ _).mp hnull.2).resolve_right hright
      rw [operandFaults_of_isNullLiteral hleft, List.nil_append]
  · simp [stop?_operandTemplate_eq]

theorem stop?_callTemplate_eq (method : Callee) (target : Expr) (args : List Expr) :
    (c.callTemplate method target args).stop?
      = c.firstError .predicate (c.callFaults method target args) := by
  cases args with
  | nil => rfl
  | cons arg more =>
    simp only [callTemplate, callFaults]
    cases CallForm.of method target arg with
    | comparison => exact stop?_comparisonTemplate_eq .eq target arg
    | membership values =>
      refine stop?_onField (fun f => ?_) .predicate
      cases values <;> simp [Template.stop?_join]
    | textMatch owner name text => exact stop?_onField (fun _ => by simp) .predicate
    | badArgument => rfl
    | refused => rfl

theorem stop?_conditionTemplate_eq (e : Expr) :
    (c.conditionTemplate e).stop? = c.firstError .predicate (c.filterFaults e) := by
  fun_induction conditionTemplate c e with
  | case1 params body ih => exact ih
  | case2 inner ih => exact ih
  | case3 op left right hop ihl ihr =>
    rw [filterFaults, if_pos hop]
    simp [ihl, ihr]
  | case4 op left right hop hcmp =>
    rw [filterFaults, if_neg hop, if_pos hcmp, stop?_comparisonTemplate_eq]
  | case5 op left right hop hcmp =>
    rw [filterFaults, if_neg hop, if_neg hcmp]
    rfl
  | case6 owner name => exact stop?_onField (fun _ => by simp) .predicate
  | case7 owner name => exact stop?_onField (fun _ => by simp) .predicate
  | case8 inner hinner ih =>
    rw [filterFaults]
    simp [ih]
  | case9 method target args => exact stop?_callTemplate_eq method target args
  | case10 => rfl
  | case11 => rfl
  | case12 e _ _ _ _ _ _ _ htrue hfalse =>
    rw [filterFaults]
    all_goals first | rfl | assumption | skip
    rintro (_ | _) rfl
    · exact hfalse rfl
    · exact htrue rfl

mutual

theorem stop?_assignmentTemplates_eq : ∀ e : Expr,
    (c.assignmentTemplates e).findSome? (·.stop?) = c.firstError .assignment (c.updateFaults e)
  | .lambda params body => by
    rw [assignmentTemplates, updateFaults, stop?_assignmentTemplates_eq body]
  | .record items => by
    rw [assignmentTemplates, updateFaults, stop?_allAssignmentTemplates_eq items]
  | .assign target value => by
    rw [assignmentTemplates, updateFaults, List.findSome?_singleton, firstError_append, setTemplate,
      onField, targetFaults]
    cases h : c.resolve target with
    | error error => simp [firstError_chainFaults .assignment h]
    | ok f =>
      dsimp only
      split
      · simp [stop?_operandTemplate_eq]
      · rfl
  | .parameter _ | .member _ _ | .constant _ | .convert _ | .not _ | .binary _ _ _
  | .call _ _ _ | .conditional _ _ _ => rfl

theorem stop?_allAssignmentTemplates_eq : ∀ es : List Expr,
    (c.allAssignmentTemplates es).findSome? (·.stop?)
      = c.firstError .assignment (c.allUpdateFaults es)
  | [] => rfl
  | e :: es => by
    rw [allAssignmentTemplates, allUpdateFaults, List.findSome?_append, firstError_append,
      stop?_assignmentTemplates_eq e, stop?_allAssignmentTemplates_eq es]

end

theorem error?_leafField (clause : ClauseKind) (leaf : Expr) :
    error? (c.leafField clause leaf) = c.firstError clause (c.leafFaults leaf) := by
  rw [leafField, leafFaults]
  split
  · cases h : c.resolve leaf with
    | ok f => simp [error?, chainFaults, h]
    | error e => exact (firstError_chainFaults clause h).symm
  · rfl

theorem error?_mapM_leafField (clause : ClauseKind) (leaves : List Expr) :
    error? (leaves.mapM (c.leafField clause))
      = c.firstError clause (leaves.flatMap c.leafFaults) := by
  induction leaves with
  | nil => rfl
  | cons leaf leaves ih =>
    rw [List.mapM_cons, List.flatMap_cons, firstError_append, ← error?_leafField, ← ih]
    cases c.leafField clause leaf with
    | error e => rfl
    | ok f => cases leaves.mapM (c.leafField clause) <;> rfl

theorem error?_selectedItems (exprs : List Expr) :
    error? (c.selectedItems exprs)
      = c.firstError .projection ((Expr.allLeaves exprs).flatMap c.leafFaults) := by
  rw [selectedItems, error?_map, allLeafFields_eq, error?_mapM_leafField]

theorem error?_orderedItems (keys : List SortKey) :
    error? (c.orderedItems keys)
      = c.firstError .ordering ((Expr.allLeaves (keys.map (·.expr))).flatMap c.leafFaults) := by
  rw [orderedItems, error?_map, ← error?_map (·.map (·.1)), orderFields_fst, allLeafFields_eq,
    error?_mapM_leafField]

/-! ### The error of a call -/

theorem error?_clauseAnswer (k : BindingClause) (t : BindTable) :
    error? (c.clauseAnswer k t).1 = (c.clauseTemplates k).findSome? (·.stop?) := by
  rw [clauseAnswer, error?_outcome, clauseTemplate, Template.stop?_join]

/-- A call is answered with the error of its first fault, if it has one. -/
theorem error?_answer (call : ClauseCall) (t : BindTable) :
    error? (c.answer call t).1 = c.firstError call.kind (c.faults call) := by
  cases call with
  | filter e =>
    rw [answer, error?_clauseAnswer, clauseTemplates, List.findSome?_singleton,
      stop?_conditionTemplate_eq]
    rfl
  | assignment e => exact (error?_clauseAnswer _ t).trans (stop?_assignmentTemplates_eq e)
  | select exprs | selectItems exprs =>
    exact (error?_map _ _).trans (error?_selectedItems exprs)
  | order keys | orderItems keys => exact (error?_map _ _).trans (error?_orderedItems keys)
  | entityAssignment entity | insert entity => rfl

/-! ### Faults are in the trees -/

theorem isIn_of_mem_chainFaults {e : Expr} {fault : Fault} (h : fault ∈ c.chainFaults e) :
    fault.IsIn c e := by
  rw [chainFaults] at h
  split at h
  · cases h
  · next error herror =>
    split at h
    · next hkind =>
      obtain rfl := List.mem_singleton.mp h
      refine ⟨.refl, hkind, fun ⟨f, hf⟩ => ?_⟩
      exact nomatch herror.symm.trans (resolve_eq_ok_iff.mpr hf)
    · next hkind =>
      obtain rfl := List.mem_singleton.mp h
      exact ⟨.refl, hkind⟩

theorem isIn_of_mem_operandFaults {e : Expr} {fault : Fault} (h : fault ∈ c.operandFaults e) :
    fault.IsIn c e := by
  fun_induction operandFaults c e with
  | case1 owner name => exact isIn_of_mem_chainFaults h
  | case2 value => cases h
  | case3 inner ih => exact (ih h).below (List.mem_singleton_self _)
  | case4 op left right hop ihl ihr =>
    obtain h | h := List.mem_append.mp h
    · exact (ihl h).below (by simp [Expr.children])
    · exact (ihr h).below (by simp [Expr.children])
  | case5 op left right hop =>
    obtain rfl := List.mem_singleton.mp h
    exact .refl
  | case6 e =>
    obtain rfl := List.mem_singleton.mp h
    exact .refl

theorem isIn_of_mem_callFaults {method : Callee} {target : Expr} {args : List Expr} {fault : Fault}
    (h : fault ∈ c.callFaults method target args) : fault.IsIn c (.call method target args) := by
  have htarget : target ∈ (Expr.call method target args).children := List.mem_cons_self
  cases args with
  | nil =>
    obtain rfl := List.mem_singleton.mp h
    exact .refl
  | cons arg more =>
    have harg : arg ∈ (Expr.call method target (arg :: more)).children :=
      List.mem_cons_of_mem _ List.mem_cons_self
    simp only [callFaults] at h
    cases hform : CallForm.of method target arg with
    | comparison =>
      rw [hform] at h
      obtain h | h := List.mem_append.mp h
      · exact (isIn_of_mem_operandFaults h).below htarget
      · exact (isIn_of_mem_operandFaults h).below harg
    | membership values =>
      rw [hform] at h
      exact (isIn_of_mem_chainFaults h).within (.inside harg arg.within_unconverted)
    | textMatch owner name text =>
      rw [hform] at h
      have hmember := (CallForm.of_eq_textMatch.mp hform).2.1
      refine (isIn_of_mem_chainFaults h).within (.inside htarget ?_)
      rw [← hmember]
      exact target.within_unconverted
    | badArgument =>
      rw [hform] at h
      obtain rfl | h := List.mem_cons.mp h
      · exact .inside harg .refl
      · exact (isIn_of_mem_chainFaults h).within (.inside htarget target.within_unconverted)
    | refused =>
      rw [hform] at h
      obtain rfl := List.mem_singleton.mp h
      exact .refl

theorem isIn_of_mem_filterFaults {e : Expr} {fault : Fault} (h : fault ∈ c.filterFaults e) :
    fault.IsIn c e := by
  fun_induction filterFaults c e with
  | case1 params body ih => exact (ih h).below (List.mem_singleton_self _)
  | case2 inner ih => exact (ih h).below (List.mem_singleton_self _)
  | case3 op left right hop ihl ihr =>
    obtain h | h := List.mem_append.mp h
    · exact (ihl h).below (by simp [Expr.children])
    · exact (ihr h).below (by simp [Expr.children])
  | case4 op left right hop hcmp =>
    obtain h | h := List.mem_append.mp h
    · exact (isIn_of_mem_operandFaults h).below (by simp [Expr.children])
    · exact (isIn_of_mem_operandFaults h).below (by simp [Expr.children])
  | case5 op left right hop hcmp =>
    obtain rfl := List.mem_singleton.mp h
    exact .refl
  | case6 owner name => exact isIn_of_mem_chainFaults h
  | case7 inner ih => exact (ih h).below (List.mem_singleton_self _)
  | case8 method target args => exact isIn_of_mem_callFaults h
  | case9 b => cases h
  | case10 e =>
    obtain rfl := List.mem_singleton.mp h
    exact .refl

theorem isIn_of_mem_leafFaults {leaf : Expr} {fault : Fault} (h : fault ∈ c.leafFaults leaf) :
    fault.IsIn c leaf := by
  rw [leafFaults] at h
  split at h
  · exact isIn_of_mem_chainFaults h
  · obtain rfl := List.mem_singleton.mp h
    exact .refl

theorem isIn_of_mem_targetFaults {target : Expr} {fault : Fault}
    (h : fault ∈ c.targetFaults target) : fault.IsIn c target := by
  rw [targetFaults] at h
  cases hresolve : c.resolve target with
  | error e =>
    rw [hresolve] at h
    exact isIn_of_mem_chainFaults h
  | ok f =>
    rw [hresolve] at h
    dsimp only at h
    split at h
    · cases h
    · next hwritable =>
      obtain rfl := List.mem_singleton.mp h
      exact ⟨target, .refl, resolve_eq_ok_iff.mp hresolve, Bool.eq_false_iff.mpr hwritable⟩

mutual

theorem isIn_of_mem_updateFaults : ∀ {e : Expr} {fault : Fault}, fault ∈ c.updateFaults e →
    fault.IsIn c e
  | .lambda _ body, _, h =>
    (isIn_of_mem_updateFaults (e := body) h).below (List.mem_singleton_self _)
  | .record _, _, h => by
    obtain ⟨e, he, hfault⟩ := isIn_of_mem_allUpdateFaults h
    exact hfault.below he
  | .assign target value, _, h => by
    obtain h | h := List.mem_append.mp h
    · exact (isIn_of_mem_targetFaults h).below (by simp [Expr.children])
    · exact (isIn_of_mem_operandFaults h).below (by simp [Expr.children])
  | .parameter _, _, h | .member _ _, _, h | .constant _, _, h | .convert _, _, h | .not _, _, h
  | .binary _ _ _, _, h | .call _ _ _, _, h | .conditional _ _ _, _, h => by
    obtain rfl := List.mem_singleton.mp h
    exact .refl

theorem isIn_of_mem_allUpdateFaults : ∀ {es : List Expr} {fault : Fault},
    fault ∈ c.allUpdateFaults es → ∃ e ∈ es, fault.IsIn c e
  | e :: es, fault, h => by
    obtain h | h := List.mem_append.mp h
    · exact ⟨e, List.mem_cons_self, isIn_of_mem_updateFaults h⟩
    · obtain ⟨e', he', hfault⟩ := isIn_of_mem_allUpdateFaults h
      exact ⟨e', List.mem_cons_of_mem _ he', hfault⟩

end

/-- The faults of a call are faults of its trees. -/
theorem isIn_of_mem_faults {call : ClauseCall} {fault : Fault} (h : fault ∈ c.faults call) :
    ∃ e ∈ call.trees, fault.IsIn c e := by
  have hleaves {es : List Expr} (h : fault ∈ (Expr.allLeaves es).flatMap c.leafFaults) :
      ∃ e ∈ es, fault.IsIn c e := by
    obtain ⟨leaf, hleaf, hfault⟩ := List.mem_flatMap.mp h
    obtain ⟨e, he, hwithin⟩ := Expr.within_of_mem_allLeaves hleaf
    exact ⟨e, he, (isIn_of_mem_leafFaults hfault).within hwithin⟩
  cases call with
  | filter e => exact ⟨e, List.mem_singleton_self e, isIn_of_mem_filterFaults h⟩
  | assignment e => exact ⟨e, List.mem_singleton_self e, isIn_of_mem_updateFaults h⟩
  | select exprs | selectItems exprs => exact hleaves h
  | order keys | orderItems keys => exact hleaves h
  | entityAssignment entity | insert entity => cases h

/-! ### Trees without faults -/

theorem filterFaults_eq_nil_iff {e : Expr} : c.filterFaults e = [] ↔ c.map.IsFilter e := by
  rw [← firstError_eq_none_iff .predicate, ← stop?_conditionTemplate_eq,
    stop?_conditionTemplate]

theorem updateFaults_eq_nil_iff {e : Expr} :
    c.updateFaults e = [] ↔ c.map.IsUpdate c.dialect e := by
  rw [← firstError_eq_none_iff .assignment, ← stop?_assignmentTemplates_eq,
    List.findSome?_eq_none_iff, stop?_assignmentTemplates]

theorem leafFaults_eq_nil_iff {leaf : Expr} :
    c.leafFaults leaf = [] ↔ ∃ f, c.map.Resolves leaf f := by
  rw [← firstError_eq_none_iff (c := c) .projection, ← error?_leafField]
  cases hfield : c.leafField .projection leaf with
  | error e =>
    exact iff_of_false (Option.some_ne_none _) fun ⟨f, hf⟩ =>
      nomatch hfield.symm.trans (leafField_eq_ok_iff.mpr hf)
  | ok f => exact iff_of_true rfl ⟨f, leafField_eq_ok_iff.mp hfield⟩

/-- A call has no faults if its clause accepts its trees. -/
theorem faults_eq_nil_iff {call : ClauseCall} :
    c.faults call = [] ↔ ∀ e ∈ call.trees, c.Accepts call.kind e := by
  have hleaves (es : List Expr) :
      (Expr.allLeaves es).flatMap c.leafFaults = [] ↔ ∀ e ∈ es, c.map.IsColumns e := by
    simp only [List.flatMap_eq_nil_iff, leafFaults_eq_nil_iff, EntityMap.all_isColumns_iff]
  cases call with
  | filter e => exact filterFaults_eq_nil_iff.trans List.forall_mem_singleton.symm
  | assignment e => exact updateFaults_eq_nil_iff.trans List.forall_mem_singleton.symm
  | select exprs | selectItems exprs => exact hleaves exprs
  | order keys | orderItems keys => exact hleaves (keys.map (·.expr))
  | entityAssignment entity | insert entity => exact iff_of_true rfl (List.forall_mem_nil _)

/-! ### Reports -/

/-- **Errors report the first fault.** A call on any draft succeeds if its clause accepts its trees.
Otherwise it fails with the error of the first fault, which is one of its trees. The error names
this fault exactly if it is not another node where a member chain has to stand. -/
theorem perform_reports (c : Scope) (call : ClauseCall) (d : Draft) :
    ((∀ e ∈ call.trees, c.Accepts call.kind e) ∧
      ∃ answer d', c.perform call d = .ok answer d') ∨
    ((¬ ∀ e ∈ call.trees, c.Accepts call.kind e) ∧
      ∃ fault rest error d', c.faults call = fault :: rest ∧ (∃ e ∈ call.trees, fault.IsIn c e) ∧
        c.perform call d = .error error d' ∧ error = fault.error c call.kind ∧
        (fault.IsNamedBy c call.kind error ↔ ∀ node, fault ≠ .noMember node)) := by
  have herror := error?_answer (c := c) call d.binds
  have hresult := c.perform_result call d
  rw [← faults_eq_nil_iff]
  rcases hfaults : c.faults call with _ | ⟨fault, rest⟩
  · rw [hfaults] at herror
    rcases hanswer : c.answer call d.binds with ⟨e | answer, t⟩
    · rw [hanswer] at herror
      cases herror
    · obtain ⟨d', hrun, -⟩ := result_eq_ok.mp (hresult.trans hanswer)
      exact .inl ⟨rfl, answer, d', hrun⟩
  · rw [hfaults] at herror
    rcases hanswer : c.answer call d.binds with ⟨e | answer, t⟩
    · rw [hanswer] at herror
      obtain rfl := Option.some.inj herror
      obtain ⟨d', hrun, -⟩ := result_eq_error.mp (hresult.trans hanswer)
      have hin := isIn_of_mem_faults (hfaults ▸ List.mem_cons_self)
      exact .inr ⟨List.cons_ne_nil _ _, fault, rest, _, d', rfl, hin, hrun, rfl,
        fault.isNamedBy_error_iff c call.kind⟩
    · rw [hanswer] at herror
      cases herror

end Scope

/-- A test whether a text is in a list of texts. It is about no member. -/
def textInList : Expr :=
  .oneOf (.constant (.text "a")) [.text "a", .text "b"]

/-- The text is a node that filters do not accept where a member chain has to stand, and there is no
member chain in the filter. What is reported is a member chain without a field. -/
theorem filterSql_textInList :
    let c : Scope := ⟨people, BuiltinDialect.sqlServer.dialect⟩
    c.faults (.filter textInList) = [.noMember (.constant (.text "a"))] ∧
      (∀ chain : Expr, chain.Within textInList → chain.kind ≠ .memberAccess) ∧
      (∃ d, c.filterSql textInList (Draft.fresh 0) = .error (.unmapped "Person" "Constant") d) ∧
      ¬ ∃ d, c.filterSql textInList (Draft.fresh 0)
        = .error (.unsupported .constant .predicate) d := by
  intro c
  have hrun : ∃ d, c.filterSql textInList (Draft.fresh 0)
      = .error (.unmapped "Person" "Constant") d := ⟨_, rfl⟩
  refine ⟨rfl, fun chain h => ?_, hrun, ?_⟩
  · have hchildren : textInList.children
        = [.constant (.array [.text "a", .text "b"]), .constant (.text "a")] := rfl
    rw [Expr.within_iff, hchildren] at h
    simp only [List.mem_cons, List.not_mem_nil, or_false, exists_eq_or_imp, exists_eq_left,
      Expr.within_constant_iff] at h
    obtain rfl | rfl | rfl := h <;> decide
  · rintro ⟨d', h'⟩
    obtain ⟨d, h⟩ := hrun
    cases h.symm.trans h'

end EntitySql
