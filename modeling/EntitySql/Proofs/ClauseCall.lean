import EntitySql.Clause.Assignment
import EntitySql.Clause.Columns
import EntitySql.Proofs.BindTable
import EntitySql.Proofs.FilterText

/-!
# Calls on one draft

The clauses of a statement are written on one draft, one after another, and a clause that fails
leaves the draft where it failed. `ClauseCall` names the clauses and `Scope.draftAfter` is the
draft that a list of calls leaves.

Whatever is called, the bind table only grows (`grows_draftAfter`): `Drafting.Growing` holds of
every primitive step and is passed on by sequencing, so it holds of every writer. The bind table
of a draft that calls have reached is therefore sound (`sound_draftAfter`).
-/

namespace EntitySql

namespace Drafting

variable {α β : Type} {dialect : Dialect}

/-- The draft that a program leaves, whether it succeeds or fails. -/
def after (p : Drafting α) (d : Draft) : Draft :=
  match p d with
  | .ok _ d' => d'
  | .error _ d' => d'

theorem after_bind (p : Drafting α) (f : α → Drafting β) (d : Draft) :
    (p >>= f).after d = match p d with
      | .ok a d' => (f a).after d'
      | .error _ d' => d' := by
  simp only [after, bind, EStateM.bind]
  cases p d <;> rfl

/-- Whatever its outcome, the program changes the bind table by requests only. -/
def Growing (dialect : Dialect) (p : Drafting α) : Prop :=
  ∀ d : Draft, d.binds.Grows dialect (p.after d).binds

/-! ### Steps and sequences -/

/-- A program that leaves the bind table alone. -/
theorem growing_of_binds_eq {p : Drafting α} (h : ∀ d, (p.after d).binds = d.binds) :
    Growing dialect p := by
  intro d
  rw [h d]
  exact BindTable.Grows.refl _

theorem growing_pure (a : α) : Growing dialect (pure a : Drafting α) :=
  growing_of_binds_eq fun _ => rfl

theorem growing_throw (e : SqlError) : Growing dialect (throw e : Drafting α) :=
  growing_of_binds_eq fun _ => rfl

theorem Growing.bind {p : Drafting α} {f : α → Drafting β} (hp : Growing dialect p)
    (hf : ∀ a, Growing dialect (f a)) : Growing dialect (p >>= f) := by
  intro d
  have hd := hp d
  rw [after] at hd
  rw [after_bind]
  -- a program that fails leaves the table where its first part does
  cases hrun : p d with
  | ok a d' =>
    rw [hrun] at hd
    exact hd.trans (hf a d')
  | error e d' =>
    rw [hrun] at hd
    exact hd

theorem Growing.map {p : Drafting α} (hp : Growing dialect p) (f : α → β) :
    Growing dialect (f <$> p) := by
  rw [← bind_pure_comp]
  exact hp.bind fun a => growing_pure (f a)

theorem growing_mapM {f : α → Drafting β} (hf : ∀ a, Growing dialect (f a)) (xs : List α) :
    Growing dialect (xs.mapM f) := by
  induction xs with
  | nil => exact growing_pure []
  | cons x xs ih =>
    rw [List.mapM_cons]
    exact (hf x).bind fun _ => ih.bind fun _ => growing_pure _

theorem growing_reset : Growing dialect reset :=
  growing_of_binds_eq fun _ => rfl

theorem growing_setAliasing (on : Bool) : Growing dialect (setAliasing on) :=
  growing_of_binds_eq fun _ => rfl

theorem growing_pushItem (item : SelectItem) : Growing dialect (pushItem item) :=
  growing_of_binds_eq fun _ => rfl

theorem growing_dropItems : Growing dialect dropItems :=
  growing_of_binds_eq fun _ => rfl

theorem growing_takeItems : Growing dialect takeItems :=
  growing_of_binds_eq fun _ => rfl

theorem growing_pushText (text : String) : Growing dialect (pushText text) :=
  growing_of_binds_eq fun _ => rfl

theorem growing_takeTexts : Growing dialect takeTexts :=
  growing_of_binds_eq fun _ => rfl

theorem growing_popText : Growing dialect popText := by
  -- whether there is a text to take back decides the outcome, not the bind table
  refine growing_of_binds_eq fun d => ?_
  obtain ⟨binds, items, ⟨_ | ⟨text, rest⟩⟩, aliasing⟩ := d <;> rfl

end Drafting

namespace Scope

open Drafting

variable (c : Scope)

theorem growing_bindValue (column : String) (value : Value) :
    Growing c.dialect (c.bindValue column value) :=
  fun d => d.binds.grows_bind c.dialect column value

theorem growing_fieldOf (e : Expr) : Growing c.dialect (c.fieldOf e) := by
  rw [fieldOf]
  split
  · exact growing_pure _
  · exact growing_throw _

/-! ### Filters -/

theorem growing_emitOperand (column : String) (clause : ClauseKind) (e : Expr) :
    Growing c.dialect (c.emitOperand column clause e) := by
  fun_induction emitOperand c column clause e with
  | case1 owner name => exact (c.growing_fieldOf _).bind fun _ => growing_pushText _
  | case2 value => exact (c.growing_bindValue _ _).bind growing_pushText
  | case3 inner ih => exact ih
  | case4 op left right hop ihl ihr =>
    exact ihl.bind fun _ => ihr.bind fun _ => growing_popText.bind fun _ =>
      growing_popText.bind fun _ => growing_pushText _
  | case5 op left right hop => exact growing_throw _
  | case6 e => exact growing_throw _

theorem growing_emitComparison (op : Operator) (left right : Expr) :
    Growing c.dialect (c.emitComparison op left right) := by
  rw [emitComparison]
  split
  · exact (c.growing_emitOperand _ _ _).bind fun _ => growing_popText.bind fun _ =>
      growing_pushText _
  · exact (c.growing_emitOperand _ _ _).bind fun _ => (c.growing_emitOperand _ _ _).bind
      fun _ => growing_popText.bind fun _ => growing_popText.bind fun _ => growing_pushText _

theorem growing_emitFlag (member : Expr) (expected : Bool) :
    Growing c.dialect (c.emitFlag member expected) :=
  (c.growing_fieldOf _).bind fun _ => (c.growing_bindValue _ _).bind fun _ =>
    growing_pushText _

theorem growing_emitMembership (member : Expr) (values : List Value) :
    Growing c.dialect (c.emitMembership member values) := by
  refine (c.growing_fieldOf _).bind fun f => ?_
  split
  · exact growing_pushText _
  · exact (growing_mapM (c.growing_bindValue f.column.name) values).bind fun _ =>
      growing_pushText _

theorem growing_emitMatch (method : Callee) (member : Expr) (text : String) :
    Growing c.dialect (c.emitMatch method member text) :=
  (c.growing_fieldOf _).bind fun _ => (c.growing_bindValue _ _).bind fun _ =>
    growing_pushText _

theorem growing_emitCall (method : Callee) (target : Expr) (args : List Expr) :
    Growing c.dialect (c.emitCall method target args) := by
  unfold emitCall
  split
  · exact growing_throw _
  · split
    · exact c.growing_emitComparison _ _ _
    · exact c.growing_emitMembership _ _
    · split
      · exact c.growing_emitMatch _ _ _
      · exact growing_throw _
    · exact growing_throw _

theorem growing_emitFilter (e : Expr) : Growing c.dialect (c.emitFilter e) := by
  fun_induction emitFilter c e with
  | case1 params body ih => exact ih
  | case2 inner ih => exact ih
  | case3 op left right hop ihl ihr =>
    exact ihl.bind fun _ => ihr.bind fun _ => growing_popText.bind fun _ =>
      growing_popText.bind fun _ => growing_pushText _
  | case4 op left right hop hcmp => exact c.growing_emitComparison op left right
  | case5 op left right hop hcmp => exact growing_throw _
  | case6 owner name => exact c.growing_emitFlag _ _
  | case7 owner name => exact c.growing_emitFlag _ _
  | case8 inner hinner ih =>
    exact ih.bind fun _ => growing_popText.bind fun _ => growing_pushText _
  | case9 method target args => exact c.growing_emitCall method target args
  | case10 => exact growing_pushText _
  | case11 => exact growing_pushText _
  | case12 e => exact growing_throw _

theorem growing_filterSql (e : Expr) : Growing c.dialect (c.filterSql e) := by
  refine growing_reset.bind fun _ => (growing_setAliasing _).bind fun _ =>
    (c.growing_emitFilter e).bind fun _ => growing_takeTexts.bind fun parts => ?_
  split <;> exact growing_pure _

/-! ### Select lists and orderings -/

mutual

theorem growing_emitColumns (clause : ClauseKind) :
    ∀ e, Growing c.dialect (c.emitColumns clause e)
  | .lambda _ body => by
    rw [emitColumns]
    exact growing_emitColumns clause body
  | .convert inner => by
    rw [emitColumns]
    exact growing_emitColumns clause inner
  | .record items => by
    rw [emitColumns]
    exact growing_emitAllColumns clause items
  | .member owner name => by
    rw [emitColumns]
    exact (c.growing_fieldOf _).bind fun _ =>
      (growing_of_binds_eq fun _ => rfl : Growing c.dialect get).bind fun _ => growing_pushItem _
  | .parameter _ | .constant _ | .not _ | .binary _ _ _ | .call _ _ _ | .assign _ _
  | .conditional _ _ _ => by
    rw [emitColumns] <;> first | exact growing_throw _ | (intros; contradiction)

theorem growing_emitAllColumns (clause : ClauseKind) :
    ∀ es, Growing c.dialect (c.emitAllColumns clause es)
  | [] => growing_pure ()
  | e :: es => by
    rw [emitAllColumns]
    exact (growing_emitColumns clause e).bind fun _ => growing_emitAllColumns clause es

end

theorem growing_selectItems (exprs : List Expr) : Growing c.dialect (c.selectItems exprs) :=
  growing_reset.bind fun _ => (growing_setAliasing _).bind fun _ =>
    (c.growing_emitAllColumns _ exprs).bind fun _ => growing_takeItems

theorem growing_selectSql (exprs : List Expr) : Growing c.dialect (c.selectSql exprs) := by
  refine (c.growing_selectItems exprs).bind fun items => ?_
  split <;> exact growing_pure _

theorem growing_orderItemsOf :
    ∀ keys : List SortKey, Growing c.dialect (c.orderItemsOf keys)
  | [] => growing_pure []
  | k :: ks => by
    rw [orderItemsOf]
    exact growing_dropItems.bind fun _ => (c.growing_emitColumns _ k.expr).bind fun _ =>
      growing_takeItems.bind fun _ => (growing_orderItemsOf ks).bind fun _ => growing_pure _

theorem growing_orderItems (keys : List SortKey) : Growing c.dialect (c.orderItems keys) :=
  growing_reset.bind fun _ => (growing_setAliasing _).bind fun _ =>
    c.growing_orderItemsOf keys

theorem growing_orderSql (keys : List SortKey) : Growing c.dialect (c.orderSql keys) := by
  refine (c.growing_orderItems keys).bind fun items => ?_
  split <;> exact growing_pure _

/-! ### Assignments -/

theorem growing_emitSet (target value : Expr) :
    Growing c.dialect (c.emitSet target value) := by
  refine (c.growing_fieldOf _).bind fun f => ?_
  split
  · exact (c.growing_emitOperand _ _ _).bind fun _ => growing_popText.bind fun _ =>
      growing_pushText _
  · exact growing_throw _

mutual

theorem growing_emitAssignments : ∀ e, Growing c.dialect (c.emitAssignments e)
  | .lambda _ body => by
    rw [emitAssignments]
    exact growing_emitAssignments body
  | .record items => by
    rw [emitAssignments]
    exact growing_emitAllAssignments items
  | .assign target value => by
    rw [emitAssignments]
    exact c.growing_emitSet target value
  | .parameter _ | .member _ _ | .constant _ | .convert _ | .not _ | .binary _ _ _
  | .call _ _ _ | .conditional _ _ _ => by
    rw [emitAssignments] <;> first | exact growing_throw _ | (intros; contradiction)

theorem growing_emitAllAssignments : ∀ es, Growing c.dialect (c.emitAllAssignments es)
  | [] => growing_pure ()
  | e :: es => by
    rw [emitAllAssignments]
    exact (growing_emitAssignments e).bind fun _ => growing_emitAllAssignments es

end

theorem growing_assignmentSql (e : Expr) : Growing c.dialect (c.assignmentSql e) := by
  refine growing_reset.bind fun _ => (growing_setAliasing _).bind fun _ =>
    (c.growing_emitAssignments e).bind fun _ => growing_takeTexts.bind fun parts => ?_
  split <;> exact growing_pure _

theorem growing_cells (entity : Record) : Growing c.dialect (c.cells entity) := by
  rw [cells]
  refine growing_mapM (fun cell => ?_) _
  exact (c.growing_bindValue cell.1 cell.2).bind fun _ => growing_pure _

theorem growing_entityAssignmentSql (entity : Record) :
    Growing c.dialect (c.entityAssignmentSql entity) :=
  growing_reset.bind fun _ => (c.growing_cells entity).bind fun _ => growing_pure _

theorem growing_insertLists (entity : Record) : Growing c.dialect (c.insertLists entity) :=
  growing_reset.bind fun _ => (c.growing_cells entity).bind fun _ => growing_pure _

end Scope

/-! ### Calls -/

/-- A clause that is asked for. -/
inductive ClauseCall where
  | filter (e : Expr)
  | select (exprs : List Expr)
  | selectItems (exprs : List Expr)
  | order (keys : List SortKey)
  | orderItems (keys : List SortKey)
  | assignment (e : Expr)
  | entityAssignment (entity : Record)
  | insert (entity : Record)

namespace Scope

open Drafting

/-- The draft that one call leaves. -/
def afterCall (c : Scope) (d : Draft) : ClauseCall → Draft
  | .filter e => (c.filterSql e).after d
  | .select exprs => (c.selectSql exprs).after d
  | .selectItems exprs => (c.selectItems exprs).after d
  | .order keys => (c.orderSql keys).after d
  | .orderItems keys => (c.orderItems keys).after d
  | .assignment e => (c.assignmentSql e).after d
  | .entityAssignment entity => (c.entityAssignmentSql entity).after d
  | .insert entity => (c.insertLists entity).after d

/-- The draft that calls leave, one after another. -/
def draftAfter (c : Scope) (calls : List ClauseCall) (d : Draft) : Draft :=
  calls.foldl c.afterCall d

theorem grows_afterCall (c : Scope) (d : Draft) (call : ClauseCall) :
    d.binds.Grows c.dialect (c.afterCall d call).binds := by
  cases call with
  | filter e => exact c.growing_filterSql e d
  | select exprs => exact c.growing_selectSql exprs d
  | selectItems exprs => exact c.growing_selectItems exprs d
  | order keys => exact c.growing_orderSql keys d
  | orderItems keys => exact c.growing_orderItems keys d
  | assignment e => exact c.growing_assignmentSql e d
  | entityAssignment entity => exact c.growing_entityAssignmentSql entity d
  | insert entity => exact c.growing_insertLists entity d

theorem grows_draftAfter (c : Scope) (calls : List ClauseCall) (d : Draft) :
    d.binds.Grows c.dialect (c.draftAfter calls d).binds := by
  induction calls generalizing d with
  | nil => exact BindTable.Grows.refl _
  | cons call calls ih => exact (c.grows_afterCall d call).trans (ih _)

/-- Calls on a fresh draft leave a sound bind table. -/
theorem sound_draftAfter (c : Scope) (calls : List ClauseCall) (index : Nat) :
    (c.draftAfter calls (Draft.fresh index)).binds.Sound c.dialect :=
  (BindTable.sound_empty c.dialect index).grows (c.grows_draftAfter calls _)

end Scope

end EntitySql
