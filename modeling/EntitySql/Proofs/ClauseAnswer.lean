import EntitySql.Proofs.ClauseCall
import EntitySql.Proofs.ColumnFields
import EntitySql.Proofs.Requests

/-!
# What calls answer

The answer of a call on a draft, and the bind table that it leaves, can be said without the draft:
`Scope.answer` gives both from the call and the bind table alone. The main statement is
`perform_result`: whatever earlier calls have left on the stacks and whichever way they gave
aliases, a call comes to what `Scope.answer` gives. So a call after others is answered as it is on
a fresh draft with the same bind table.

What a failed call leaves is not nothing. The texts of an unfinished condition stay on the stack
until the next call drops them.
-/

namespace EntitySql

/-! ### Answers -/

/-- What a call answers, in texts of some kind. -/
inductive ClauseAnswer (T : Type) where
  /-- The text of a filter, a partial update, a select list or an ordering, if there is one. -/
  | text (text : Option T)
  /-- The items of a select list: the expression and the label of each, its member, and whether
  its column has a plain name. -/
  | columns (items : List (T × Option T × String × Bool))
  /-- The items of an ordering: the expression, the output and the direction of each. -/
  | ordering (items : List (T × T × Bool))
  /-- The text that sets the columns of an entity. -/
  | setting (text : T)
  /-- The columns of an insert and their values. -/
  | lists (columns values : List T)

/-- The parts of an item of a select list. -/
def SelectItem.parts (i : SelectItem) : String × Option String × String × Bool :=
  (i.expr, i.label, i.member, i.plain)

/-- The parts of an item of an ordering. -/
def OrderItem.parts (i : OrderItem) : String × String × Bool :=
  (i.expr, i.output, i.ascending)

/-- Texts with commas between them; without texts there is none. -/
def listText (texts : List String) : Option String :=
  if texts.isEmpty then none else some (String.intercalate ", " texts)

namespace Scope

open Drafting

/-- A call on a draft. -/
def perform (c : Scope) : ClauseCall → Drafting (ClauseAnswer String)
  | .filter e => do return .text (← c.filterSql e)
  | .select exprs => do return .text (← c.selectSql exprs)
  | .selectItems exprs => do return .columns ((← c.selectItems exprs).map (·.parts))
  | .order keys => do return .text (← c.orderSql keys)
  | .orderItems keys => do return .ordering ((← c.orderItems keys).map (·.parts))
  | .assignment e => do return .text (← c.assignmentSql e)
  | .entityAssignment entity => do return .setting (← c.entityAssignmentSql entity)
  | .insert entity => do
    let lists ← c.insertLists entity
    return .lists lists.columns lists.values

/-- The answer of a filter or a partial update over a bind table, and the table after it. -/
def clauseAnswer (c : Scope) (k : BindingClause) (t : BindTable) :
    Except SqlError (ClauseAnswer String) × BindTable :=
  let filled := c.fill (c.clauseTemplate k).pieces t
  ((c.clauseTemplate k).outcome (.text (if (c.clauseTemplates k).isEmpty then none
    else some filled.1)), filled.2)

/-- The quoted columns of an entity that have a value. -/
def cellColumns (c : Scope) (entity : Record) : List String :=
  (c.writableValues entity).map fun cell => c.dialect.quote cell.1

/-- The slots of these values over a bind table. -/
def cellSlots (c : Scope) (entity : Record) (t : BindTable) : List String :=
  (t.answers c.dialect (c.writableValues entity)).map (·.text)

/-- The answer of a call over a bind table, and the table after it. -/
def answer (c : Scope) (call : ClauseCall) (t : BindTable) :
    Except SqlError (ClauseAnswer String) × BindTable :=
  match call with
  | .filter e => c.clauseAnswer (.filter e) t
  | .assignment e => c.clauseAnswer (.assignment e) t
  | .select exprs =>
    ((c.selectedItems exprs).map fun items => .text (listText (items.map (·.toSql))), t)
  | .selectItems exprs =>
    ((c.selectedItems exprs).map fun items => .columns (items.map (·.parts)), t)
  | .order keys =>
    ((c.orderedItems keys).map fun items => .text (listText (items.map (·.toSql))), t)
  | .orderItems keys =>
    ((c.orderedItems keys).map fun items => .ordering (items.map (·.parts)), t)
  | .entityAssignment entity =>
    (.ok (.setting (String.intercalate ", " (List.zipWith (fun column slot => column ++ " = " ++ slot)
      (c.cellColumns entity) (c.cellSlots entity t)))),
      t.bindAll c.dialect (c.writableValues entity))
  | .insert entity =>
    (.ok (.lists (c.cellColumns entity) (c.cellSlots entity t)),
      t.bindAll c.dialect (c.writableValues entity))

end Scope

/-! ### Outcomes -/

theorem map_map_outcome {α β γ : Type} (f : α → β) (g : β → γ) (x : Except SqlError α) :
    (x.map f).map g = x.map fun a => g (f a) :=
  (comp_map f g x).symm

namespace Drafting

variable {α β : Type}

theorem result_map (p : Drafting α) (f : α → β) (d : Draft) :
    (do return f (← p) : Drafting β).result d = ((p.result d).1.map f, (p.result d).2) := by
  have hrun : (do return f (← p) : Drafting β) d = EStateM.bind p (fun a => pure (f a)) d := rfl
  rw [result, result, hrun, EStateM.bind]
  cases p d <;> rfl

theorem after_map (p : Drafting α) (f : α → β) (d : Draft) :
    (do return f (← p) : Drafting β).after d = p.after d := by
  have hrun : (do return f (← p) : Drafting β) d = EStateM.bind p (fun a => pure (f a)) d := rfl
  rw [after, after, hrun, EStateM.bind]
  cases p d <;> rfl

end Drafting

namespace Scope

open Drafting

/-- The draft after a call is the one that performing it leaves. -/
theorem after_perform (c : Scope) (call : ClauseCall) (d : Draft) :
    (c.perform call).after d = c.afterCall d call := by
  cases call <;> exact after_map _ _ d

theorem selectSql_eq (c : Scope) (exprs : List Expr) :
    c.selectSql exprs = do return listText ((← c.selectItems exprs).map (·.toSql)) := by
  rw [selectSql]
  refine bind_congr fun items => ?_
  cases items <;> rfl

theorem orderSql_eq (c : Scope) (keys : List SortKey) :
    c.orderSql keys = do return listText ((← c.orderItems keys).map (·.toSql)) := by
  rw [orderSql]
  refine bind_congr fun items => ?_
  cases items <;> rfl

/-! ### Cells -/

theorem length_cellSlots (c : Scope) (entity : Record) (t : BindTable) :
    (c.cellColumns entity).length = (c.cellSlots entity t).length := by
  rw [cellSlots, cellColumns, List.length_map, List.length_map]
  generalize c.writableValues entity = values
  induction values generalizing t with
  | nil => rfl
  | cons cell rest ih => exact congrArg (· + 1) (ih _)

/-- Each value is bound in turn, and its slot stands beside its column. -/
theorem cells_run (c : Scope) (entity : Record) (d : Draft) :
    c.cells entity d = .ok ((c.cellColumns entity).zip (c.cellSlots entity d.binds))
      { d with binds := d.binds.bindAll c.dialect (c.writableValues entity) } := by
  rw [cells, cellColumns, cellSlots]
  generalize c.writableValues entity = values
  induction values generalizing d with
  | nil => rfl
  | cons cell rest ih =>
    obtain ⟨column, value⟩ := cell
    rw [List.mapM_cons, bind_eq_ok]
    refine ⟨_, { d with binds := (d.binds.bind c.dialect column value).2 }, rfl, ?_⟩
    rw [bind_eq_ok]
    exact ⟨_, _, ih _, rfl⟩

/-- The text that sets the columns of an entity binds its values in turn. -/
theorem entityAssignmentSql_result (c : Scope) (entity : Record) (d : Draft) :
    (c.entityAssignmentSql entity).result d =
      (.ok (String.intercalate ", " (List.zipWith (fun column slot => column ++ " = " ++ slot)
        (c.cellColumns entity) (c.cellSlots entity d.binds))),
        d.binds.bindAll c.dialect (c.writableValues entity)) := by
  have hrun : c.entityAssignmentSql entity d = EStateM.bind (c.cells entity)
      (fun cells => pure (String.intercalate ", "
        (cells.map fun cell => cell.1 ++ " = " ++ cell.2)))
      { d with items := .empty, texts := .empty } := rfl
  rw [result, hrun, EStateM.bind, cells_run]
  dsimp only
  rw [List.zip, List.map_zipWith]
  rfl

/-- An insert binds the values of the entity in turn. -/
theorem insertLists_result (c : Scope) (entity : Record) (d : Draft) :
    (c.insertLists entity).result d =
      (.ok { columns := c.cellColumns entity, values := c.cellSlots entity d.binds },
        d.binds.bindAll c.dialect (c.writableValues entity)) := by
  have hrun : c.insertLists entity d = EStateM.bind (c.cells entity)
      (fun cells => pure { columns := cells.map (·.1), values := cells.map (·.2) })
      { d with items := .empty, texts := .empty } := rfl
  have hlength := c.length_cellSlots entity d.binds
  rw [result, hrun, EStateM.bind, cells_run]
  dsimp only
  rw [List.map_fst_zip hlength.le, List.map_snd_zip hlength.ge]
  rfl

/-! ### Calls -/

theorem clauseAnswer_eq (c : Scope) (k : BindingClause) (d : Draft) :
    (do return .text (← c.clauseSql k) : Drafting (ClauseAnswer String)).result d
      = c.clauseAnswer k d.binds := by
  rw [result_map, clauseSql_result, clauseAnswer]
  dsimp only
  rw [Template.map_outcome]

/-- **What a call comes to** is determined by the call and the bind table. -/
theorem perform_result (c : Scope) (call : ClauseCall) (d : Draft) :
    (c.perform call).result d = c.answer call d.binds := by
  cases call with
  | filter e => exact c.clauseAnswer_eq (.filter e) d
  | assignment e => exact c.clauseAnswer_eq (.assignment e) d
  | select exprs =>
    rw [perform, result_map, selectSql_eq, result_map, selectItems_result, map_map_outcome]
    rfl
  | selectItems exprs =>
    rw [perform, result_map, selectItems_result]
    rfl
  | order keys =>
    rw [perform, result_map, orderSql_eq, result_map, orderItems_result, map_map_outcome]
    rfl
  | orderItems keys =>
    rw [perform, result_map, orderItems_result]
    rfl
  | entityAssignment entity =>
    rw [perform, result_map, entityAssignmentSql_result]
    rfl
  | insert entity =>
    rw [perform, result_map, insertLists_result]
    rfl

/-- A call is answered as it is on a fresh draft with the same bind table, whatever calls were
made before it and however they ended. -/
theorem perform_after_calls (c : Scope) (start : BindTable) (calls : List ClauseCall)
    (call : ClauseCall) :
    let d := c.draftAfter calls { binds := start }
    (c.perform call).result d = (c.perform call).result { binds := d.binds } := by
  intro d
  rw [perform_result, perform_result]

/-- The first half of a condition that is refused stays on the stack, and its slot in the bind
table. Only the slot is seen by the next call. -/
example :
    let m : EntityMap :=
      { entity := "Book", table := "books", key := none
        fields := [⟨"Out", ⟨"out", false, true, .scalar⟩⟩] }
    let c : Scope := ⟨m, .sqlite⟩
    let d := c.draftAfter [.filter (.conj (.ofMember "Out") (.constant .null))] (.fresh 0)
    d.texts.toList = ["\"out\" = ?1"] ∧
      ((c.perform (.filter (.not (.ofMember "Out")))).result d).2.slots.map (·.text)
        = ["?1", "?2"] := by
  decide

end Scope

end EntitySql
