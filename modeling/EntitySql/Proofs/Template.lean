import EntitySql.Clause.Assignment
import EntitySql.Proofs.BindTable
import EntitySql.Proofs.FilterText

/-!
# Templates

What a filter or a partial update writes can be laid down before anything is bound. A `Template`
is a list of pieces, in the order in which they stand in the text: words, and slots for values
that are bound for a column. A clause that is refused has a template too, with the pieces up to
the place where it is refused and the error.

`Scope.fill` goes through the pieces once, from left to right, and binds the values as it meets
them. The main statement, `clauseSql_result`, says that a clause comes to what its template comes
to: the same outcome and the same bind table, whether it succeeds or fails. So the values are
bound in the order in which their slots stand in the text, and nothing else looks at the bind
table.
-/

namespace EntitySql

/-- A piece of a text. -/
inductive Piece where
  | words (text : String)
  /-- The slot of a value that is bound for a column. -/
  | slot (column : String) (value : Value)

/-- The pieces of a text in order, and the error after them if the writing ends there. -/
structure Template where
  pieces : List Piece := []
  stop? : Option SqlError := none

/-- A value and the column for which it is bound, if the piece is a slot. -/
def Piece.request? : Piece → Option (String × Value)
  | .words _ => none
  | .slot column value => some (column, value)

namespace Template

/-- A template of one text. -/
def words (text : String) : Template where
  pieces := [.words text]

/-- A template of one slot. -/
def slot (column : String) (value : Value) : Template where
  pieces := [.slot column value]

/-- The writing ends at once. -/
def fail (e : SqlError) : Template where
  stop? := some e

/-- One template after another, unless the first one ends the writing. -/
protected def append (a b : Template) : Template :=
  match a.stop? with
  | some e => { pieces := a.pieces, stop? := some e }
  | none => { pieces := a.pieces ++ b.pieces, stop? := b.stop? }

instance : Append Template := ⟨Template.append⟩

/-- Templates in turn, with a text between them. -/
def join (separator : String) : List Template → Template
  | [] => {}
  | [t] => t
  | t :: u :: rest => t ++ words separator ++ join separator (u :: rest)

/-- The values in the order in which they are bound, with their columns. -/
def requests (t : Template) : List (String × Value) :=
  t.pieces.filterMap Piece.request?

/-- What was written, or the error that ends the writing. -/
def outcome {α : Type} (t : Template) (a : α) : Except SqlError α :=
  match t.stop? with
  | none => .ok a
  | some e => .error e

theorem outcome_eq_ok {α : Type} {t : Template} {a a' : α} :
    t.outcome a = .ok a' ↔ t.stop? = none ∧ a = a' := by
  rw [outcome]
  cases t.stop? <;> simp

@[simp] theorem stop?_words (text : String) : (words text).stop? = none := rfl

@[simp] theorem stop?_slot (column : String) (value : Value) : (slot column value).stop? = none :=
  rfl

@[simp] theorem stop?_fail (e : SqlError) : (fail e).stop? = some e := rfl

/-- The first error ends the writing. -/
@[simp] theorem stop?_append (a b : Template) : (a ++ b).stop? = a.stop?.or b.stop? := by
  have happend : a ++ b = a.append b := rfl
  rw [happend, Template.append]
  cases a.stop? <;> rfl

theorem stop?_join (separator : String) (ts : List Template) :
    (join separator ts).stop? = ts.findSome? (·.stop?) := by
  fun_induction join separator ts with
  | case1 => rfl
  | case2 t => cases h : t.stop? <;> simp [h]
  | case3 t u rest ih =>
    rw [stop?_append, stop?_append, stop?_words, Option.or_none, ih]
    cases h : t.stop? <;> simp [h]

theorem stop?_append_eq_none {a b : Template} :
    (a ++ b).stop? = none ↔ a.stop? = none ∧ b.stop? = none := by
  rw [stop?_append, Option.or_eq_none_iff]

theorem pieces_append {a b : Template} (h : a.stop? = none) :
    (a ++ b).pieces = a.pieces ++ b.pieces := by
  have happend : a ++ b = a.append b := rfl
  rw [happend, Template.append, h]

theorem append_assoc (a b c : Template) : a ++ b ++ c = a ++ (b ++ c) := by
  have happend : ∀ x y : Template, x ++ y = x.append y := fun _ _ => rfl
  simp only [happend, Template.append]
  cases a.stop? with
  | some e => rfl
  | none => cases b.stop? <;> simp

theorem map_outcome {α β : Type} (f : α → β) (t : Template) (a : α) :
    (t.outcome a).map f = t.outcome (f a) := by
  rw [outcome, outcome]
  cases t.stop? <;> rfl

end Template

namespace Scope

/-! ### Filling in -/

/-- The text of pieces, with the slots of a bind table, and the table after it. -/
def fill (c : Scope) : List Piece → BindTable → String × BindTable
  | [], t => ("", t)
  | .words text :: rest, t => (text ++ (c.fill rest t).1, (c.fill rest t).2)
  | .slot column value :: rest, t =>
    let (slot, u) := t.bind c.dialect column value
    (slot.text ++ (c.fill rest u).1, (c.fill rest u).2)

/-- Writes a template. -/
def write (c : Scope) (t : Template) : Binding String := fun binds =>
  match t.stop? with
  | none => .ok (c.fill t.pieces binds).1 (c.fill t.pieces binds).2
  | some e => .error e (c.fill t.pieces binds).2

theorem fill_append (c : Scope) (ps qs : List Piece) (t : BindTable) :
    c.fill (ps ++ qs) t = ((c.fill ps t).1 ++ (c.fill qs (c.fill ps t).2).1,
      (c.fill qs (c.fill ps t).2).2) := by
  induction ps generalizing t with
  | nil => simp [fill]
  | cons p ps ih =>
    cases p with
    | words text => simp [fill, ih, String.append_assoc]
    | slot column value => simp [fill, ih, String.append_assoc]

/-- Filling in makes the requests of the pieces in order. -/
theorem fill_snd (c : Scope) (ps : List Piece) (t : BindTable) :
    (c.fill ps t).2 = t.bindAll c.dialect (ps.filterMap Piece.request?) := by
  induction ps generalizing t with
  | nil => rfl
  | cons p ps ih =>
    cases p with
    | words text => exact ih t
    | slot column value => exact ih _

theorem write_eq_ok {c : Scope} {tm : Template} {t u : BindTable} {text : String} :
    c.write tm t = .ok text u ↔ tm.stop? = none ∧ c.fill tm.pieces t = (text, u) := by
  rw [write]
  cases tm.stop? with
  | none => simp [Prod.ext_iff]
  | some e => simp

theorem write_eq_error {c : Scope} {tm : Template} {t u : BindTable} {e : SqlError} :
    c.write tm t = .error e u ↔ tm.stop? = some e ∧ (c.fill tm.pieces t).2 = u := by
  rw [write]
  cases tm.stop? with
  | none => simp
  | some e => simp

theorem write_words (c : Scope) (text : String) : c.write (.words text) = pure text := by
  funext t
  simp [write, Template.words, fill, pure, EStateM.pure]

theorem write_slot (c : Scope) (column : String) (value : Value) :
    c.write (.slot column value) = c.slotOf column value := by
  funext t
  simp only [write, Template.slot, fill, String.append_empty]
  rfl

theorem write_fail (c : Scope) (e : SqlError) : c.write (.fail e) = throw e := rfl

theorem write_append (c : Scope) (a b : Template) :
    c.write (a ++ b) = do return (← c.write a) ++ (← c.write b) := by
  funext t
  have happend : a ++ b = a.append b := rfl
  rw [happend, Template.append]
  cases ha : a.stop? with
  | some e => simp [write, ha, bind, EStateM.bind]
  | none => cases hb : b.stop? <;> simp [write, ha, hb, bind, EStateM.bind, pure, EStateM.pure,
      fill_append]

/-- Templates in turn give their texts in turn. -/
theorem write_join (c : Scope) (separator : String) (ts : List Template) :
    c.write (.join separator ts) = do return String.intercalate separator (← ts.mapM c.write) := by
  induction ts with
  | nil => rfl
  | cons t rest ih =>
    cases rest with
    | nil => simp [Template.join]
    | cons u rest =>
      rw [Template.join, write_append, write_append, write_words, ih, List.mapM_cons,
        List.mapM_cons]
      simp [String.append_assoc]

/-! ### Operands -/

/-- A template that depends on the field of a member chain. -/
def onField (c : Scope) (e : Expr) (k : MappedField → Template) : Template :=
  match c.resolve e with
  | .ok f => k f
  | .error error => .fail error

theorem write_onField (c : Scope) (e : Expr) (k : MappedField → Template) :
    c.write (c.onField e k) = c.resolved e >>= fun f => c.write (k f) := by
  rw [onField, resolved]
  cases c.resolve e <;> rfl

/-- The template of an operand. -/
def operandTemplate (c : Scope) (column : String) (clause : ClauseKind) : Expr → Template
  | .member owner name => c.onField (.member owner name) fun f => .words (c.columnSql f)
  | .constant value => .slot column value
  | .convert inner => c.operandTemplate column clause inner
  | .binary op left right =>
    if op.isArithmetic then
      .words "(" ++ c.operandTemplate column clause left ++ .words (" " ++ op.text ++ " ")
        ++ c.operandTemplate column clause right ++ .words ")"
    else .fail (.unsupported .binary clause)
  | e => .fail (.unsupported e.kind clause)

theorem operandText_eq (c : Scope) (column : String) (clause : ClauseKind) (e : Expr) :
    c.operandText column clause e = c.write (c.operandTemplate column clause e) := by
  fun_induction operandTemplate c column clause e with
  | case1 owner name => simp [operandText, write_onField, write_words]
  | case2 value => rw [operandText, write_slot]
  | case3 inner ih => rw [operandText, ih]
  | case4 op left right hop ihl ihr =>
    rw [operandText, if_pos hop, ihl, ihr]
    simp [write_append, write_words, String.append_assoc]
  | case5 op left right hop => rw [operandText, if_neg hop, write_fail]
  | case6 e =>
    rw [write_fail]
    rw [operandText] <;> assumption

/-! ### Filters -/

/-- The template of a test of an operand for null or for not null. -/
def nullTestTemplate (c : Scope) (op : Operator) (column : String) (subject : Expr) : Template :=
  c.operandTemplate column .predicate subject
    ++ .words (if op = .eq then " IS NULL" else " IS NOT NULL")

/-- The template of a comparison. -/
def comparisonTemplate (c : Scope) (op : Operator) (left right : Expr) : Template :=
  let column := c.comparisonColumn left right
  if (op = .eq ∨ op = .ne) ∧ (left.isNullLiteral || right.isNullLiteral) then
    c.nullTestTemplate op column (if right.isNullLiteral then left else right)
  else c.operandTemplate column .predicate left ++ .words (" " ++ op.text ++ " ")
    ++ c.operandTemplate column .predicate right

/-- The template of a test of a boolean member. -/
def flagTemplate (c : Scope) (member : Expr) (expected : Bool) : Template :=
  c.onField member fun f =>
    .words (c.columnSql f) ++ .words " = " ++ .slot f.column.name (.bool expected)

/-- The template of list membership of a member. -/
def membershipTemplate (c : Scope) (member : Expr) (values : List Value) : Template :=
  c.onField member fun f =>
    match values with
    | [] => .words "1 = 0"
    | values => .words (c.columnSql f) ++ .words " IN ("
      ++ .join ", " (values.map (.slot f.column.name)) ++ .words ")"

/-- The template of a text match of a member. -/
def matchTemplate (c : Scope) (method : Callee) (member : Expr) (text : String) : Template :=
  c.onField member fun f =>
    .words (c.columnSql f) ++ .words " LIKE "
      ++ .slot f.column.name (.text (matchPattern method text)) ++ .words " ESCAPE '\\'"

/-- The template of a call on its first argument. -/
def callTemplate (c : Scope) (method : Callee) (target : Expr) (args : List Expr) : Template :=
  match args with
  | [] => .fail (.unsupported .call .predicate)
  | arg :: _ =>
    match CallForm.of method target arg with
    | .comparison => c.comparisonTemplate .eq target arg
    | .membership values => c.membershipTemplate arg.unconverted values
    | .textMatch owner name text => c.matchTemplate method (.member owner name) text
    | .badArgument => .fail (.unsupported arg.kind .predicate)
    | .refused => .fail (.unsupported .call .predicate)

/-- The template of the condition of a filter. -/
def conditionTemplate (c : Scope) : Expr → Template
  | .lambda _ body => c.conditionTemplate body
  | .convert inner => c.conditionTemplate inner
  | .binary op left right =>
    if op.isLogical then
      .words "(" ++ c.conditionTemplate left ++ .words (" " ++ op.text ++ " ")
        ++ c.conditionTemplate right ++ .words ")"
    else if op.isComparison then c.comparisonTemplate op left right
    else .fail (.unsupported .binary .predicate)
  | .member owner name => c.flagTemplate (.member owner name) true
  | .not (.member owner name) => c.flagTemplate (.member owner name) false
  | .not inner => .words "NOT (" ++ c.conditionTemplate inner ++ .words ")"
  | .call method target args => c.callTemplate method target args
  | .constant (.bool true) => .words "1 = 1"
  | .constant (.bool false) => .words "1 = 0"
  | e => .fail (.unsupported e.kind .predicate)

/-- The negation of anything but a member wraps its condition. -/
theorem conditionTemplate_not (c : Scope) {inner : Expr} (h : inner.kind ≠ .memberAccess) :
    c.conditionTemplate (.not inner)
      = .words "NOT (" ++ c.conditionTemplate inner ++ .words ")" := by
  cases inner with
  | member owner name => exact absurd rfl h
  | _ => rfl

theorem comparisonText_eq (c : Scope) (op : Operator) (left right : Expr) :
    c.comparisonText op left right = c.write (c.comparisonTemplate op left right) := by
  rw [comparisonText, comparisonTemplate]
  split
  · rw [nullTestText, nullTestTemplate, operandText_eq, write_append, write_words]
    simp
  · rw [operandText_eq, operandText_eq, write_append, write_append, write_words]
    simp only [bind_assoc, pure_bind, String.append_assoc]

theorem flagText_eq (c : Scope) (member : Expr) (expected : Bool) :
    c.flagText member expected = c.write (c.flagTemplate member expected) := by
  rw [flagText, flagTemplate, write_onField]
  simp [write_append, write_words, write_slot]

theorem membershipText_eq (c : Scope) (member : Expr) (values : List Value) :
    c.membershipText member values = c.write (c.membershipTemplate member values) := by
  rw [membershipText, membershipTemplate, write_onField]
  refine bind_congr fun f => ?_
  cases values with
  | nil => exact (write_words c "1 = 0").symm
  | cons value rest =>
    have hslots : ((value :: rest).map (Template.slot f.column.name)).mapM c.write
        = (value :: rest).mapM (c.slotOf f.column.name) := by
      rw [List.mapM_map]
      exact congrArg (fun g => List.mapM g (value :: rest)) (funext fun v => write_slot c _ v)
    dsimp only
    rw [write_append, write_append, write_append, write_words, write_words, write_words, write_join,
      hslots]
    simp

theorem matchText_eq (c : Scope) (method : Callee) (member : Expr) (text : String) :
    c.matchText method member text = c.write (c.matchTemplate method member text) := by
  rw [matchText, matchTemplate, write_onField]
  simp [write_append, write_words, write_slot]

theorem callText_eq (c : Scope) (method : Callee) (target : Expr) (args : List Expr) :
    c.callText method target args = c.write (c.callTemplate method target args) := by
  cases args with
  | nil => rfl
  | cons arg rest =>
    rw [callText, callTemplate]
    cases CallForm.of method target arg with
    | comparison => exact c.comparisonText_eq .eq target arg
    | membership values => exact c.membershipText_eq arg.unconverted values
    | textMatch owner name text => exact c.matchText_eq method (.member owner name) text
    | badArgument => rfl
    | refused => rfl

/-- A condition is written by its template. -/
theorem conditionText_eq (c : Scope) (e : Expr) :
    c.conditionText e = c.write (c.conditionTemplate e) := by
  fun_induction conditionTemplate c e with
  | case1 params body ih => exact ih
  | case2 inner ih => exact ih
  | case3 op left right hop ihl ihr =>
    rw [conditionText, if_pos hop, ihl, ihr]
    simp [write_append, write_words, String.append_assoc]
  | case4 op left right hop hcmp =>
    rw [conditionText, if_neg hop, if_pos hcmp, comparisonText_eq]
  | case5 op left right hop hcmp =>
    rw [conditionText, if_neg hop, if_neg hcmp, write_fail]
  | case6 owner name => exact c.flagText_eq (.member owner name) true
  | case7 owner name => exact c.flagText_eq (.member owner name) false
  | case8 inner hinner ih =>
    rw [conditionText]
    · rw [ih]
      simp [write_append, write_words]
    · exact hinner
  | case9 method target args => exact c.callText_eq method target args
  | case10 => exact (write_words c "1 = 1").symm
  | case11 => exact (write_words c "1 = 0").symm
  | case12 e =>
    rw [write_fail]
    rw [conditionText] <;> assumption

/-! ### Assignments -/

/-- The template of one assignment. -/
def setTemplate (c : Scope) (target value : Expr) : Template :=
  c.onField target fun f =>
    if c.isWritable f then
      .words (c.dialect.quote f.column.name) ++ .words " = "
        ++ c.operandTemplate f.column.name .assignment value
    else .fail (.notWritable f.column.name c.map.entity)

/-- An assignment is written as its quoted column and the text of its value. -/
theorem write_setTemplate (c : Scope) (target value : Expr) :
    c.write (c.setTemplate target value) = c.resolved target >>= fun f =>
      if c.isWritable f then do
        return c.dialect.quote f.column.name ++ " = "
          ++ (← c.operandText f.column.name .assignment value)
      else throw (.notWritable f.column.name c.map.entity) := by
  rw [setTemplate, write_onField]
  refine bind_congr fun f => ?_
  by_cases hwritable : c.isWritable f
  · rw [if_pos hwritable, if_pos hwritable, operandText_eq, write_append, write_append, write_words,
      write_words]
    simp
  · rw [if_neg hwritable, if_neg hwritable, write_fail]

mutual

/-- The templates of the assignments of a tree. -/
def assignmentTemplates (c : Scope) : Expr → List Template
  | .lambda _ body => c.assignmentTemplates body
  | .record items => c.allAssignmentTemplates items
  | .assign target value => [c.setTemplate target value]
  | e => [.fail (.unsupported e.kind .assignment)]

/-- The templates of the assignments of several trees. -/
def allAssignmentTemplates (c : Scope) : List Expr → List Template
  | [] => []
  | e :: es => c.assignmentTemplates e ++ c.allAssignmentTemplates es

end

end Scope

namespace Drafting

/-- The program pushes the texts that the other gives. If the other fails, it fails alike with what
it has written so far on top of the stack. -/
def WritesAll (p : Drafting Unit) (q : Binding (List String)) : Prop :=
  ∀ d, match q d.binds with
    | .ok texts binds =>
      p d = .ok () { d with binds, texts := ⟨texts.reverse ++ d.texts.latestFirst⟩ }
    | .error e binds =>
      ∃ left, p d = .error e { d with binds, texts := ⟨left ++ d.texts.latestFirst⟩ }

theorem Writes.all {p : Drafting Unit} {q : Binding String} (h : Writes p q) :
    WritesAll p (do return [← q]) := by
  intro d
  have hd := h d
  simp only [bind, EStateM.bind]
  cases hq : q d.binds with
  | ok text binds =>
    rw [hq] at hd
    exact hd
  | error e binds =>
    rw [hq] at hd
    obtain ⟨left, hleft⟩ := hd
    exact ⟨_, hleft⟩

theorem WritesAll.append {p₁ p₂ : Drafting Unit} {q₁ q₂ : Binding (List String)}
    (h₁ : WritesAll p₁ q₁) (h₂ : WritesAll p₂ q₂) :
    WritesAll (do p₁; p₂) (do return (← q₁) ++ (← q₂)) := by
  intro d
  have hd := h₁ d
  simp only [bind, EStateM.bind] at hd ⊢
  cases hq : q₁ d.binds with
  | error e binds =>
    rw [hq] at hd
    obtain ⟨left, hrun⟩ := hd
    exact ⟨left, by simp only [hrun]⟩
  | ok first binds =>
    rw [hq] at hd
    -- the second program starts with the first texts on the stack
    have hd₂ := h₂ { d with binds, texts := ⟨first.reverse ++ d.texts.latestFirst⟩ }
    simp only [hd] at hd₂ ⊢
    cases hq₂ : q₂ binds with
    | ok second binds' =>
      simp only [hq₂] at hd₂
      simp only [hd₂]
      simp [pure, EStateM.pure]
    | error e binds' =>
      simp only [hq₂] at hd₂
      obtain ⟨left, hrun⟩ := hd₂
      exact ⟨left ++ first.reverse, by simp only [hrun, List.append_assoc]⟩

end Drafting

namespace Scope

open Drafting

theorem emitSet_writes (c : Scope) (target value : Expr) :
    Writes (c.emitSet target value) (c.write (c.setTemplate target value)) := by
  rw [emitSet, write_setTemplate, fieldOf_eq]
  refine Writes.after _ fun f => ?_
  by_cases hwritable : c.isWritable f
  · rw [if_pos hwritable, if_pos hwritable]
    exact (c.emitOperand_writes f.column.name .assignment value).wrap
      fun text => c.dialect.quote f.column.name ++ " = " ++ text
  · rw [if_neg hwritable, if_neg hwritable]
    exact writes_throw _

mutual

/-- The assignments of a tree are pushed as the texts of their templates. -/
theorem emitAssignments_writes (c : Scope) :
    ∀ e, WritesAll (c.emitAssignments e) ((c.assignmentTemplates e).mapM c.write)
  | .lambda params body => by
    rw [emitAssignments, assignmentTemplates]
    exact emitAssignments_writes c body
  | .record items => by
    rw [emitAssignments, assignmentTemplates]
    exact emitAllAssignments_writes c items
  | .assign target value => by
    rw [emitAssignments, assignmentTemplates]
    have hset := (c.emitSet_writes target value).all
    simpa using hset
  | .parameter _ | .member _ _ | .constant _ | .convert _ | .not _ | .binary _ _ _
  | .call _ _ _ | .conditional _ _ _ => fun _ => ⟨[], rfl⟩

theorem emitAllAssignments_writes (c : Scope) :
    ∀ es, WritesAll (c.emitAllAssignments es) ((c.allAssignmentTemplates es).mapM c.write)
  | [] => fun _ => rfl
  | e :: es => by
    rw [emitAllAssignments, allAssignmentTemplates, List.mapM_append]
    exact (emitAssignments_writes c e).append (emitAllAssignments_writes c es)

end

end Scope

/-! ### Clauses -/

/-- A clause that binds the constants of an expression. -/
inductive BindingClause where
  | filter (e : Expr)
  | assignment (e : Expr)

/-- What stands between the texts of a clause. -/
def BindingClause.separator : BindingClause → String
  | .filter _ => " AND "
  | .assignment _ => ", "

/-- The outcome of a program, and the bind table that it leaves. -/
def Drafting.result {α : Type} (p : Drafting α) (d : Draft) : Except SqlError α × BindTable :=
  match p d with
  | .ok a d' => (.ok a, d'.binds)
  | .error e d' => (.error e, d'.binds)

/-- Takes all texts and joins them. -/
def Drafting.takeJoined (separator : String) : Drafting (Option String) := do
  match ← takeTexts with
  | [] => return none
  | parts => return some (String.intercalate separator parts)

theorem Drafting.takeJoined_eq (separator : String) (d : Draft) :
    takeJoined separator d =
      .ok (if d.texts.toList.isEmpty then none
        else some (String.intercalate separator d.texts.toList)) { d with texts := .empty } := by
  have htake : takeJoined separator d = (match d.texts.toList with
      | [] => pure none
      | parts => pure (some (String.intercalate separator parts)) : Drafting (Option String))
        { d with texts := .empty } := rfl
  rw [htake]
  cases d.texts.toList <;> rfl

namespace Scope

open Drafting

/-- The text of a clause. -/
def clauseSql (c : Scope) : BindingClause → Drafting (Option String)
  | .filter e => c.filterSql e
  | .assignment e => c.assignmentSql e

/-- The templates of the texts of a clause. -/
def clauseTemplates (c : Scope) : BindingClause → List Template
  | .filter e => [c.conditionTemplate e]
  | .assignment e => c.assignmentTemplates e

/-- The template of a clause. -/
def clauseTemplate (c : Scope) (k : BindingClause) : Template :=
  .join k.separator (c.clauseTemplates k)

/-- Templates in turn that are all written go to their ends, and each gives a text. -/
theorem mapM_write_eq_ok {c : Scope} {ts : List Template} {t u : BindTable} {texts : List String}
    (h : ts.mapM c.write t = .ok texts u) :
    (∀ s ∈ ts, s.stop? = none) ∧ texts.length = ts.length := by
  induction ts generalizing t texts with
  | nil =>
    obtain ⟨rfl, -⟩ := pure_eq_ok.mp h
    exact ⟨List.forall_mem_nil _, rfl⟩
  | cons s rest ih =>
    rw [List.mapM_cons, bind_eq_ok] at h
    obtain ⟨text, v, hs, h⟩ := h
    obtain ⟨more, hmore, rfl⟩ := map_eq_ok.mp h
    obtain ⟨hstop, hlength⟩ := ih hmore
    exact ⟨List.forall_mem_cons.mpr ⟨(write_eq_ok.mp hs).1, hstop⟩, congrArg (· + 1) hlength⟩

theorem isEmpty_of_mapM {c : Scope} {ts : List Template} {t u : BindTable} {texts : List String}
    (h : ts.mapM c.write t = .ok texts u) : texts.isEmpty = ts.isEmpty := by
  rw [Bool.eq_iff_iff, List.isEmpty_iff_length_eq_zero, List.isEmpty_iff_length_eq_zero,
    (mapM_write_eq_ok h).2]

/-- Templates in turn fail as the joined template does. -/
theorem write_join_eq_error {c : Scope} {ts : List Template} {t u : BindTable} {e : SqlError}
    (h : ts.mapM c.write t = .error e u) (separator : String) :
    c.write (.join separator ts) t = .error e u := by
  rw [write_join]
  simp only [bind, EStateM.bind, h]

/-- Taking all texts that were written gives what the joined templates come to. -/
theorem result_of_writesAll (c : Scope) {p : Drafting Unit} {ts : List Template}
    (h : WritesAll p (ts.mapM c.write)) (separator : String) (d : Draft) :
    (do reset; setAliasing false; p; takeJoined separator : Drafting (Option String)).result d =
      let filled := c.fill (Template.join separator ts).pieces d.binds
      ((Template.join separator ts).outcome (if ts.isEmpty then none else some filled.1),
        filled.2) := by
  let start : Draft := { d with items := .empty, texts := .empty, aliasing := false }
  have hp := h start
  have hjoin := congrFun (c.write_join separator ts) d.binds
  have hbinds : start.binds = d.binds := rfl
  rw [hbinds] at hp
  have hstart : (do reset; setAliasing false; p; takeJoined separator : Drafting (Option String)) d
      = EStateM.bind p (fun _ => takeJoined separator) start := rfl
  rw [result, hstart, EStateM.bind]
  cases hq : ts.mapM c.write d.binds with
  | ok texts u =>
    rw [hq] at hp
    dsimp only at hp
    obtain ⟨hstop, hfill⟩ := write_eq_ok.mp (hjoin.trans (map_eq_ok.mpr ⟨texts, hq, rfl⟩))
    rw [hp, hfill, ← isEmpty_of_mapM hq]
    have htexts : Stack.toList ⟨texts.reverse ++ start.texts.latestFirst⟩ = texts := by
      rw [Stack.toList, List.reverse_append, List.reverse_reverse]
      rfl
    simp only [Template.outcome, hstop, takeJoined_eq, htexts]
  | error e u =>
    rw [hq] at hp
    obtain ⟨left, hleft⟩ := hp
    obtain ⟨hstop, hfill⟩ := write_eq_error.mp (write_join_eq_error hq separator)
    rw [hleft]
    simp only [Template.outcome, hstop, hfill]

/-- **A clause comes to what its template comes to.** -/
theorem clauseSql_result (c : Scope) (k : BindingClause) (d : Draft) :
    (c.clauseSql k).result d =
      let filled := c.fill (c.clauseTemplate k).pieces d.binds
      ((c.clauseTemplate k).outcome
        (if (c.clauseTemplates k).isEmpty then none else some filled.1), filled.2) := by
  cases k with
  | filter e =>
    have hfilter : WritesAll (c.emitFilter e) ([c.conditionTemplate e].mapM c.write) := by
      have hwrites := (c.emitFilter_writes e).all
      rw [conditionText_eq] at hwrites
      simpa using hwrites
    exact c.result_of_writesAll hfilter " AND " d
  | assignment e => exact c.result_of_writesAll (c.emitAssignments_writes e) ", " d

end Scope

end EntitySql
