import EntitySql.Clause.Filter

/-!
# Filters written without a stack

`Scope.emitFilter` leaves the text of a condition on the stack of the draft and builds it from
texts that it takes back from there. The same condition can be written by a program that never
sees the stack: `Scope.conditionText` gives its text as a result and reads the bind table alone.

`Drafting.Writes p q` says that they agree. Where `q` gives a text, `p` pushes just this text on
whatever stood on the stack; where `q` fails, `p` fails alike and what stood on the stack is still
there, under the fragments of the unfinished condition. The main statement is
`emitFilter_writes`: every text that a writer takes back is the one that it pushed last, so
`SqlError.underflow` does not arise. A filter that is written therefore has one text
(`filterSql_ok`), which is not empty (`conditionText_ne_empty`).
-/

namespace EntitySql

/-- Programs that extend a bind table and may fail. -/
abbrev Binding := EStateM SqlError BindTable

namespace Drafting

variable {α β : Type}

/-! ### Programs over the bind table -/

/-- A program over the bind table as a program over the draft. -/
def onBinds (q : Binding α) : Drafting α := fun d =>
  match q d.binds with
  | .ok a binds => .ok a { d with binds }
  | .error e binds => .error e { d with binds }

theorem onBinds_pure (a : α) : onBinds (pure a) = pure a := rfl

theorem onBinds_bind (q : Binding α) (r : α → Binding β) :
    onBinds (q >>= r) = onBinds q >>= fun a => onBinds (r a) := by
  funext d
  simp only [onBinds, bind, EStateM.bind]
  cases q d.binds <;> rfl

theorem onBinds_mapM (r : α → Binding β) (xs : List α) :
    onBinds (xs.mapM r) = xs.mapM fun x => onBinds (r x) := by
  induction xs with
  | nil => rfl
  | cons x xs ih => simp only [List.mapM_cons, onBinds_bind, ih, onBinds_pure]

/-! ### Writing one text -/

/-- The program pushes the text that the other gives. If the other fails, it fails alike with what
it has written so far on top of the stack. -/
def Writes (p : Drafting Unit) (q : Binding String) : Prop :=
  ∀ d, match q d.binds with
    | .ok text binds => p d = .ok () { d with binds, texts := d.texts.push text }
    | .error e binds =>
      ∃ left, p d = .error e { d with binds, texts := ⟨left ++ d.texts.latestFirst⟩ }

theorem writes_pushText (text : String) : Writes (pushText text) (pure text) :=
  fun _ => rfl

theorem writes_throw (e : SqlError) : Writes (throw e) (throw e) :=
  fun _ => ⟨[], rfl⟩

/-- A program that does not touch the stack may come first. -/
theorem Writes.after {k : α → Drafting Unit} {r : α → Binding String} (q : Binding α)
    (h : ∀ a, Writes (k a) (r a)) : Writes (onBinds q >>= k) (q >>= r) := by
  intro d
  simp only [onBinds, bind, EStateM.bind]
  cases q d.binds with
  | ok a binds => exact h a { d with binds }
  | error e binds => exact ⟨[], rfl⟩

/-- A text is taken back and wrapped. -/
theorem Writes.wrap {p : Drafting Unit} {q : Binding String} (h : Writes p q)
    (f : String → String) :
    Writes (do p; let text ← popText; pushText (f text)) (do return f (← q)) := by
  intro d
  have hd := h d
  simp only [bind, EStateM.bind] at hd ⊢
  cases hq : q d.binds with
  | ok text binds =>
    rw [hq] at hd
    simp only [hd]
    rfl
  | error e binds =>
    rw [hq] at hd
    obtain ⟨left, hleft⟩ := hd
    exact ⟨left, by simp only [hleft]⟩

/-- Two texts are taken back in reverse order and joined. -/
theorem Writes.join {p₁ p₂ : Drafting Unit} {q₁ q₂ : Binding String} (h₁ : Writes p₁ q₁)
    (h₂ : Writes p₂ q₂) (f : String → String → String) :
    Writes
      (do p₁; p₂; let right ← popText; let left ← popText; pushText (f left right))
      (do let left ← q₁; let right ← q₂; return f left right) := by
  intro d
  have hd := h₁ d
  simp only [bind, EStateM.bind] at hd ⊢
  cases hq : q₁ d.binds with
  | error e binds =>
    rw [hq] at hd
    obtain ⟨rest, hrest⟩ := hd
    exact ⟨rest, by simp only [hrest]⟩
  | ok left binds =>
    rw [hq] at hd
    -- the second program starts with the first text on the stack
    have hd₂ := h₂ { d with binds, texts := d.texts.push left }
    simp only [hd] at hd₂ ⊢
    cases hq₂ : q₂ binds with
    | ok right binds' =>
      simp only [hq₂] at hd₂
      simp only [hd₂]
      rfl
    | error e binds' =>
      simp only [hq₂] at hd₂
      obtain ⟨rest, hrest⟩ := hd₂
      -- the left text was pushed before the right one failed
      exact ⟨rest ++ [left], by simp only [hrest]; simp [Stack.push]⟩

/-- A successful run pushes a text that the other program gives. -/
theorem Writes.of_ok {p : Drafting Unit} {q : Binding String} (h : Writes p q) {d d' : Draft}
    (hp : p d = .ok () d') :
    ∃ text, q d.binds = .ok text d'.binds ∧
      d' = { d with binds := d'.binds, texts := d.texts.push text } := by
  have hd := h d
  cases hq : q d.binds with
  | ok text binds =>
    rw [hq, hp] at hd
    obtain rfl : d' = _ := (EStateM.Result.ok.inj hd).2
    exact ⟨text, rfl, rfl⟩
  | error e binds =>
    rw [hq, hp] at hd
    obtain ⟨left, hleft⟩ := hd
    cases hleft

end Drafting

/-! ### Forms of calls -/

/-- What a call asks for. -/
inductive CallForm where
  /-- An equality of the target and the argument. -/
  | comparison
  /-- Membership of the argument in a list. -/
  | membership (values : List Value)
  /-- A match of the member `name` of `owner` against a text. -/
  | textMatch (owner : Expr) (name text : String)
  /-- A match against something that is no text. -/
  | badArgument
  | refused

/-- The form of a call on its first argument. -/
def CallForm.of (method : Callee) (target arg : Expr) : CallForm :=
  match method, target.unconverted with
  | .equals, _ => .comparison
  | .contains, .constant (.array values) => .membership values
  | _, .member owner name =>
    match arg.unconverted with
    | .constant (.text text) => .textMatch owner name text
    | _ => .badArgument
  | _, _ => .refused

theorem CallForm.of_eq_comparison {method : Callee} {target arg : Expr} :
    CallForm.of method target arg = .comparison ↔ method = .equals := by
  unfold CallForm.of
  split <;> grind

theorem CallForm.of_eq_membership {method : Callee} {target arg : Expr} {values : List Value} :
    CallForm.of method target arg = .membership values ↔
      method = .contains ∧ target.unconverted = .constant (.array values) := by
  unfold CallForm.of
  split <;> grind

theorem CallForm.of_eq_textMatch {method : Callee} {target arg owner : Expr} {name text : String} :
    CallForm.of method target arg = .textMatch owner name text ↔ method ≠ .equals ∧
      target.unconverted = .member owner name ∧ arg.unconverted = .constant (.text text) := by
  unfold CallForm.of
  split <;> grind

namespace Scope

open Drafting

/-! ### Operands -/

/-- The text of the slot that a value gets for a column. -/
def slotOf (c : Scope) (column : String) (value : Value) : Binding String :=
  modifyGet fun t =>
    let (slot, t) := t.bind c.dialect column value
    (slot.text, t)

/-- The persisted field of a member chain. -/
def resolved (c : Scope) (e : Expr) : Binding MappedField :=
  match c.resolve e with
  | .ok f => pure f
  | .error error => throw error

/-- The text of an operand, with its constants bound for a column. -/
def operandText (c : Scope) (column : String) (clause : ClauseKind) : Expr → Binding String
  | .member owner name => do return c.columnSql (← c.resolved (.member owner name))
  | .constant value => c.slotOf column value
  | .convert inner => c.operandText column clause inner
  | .binary op left right =>
    if op.isArithmetic then do
      let leftText ← c.operandText column clause left
      let rightText ← c.operandText column clause right
      return "(" ++ leftText ++ " " ++ op.text ++ " " ++ rightText ++ ")"
    else throw (.unsupported .binary clause)
  | e => throw (.unsupported e.kind clause)

theorem fieldOf_eq (c : Scope) (e : Expr) : c.fieldOf e = onBinds (c.resolved e) := by
  rw [fieldOf, resolved]
  cases c.resolve e <;> rfl

theorem bindValue_eq (c : Scope) (column : String) (value : Value) :
    c.bindValue column value = onBinds (c.slotOf column value) := rfl

/-- An operand is pushed as the text that it has. -/
theorem emitOperand_writes (c : Scope) (column : String) (clause : ClauseKind) :
    ∀ e, Writes (c.emitOperand column clause e) (c.operandText column clause e)
  | .member owner name => by
    rw [emitOperand, operandText, fieldOf_eq]
    exact Writes.after _ fun f => writes_pushText (c.columnSql f)
  | .constant value => by
    rw [emitOperand, operandText, bindValue_eq]
    exact Writes.after (r := pure) _ fun slot => writes_pushText slot
  | .convert inner => by
    rw [emitOperand, operandText]
    exact emitOperand_writes c column clause inner
  | .binary op left right => by
    rw [emitOperand, operandText]
    split
    · exact (emitOperand_writes c column clause left).join
        (emitOperand_writes c column clause right)
        fun leftText rightText => "(" ++ leftText ++ " " ++ op.text ++ " " ++ rightText ++ ")"
    · exact writes_throw _
  | .parameter _ | .not _ | .call _ _ _ | .record _ | .lambda _ _ | .assign _ _
  | .conditional _ _ _ => writes_throw _

/-! ### Comparisons and calls -/

/-- The text of a test of an operand for null or for not null. -/
def nullTestText (c : Scope) (op : Operator) (column : String) (subject : Expr) :
    Binding String := do
  return (← c.operandText column .predicate subject)
    ++ if op = .eq then " IS NULL" else " IS NOT NULL"

/-- The text of a comparison. -/
def comparisonText (c : Scope) (op : Operator) (left right : Expr) : Binding String :=
  let column := c.comparisonColumn left right
  if (op = .eq ∨ op = .ne) ∧ (left.isNullLiteral || right.isNullLiteral) then
    c.nullTestText op column (if right.isNullLiteral then left else right)
  else do
    let leftText ← c.operandText column .predicate left
    let rightText ← c.operandText column .predicate right
    return leftText ++ " " ++ op.text ++ " " ++ rightText

/-- The text of a test of a boolean member. -/
def flagText (c : Scope) (member : Expr) (expected : Bool) : Binding String := do
  let f ← c.resolved member
  return c.columnSql f ++ " = " ++ (← c.slotOf f.column.name (.bool expected))

/-- The text of list membership of a member. -/
def membershipText (c : Scope) (member : Expr) (values : List Value) : Binding String := do
  let f ← c.resolved member
  match values with
  | [] => return "1 = 0"
  | values =>
    let slots ← values.mapM (c.slotOf f.column.name)
    return c.columnSql f ++ " IN (" ++ String.intercalate ", " slots ++ ")"

/-- The text of a text match of a member. -/
def matchText (c : Scope) (method : Callee) (member : Expr) (text : String) :
    Binding String := do
  let f ← c.resolved member
  let slot ← c.slotOf f.column.name (.text (matchPattern method text))
  return c.columnSql f ++ " LIKE " ++ slot ++ " ESCAPE '\\'"

/-- The text of a call on its first argument. -/
def callText (c : Scope) (method : Callee) (target : Expr) (args : List Expr) :
    Binding String :=
  match args with
  | [] => throw (.unsupported .call .predicate)
  | arg :: _ =>
    match CallForm.of method target arg with
    | .comparison => c.comparisonText .eq target arg
    | .membership values => c.membershipText arg.unconverted values
    | .textMatch owner name text => c.matchText method (.member owner name) text
    | .badArgument => throw (.unsupported arg.kind .predicate)
    | .refused => throw (.unsupported .call .predicate)

theorem emitNullTest_writes (c : Scope) (op : Operator) (column : String) (subject : Expr) :
    Writes (c.emitNullTest op column subject) (c.nullTestText op column subject) :=
  (c.emitOperand_writes column .predicate subject).wrap
    fun text => text ++ if op = .eq then " IS NULL" else " IS NOT NULL"

theorem emitComparison_writes (c : Scope) (op : Operator) (left right : Expr) :
    Writes (c.emitComparison op left right) (c.comparisonText op left right) := by
  rw [emitComparison, comparisonText]
  split
  · exact c.emitNullTest_writes op _ _
  · exact (c.emitOperand_writes _ .predicate left).join (c.emitOperand_writes _ .predicate right)
      fun leftText rightText => leftText ++ " " ++ op.text ++ " " ++ rightText

theorem emitFlag_writes (c : Scope) (member : Expr) (expected : Bool) :
    Writes (c.emitFlag member expected) (c.flagText member expected) := by
  rw [emitFlag, flagText, fieldOf_eq]
  refine Writes.after _ fun f => ?_
  rw [bindValue_eq]
  exact Writes.after _ fun slot => writes_pushText (c.columnSql f ++ " = " ++ slot)

theorem emitMembership_writes (c : Scope) (member : Expr) (values : List Value) :
    Writes (c.emitMembership member values) (c.membershipText member values) := by
  rw [emitMembership, membershipText, fieldOf_eq]
  refine Writes.after _ fun f => ?_
  cases values with
  | nil => exact writes_pushText "1 = 0"
  | cons value rest =>
    have hslots : (value :: rest).mapM (c.bindValue f.column.name)
        = onBinds ((value :: rest).mapM (c.slotOf f.column.name)) :=
      (onBinds_mapM (c.slotOf f.column.name) (value :: rest)).symm
    dsimp only
    rw [hslots]
    exact Writes.after _ fun slots =>
      writes_pushText (c.columnSql f ++ " IN (" ++ String.intercalate ", " slots ++ ")")

theorem emitMatch_writes (c : Scope) (method : Callee) (member : Expr) (text : String) :
    Writes (c.emitMatch method member text) (c.matchText method member text) := by
  rw [emitMatch, matchText, fieldOf_eq]
  refine Writes.after _ fun f => ?_
  rw [bindValue_eq]
  exact Writes.after _ fun slot =>
    writes_pushText (c.columnSql f ++ " LIKE " ++ slot ++ " ESCAPE '\\'")

/-- A call is written by its form. -/
theorem emitCall_cons (c : Scope) (method : Callee) (target arg : Expr) (rest : List Expr) :
    c.emitCall method target (arg :: rest) =
      match CallForm.of method target arg with
      | .comparison => c.emitComparison .eq target arg
      | .membership values => c.emitMembership arg.unconverted values
      | .textMatch owner name text => c.emitMatch method (.member owner name) text
      | .badArgument => throw (.unsupported arg.kind .predicate)
      | .refused => throw (.unsupported .call .predicate) := by
  unfold emitCall CallForm.of
  dsimp only
  generalize target.unconverted = t
  generalize arg.unconverted = a
  -- the method and the target decide, except that a text match also looks at its argument
  cases method with
  | equals => rfl
  | contains =>
    cases t with
    | constant value => cases value <;> rfl
    | member owner name =>
      cases a with
      | constant value => cases value <;> rfl
      | _ => rfl
    | _ => rfl
  | _ =>
    cases t with
    | member owner name =>
      cases a with
      | constant value => cases value <;> rfl
      | _ => rfl
    | _ => rfl

theorem emitCall_writes (c : Scope) (method : Callee) (target : Expr) (args : List Expr) :
    Writes (c.emitCall method target args) (c.callText method target args) := by
  cases args with
  | nil => exact writes_throw _
  | cons arg rest =>
    rw [emitCall_cons, callText]
    cases CallForm.of method target arg with
    | comparison => exact c.emitComparison_writes .eq target arg
    | membership values => exact c.emitMembership_writes arg.unconverted values
    | textMatch owner name text => exact c.emitMatch_writes method (.member owner name) text
    | badArgument => exact writes_throw _
    | refused => exact writes_throw _

/-! ### Conditions -/

/-- The text of the condition of a filter. -/
def conditionText (c : Scope) : Expr → Binding String
  | .lambda _ body => c.conditionText body
  | .convert inner => c.conditionText inner
  | .binary op left right =>
    if op.isLogical then do
      let leftText ← c.conditionText left
      let rightText ← c.conditionText right
      return "(" ++ leftText ++ " " ++ op.text ++ " " ++ rightText ++ ")"
    else if op.isComparison then c.comparisonText op left right
    else throw (.unsupported .binary .predicate)
  | .member owner name => c.flagText (.member owner name) true
  | .not (.member owner name) => c.flagText (.member owner name) false
  | .not inner => do return "NOT (" ++ (← c.conditionText inner) ++ ")"
  | .call method target args => c.callText method target args
  | .constant (.bool true) => pure "1 = 1"
  | .constant (.bool false) => pure "1 = 0"
  | e => throw (.unsupported e.kind .predicate)

/-- A condition is pushed as the text that it has. -/
theorem emitFilter_writes (c : Scope) (e : Expr) :
    Writes (c.emitFilter e) (c.conditionText e) := by
  fun_induction emitFilter c e with
  | case1 params body ih => exact ih
  | case2 inner ih => exact ih
  | case3 op left right hop ihl ihr =>
    rw [conditionText, if_pos hop]
    exact ihl.join ihr
      fun leftText rightText => "(" ++ leftText ++ " " ++ op.text ++ " " ++ rightText ++ ")"
  | case4 op left right hop hcmp =>
    rw [conditionText, if_neg hop, if_pos hcmp]
    exact c.emitComparison_writes op left right
  | case5 op left right hop hcmp =>
    rw [conditionText, if_neg hop, if_neg hcmp]
    exact writes_throw _
  | case6 owner name => exact c.emitFlag_writes (.member owner name) true
  | case7 owner name => exact c.emitFlag_writes (.member owner name) false
  | case8 inner hinner ih =>
    rw [conditionText]
    · exact ih.wrap fun text => "NOT (" ++ text ++ ")"
    · exact hinner
  | case9 method target args => exact c.emitCall_writes method target args
  | case10 => exact writes_pushText "1 = 1"
  | case11 => exact writes_pushText "1 = 0"
  | case12 e =>
    have hrefused : c.conditionText e = throw (.unsupported e.kind .predicate) := by
      rw [conditionText] <;> assumption
    rw [hrefused]
    exact writes_throw _

/-- A filter that is written gives the text of its condition. -/
theorem filterSql_ok (c : Scope) {e : Expr} {d d' : Draft} {sql : Option String}
    (h : c.filterSql e d = .ok sql d') :
    ∃ text, sql = some text ∧ c.conditionText e d.binds = .ok text d'.binds := by
  let start : Draft := { d with items := .empty, texts := .empty, aliasing := false }
  change EStateM.bind (c.emitFilter e) _ start = _ at h
  rw [EStateM.bind] at h
  cases hemit : c.emitFilter e start with
  | error error d₁ =>
    rw [hemit] at h
    cases h
  | ok u d₁ =>
    obtain ⟨text, htext, hd₁⟩ := (c.emitFilter_writes e).of_ok hemit
    rw [hemit, hd₁] at h
    obtain ⟨rfl, rfl⟩ := EStateM.Result.ok.inj h
    exact ⟨text, rfl, htext⟩

end Scope

/-! ### Success -/

section Success

variable {σ α β : Type} {s s' : σ} {t u : BindTable}

theorem bind_eq_ok {q : EStateM SqlError σ α} {r : α → EStateM SqlError σ β} {b : β} :
    (q >>= r) s = .ok b s' ↔ ∃ a v, q s = .ok a v ∧ r a v = .ok b s' := by
  simp only [bind, EStateM.bind]
  cases q s with
  | ok a v =>
    constructor
    · exact fun h => ⟨a, v, rfl, h⟩
    · rintro ⟨_, _, ⟨⟩, h⟩
      exact h
  | error e v => exact ⟨nofun, nofun⟩

theorem pure_eq_ok {a b : α} : (pure a : EStateM SqlError σ α) s = .ok b s' ↔ a = b ∧ s = s' := by
  constructor
  · rintro ⟨⟩
    exact ⟨rfl, rfl⟩
  · rintro ⟨rfl, rfl⟩
    rfl

theorem map_eq_ok {q : EStateM SqlError σ α} {f : α → β} {b : β} :
    (do return f (← q) : EStateM SqlError σ β) s = .ok b s' ↔ ∃ a, q s = .ok a s' ∧ f a = b := by
  rw [bind_eq_ok]
  constructor
  · rintro ⟨a, v, hq, hr⟩
    obtain ⟨hb, rfl⟩ := pure_eq_ok.mp hr
    exact ⟨a, hq, hb⟩
  · rintro ⟨a, hq, rfl⟩
    exact ⟨a, s', hq, rfl⟩

theorem throw_ne_ok {e : SqlError} {a : α} : (throw e : EStateM SqlError σ α) s ≠ .ok a s' :=
  nofun

theorem resolved_eq_ok {c : Scope} {e : Expr} {f : MappedField} :
    c.resolved e t = .ok f u ↔ c.resolve e = .ok f ∧ t = u := by
  rw [Scope.resolved]
  cases c.resolve e with
  | ok g => rw [pure_eq_ok, Except.ok.injEq]
  | error e =>
    constructor
    · intro h
      cases h
    · rintro ⟨h, -⟩
      cases h

theorem slotOf_eq_ok {c : Scope} {column : String} {value : Value} {text : String} :
    c.slotOf column value t = .ok text u ↔
      (t.bind c.dialect column value).1.text = text ∧ (t.bind c.dialect column value).2 = u := by
  constructor
  · rintro ⟨⟩
    exact ⟨rfl, rfl⟩
  · rintro ⟨rfl, rfl⟩
    rfl

end Success

/-! ### The texts of conditions -/

namespace Scope

variable (c : Scope) {e : Expr} {d : Draft} {t u : BindTable} {text : String}

/-- A condition that has a text is written as this text. -/
theorem filterSql_of_conditionText (h : c.conditionText e d.binds = .ok text u) :
    c.filterSql e d = .ok (some text) { binds := u } := by
  let start : Draft := { d with items := .empty, texts := .empty, aliasing := false }
  have hemit := c.emitFilter_writes e start
  have hbinds : start.binds = d.binds := rfl
  rw [hbinds, h] at hemit
  change EStateM.bind (c.emitFilter e) _ start = _
  rw [EStateM.bind, hemit]
  rfl

theorem comparisonText_ne_empty {op : Operator} {l r : Expr}
    (h : c.comparisonText op l r t = .ok text u) : text ≠ "" := by
  rw [comparisonText] at h
  split at h
  · obtain ⟨subject, -, rfl⟩ := map_eq_ok.mp h
    split <;> simp
  · obtain ⟨left, v, -, h⟩ := bind_eq_ok.mp h
    obtain ⟨right, -, rfl⟩ := map_eq_ok.mp h
    simp

theorem flagText_ne_empty {member : Expr} {expected : Bool}
    (h : c.flagText member expected t = .ok text u) : text ≠ "" := by
  obtain ⟨f, v, -, h⟩ := bind_eq_ok.mp h
  obtain ⟨slot, -, rfl⟩ := map_eq_ok.mp h
  simp

theorem membershipText_ne_empty {member : Expr} {values : List Value}
    (h : c.membershipText member values t = .ok text u) : text ≠ "" := by
  obtain ⟨f, v, -, h⟩ := bind_eq_ok.mp h
  cases values with
  | nil =>
    obtain ⟨rfl, -⟩ := pure_eq_ok.mp h
    decide
  | cons value rest =>
    obtain ⟨slots, -, rfl⟩ := map_eq_ok.mp h
    simp

theorem matchText_ne_empty {method : Callee} {member : Expr} {pattern : String}
    (h : c.matchText method member pattern t = .ok text u) : text ≠ "" := by
  obtain ⟨f, v, -, h⟩ := bind_eq_ok.mp h
  obtain ⟨slot, -, rfl⟩ := map_eq_ok.mp h
  simp

theorem callText_ne_empty {method : Callee} {target : Expr} {args : List Expr}
    (h : c.callText method target args t = .ok text u) : text ≠ "" := by
  cases args with
  | nil => cases h
  | cons arg rest =>
    rw [callText] at h
    cases hform : CallForm.of method target arg with
    | comparison =>
      rw [hform] at h
      exact c.comparisonText_ne_empty h
    | membership values =>
      rw [hform] at h
      exact c.membershipText_ne_empty h
    | textMatch owner name pattern =>
      rw [hform] at h
      exact c.matchText_ne_empty h
    | badArgument =>
      rw [hform] at h
      cases h
    | refused =>
      rw [hform] at h
      cases h

/-- **No condition is empty.** -/
theorem conditionText_ne_empty (h : c.conditionText e t = .ok text u) : text ≠ "" := by
  fun_induction conditionText c e generalizing t text with
  | case1 params body ih => exact ih h
  | case2 inner ih => exact ih h
  | case3 op left right hop ihl ihr =>
    obtain ⟨left, v, -, h⟩ := bind_eq_ok.mp h
    obtain ⟨right, -, rfl⟩ := map_eq_ok.mp h
    simp
  | case4 op left right hop hcmp => exact c.comparisonText_ne_empty h
  | case5 op left right hop hcmp => cases h
  | case6 owner name => exact c.flagText_ne_empty h
  | case7 owner name => exact c.flagText_ne_empty h
  | case8 inner hinner ih =>
    obtain ⟨text, -, rfl⟩ := map_eq_ok.mp h
    simp
  | case9 method target args => exact c.callText_ne_empty h
  | case10 =>
    obtain ⟨rfl, -⟩ := pure_eq_ok.mp h
    decide
  | case11 =>
    obtain ⟨rfl, -⟩ := pure_eq_ok.mp h
    decide
  | case12 e => cases h

end Scope

end EntitySql
