import EntitySql.BindTable
import EntitySql.Clause.Fragment
import EntitySql.Entity.Map

/-!
# Drafts

A `Scope` is what stays fixed while the clauses of one statement are written: the map of the
entity and the dialect. What grows is the `Draft`: the bind table, the two stacks of fragments,
and whether computed columns get an alias. A clause is written by a program over the draft that
may fail, and a failure leaves the draft as it was when it arose.

Fields are resolved without the draft. A member chain stands for the mapped member nearest to
its leaf (`Scope.nearest?`), which must be persisted (`Scope.resolve`).
-/

namespace EntitySql

/-- The map and the dialect of a statement. -/
structure Scope where
  map : EntityMap
  dialect : Dialect

/-- The unfinished statement. -/
structure Draft where
  binds : BindTable
  items : Stack SelectItem := .empty
  texts : Stack String := .empty
  /-- Computed columns get an alias. -/
  aliasing : Bool := false

/-- A draft of statement number `index`, with nothing in it. -/
def Draft.fresh (index : Nat) : Draft where
  binds := { index }

/-- Programs that extend a draft and may fail. -/
abbrev Drafting := EStateM SqlError Draft

/-! ### Steps on a draft -/

namespace Drafting

/-- Empties both stacks. -/
def reset : Drafting Unit :=
  modify fun d => { d with items := .empty, texts := .empty }

/-- Chooses whether computed columns get an alias. -/
def setAliasing (on : Bool) : Drafting Unit :=
  modify fun d => { d with aliasing := on }

/-- Emits an item of a select list. -/
def pushItem (item : SelectItem) : Drafting Unit :=
  modify fun d => { d with items := d.items.push item }

/-- Drops all items. -/
def dropItems : Drafting Unit :=
  modify fun d => { d with items := .empty }

/-- Takes all items. -/
def takeItems : Drafting (List SelectItem) :=
  modifyGet fun d => (d.items.toList, { d with items := .empty })

/-- Emits a text. -/
def pushText (text : String) : Drafting Unit :=
  modify fun d => { d with texts := d.texts.push text }

/-- Takes all texts. -/
def takeTexts : Drafting (List String) :=
  modifyGet fun d => (d.texts.toList, { d with texts := .empty })

/-- Takes the latest text. -/
def popText : Drafting String := do
  let d ← get
  match d.texts.pop with
  | (some text, rest) => do
    set { d with texts := rest }
    return text
  | (none, _) => throw .underflow

end Drafting

namespace Scope

/-- Binds a value for a column and gives the text of its slot. -/
def bindValue (c : Scope) (column : String) (value : Value) : Drafting String :=
  modifyGet fun d =>
    let (slot, binds) := d.binds.bind c.dialect column value
    (slot.text, { d with binds })

/-! ### Resolving fields -/

/-- The field of the member nearest to the leaf of a chain that is mapped. -/
def nearest? (c : Scope) : Expr → Option MappedField
  | .member owner name =>
    match c.map.find? name with
    | some f => some f
    | none => c.nearest? owner
  | _ => none

/-- The persisted field that a member chain stands for. A chain without a mapped member is
reported whole, and a mapped member that is not persisted by its own name. -/
def resolve (c : Scope) (e : Expr) : Except SqlError MappedField :=
  match c.nearest? e with
  | some f =>
    if f.column.isPersisted then .ok f else .error (.unmapped c.map.entity f.member)
  | none => .error (.unmapped c.map.entity e.chainText)

theorem mem_fields_of_nearest? {c : Scope} {f : MappedField} :
    ∀ {e : Expr}, c.nearest? e = some f → f ∈ c.map.fields
  | .member owner name, h => by
    rw [nearest?] at h
    cases hfind : c.map.find? name with
    | some g =>
      rw [hfind] at h
      obtain rfl := Option.some.inj h
      exact List.mem_of_find?_eq_some hfind
    | none =>
      rw [hfind] at h
      exact mem_fields_of_nearest? h

theorem mem_fields_of_resolve {c : Scope} {e : Expr} {f : MappedField} (h : c.resolve e = .ok f) :
    f ∈ c.map.fields ∧ f.column.isPersisted = true := by
  rw [resolve] at h
  cases hnearest : c.nearest? e with
  | none =>
    rw [hnearest] at h
    cases h
  | some g =>
    rw [hnearest] at h
    dsimp only at h
    split at h
    · rename_i hpersisted
      obtain rfl := Except.ok.inj h
      exact ⟨mem_fields_of_nearest? hnearest, hpersisted⟩
    · cases h

/-- The persisted field of a member chain, or the end of the draft. -/
def fieldOf (c : Scope) (e : Expr) : Drafting MappedField :=
  match c.resolve e with
  | .ok f => pure f
  | .error error => throw error

/-- The column of a field as an item of a select list. A computed column stands as it is, under
an alias if the clause gives aliases. -/
def selectItem (c : Scope) (aliasing : Bool) (f : MappedField) : SelectItem :=
  if c.dialect.isPlain f.column.name then
    { expr := c.dialect.quote f.column.name, label := none, member := f.member, plain := true }
  else
    { expr := f.column.name
      label := if aliasing then some (c.dialect.quote f.member) else none
      member := f.member
      plain := false }

/-- The text of the column of a field. -/
def columnSql (c : Scope) (f : MappedField) : String :=
  (c.selectItem false f).expr

/-- A statement may set the column: the server does not generate it, and it has a plain name. -/
def isWritable (c : Scope) (f : MappedField) : Bool :=
  !f.column.isGenerated && c.dialect.isPlain f.column.name

end Scope

end EntitySql
