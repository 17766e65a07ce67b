import EntitySql.Entity.Decl
import EntitySql.Row
import EntitySql.SqlError
import EntitySql.Text.Blank

/-!
# Entity maps

An `EntityMap` is the validated declaration of an entity type. `EntityMap.ofDecl` refuses a blank
table name, an empty list of members, and a member that is declared twice, in this order;
otherwise the map lists the declared fields in order, and its key is the first declared key of
either kind.

An entity instance is a record of its members. A member that is absent and a member that is null
are the same to the map.
-/

namespace EntitySql

/-! ### Mapped fields -/

/-- What the map knows of a column. -/
structure Column where
  name : String
  isGenerated : Bool
  isPersisted : Bool
  kind : MemberKind
deriving DecidableEq, Repr

/-- A member and its column. -/
structure MappedField where
  member : String
  column : Column
deriving DecidableEq, Repr

namespace MappedField

/-- The field of a declaration. -/
def ofDecl (d : MemberDecl) : MappedField where
  member := d.member
  column := ⟨d.columnName, d.isGenerated, d.isPersisted, d.kind⟩

/-- The value of the field on an entity; null and members that are not stored have none. -/
def value? (f : MappedField) (entity : Record) : Option Value :=
  if f.column.isPersisted then (entity.find? f.member).filter fun v => !v.isNull else none

/-- The field is stored as a scalar column. -/
def isStored (f : MappedField) : Bool :=
  f.column.isPersisted && f.column.kind == .scalar

/-- A text in quotes, with a backslash before quotes and backslashes. -/
def quoted (s : String) : String :=
  String.ofList ('"' ::
    s.toList.flatMap (fun c => if c = '"' ∨ c = '\\' then ['\\', c] else [c]) ++ ['"'])

/-- The text of a truth value. -/
def boolText (b : Bool) : String :=
  if b then "true" else "false"

/-- A description of the field for diagnostics. -/
def describe (f : MappedField) : String :=
  "FieldMap \x7b member: " ++ quoted f.member ++ ", column: ColumnInfo \x7b name: "
    ++ quoted f.column.name ++ ", is_db_generated: " ++ boolText f.column.isGenerated
    ++ ", is_db_field: " ++ boolText f.column.isPersisted ++ ", kind: " ++ f.column.kind.name
    ++ " \x7d \x7d"

end MappedField

/-! ### Maps -/

/-- The validated declaration of an entity type. -/
structure EntityMap where
  entity : String
  table : String
  fields : List MappedField
  /-- The key field, which orders pages and selects the row of an update. -/
  key : Option MappedField
deriving DecidableEq, Repr

/-- The first item that equals an earlier one or is among those seen before. -/
def firstRepeated? (seen : List String) : List String → Option String
  | [] => none
  | s :: rest => if s ∈ seen then some s else firstRepeated? (s :: seen) rest

/-- Nothing is repeated exactly when the items differ from each other and from those seen. -/
theorem firstRepeated?_eq_none_iff {seen items : List String} :
    firstRepeated? seen items = none ↔ items.Nodup ∧ ∀ s ∈ items, s ∉ seen := by
  induction items generalizing seen with
  | nil => simp [firstRepeated?]
  | cons s rest ih =>
    by_cases h : s ∈ seen
    · simp [firstRepeated?, h]
    · simp only [firstRepeated?, h, if_false, ih, List.nodup_cons, List.mem_cons]
      grind

namespace EntityMap

/-- Validates a declaration. -/
def ofDecl (d : EntityDecl) : Except SqlError EntityMap :=
  if isBlankText d.table then .error (.noTable d.typeName)
  else if d.members.isEmpty then .error (.noFields d.typeName)
  else
    match firstRepeated? [] (d.members.map (·.member)) with
    | some member => .error (.fieldTwice d.typeName member)
    | none =>
      .ok
        { entity := d.typeName
          table := d.table
          fields := d.members.map .ofDecl
          key := (d.members.find? (·.isKey)).map .ofDecl }

/-- What the map of a declaration is, if there is one. -/
theorem eq_of_ofDecl {d : EntityDecl} {m : EntityMap} (h : ofDecl d = .ok m) :
    m = { entity := d.typeName
          table := d.table
          fields := d.members.map .ofDecl
          key := (d.members.find? (·.isKey)).map .ofDecl } := by
  rw [ofDecl] at h
  split at h
  · cases h
  · split at h
    · cases h
    · split at h
      · cases h
      · exact (Except.ok.inj h).symm

/-- The fields of a map have different members. -/
theorem nodup_of_ofDecl {d : EntityDecl} {m : EntityMap} (h : ofDecl d = .ok m) :
    (m.fields.map (·.member)).Nodup := by
  have hfields : m.fields.map (·.member) = d.members.map (·.member) := by
    rw [eq_of_ofDecl h, List.map_map]
    rfl
  rw [hfields]
  cases hrepeated : firstRepeated? [] (d.members.map (·.member)) with
  | none => exact (firstRepeated?_eq_none_iff.mp hrepeated).1
  | some member =>
    rw [ofDecl, hrepeated] at h
    split at h
    · cases h
    · split at h <;> cases h

/-- The field of a member. -/
def find? (m : EntityMap) (member : String) : Option MappedField :=
  m.fields.find? fun f => f.member == member

/-- The fields stored as scalar columns, in declaration order. -/
def storedFields (m : EntityMap) : List MappedField :=
  m.fields.filter (·.isStored)

/-- The value of a member in a result row: under the member's name, which is its select alias,
or else under the name of its column. -/
def readRow? (m : EntityMap) (row : Row) (member : String) : Option Value :=
  match row.value? member with
  | some v => some v
  | none => (m.find? member).bind fun f => row.value? f.column.name

end EntityMap

end EntitySql
