/-!
# Entity declarations

An entity type declares itself once: its table, and its members in order. The six kinds of member
declaration say how a member is stored: as a key that the server generates, as a key that the
application assigns, as a column of its own name, as a column of another name or a computed
expression, or not at all.
-/

namespace EntitySql

/-- What a member is. A related set is a navigation to other entities and never a column. -/
inductive MemberKind where
  | scalar | relatedSet
deriving DecidableEq, Repr

/-- The name of a member kind. -/
def MemberKind.name : MemberKind → String
  | .scalar => "Scalar"
  | .relatedSet => "RelatedSet"

/-- The declaration of one member. -/
inductive MemberDecl where
  /-- A primary key that the server generates. -/
  | key (member : String)
  /-- A primary key that the application assigns. -/
  | naturalKey (member : String)
  /-- A column of the same name. -/
  | field (member : String)
  /-- A column of another name, or a computed expression. -/
  | column (member name : String)
  /-- A member that is not stored. -/
  | transient (member : String)
  /-- A navigation to related entities. -/
  | relatedSet (member : String)
deriving DecidableEq, Repr

namespace MemberDecl

/-- The declared member. -/
def member : MemberDecl → String
  | .key m | .naturalKey m | .field m | .column m _ | .transient m | .relatedSet m => m

/-- The column of the member; by default it has the member's name. -/
def columnName : MemberDecl → String
  | .column _ name => name
  | d => d.member

/-- The server generates the value. -/
def isGenerated : MemberDecl → Bool
  | .key _ => true
  | _ => false

/-- The member is a primary key of either kind. -/
def isKey : MemberDecl → Bool
  | .key _ | .naturalKey _ => true
  | _ => false

/-- The member is stored. -/
def isPersisted : MemberDecl → Bool
  | .transient _ | .relatedSet _ => false
  | _ => true

/-- The kind of the member. -/
def kind : MemberDecl → MemberKind
  | .relatedSet _ => .relatedSet
  | _ => .scalar

end MemberDecl

/-- The declaration of an entity type. -/
structure EntityDecl where
  /-- The name of the type, by which errors speak of it and maps are shared. -/
  typeName : String
  table : String
  members : List MemberDecl
deriving DecidableEq, Repr

end EntitySql
