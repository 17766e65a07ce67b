import EntitySql.Entity.Map

/-!
# Catalogs of maps

A catalog makes the map of a type when it is first asked for and gives the same map ever after.
A declaration that does not validate leaves no trace.

What identifies a type is left open. By default it is the name in the declaration.
-/

namespace EntitySql

/-- The maps published so far, by their types. -/
structure Catalog (τ : Type := String) where
  maps : List (τ × EntityMap) := []
deriving DecidableEq, Repr

namespace Catalog

variable {τ : Type}

/-- The number of published maps. -/
def size (c : Catalog τ) : Nat :=
  c.maps.length

variable [DecidableEq τ]

/-- The published map of a type. -/
def find? (c : Catalog τ) (type : τ) : Option EntityMap :=
  c.maps.lookup type

/-- The map of a type: the published one, or else a new one from its declaration, which is
published. -/
def fetch (c : Catalog τ) (type : τ) (d : EntityDecl) : Except SqlError EntityMap × Catalog τ :=
  match c.find? type with
  | some m => (.ok m, c)
  | none =>
    match EntityMap.ofDecl d with
    | .ok m => (.ok m, ⟨c.maps ++ [(type, m)]⟩)
    | .error e => (.error e, c)

/-- The map of a declared type, which is known by its name. -/
def get (c : Catalog) (d : EntityDecl) : Except SqlError EntityMap × Catalog :=
  c.fetch d.typeName d

end Catalog

end EntitySql
