import EntitySql.Clause.Draft
import Mathlib.Data.List.Induction
import Mathlib.Logic.Basic

/-!
# Member chains

A chain of members on a root stands for the field of one of its members. The walk goes from the
leaf towards the root and stops at the first member that is mapped, so it comes to the last mapped
name of the chain (`nearest?_chain`). This member alone decides: if it is persisted, the chain
stands for its field, and otherwise the chain stands for nothing, whatever is mapped further up.

The main statement, `resolve_chain`, says this of chains of any length on any root, with the errors
of the chains that stand for nothing. Only a chain without any mapped member is reported with all
its names.
-/

namespace EntitySql

/-! ### Chains -/

namespace Expr

/-- The chain of members on a root, the first name next to it. -/
def chain (root : Expr) (names : List String) : Expr :=
  names.foldl .member root

theorem chain_concat (root : Expr) (names : List String) (name : String) :
    root.chain (names ++ [name]) = (root.chain names).member name := by
  rw [chain, List.foldl_append]
  rfl

theorem segments_of_kind_ne {e : Expr} (h : e.kind ≠ .memberAccess) : e.segments = [] := by
  cases e with
  | member owner name => exact absurd rfl h
  | _ => rfl

theorem segments_chain {root : Expr} (h : root.kind ≠ .memberAccess) (names : List String) :
    (root.chain names).segments = names := by
  induction names using List.reverseRecOn with
  | nil => exact segments_of_kind_ne h
  | append_singleton names name ih => rw [chain_concat, segments, ih]

/-- The text of a chain is made of all its names. -/
theorem chainText_chain {root : Expr} (h : root.kind ≠ .memberAccess) {names : List String}
    (hnames : names ≠ []) : (root.chain names).chainText = String.intercalate "." names := by
  rw [chainText, segments_chain h]
  cases names with
  | nil => exact absurd rfl hnames
  | cons name rest => rfl

end Expr

/-! ### The nearest mapped member -/

namespace EntityMap

variable {m : EntityMap} {names : List String}

/-- The map has a field of the member. -/
def IsMapped (m : EntityMap) (name : String) : Prop :=
  ∃ f, m.find? name = some f

theorem not_isMapped_iff {name : String} : ¬ m.IsMapped name ↔ m.find? name = none := by
  rw [IsMapped, ← Option.isSome_iff_exists, Option.not_isSome_iff_eq_none]

theorem member_of_find? {name : String} {f : MappedField} (h : m.find? name = some f) :
    f.member = name :=
  eq_of_beq (List.find?_some h :)

/-- The field is that of the mapped member nearest to the leaf, which is the last of the names. -/
def IsNearest (m : EntityMap) (names : List String) (f : MappedField) : Prop :=
  ∃ above below, names = above ++ f.member :: below ∧ m.find? f.member = some f ∧
    ∀ name ∈ below, ¬ m.IsMapped name

/-- Reading the names from the leaf, the nearest mapped member comes first. -/
theorem findSome?_reverse_eq_some_iff {f : MappedField} :
    names.reverse.findSome? m.find? = some f ↔ m.IsNearest names f := by
  simp only [List.findSome?_eq_some_iff, IsNearest, not_isMapped_iff]
  constructor
  · rintro ⟨below, name, above, hnames, hfind, hbelow⟩
    obtain rfl := member_of_find? hfind
    refine ⟨above.reverse, below.reverse, ?_, hfind, fun name h => ?_⟩
    · rw [← List.reverse_reverse names, hnames]
      simp
    · exact hbelow name (List.mem_reverse.mp h)
  · rintro ⟨above, below, rfl, hfind, hbelow⟩
    refine ⟨below.reverse, f.member, above.reverse, by simp, hfind, fun name h => ?_⟩
    exact hbelow name (List.mem_reverse.mp h)

theorem findSome?_reverse_eq_none_iff :
    names.reverse.findSome? m.find? = none ↔ ∀ name ∈ names, ¬ m.IsMapped name := by
  simp [List.findSome?_eq_none_iff, not_isMapped_iff]

/-- A chain has a nearest mapped member if it has a mapped one. -/
theorem exists_isNearest_iff : (∃ f, m.IsNearest names f) ↔ ∃ name ∈ names, m.IsMapped name := by
  simp only [← findSome?_reverse_eq_some_iff, ← Option.isSome_iff_exists]
  rw [← not_iff_not, Option.not_isSome_iff_eq_none, findSome?_reverse_eq_none_iff]
  simp

/-- There is only one. -/
theorem IsNearest.unique {f g : MappedField} (hf : m.IsNearest names f)
    (hg : m.IsNearest names g) : f = g := by
  rw [← findSome?_reverse_eq_some_iff] at hf hg
  exact Option.some.inj (hf.symm.trans hg)

end EntityMap

/-! ### Resolution -/

namespace Scope

variable {c : Scope} {root : Expr} {names : List String}

/-- The walk comes to the last mapped name, and only without one goes on into the root. -/
theorem nearest?_chain (c : Scope) (root : Expr) (names : List String) :
    c.nearest? (root.chain names) = (names.reverse.findSome? c.map.find?).or (c.nearest? root) := by
  induction names using List.reverseRecOn with
  | nil => rfl
  | append_singleton names name ih =>
    rw [Expr.chain_concat, nearest?, ih, List.reverse_append]
    cases hname : c.map.find? name with
    | some f => simp [hname]
    | none => simp [hname]

theorem nearest?_of_kind_ne {e : Expr} (h : e.kind ≠ .memberAccess) : c.nearest? e = none := by
  cases e with
  | member owner name => exact absurd rfl h
  | _ => rfl

/-- On a root that is no member itself, the names alone decide. -/
theorem nearest?_chain_eq_some_iff (hroot : root.kind ≠ .memberAccess) {f : MappedField} :
    c.nearest? (root.chain names) = some f ↔ c.map.IsNearest names f := by
  rw [nearest?_chain, nearest?_of_kind_ne hroot, Option.or_none,
    EntityMap.findSome?_reverse_eq_some_iff]

theorem nearest?_chain_eq_none_iff (hroot : root.kind ≠ .memberAccess) :
    c.nearest? (root.chain names) = none ↔ ∀ name ∈ names, ¬ c.map.IsMapped name := by
  rw [nearest?_chain, nearest?_of_kind_ne hroot, Option.or_none,
    EntityMap.findSome?_reverse_eq_none_iff]

/-- What is above a mapped member is not looked at: neither other members nor the root. -/
theorem nearest?_chain_below {name : String} (hname : c.map.IsMapped name)
    (root root' : Expr) (above above' below : List String) :
    c.nearest? (root.chain (above ++ name :: below)) =
      c.nearest? (root'.chain (above' ++ name :: below)) := by
  have hwalk (above : List String) (start : Expr) :
      ((above ++ name :: below).reverse.findSome? c.map.find?).or (c.nearest? start) =
        (name :: below).reverse.findSome? c.map.find? := by
    obtain ⟨f, hf⟩ : ∃ f, (name :: below).reverse.findSome? c.map.find? = some f := by
      rw [← Option.isSome_iff_exists, ← Option.ne_none_iff_isSome]
      intro h
      exact EntityMap.findSome?_reverse_eq_none_iff.mp h name List.mem_cons_self hname
    rw [List.reverse_append, List.findSome?_append, hf]
    rfl
  rw [nearest?_chain, nearest?_chain, hwalk, hwalk]

/-- The nearest mapped member decides if there is one. -/
theorem resolve_of_nearest? {e : Expr} {f : MappedField} (h : c.nearest? e = some f) :
    c.resolve e =
      if f.column.isPersisted then .ok f else .error (.unmapped c.map.entity f.member) := by
  rw [resolve, h]

/-- **A member chain stands for the mapped member nearest to its leaf.** It is resolved exactly if
a member of it is mapped and the one nearest to the leaf is persisted, to the field of this member.
The members above it and the root make no difference. A chain whose nearest mapped member is not
persisted is reported by the name of this member, and one without a mapped member as a whole. -/
theorem resolve_chain (c : Scope) {root : Expr} {names : List String}
    (hroot : root.kind ≠ .memberAccess) (hnames : names ≠ []) :
    ((∃ f, c.resolve (root.chain names) = .ok f) ↔
      (∃ name ∈ names, c.map.IsMapped name) ∧
        ∀ f, c.map.IsNearest names f → f.column.isPersisted = true) ∧
    (∀ f, c.resolve (root.chain names) = .ok f ↔
      c.map.IsNearest names f ∧ f.column.isPersisted = true) ∧
    (∀ f, c.map.IsNearest names f → f.column.isPersisted = false →
      c.resolve (root.chain names) = .error (.unmapped c.map.entity f.member)) ∧
    ((∀ name ∈ names, ¬ c.map.IsMapped name) → c.resolve (root.chain names) =
      .error (.unmapped c.map.entity (String.intercalate "." names))) ∧
    (∀ root' : Expr, root'.kind ≠ .memberAccess →
      c.resolve (root'.chain names) = c.resolve (root.chain names)) ∧
    (∀ above name below, names = above ++ name :: below → c.map.IsMapped name →
      ∀ (root' : Expr) (above' : List String),
        c.resolve (root'.chain (above' ++ name :: below)) = c.resolve (root.chain names)) := by
  have hok (f : MappedField) : c.resolve (root.chain names) = .ok f ↔
      c.map.IsNearest names f ∧ f.column.isPersisted = true := by
    rw [← nearest?_chain_eq_some_iff hroot, resolve]
    cases c.nearest? (root.chain names) with
    | none => simp
    | some g => dsimp only; split <;> grind
  refine ⟨?_, hok, fun f hf hpersisted => ?_, fun hnone => ?_, fun root' hroot' => ?_, ?_⟩
  · simp only [hok, ← EntityMap.exists_isNearest_iff]
    constructor
    · rintro ⟨f, hf, hpersisted⟩
      exact ⟨⟨f, hf⟩, fun g hg => hf.unique hg ▸ hpersisted⟩
    · rintro ⟨⟨f, hf⟩, hpersisted⟩
      exact ⟨f, hf, hpersisted f hf⟩
  · rw [resolve_of_nearest? ((nearest?_chain_eq_some_iff hroot).mpr hf), hpersisted]
    rfl
  · rw [resolve, (nearest?_chain_eq_none_iff hroot).mpr hnone, Expr.chainText_chain hroot hnames]
  · have hnearest : c.nearest? (root'.chain names) = c.nearest? (root.chain names) := by
      rw [nearest?_chain, nearest?_chain, nearest?_of_kind_ne hroot, nearest?_of_kind_ne hroot']
    rw [resolve, resolve, hnearest, Expr.chainText_chain hroot hnames,
      Expr.chainText_chain hroot' hnames]
  · rintro above name below rfl hname root' above'
    have hmapped : ∃ n ∈ above ++ name :: below, c.map.IsMapped n := ⟨name, by simp, hname⟩
    obtain ⟨f, hf⟩ := EntityMap.exists_isNearest_iff.mpr hmapped
    have hnearest := (nearest?_chain_eq_some_iff hroot).mpr hf
    rw [resolve_of_nearest? hnearest,
      resolve_of_nearest? ((nearest?_chain_below hname root' root above' above below).trans hnearest)]

end Scope

/-- Visits with a guide, who is stored, and with a note, which is not. -/
def visits : EntityMap where
  entity := "Visit"
  table := "visits"
  fields :=
    [⟨"Guide", ⟨"guide", false, true, .scalar⟩⟩, ⟨"Note", ⟨"Note", false, false, .scalar⟩⟩]
  key := none

/-- The note is nearer to the leaf than the guide, so a chain through both stands for nothing. -/
theorem resolve_chain_noteOfGuide :
    let c : Scope := ⟨visits, .sqlite⟩
    Expr.root.kind ≠ .memberAccess ∧ ["Tour", "Guide", "Note", "Length"] ≠ [] ∧
      c.resolve (Expr.root.chain ["Tour", "Guide", "Note", "Length"]) =
        .error (.unmapped "Visit" "Note") := by
  intro c
  have hroot : Expr.root.kind ≠ .memberAccess := by decide
  have hnames : ["Tour", "Guide", "Note", "Length"] ≠ [] := by decide
  obtain ⟨-, -, hunpersisted, -⟩ := c.resolve_chain hroot hnames
  have hlength : ¬ visits.IsMapped "Length" := EntityMap.not_isMapped_iff.mpr rfl
  have hnearest : visits.IsNearest ["Tour", "Guide", "Note", "Length"]
      ⟨"Note", ⟨"Note", false, false, .scalar⟩⟩ :=
    ⟨["Tour", "Guide"], ["Length"], rfl, rfl, by simpa using hlength⟩
  exact ⟨hroot, hnames, hunpersisted _ hnearest rfl⟩

end EntitySql
