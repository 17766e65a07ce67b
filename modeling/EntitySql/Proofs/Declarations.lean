import EntitySql.Entity.Map
import EntitySql.Proofs.BindTable

/-!
# Declared maps

A declaration has a map exactly if it is valid (`EntityDecl.IsValid`), and what the map then knows
is read off the declaration (`EntityMap.Declares`): the fields in order, each of them under its
member, the stored ones, and the key.

Maps look their fields up by a search. The same is reached in one pass over the members, which
notes the position of each member and refuses one that has a position already, and remembers two
candidates for the key: the first key of any kind and the first generated one (`MemberIndex`). What
the pass has collected is at each moment what a search of the members so far would find
(`MemberIndex.Lists`). This is kept by one more member (`Lists.add`), and carries the induction
over all of them (`Lists.foldlM`), so that a declaration gives the same map or the same refusal
both ways (`EntityMap.inOnePass_eq_ofDecl`).
-/

namespace EntitySql

/-! ### Validity -/

/-- A declaration names a table and declares members, no two of one name. -/
structure EntityDecl.IsValid (d : EntityDecl) : Prop where
  table : isBlankText d.table = false
  members_ne_nil : d.members ≠ []
  nodup : (d.members.map (·.member)).Nodup

theorem EntityDecl.isValid_iff {d : EntityDecl} : d.IsValid ↔
    isBlankText d.table = false ∧ d.members ≠ [] ∧ (d.members.map (·.member)).Nodup :=
  ⟨fun ⟨htable, hmembers, hnodup⟩ => ⟨htable, hmembers, hnodup⟩,
    fun ⟨htable, hmembers, hnodup⟩ => ⟨htable, hmembers, hnodup⟩⟩

instance (d : EntityDecl) : Decidable d.IsValid :=
  decidable_of_iff' _ EntityDecl.isValid_iff

/-! ### One pass over the members -/

/-- What a pass over the members has collected. -/
structure MemberIndex where
  fields : List MappedField := []
  /-- The members with the positions of their fields. -/
  positions : List (String × Nat) := []
  /-- The position of the first key of either kind. -/
  firstKey : Option Nat := none
  /-- The position of the first field that the server generates. -/
  firstGenerated : Option Nat := none

namespace MemberIndex

/-- Takes in one more member, unless it has a position. -/
def add (entity : String) (x : MemberIndex) (d : MemberDecl) : Except SqlError MemberIndex :=
  let position := x.fields.length
  if (x.positions.lookup d.member).isSome then .error (.fieldTwice entity d.member)
  else
    .ok
      { fields := x.fields ++ [.ofDecl d]
        positions := (d.member, position) :: x.positions
        firstKey := x.firstKey.or (if d.isKey then some position else none)
        firstGenerated := x.firstGenerated.or (if d.isGenerated then some position else none) }

/-- The index of a list of members. -/
def ofMembers (entity : String) (ds : List MemberDecl) : Except SqlError MemberIndex :=
  ds.foldlM (add entity) {}

/-- The field at the position of a member. -/
def field? (x : MemberIndex) (member : String) : Option MappedField :=
  (x.positions.lookup member).bind fun i => x.fields[i]?

/-- The field at the position of the key, which is the first key or else the first generated
field. -/
def key? (x : MemberIndex) : Option MappedField :=
  (x.firstKey.or x.firstGenerated).bind fun i => x.fields[i]?

/-- The index has collected what searches in a list of members would find. -/
structure Lists (x : MemberIndex) (ds : List MemberDecl) : Prop where
  fields : x.fields = ds.map .ofDecl
  positions : ∀ member, x.positions.lookup member = ds.findIdx? fun d => d.member == member
  firstKey : x.firstKey = ds.findIdx? (·.isKey)
  firstGenerated : x.firstGenerated = ds.findIdx? (·.isGenerated)

variable {x : MemberIndex} {ds : List MemberDecl} {entity : String}

theorem lists_nil : ({} : MemberIndex).Lists [] where
  fields := rfl
  positions _ := rfl
  firstKey := rfl
  firstGenerated := rfl

theorem Lists.lookup_isSome_iff (h : x.Lists ds) {member : String} :
    (x.positions.lookup member).isSome = true ↔ member ∈ ds.map (·.member) := by
  rw [h.positions, List.findIdx?_isSome, List.any_eq_true, List.mem_map]
  simp only [beq_iff_eq]

/-- A member that is known is refused. -/
theorem Lists.add_of_mem (h : x.Lists ds) {d : MemberDecl} (hd : d.member ∈ ds.map (·.member)) :
    x.add entity d = .error (.fieldTwice entity d.member) := by
  rw [add, if_pos (h.lookup_isSome_iff.mpr hd)]

/-- Searches in one member more. -/
theorem findIdx?_concat (p : MemberDecl → Bool) (ds : List MemberDecl) (d : MemberDecl) :
    (ds ++ [d]).findIdx? p = (ds.findIdx? p).or (if p d then some ds.length else none) := by
  rw [List.findIdx?_append]
  cases hd : p d <;> simp [List.findIdx?_cons, hd]

/-- A new member is taken in, and the index still has what searches would find. -/
theorem Lists.add (h : x.Lists ds) (entity : String) {d : MemberDecl}
    (hd : d.member ∉ ds.map (·.member)) : ∃ y, x.add entity d = .ok y ∧ y.Lists (ds ++ [d]) := by
  have hnew : ¬ (x.positions.lookup d.member).isSome = true := mt h.lookup_isSome_iff.mp hd
  have hlength : x.fields.length = ds.length := by rw [h.fields, List.length_map]
  refine ⟨_, by rw [MemberIndex.add, if_neg hnew], ?_, fun member => ?_, ?_, ?_⟩
  · rw [h.fields, List.map_append]
    rfl
  · -- the new member stands last, so an earlier one of the same name would be found before it
    rw [findIdx?_concat, List.lookup_cons, ← h.positions, hlength]
    by_cases hmember : member = d.member
    · rw [hmember, Option.not_isSome_iff_eq_none.mp hnew]
      simp
    · have hne : (member == d.member) = false := beq_eq_false_iff_ne.mpr hmember
      have hne' : (d.member == member) = false := beq_eq_false_iff_ne.mpr (Ne.symm hmember)
      simp [hne, hne']
  · rw [h.firstKey, findIdx?_concat, hlength]
  · rw [h.firstGenerated, findIdx?_concat, hlength]

/-- The pass goes through to the end unless a member is repeated, and stops at the first that
is. -/
theorem Lists.foldlM (h : x.Lists ds) {seen : List String}
    (hseen : ∀ s, s ∈ seen ↔ s ∈ ds.map (·.member)) (rest : List MemberDecl) :
    match firstRepeated? seen (rest.map (·.member)) with
    | some member => rest.foldlM (MemberIndex.add entity) x = .error (.fieldTwice entity member)
    | none => ∃ y, rest.foldlM (MemberIndex.add entity) x = .ok y ∧ y.Lists (ds ++ rest) := by
  induction rest generalizing x ds seen with
  | nil => exact ⟨x, rfl, by rwa [List.append_nil]⟩
  | cons d rest ih =>
    rw [List.map_cons, firstRepeated?, List.foldlM_cons]
    by_cases hd : d.member ∈ seen
    · rw [if_pos hd, h.add_of_mem ((hseen _).mp hd)]
      rfl
    · obtain ⟨y, hy, hlists⟩ := h.add entity (mt (hseen _).mpr hd)
      have hseen' : ∀ s, s ∈ d.member :: seen ↔ s ∈ (ds ++ [d]).map (·.member) := by
        intro s
        rw [List.map_append, List.mem_append, ← hseen]
        simp [or_comm]
      have hrest := ih hlists hseen'
      rw [List.append_assoc, List.singleton_append] at hrest
      rw [if_neg hd, hy]
      exact hrest

/-! ### What the index finds -/

theorem Lists.bind_getElem? (h : x.Lists ds) (p : MemberDecl → Bool) :
    ((ds.findIdx? p).bind fun i => x.fields[i]?) = (ds.find? p).map .ofDecl := by
  rw [List.find?_eq_bind_findIdx?_getElem?, Option.map_bind, h.fields]
  simp only [List.getElem?_map]
  rfl

theorem Lists.field?_eq (h : x.Lists ds) (member : String) :
    x.field? member = (ds.find? fun d => d.member == member).map .ofDecl := by
  rw [field?, h.positions]
  exact h.bind_getElem? _

/-- A generated field is a key, so the second candidate never counts. -/
theorem Lists.key?_eq (h : x.Lists ds) : x.key? = (ds.find? (·.isKey)).map .ofDecl := by
  have hcandidates : x.firstKey.or x.firstGenerated = ds.findIdx? (·.isKey) := by
    rw [h.firstKey, h.firstGenerated]
    cases hkey : ds.findIdx? (·.isKey) with
    | some i => rfl
    | none =>
      rw [Option.none_or, List.findIdx?_eq_none_iff]
      intro d hd
      have hno := List.findIdx?_eq_none_iff.mp hkey d hd
      cases d <;> first | rfl | cases hno
  rw [key?, hcandidates]
  exact h.bind_getElem? _

/-- A pass from the start. -/
theorem ofMembers_eq (entity : String) (ds : List MemberDecl) :
    match firstRepeated? [] (ds.map (·.member)) with
    | some member => ofMembers entity ds = .error (.fieldTwice entity member)
    | none => ∃ y, ofMembers entity ds = .ok y ∧ y.Lists ds :=
  lists_nil.foldlM (fun s => by simp) ds

/-- What the pass over the members of a valid declaration collects. -/
theorem exists_lists_ofMembers (entity : String) (h : (ds.map (·.member)).Nodup) :
    ∃ y, ofMembers entity ds = .ok y ∧ y.Lists ds := by
  have hpass := ofMembers_eq entity ds
  rwa [firstRepeated?_eq_none_iff.mpr ⟨h, by simp⟩] at hpass

end MemberIndex

/-! ### The map of a declaration -/

namespace EntityMap

variable {d : EntityDecl} {m : EntityMap}

/-- The map of a declaration, made in one pass over its members. -/
def inOnePass (d : EntityDecl) : Except SqlError EntityMap :=
  if isBlankText d.table then .error (.noTable d.typeName)
  else if d.members.isEmpty then .error (.noFields d.typeName)
  else
    (MemberIndex.ofMembers d.typeName d.members).map fun x =>
      { entity := d.typeName, table := d.table, fields := x.fields, key := x.key? }

/-- One pass makes the same map, and refuses the same declarations. -/
theorem inOnePass_eq_ofDecl (d : EntityDecl) : inOnePass d = ofDecl d := by
  have hpass := MemberIndex.ofMembers_eq d.typeName d.members
  rw [inOnePass, ofDecl]
  split
  · rfl
  split
  · rfl
  cases hrepeated : firstRepeated? [] (d.members.map (·.member)) with
  | some member =>
    rw [hrepeated] at hpass
    rw [hpass]
    rfl
  | none =>
    rw [hrepeated] at hpass
    obtain ⟨x, hx, hlists⟩ := hpass
    rw [hx, Except.map, hlists.fields, hlists.key?_eq]

theorem ofDecl_of_isValid (h : d.IsValid) :
    ofDecl d = .ok
      { entity := d.typeName
        table := d.table
        fields := d.members.map .ofDecl
        key := (d.members.find? (·.isKey)).map .ofDecl } := by
  have hnone : firstRepeated? [] (d.members.map (·.member)) = none :=
    firstRepeated?_eq_none_iff.mpr ⟨h.nodup, by simp⟩
  have hmembers : d.members.isEmpty = false := List.isEmpty_eq_false_iff.mpr h.members_ne_nil
  rw [ofDecl, h.table, hmembers, hnone]
  rfl

theorem isValid_of_ofDecl (h : ofDecl d = .ok m) : d.IsValid := by
  have hnodup := nodup_of_ofDecl h
  rw [eq_of_ofDecl h, List.map_map] at hnodup
  rw [ofDecl] at h
  split at h
  · cases h
  · next hblank =>
    split at h
    · cases h
    · next hempty =>
      exact ⟨Bool.eq_false_iff.mpr hblank, fun hnil => hempty (by rw [hnil]; rfl), hnodup⟩

/-- A declaration has a map exactly if it is valid. -/
theorem exists_ofDecl_iff : (∃ m, ofDecl d = .ok m) ↔ d.IsValid :=
  ⟨fun ⟨_, h⟩ => isValid_of_ofDecl h, fun h => ⟨_, ofDecl_of_isValid h⟩⟩

/-- The map knows what the declaration says. -/
structure Declares (m : EntityMap) (d : EntityDecl) : Prop where
  entity : m.entity = d.typeName
  table : m.table = d.table
  /-- The fields are those that are declared, in order. -/
  fields : m.fields = d.members.map .ofDecl
  /-- Each declared member is found, under its name. -/
  find?_declared : ∀ x ∈ d.members, m.find? x.member = some (.ofDecl x)
  find?_other : ∀ name, name ∉ d.members.map (·.member) → m.find? name = none
  storedFields : m.storedFields =
    (d.members.filter fun x => x.isPersisted && x.kind == .scalar).map .ofDecl
  /-- The key is the first declared one of either kind. -/
  key : m.key = (d.members.find? (·.isKey)).map .ofDecl
  /-- A pass over the members finds the same fields under their members, and the same key. -/
  indexed : ∃ x, MemberIndex.ofMembers d.typeName d.members = .ok x ∧ x.fields = m.fields ∧
    (∀ name, x.field? name = m.find? name) ∧ x.key? = m.key

theorem find?_of_ofDecl (h : ofDecl d = .ok m) (name : String) :
    m.find? name = (d.members.find? fun x => x.member == name).map .ofDecl := by
  rw [find?, eq_of_ofDecl h, List.find?_map]
  rfl

theorem declares_of_ofDecl (h : ofDecl d = .ok m) : m.Declares d := by
  have hvalid := isValid_of_ofDecl h
  have hfields : m.fields = d.members.map .ofDecl := by rw [eq_of_ofDecl h]
  have hkey : m.key = (d.members.find? (·.isKey)).map .ofDecl := by rw [eq_of_ofDecl h]
  obtain ⟨x, hx, hlists⟩ := MemberIndex.exists_lists_ofMembers d.typeName hvalid.nodup
  refine ⟨by rw [eq_of_ofDecl h], by rw [eq_of_ofDecl h], hfields, fun y hy => ?_,
    fun name hname => ?_, ?_, hkey, x, hx, hlists.fields.trans hfields.symm, fun name => ?_, ?_⟩
  · rw [find?_of_ofDecl h, BindTable.find?_of_nodup_map hvalid.nodup hy, Option.map_some]
  · rw [find?_of_ofDecl h, Option.map_eq_none_iff, List.find?_eq_none]
    intro y hy hmember
    exact hname (List.mem_map.mpr ⟨y, hy, eq_of_beq hmember⟩)
  · rw [storedFields, hfields, List.filter_map]
    rfl
  · rw [hlists.field?_eq, find?_of_ofDecl h]
  · rw [hlists.key?_eq, hkey]

end EntityMap

end EntitySql
