import EntitySql.Proofs.Drafts
import EntitySql.Proofs.EntityCells
import EntitySql.Proofs.ResultRows

/-!
# Statements that are restricted

A deletion, an update and a count end with a condition if their query has one. The condition is
appended only if the compiler gives a text for it, so that a filter without a text would turn a
deletion of some rows into a deletion of all. The main statement, `restrict_whereText`, says that
this does not happen: such a statement either fails or ends with the text of the filter, and an
update of an entity without a filter either fails or ends with a condition on its key.

For the filter this rests on `Scope.filterSql_ok`, by which a filter that is written has one text,
and on `Scope.conditionText_ne_empty`, an induction over the filter. For the key it rests on
`Scope.filterSql_key`, since the key is a persisted field of the map and its value is
not null.
-/

namespace EntitySql

/-! ### The condition on a key -/

namespace EntityMap

variable {m : EntityMap} {e : EntityDecl} {key : MappedField}

/-- The key is one of the fields. -/
theorem key_mem_fields (hm : ofDecl e = .ok m) (hkey : m.key = some key) : key ∈ m.fields := by
  obtain rfl := eq_of_ofDecl hm
  obtain ⟨decl, hdecl, rfl⟩ := Option.map_eq_some_iff.mp hkey
  exact List.mem_map_of_mem (List.mem_of_find?_eq_some hdecl)

end EntityMap

namespace Scope

variable {c : Scope} {e : EntityDecl} {key : MappedField} {v : Value} {entity : Record}

/-- A persisted member is what its name stands for. -/
theorem resolve_ofMember (hm : EntityMap.ofDecl e = .ok c.map) (hmem : key ∈ c.map.fields)
    (hpersisted : key.column.isPersisted = true) : c.resolve (.ofMember key.member) = .ok key := by
  rw [resolve, Expr.ofMember, nearest?, EntityMap.find?_of_mem hm hmem]
  exact if_pos hpersisted

/-- The condition that a member equals a value binds the value for the column of the member. -/
theorem conditionText_eq_constant {name : String} (hname : c.resolve (.ofMember name) = .ok key)
    (hv : v.isNull = false) (t : BindTable) :
    c.conditionText (.binary .eq (.ofMember name) (.constant v)) t
      = .ok (c.columnSql key ++ " = " ++ (t.bind c.dialect key.column.name v).1.text)
          (t.bind c.dialect key.column.name v).2 := by
  have hcolumn : c.comparisonColumn (.ofMember name) (.constant v) = key.column.name := by
    rw [comparisonColumn, Expr.ofMember, subjectColumn?]
    rw [Expr.ofMember] at hname
    rw [hname]
  have hnull : ¬ ((Expr.ofMember name).isNullLiteral || (Expr.constant v).isNullLiteral) = true := by
    cases v <;> first | exact Bool.false_ne_true | cases hv
  rw [conditionText, if_neg (by decide), if_pos (by decide), comparisonText,
    if_neg fun h => hnull h.2, hcolumn, bind_eq_ok]
  refine ⟨c.columnSql key, t, ?_, ?_⟩
  · exact map_eq_ok.mpr ⟨key, resolved_eq_ok.mpr ⟨hname, rfl⟩, rfl⟩
  · refine map_eq_ok.mpr ⟨_, slotOf_eq_ok.mpr ⟨rfl, rfl⟩, ?_⟩
    have hequals : " = " = " " ++ Operator.eq.text ++ " " := rfl
    rw [hequals]
    simp only [String.append_assoc]

/-- The condition that the key has its value on an entity is written over every draft. -/
theorem filterSql_key (hm : EntityMap.ofDecl e = .ok c.map) (hkey : c.map.key = some key)
    (hvalue : key.value? entity = some v) (d : Draft) :
    c.filterSql (.binary .eq (.ofMember key.member) (.constant v)) d
      = .ok (some (c.columnSql key ++ " = " ++ (d.binds.bind c.dialect key.column.name v).1.text))
          { binds := (d.binds.bind c.dialect key.column.name v).2 } := by
  obtain ⟨hpersisted, -, hnull⟩ := MappedField.value?_eq_some_iff.mp hvalue
  have hresolve := resolve_ofMember hm (EntityMap.key_mem_fields hm hkey) hpersisted
  exact c.filterSql_of_conditionText (conditionText_eq_constant hresolve hnull d.binds)

end Scope

/-! ### Operations with a condition -/

/-- The operations whose statement ends with the condition of the query. -/
inductive RestrictedCall where
  | delete
  | updateBy (assignment : Expr)
  | update (entity : Record)
  | count

namespace Query

open Drafting

variable (q : Query)

/-- The statement of an operation. -/
def restrict : RestrictedCall → Except SqlError Statement
  | .delete => q.delete
  | .updateBy assignment => q.updateBy assignment
  | .update entity => q.update entity
  | .count => q.count

/-- What an operation writes before its condition. -/
def headText (c : Scope) : RestrictedCall → Drafting String
  | .delete => return "DELETE FROM " ++ q.source c
  | .updateBy assignment => do
    match ← c.assignmentSql assignment with
    | none => throw .emptyUpdate
    | some assignments => return "UPDATE " ++ q.source c ++ " SET " ++ assignments
  | .update entity => do
    let assignments ← c.entityAssignmentSql entity
    if assignments.isEmpty then throw .emptyUpdate
    return "UPDATE " ++ q.source c ++ " SET " ++ assignments
  | .count => return "SELECT " ++ countColumn ++ " FROM " ++ q.source c

/-- The condition of an operation, if it has one. -/
def conditionOf (c : Scope) : RestrictedCall → Drafting (Option String)
  | .update entity => q.updateFilter entity c
  | .delete | .updateBy _ | .count => q.filterText c

/-- A count has the condition last. -/
theorem toSql_count (style : BoundStyle) (source : String) (filter : Option String) :
    (Select.table source { columns := [.expr countColumn none], filter }).toSql style
      = "SELECT " ++ countColumn ++ " FROM " ++ source ++ whereText filter := by
  let body : SelectBody := { columns := [.expr countColumn none], filter }
  have hdistinct : (if body.distinct = true then "DISTINCT " else "") = "" := rfl
  have htop : body.topText style = "" := by cases style <;> rfl
  have hcolumns : body.columnsText = countColumn := rfl
  have hfilter : body.filterText = whereText filter := by cases filter <;> rfl
  have horder : body.orderText = "" := rfl
  have hbounds : body.boundsText style = "" := by cases style <;> rfl
  change body.toSql style source = _
  unfold SelectBody.toSql
  rw [hdistinct, htop, hcolumns, hfilter, horder, hbounds]
  simp only [String.append_empty]

/-- Every operation writes its head, then its condition. -/
theorem restrict_eq (op : RestrictedCall) :
    q.restrict op = q.statement fun c => do
      let head ← q.headText c op
      let condition ← q.conditionOf c op
      return head ++ whereText condition := by
  cases op with
  | delete => simp [restrict, delete, headText, conditionOf]
  | updateBy assignment =>
    rw [restrict, updateBy]
    congr 1
    funext c
    simp only [headText, conditionOf, bind_assoc]
    refine bind_congr fun assignments => ?_
    cases assignments with
    | none => rfl
    | some text => simp
  | update entity =>
    rw [restrict, update]
    congr 1
    funext c
    simp only [headText, conditionOf, bind_assoc]
    refine bind_congr fun assignments => ?_
    split <;> simp
  | count =>
    rw [restrict, count, countOf, selectStatement]
    congr 1
    funext c
    simp [countSelect, headText, conditionOf, toSql_count]

variable {q} {s : Statement} {e : Expr} {op : RestrictedCall}

/-- A statement is the head of the operation and its condition, over a fresh draft. -/
theorem restrict_eq_ok :
    q.restrict op = .ok s ↔ ∃ m head condition d d', EntityMap.ofDecl q.entity = .ok m ∧
      q.headText ⟨m, q.dialect⟩ op (.fresh q.index) = .ok head d ∧
      q.conditionOf ⟨m, q.dialect⟩ op d = .ok condition d' ∧
      s = ⟨head ++ whereText condition, d'.binds.slots⟩ := by
  rw [restrict_eq, statement_eq_ok]
  constructor
  · rintro ⟨m, d', hmap, hrun, hslots⟩
    obtain ⟨head, d, hhead, hrun⟩ := bind_eq_ok.mp hrun
    obtain ⟨condition, hcondition, hsql⟩ := map_eq_ok.mp hrun
    refine ⟨m, head, condition, d, d', hmap, hhead, hcondition, ?_⟩
    rw [hsql, hslots]
  · rintro ⟨m, head, condition, d, d', hmap, hhead, hcondition, rfl⟩
    exact ⟨m, d', hmap, bind_eq_ok.mpr ⟨head, d, hhead,
      map_eq_ok.mpr ⟨condition, hcondition, rfl⟩⟩, rfl⟩

theorem conditionOf_of_filter (h : q.filter = some e) (c : Scope) (op : RestrictedCall) :
    q.conditionOf c op = c.filterSql e := by
  cases op <;> simp only [conditionOf, updateFilter, filterText, h]

/-- Without a filter an update is restricted by the key, or is not made. -/
theorem updateFilter_eq_ok (h : q.filter = none) {entity : Record} {c : Scope} {d d' : Draft}
    {condition : Option String} :
    q.updateFilter entity c d = .ok condition d' ↔ ∃ key v, c.map.key = some key ∧
      key.value? entity = some v ∧
      c.filterSql (.binary .eq (.ofMember key.member) (.constant v)) d = .ok condition d' := by
  rw [updateFilter, h]
  dsimp only
  cases hkey : c.map.key with
  | none => simp [throw_ne_ok]
  | some key =>
    cases hvalue : key.value? entity with
    | none => simp [hvalue, throw_ne_ok]
    | some v => simp [hvalue]

/-- With a filter every statement ends with its text. -/
theorem restrict_of_filter (h : q.filter = some e) :
    q.restrict op = .ok s ↔ ∃ m head text d d', EntityMap.ofDecl q.entity = .ok m ∧
      q.headText ⟨m, q.dialect⟩ op (.fresh q.index) = .ok head d ∧
      Scope.filterSql ⟨m, q.dialect⟩ e d = .ok (some text) d' ∧ text ≠ "" ∧
      s = ⟨head ++ " WHERE " ++ text, d'.binds.slots⟩ := by
  rw [restrict_eq_ok]
  constructor
  · rintro ⟨m, head, condition, d, d', hmap, hhead, hcondition, rfl⟩
    rw [conditionOf_of_filter h] at hcondition
    obtain ⟨text, rfl, htext⟩ := Scope.filterSql_ok _ hcondition
    refine ⟨m, head, text, d, d', hmap, hhead, hcondition, Scope.conditionText_ne_empty _ htext, ?_⟩
    rw [whereText, String.append_assoc]
  · rintro ⟨m, head, text, d, d', hmap, hhead, hfilter, -, rfl⟩
    refine ⟨m, head, some text, d, d', hmap, hhead, ?_, ?_⟩
    · rw [conditionOf_of_filter h]
      exact hfilter
    · rw [whereText, String.append_assoc]

/-- The head of a statement leaves a bind table that is reached from the empty one. -/
theorem grows_of_headText {c : Scope} {entity : Record} {head : String} {index : Nat} {d : Draft}
    (h : q.headText c (.update entity) (.fresh index) = .ok head d) :
    BindTable.Grows c.dialect { index } d.binds := by
  obtain ⟨assignments, d₁, hassignments, h⟩ := bind_eq_ok.mp h
  have hbinds := binds_of_result (c.entityAssignmentSql_result entity _) hassignments
  have hd : d₁ = d := by
    split at h
    · cases h
    · exact (pure_eq_ok.mp h).2
  rw [← hd, hbinds]
  exact ⟨_, rfl⟩

/-- Without a filter an update ends with the condition that the key has its own value. -/
theorem update_of_no_filter (h : q.filter = none) {entity : Record} :
    q.update entity = .ok s ↔ ∃ m head key v d, EntityMap.ofDecl q.entity = .ok m ∧
      q.headText ⟨m, q.dialect⟩ (.update entity) (.fresh q.index) = .ok head d ∧
      m.key = some key ∧ key.value? entity = some v ∧
      s = ⟨head ++ " WHERE " ++ Scope.columnSql ⟨m, q.dialect⟩ key ++ " = "
          ++ (d.binds.bind q.dialect key.column.name v).1.text,
        (d.binds.bind q.dialect key.column.name v).2.slots⟩ := by
  have hupdate : q.update entity = q.restrict (.update entity) := rfl
  rw [hupdate, restrict_eq_ok]
  constructor
  · rintro ⟨m, head, condition, d, d', hmap, hhead, hcondition, rfl⟩
    obtain ⟨key, v, hkey, hvalue, hfilter⟩ := (updateFilter_eq_ok h).mp hcondition
    rw [Scope.filterSql_key (c := ⟨m, q.dialect⟩) hmap hkey hvalue] at hfilter
    obtain ⟨rfl, rfl⟩ := EStateM.Result.ok.inj hfilter
    refine ⟨m, head, key, v, d, hmap, hhead, hkey, hvalue, ?_⟩
    simp only [whereText, String.append_assoc]
  · rintro ⟨m, head, key, v, d, hmap, hhead, hkey, hvalue, rfl⟩
    have hfilter := Scope.filterSql_key (c := ⟨m, q.dialect⟩) hmap hkey hvalue d
    refine ⟨m, head, _, d, _, hmap, hhead,
      (updateFilter_eq_ok h).mpr ⟨key, v, hkey, hvalue, hfilter⟩, ?_⟩
    simp only [whereText, String.append_assoc]

/-- **No statement loses its condition.** With a filter, a deletion, an update of either kind and a
count are made exactly if what stands before the condition and the filter can be written, and end
with the text of the filter, which is not empty. Without a filter, an update of an entity is made
exactly if what stands before the condition can be written and the entity has a value for the key
that is not null, and ends with the condition that the column of the key equals a slot; the slot is
one of the statement and has the value of the entity, and no other has its text, if the dialect
tells slots apart. -/
theorem restrict_whereText (q : Query) (s : Statement) :
    (∀ e, q.filter = some e → ∀ op, q.restrict op = .ok s ↔
      ∃ m head text d d', EntityMap.ofDecl q.entity = .ok m ∧
        q.headText ⟨m, q.dialect⟩ op (.fresh q.index) = .ok head d ∧
        Scope.filterSql ⟨m, q.dialect⟩ e d = .ok (some text) d' ∧ text ≠ "" ∧
        s = ⟨head ++ " WHERE " ++ text, d'.binds.slots⟩) ∧
    (q.filter = none → ∀ entity, q.update entity = .ok s ↔
      ∃ m head key v d slot binds, EntityMap.ofDecl q.entity = .ok m ∧
        q.headText ⟨m, q.dialect⟩ (.update entity) (.fresh q.index) = .ok head d ∧
        m.key = some key ∧ key.column.isPersisted = true ∧
        entity.find? key.member = some v ∧ v.isNull = false ∧
        d.binds.bind q.dialect key.column.name v = (slot, binds) ∧
        s = ⟨head ++ " WHERE " ++ Scope.columnSql ⟨m, q.dialect⟩ key ++ " = " ++ slot.text,
          binds.slots⟩ ∧
        slot ∈ s.binds ∧ slot.key = ⟨q.index, key.column.name⟩ ∧ slot.value.same v = true ∧
        (q.dialect.TellsSlotsApart → (s.binds.map (·.text)).Nodup)) := by
  refine ⟨fun e he op => restrict_of_filter he, fun hnone entity => ?_⟩
  rw [update_of_no_filter hnone]
  constructor
  · rintro ⟨m, head, key, v, d, hmap, hhead, hkey, hvalue, rfl⟩
    obtain ⟨hpersisted, hfind, hnull⟩ := MappedField.value?_eq_some_iff.mp hvalue
    have hgrows := grows_of_headText hhead
    have hbound := d.binds.bind_mem q.dialect key.column.name v
    have hsound := (BindTable.sound_empty q.dialect q.index).grows
      (hgrows.trans (d.binds.grows_bind q.dialect key.column.name v))
    have hslot := d.binds.key_bind q.dialect key.column.name v
    rw [hgrows.index_eq] at hslot
    exact ⟨m, head, key, v, d, _, _, hmap, hhead, hkey, hpersisted, hfind, hnull, rfl, rfl,
      hbound.1, hslot, hbound.2, hsound.nodup_texts⟩
  · rintro ⟨m, head, key, v, d, slot, binds, hmap, hhead, hkey, hpersisted, hfind, hnull, hbind,
      rfl, -⟩
    refine ⟨m, head, key, v, d, hmap, hhead, hkey,
      MappedField.value?_eq_some_iff.mpr ⟨hpersisted, hfind, hnull⟩, ?_⟩
    rw [hbind]

end Query

/-- Members of a club, by their names. -/
def members : Query where
  dialect := .sqlServer
  entity := { typeName := "Member", table := "members", members := [.key "ID", .field "Name"] }

/-- The members of one name are deleted, and one member is updated. -/
theorem restrict_whereText_members :
    (∃ s, (members.filterBy (.binary .eq (.ofMember "Name") (.constant (.text "Ada")))).delete
        = .ok s ∧
      s.sql = "DELETE FROM [members] WHERE [Name] = @p0_Name" ∧
      ∃ head text, text ≠ "" ∧ s.sql = head ++ " WHERE " ++ text) ∧
    ∃ s, members.update [("ID", .text "7"), ("Name", .text "Ada")] = .ok s ∧
      s.sql = "UPDATE [members] SET [Name] = @p0_Name WHERE [ID] = @p0_ID" ∧
      ∃ slot ∈ s.binds, slot.key = ⟨0, "ID"⟩ ∧ slot.value.same (.text "7") = true := by
  constructor
  · obtain ⟨m, head, text, d, d', -, -, -, htext, hs⟩ :=
      ((members.filterBy (.binary .eq (.ofMember "Name")
        (.constant (.text "Ada")))).restrict_whereText _).1 _ rfl .delete |>.mp rfl
    exact ⟨_, rfl, rfl, head, text, htext, congrArg Statement.sql hs⟩
  · obtain ⟨m, head, key, v, d, slot, binds, hmap, -, hkey, -, hfind, -, -, -, hslot, hcolumn,
      hvalue, -⟩ := (members.restrict_whereText _).2 rfl
        [("ID", .text "7"), ("Name", .text "Ada")] |>.mp rfl
    obtain rfl := Except.ok.inj hmap
    obtain rfl := Option.some.inj hkey
    obtain rfl := Option.some.inj hfind
    exact ⟨_, rfl, rfl, slot, hslot, hcolumn, hvalue⟩

end EntitySql
