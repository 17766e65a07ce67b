import EntitySql.Proofs.ClauseAnswer
import EntitySql.Proofs.Exports

/-!
# The columns that an entity sets

An insert and the text that sets an entity are written from the same cells, one for each field
that the entity sets (`MappedField.IsSet`). The first main statement, `insertLists_agrees`, says
that the two agree over every bind table: the columns are those of these fields in declaration
order, and each value stands in a slot of the column. It rests on `forall₂_writableValues`, which
puts the fields beside the requests, and on `forall₂_answers`, which puts the requests beside
their slots; two fields with one column and equal values share a slot.

Fields are chosen one by one, and a map only refuses members that are declared twice. So two
fields may set one column, and a field may set the column of a key that the server generates. The
second main statement, `setsSafely_iff`, says for which maps this never happens.
-/

namespace EntitySql

/-! ### Fields that are set -/

namespace MappedField

/-- A statement may set the field: it is stored as a scalar, the server does not generate it, and
its column has a plain name. -/
def IsSettable (d : Dialect) (f : MappedField) : Prop :=
  f.column.isPersisted = true ∧ f.column.kind = .scalar ∧ f.column.isGenerated = false ∧
    d.isPlain f.column.name = true

instance (d : Dialect) : DecidablePred (IsSettable d) :=
  fun f => inferInstanceAs (Decidable (f.column.isPersisted = true ∧ f.column.kind = .scalar ∧
    f.column.isGenerated = false ∧ d.isPlain f.column.name = true))

/-- An entity sets the field if it has a value for it, which is not null. -/
def IsSet (d : Dialect) (entity : Record) (f : MappedField) : Prop :=
  f.IsSettable d ∧ ∃ v ∈ entity.find? f.member, v.isNull = false

instance (d : Dialect) (entity : Record) : DecidablePred (IsSet d entity) :=
  fun f => inferInstanceAs (Decidable (f.IsSettable d ∧ ∃ v ∈ entity.find? f.member,
    v.isNull = false))

theorem isSettable_iff (c : Scope) (f : MappedField) :
    f.IsSettable c.dialect ↔ f.isStored = true ∧ c.isWritable f = true := by
  simp only [IsSettable, isStored, Scope.isWritable, Bool.and_eq_true, beq_iff_eq,
    Bool.not_eq_true', and_assoc]

/-- The column of a settable field with the value that an entity has for it. -/
def cell? (d : Dialect) (entity : Record) (f : MappedField) : Option (String × Value) :=
  if f.IsSettable d then (f.value? entity).map fun v => (f.column.name, v) else none

variable {d : Dialect} {entity : Record} {f : MappedField}

/-- A value that is read is stored, and not null. -/
theorem value?_eq_some_iff {v : Value} :
    f.value? entity = some v ↔
      f.column.isPersisted = true ∧ entity.find? f.member = some v ∧ v.isNull = false := by
  rw [value?]
  cases f.column.isPersisted <;> simp [Option.filter_eq_some_iff]

theorem cell?_eq_some_iff {cell : String × Value} :
    f.cell? d entity = some cell ↔ f.IsSettable d ∧ cell.1 = f.column.name ∧
      entity.find? f.member = some cell.2 ∧ cell.2.isNull = false := by
  obtain ⟨column, v⟩ := cell
  by_cases hsettable : f.IsSettable d
  · rw [cell?, if_pos hsettable, Option.map_eq_some_iff]
    constructor
    · rintro ⟨w, hw, ⟨⟩⟩
      exact ⟨hsettable, rfl, (value?_eq_some_iff.mp hw).2⟩
    · rintro ⟨-, rfl, hv⟩
      exact ⟨v, value?_eq_some_iff.mpr ⟨hsettable.1, hv⟩, rfl⟩
  · rw [cell?, if_neg hsettable]
    exact iff_of_false nofun fun h => hsettable h.1

/-- The cells of an entity are those of the fields that it sets. -/
theorem isSome_cell? : (f.cell? d entity).isSome = true ↔ f.IsSet d entity := by
  rw [Option.isSome_iff_exists]
  constructor
  · rintro ⟨cell, hcell⟩
    obtain ⟨hsettable, -, hfind, hnull⟩ := cell?_eq_some_iff.mp hcell
    exact ⟨hsettable, cell.2, hfind, hnull⟩
  · rintro ⟨hsettable, v, hfind, hnull⟩
    exact ⟨(f.column.name, v), cell?_eq_some_iff.mpr ⟨hsettable, rfl, hfind, hnull⟩⟩

/-- The entity for which each of these fields is true. -/
def allTrue : List MappedField → Record
  | [] => []
  | f :: rest => Record.insert f.member (.bool true) (allTrue rest)

theorem find?_allTrue {fs : List MappedField} (hf : f ∈ fs) :
    (allTrue fs).find? f.member = some (.bool true) := by
  induction fs with
  | nil => cases hf
  | cons g rest ih =>
    rw [allTrue]
    by_cases hmember : f.member = g.member
    · rw [hmember]
      exact Record.find?_insert_self _ _ _
    · rw [Record.find?_insert_of_ne _ _ hmember]
      exact ih ((List.mem_cons.mp hf).resolve_left fun h => hmember (congrArg _ h))

end MappedField

namespace EntityMap

variable (m : EntityMap) (d : Dialect) (entity : Record)

/-- The fields that statements may set, in declaration order. -/
def settableFields : List MappedField :=
  m.fields.filter (·.IsSettable d)

/-- The fields that an entity sets, in declaration order. -/
def setFields : List MappedField :=
  m.fields.filter (·.IsSet d entity)

/-- An entity sets nothing else than what may be set. -/
theorem setFields_sublist : (m.setFields d entity).Sublist (m.settableFields d) :=
  List.monotone_filter_right _ fun f hf => by
    rw [decide_eq_true_iff] at hf ⊢
    exact hf.1

/-- Some entity sets everything that may be set. -/
theorem exists_setFields_eq : ∃ entity, m.setFields d entity = m.settableFields d := by
  refine ⟨MappedField.allTrue m.fields, List.filter_congr fun f hf => ?_⟩
  rw [decide_eq_decide]
  exact and_iff_left ⟨_, MappedField.find?_allTrue hf, rfl⟩

end EntityMap

/-! ### Lists side by side -/

/-- What is kept of a list stands beside what it is mapped to, if the same items are kept. -/
theorem forall₂_filter_filterMap {α β : Type} {p : α → Bool} {g : α → Option β}
    {R : α → β → Prop} (hp : ∀ a, (g a).isSome = p a) (hR : ∀ a b, g a = some b → R a b)
    (l : List α) : List.Forall₂ R (l.filter p) (l.filterMap g) := by
  induction l with
  | nil => exact .nil
  | cons a rest ih =>
    cases hg : g a with
    | none =>
      have hdrop : ¬ p a = true := by simp [← hp a, hg]
      rw [List.filter_cons_of_neg hdrop, List.filterMap_cons_none hg]
      exact ih
    | some b =>
      have hkeep : p a = true := by simp [← hp a, hg]
      rw [List.filter_cons_of_pos hkeep, List.filterMap_cons_some hg]
      exact .cons (hR a b hg) ih

theorem forall₂_comp {α β γ : Type} {R : α → β → Prop} {S : β → γ → Prop} {as : List α}
    {bs : List β} {cs : List γ} (hR : List.Forall₂ R as bs) (hS : List.Forall₂ S bs cs) :
    List.Forall₂ (fun a c => ∃ b, R a b ∧ S b c) as cs := by
  induction hR generalizing cs with
  | nil =>
    cases hS
    exact .nil
  | cons hab _ ih =>
    obtain _ | ⟨hbc, hrest⟩ := hS
    exact .cons ⟨_, hab, hbc⟩ (ih hrest)

/-! ### Requests and their slots -/

namespace BindTable

variable (d : Dialect)

/-- A slot belongs to the column that it was asked for. -/
theorem key_bind (t : BindTable) (column : String) (value : Value) :
    (t.bind d column value).1.key = ⟨t.index, column⟩ := by
  rw [bind]
  cases hfind : t.find? column value with
  | none => rfl
  | some s =>
    have hfound := List.find?_some hfind
    rw [Bool.and_eq_true, beq_iff_eq] at hfound
    exact hfound.1

variable {d} in
/-- Requests do not change the index of a table. -/
theorem Grows.index_eq {t u : BindTable} (h : t.Grows d u) : u.index = t.index := by
  refine h.induction (motive := fun w => w.index = t.index) rfl fun w column value hw => ?_
  obtain ⟨s, -, -, hbind⟩ | hbind := bind_cases w d column value <;>
    rw [hbind] <;> exact hw

/-- The slot answers the request of a column and a value in the table. -/
structure Holds (t : BindTable) (request : String × Value) (slot : BindSlot) : Prop where
  mem : slot ∈ t.slots
  key : slot.key = ⟨t.index, request.1⟩
  same : slot.value.same request.2 = true

/-- Requests are answered in turn with slots that the last table holds. -/
theorem forall₂_answers (t : BindTable) (requests : List (String × Value)) :
    List.Forall₂ (t.bindAll d requests).Holds requests (t.answers d requests) := by
  induction requests generalizing t with
  | nil => exact .nil
  | cons request rest ih =>
    have hbound := t.bind_mem d request.1 request.2
    have hgrows : (t.bind d request.1 request.2).2.Grows d (t.bindAll d (request :: rest)) :=
      ⟨rest, rfl⟩
    refine .cons ⟨hgrows.isPrefix.subset hbound.1, ?_, hbound.2⟩ (ih _)
    have hindex : (t.bindAll d (request :: rest)).index = t.index :=
      ((t.grows_bind d request.1 request.2).trans hgrows).index_eq
    rw [hindex]
    exact t.key_bind d request.1 request.2

end BindTable

namespace Scope

open Drafting

variable (c : Scope) (entity : Record)

/-- The requests of an entity are the cells of the fields of the map. -/
theorem writableValues_eq :
    c.writableValues entity = c.map.fields.filterMap (·.cell? c.dialect entity) := by
  rw [writableValues, EntityMap.storedFields, List.filterMap_filter]
  refine List.filterMap_congr fun f _ => ?_
  have hsettable := f.isSettable_iff c
  cases hstored : f.isStored <;> cases hwritable : c.isWritable f <;>
    simp [MappedField.cell?, hsettable, hstored, hwritable]

/-- Each field that is set asks for its own value under its column. -/
theorem forall₂_writableValues :
    List.Forall₂
      (fun f request => request.1 = f.column.name ∧ entity.find? f.member = some request.2)
      (c.map.setFields c.dialect entity) (c.writableValues entity) := by
  rw [writableValues_eq]
  refine forall₂_filter_filterMap (fun f => ?_) (fun f cell hcell => ?_) _
  · rw [Bool.eq_iff_iff, decide_eq_true_iff]
    exact MappedField.isSome_cell?
  · obtain ⟨-, hcolumn, hfind, -⟩ := MappedField.cell?_eq_some_iff.mp hcell
    exact ⟨hcolumn, hfind⟩

/-- The columns are those of the fields that are set. -/
theorem cellColumns_eq :
    c.cellColumns entity
      = (c.map.setFields c.dialect entity).map fun f => c.dialect.quote f.column.name := by
  rw [cellColumns, ← List.forall₂_eq_eq_eq, List.forall₂_map_left_iff, List.forall₂_map_right_iff]
  refine (c.forall₂_writableValues entity).flip.imp fun request f h => ?_
  rw [h.1]

/-- Each field that is set has a slot of its column, with its own value. -/
theorem forall₂_cellSlots (t : BindTable) :
    let binds := t.bindAll c.dialect (c.writableValues entity)
    List.Forall₂ (fun f text => ∃ slot ∈ binds.slots, slot.text = text ∧
      slot.key = ⟨t.index, f.column.name⟩ ∧
      ∃ v, entity.find? f.member = some v ∧ slot.value.same v = true)
      (c.map.setFields c.dialect entity) (c.cellSlots entity t) := by
  intro binds
  have hindex : binds.index = t.index := BindTable.Grows.index_eq ⟨_, rfl⟩
  rw [cellSlots, List.forall₂_map_right_iff]
  refine (forall₂_comp (c.forall₂_writableValues entity) (t.forall₂_answers c.dialect _)).imp ?_
  rintro f slot ⟨request, ⟨hcolumn, hvalue⟩, hslot⟩
  exact ⟨slot, hslot.mem, rfl, by rw [hslot.key, hindex, hcolumn], _, hvalue, hslot.same⟩

/-- **An insert and an assignment of an entity agree.** From one bind table both leave the same one.
The assignment sets each column of the insert to the value beside it. The columns are those of the
fields that the entity sets, in declaration order, and each value is a slot of its column with the
value of the field; in a sound table no other slot has the same text, if the dialect tells slots
apart. -/
theorem insertLists_agrees (d d' : Draft) (hd : d'.binds = d.binds) :
    ∃ lists binds,
      (c.insertLists entity).result d = (.ok lists, binds) ∧
      (c.entityAssignmentSql entity).result d' = (.ok (String.intercalate ", "
        (List.zipWith (fun column value => column ++ " = " ++ value) lists.columns lists.values)),
        binds) ∧
      lists.columns.length = lists.values.length ∧
      lists.columns
        = (c.map.setFields c.dialect entity).map (fun f => c.dialect.quote f.column.name) ∧
      List.Forall₂ (fun f text => ∃ slot ∈ binds.slots, slot.text = text ∧
        slot.key = ⟨d.binds.index, f.column.name⟩ ∧
        ∃ v, entity.find? f.member = some v ∧ slot.value.same v = true)
        (c.map.setFields c.dialect entity) lists.values ∧
      (c.dialect.TellsSlotsApart → d.binds.Sound c.dialect →
        (binds.slots.map (·.text)).Nodup) := by
  refine ⟨_, _, c.insertLists_result entity d, ?_, c.length_cellSlots entity d.binds,
    c.cellColumns_eq entity, c.forall₂_cellSlots entity d.binds, fun hslots hsound => ?_⟩
  · rw [entityAssignmentSql_result, hd]
  · exact (hsound.grows ⟨_, rfl⟩).nodup_texts hslots

end Scope

/-- Accounts with a second field in the column of the key, and two in the column of the name. -/
def accounts : EntityDecl where
  typeName := "Account"
  table := "accounts"
  members := [.key "ID", .column "Alias" "ID", .column "Owner" "name", .column "Holder" "name"]

/-- The map of the accounts, on SQL Server. -/
def accountScope : Scope where
  map :=
    { entity := "Account", table := "accounts", fields := accounts.members.map .ofDecl
      key := some (.ofDecl (.key "ID")) }
  dialect := .sqlServer

/-- Two fields with one column and equal values share a slot. -/
theorem insertLists_agrees_sharedSlot :
    let entity : Record := [("Holder", .text "Ada"), ("Owner", .text "Ada")]
    let labelled : Draft := { binds := { index := 0 }, aliasing := true }
    ∃ lists binds,
      (accountScope.insertLists entity).result (.fresh 0) = (.ok lists, binds) ∧
      lists = ⟨["[name]", "[name]"], ["@p0_name", "@p0_name"]⟩ ∧ binds.size = 1 ∧
      (accountScope.entityAssignmentSql entity).result labelled
        = (.ok "[name] = @p0_name, [name] = @p0_name", binds) ∧
      (binds.slots.map (·.text)).Nodup := by
  intro entity labelled
  obtain ⟨lists, binds, hinsert, hassign, -, -, -, hnodup⟩ :=
    accountScope.insertLists_agrees entity (.fresh 0) labelled rfl
  obtain ⟨hlists, rfl⟩ := Prod.mk.inj hinsert
  obtain rfl := Except.ok.inj hlists
  exact ⟨_, _, rfl, rfl, rfl, hassign,
    hnodup (BuiltinDialect.tellsSlotsApart .sqlServer) (BindTable.sound_empty _ 0)⟩

/-! ### Columns that are set once -/

namespace EntityMap

variable (m : EntityMap)

/-- The columns differ, and none of them is the column of a field that the server generates. -/
structure SetsSafely (d : Dialect) (columns : List String) : Prop where
  nodup : columns.Nodup
  notGenerated : ∀ g ∈ m.fields, g.column.isGenerated = true → d.quote g.column.name ∉ columns

/-- The fields have columns of their own, none of which the server generates. -/
structure SetApart (fs : List MappedField) : Prop where
  nodup : (fs.map (·.column.name)).Nodup
  notGenerated : ∀ g ∈ m.fields, g.column.isGenerated = true → ∀ f ∈ fs,
    f.column.name ≠ g.column.name

variable {m}

/-- Quotes keep columns apart. -/
theorem setsSafely_quote_iff {d : Dialect} (hinjective : Function.Injective d.quote)
    {fs : List MappedField} :
    m.SetsSafely d (fs.map fun f => d.quote f.column.name) ↔ m.SetApart fs := by
  have hquote : (fs.map fun f => d.quote f.column.name)
      = (fs.map (·.column.name)).map d.quote := by
    rw [List.map_map]
    rfl
  have hnodup : (fs.map fun f => d.quote f.column.name).Nodup ↔
      (fs.map (·.column.name)).Nodup := by
    rw [hquote, List.nodup_map_iff hinjective]
  have hmem : ∀ name, d.quote name ∉ (fs.map fun f => d.quote f.column.name) ↔
      ∀ f ∈ fs, f.column.name ≠ name := by
    intro name
    rw [hquote, List.mem_map_of_injective hinjective, List.mem_map]
    push Not
    rfl
  constructor
  · exact fun h => ⟨hnodup.mp h.nodup, fun g hg hgen => (hmem _).mp (h.notGenerated g hg hgen)⟩
  · exact fun h => ⟨hnodup.mpr h.nodup, fun g hg hgen => (hmem _).mpr (h.notGenerated g hg hgen)⟩

theorem SetApart.sublist {fs gs : List MappedField} (h : m.SetApart gs) (hsub : fs.Sublist gs) :
    m.SetApart fs where
  nodup := h.nodup.sublist (hsub.map _)
  notGenerated := fun g hg hgen f hf => h.notGenerated g hg hgen f (hsub.subset hf)

end EntityMap

namespace Scope

variable (c : Scope)

/-- **Columns are set safely exactly if their fields are kept apart**, where different names are
quoted differently. An insert of an entity and the text that sets it name the same columns. No
column is named twice, and no column that the server generates is named, exactly if the fields that
the entity sets are in columns of their own. This holds for every entity exactly if all fields that
may be set are in columns of their own. -/
theorem setsSafely_iff (hquote : Function.Injective c.dialect.quote) :
    (∀ entity d, ∃ lists binds,
      (c.insertLists entity).result d = (.ok lists, binds) ∧
      (c.entityAssignmentSql entity).result d = (.ok (String.intercalate ", "
        (List.zipWith (fun column value => column ++ " = " ++ value) lists.columns lists.values)),
        binds) ∧
      (c.map.SetsSafely c.dialect lists.columns ↔
        c.map.SetApart (c.map.setFields c.dialect entity))) ∧
    ((∀ entity d lists binds, (c.insertLists entity).result d = (.ok lists, binds) →
        c.map.SetsSafely c.dialect lists.columns) ↔
      c.map.SetApart (c.map.settableFields c.dialect)) := by
  have hiff : ∀ entity, c.map.SetsSafely c.dialect (c.cellColumns entity) ↔
      c.map.SetApart (c.map.setFields c.dialect entity) := by
    intro entity
    rw [cellColumns_eq]
    exact EntityMap.setsSafely_quote_iff hquote
  refine ⟨fun entity d => ⟨_, _, c.insertLists_result entity d,
    c.entityAssignmentSql_result entity d, hiff entity⟩, fun h => ?_, fun h => ?_⟩
  · obtain ⟨entity, hentity⟩ := c.map.exists_setFields_eq c.dialect
    rw [← hentity]
    exact (hiff entity).mp (h entity (.fresh 0) _ _ (c.insertLists_result entity _))
  · intro entity d lists binds hresult
    rw [insertLists_result] at hresult
    obtain rfl := Except.ok.inj (Prod.mk.inj hresult).1
    exact (hiff entity).mpr (h.sublist (c.map.setFields_sublist c.dialect entity))

end Scope

/-- An account with one name is inserted safely, and not every account is. -/
theorem setsSafely_iff_accounts :
    (∃ lists binds, (accountScope.insertLists [("Owner", .text "Ada")]).result (.fresh 0)
        = (.ok lists, binds) ∧ accountScope.map.SetsSafely accountScope.dialect lists.columns) ∧
      ¬ ∀ entity d lists binds, (accountScope.insertLists entity).result d = (.ok lists, binds) →
        accountScope.map.SetsSafely accountScope.dialect lists.columns := by
  obtain ⟨heach, hall⟩ :=
    accountScope.setsSafely_iff (BuiltinDialect.quote_injective .sqlServer)
  obtain ⟨lists, binds, hinsert, -, hiff⟩ := heach [("Owner", .text "Ada")] (.fresh 0)
  refine ⟨⟨lists, binds, hinsert, hiff.mpr ⟨by decide, by decide⟩⟩, fun h => ?_⟩
  -- `Owner` and `Holder` are settable and in one column
  exact absurd (hall.mp h).nodup (by decide)

/-- The map of the accounts is accepted. An account with an alias sets the column of the key, and an
account with two names sets one column twice. -/
theorem insertLists_setsKey :
    let aliased : Record := [("Alias", .text "A7"), ("Owner", .text "Ada")]
    let twice : Record := [("Holder", .text "Eve"), ("Owner", .text "Ada")]
    EntityMap.ofDecl accounts = .ok accountScope.map ∧
      (⟨"ID", ⟨"ID", true, true, .scalar⟩⟩ : MappedField) ∈ accountScope.map.fields ∧
      ((accountScope.insertLists aliased).result (.fresh 0)).1.toOption.map (·.columns)
        = some ["[ID]", "[name]"] ∧
      ((accountScope.entityAssignmentSql aliased).result (.fresh 0)).1.toOption
        = some "[ID] = @p0_ID, [name] = @p0_name" ∧
      ¬ accountScope.map.SetsSafely accountScope.dialect ["[ID]", "[name]"] ∧
      ((accountScope.insertLists twice).result (.fresh 0)).1.toOption.map (·.columns)
        = some ["[name]", "[name]"] ∧
      ¬ accountScope.map.SetsSafely accountScope.dialect ["[name]", "[name]"] := by
  refine ⟨by decide, List.mem_cons_self, rfl, rfl, fun h => ?_, rfl, fun h => ?_⟩
  · exact h.notGenerated _ List.mem_cons_self rfl List.mem_cons_self
  · exact absurd h.nodup (by decide)

end EntitySql
