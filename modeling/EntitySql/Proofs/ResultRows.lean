import EntitySql.Proofs.Exports

/-!
# Members read from result rows

A result row holds a selected member under the name that the select gives it: a plain column under
its own name, a computed one under the name of its member. `EntityMap.readRow?` looks for a member
under its own name first and under the name of its column after that.

The first look finds the wrong value if the member is stored in a column of another name while the
row has a column that is named like the member. The main statement, `readRow?_selected`, says that
nothing else can go wrong: a row gives every selected member its value exactly if it holds nothing
else under the names of the selected members, and if it has the selected columns only, this is so
for all values exactly if no selected member is named like another selected column.
-/

namespace EntitySql

/-! ### Reading a member -/

namespace EntityMap

variable {m : EntityMap} {e : EntityDecl} {f : MappedField} {d : Dialect}

/-- A member of the map is found. -/
theorem find?_of_mem (hm : ofDecl e = .ok m) (hf : f ∈ m.fields) : m.find? f.member = some f :=
  BindTable.find?_of_nodup_map (nodup_of_ofDecl hm) hf

/-- A member is read under its own name, or else under the name of its column. -/
theorem readRow?_of_mem (hm : ofDecl e = .ok m) (hf : f ∈ m.fields) (row : Row) :
    m.readRow? row f.member = (row.value? f.member).or (row.value? f.column.name) := by
  rw [readRow?, find?_of_mem hm hf]
  cases row.value? f.member <;> rfl

/-- A member that the row holds under its exported name is read right, unless the row holds
something else under the name of the member. -/
theorem readRow?_eq_some_iff (hm : ofDecl e = .ok m) (hf : f ∈ m.fields) {row : Row} {v : Value}
    (hv : row.value? (f.exportName d) = some v) :
    m.readRow? row f.member = some v ↔ ∀ w, row.value? f.member = some w → w = v := by
  rw [readRow?_of_mem hm hf]
  cases hmember : row.value? f.member with
  | some w =>
    rw [Option.some_or, Option.some.injEq]
    exact ⟨fun h _ hw => (Option.some.inj hw).symm.trans h, fun h => h w rfl⟩
  | none =>
    refine iff_of_true ?_ nofun
    -- a computed column would be held under the name of the member
    cases hplain : d.isPlain f.column.name with
    | true =>
      rw [MappedField.exportName, if_pos hplain] at hv
      exact hv
    | false =>
      rw [MappedField.exportName, hplain, if_neg Bool.false_ne_true, hmember] at hv
      cases hv

end EntityMap

/-! ### Rows of a select list -/

namespace Row

/-- The row with these columns. -/
def ofColumns : List (String × Value) → Row
  | [] => {}
  | (name, v) :: rest => (ofColumns rest).insert name v

theorem value?_ofColumns (columns : List (String × Value)) (name : String) :
    (ofColumns columns).value? name = columns.lookup name := by
  induction columns with
  | nil => rfl
  | cons column rest ih =>
    obtain ⟨first, v⟩ := column
    rw [ofColumns]
    by_cases hname : name = first
    · rw [hname, value?_insert_self, List.lookup_cons_self]
    · have hne : (name == first) = false := by simpa using hname
      rw [value?_insert_of_ne _ _ hname, ih, List.lookup_cons, hne]

/-- What a row holds stands in its list of columns. -/
theorem mem_of_value?_ofColumns {columns : List (String × Value)} {name : String} {v : Value}
    (h : (ofColumns columns).value? name = some v) : (name, v) ∈ columns := by
  rw [value?_ofColumns] at h
  obtain ⟨before, after, rfl, -⟩ := List.lookup_eq_some_iff.mp h
  exact List.mem_append_right _ List.mem_cons_self

variable (row : Row) (d : Dialect) (items : List SelectItem) (value : SelectItem → Value)

/-- The row holds the value of each item under the name that the item is selected as. -/
def Holds : Prop :=
  ∀ i ∈ items, ∀ name, d.quote name = i.output → row.value? name = some (value i)

/-- The row holds the items of a select list and has no other columns. -/
structure HoldsOnly : Prop where
  holds : row.Holds d items value
  only : ∀ name v, row.value? name = some v → ∃ i ∈ items, d.quote name = i.output

end Row

namespace Scope

variable (c : Scope)

theorem member_selectItem (f : MappedField) : (c.selectItem true f).member = f.member := by
  rw [selectItem]
  split <;> rfl

/-- For any values there is a row that holds just these under the names of selected columns. -/
theorem exists_holdsOnly (hquote : Function.Injective c.dialect.quote) {fs : List MappedField}
    (hnames : (fs.map (·.exportName c.dialect)).Nodup) (value : SelectItem → Value) :
    ∃ row : Row, row.HoldsOnly c.dialect (fs.map (c.selectItem true)) value := by
  let columns := fs.map fun f => (f.exportName c.dialect, value (c.selectItem true f))
  have hcolumns : (columns.map Prod.fst).Nodup := by
    rw [List.map_map]
    exact hnames
  refine ⟨.ofColumns columns, fun i hi name hname => ?_, fun name v hv => ?_⟩
  · obtain ⟨f, hf, rfl⟩ := List.mem_map.mp hi
    rw [output_selectItem] at hname
    rw [hquote hname, Row.value?_ofColumns]
    exact lookup_of_mem hcolumns (List.mem_map_of_mem hf)
  · obtain ⟨f, hf, hcolumn⟩ := List.mem_map.mp (Row.mem_of_value?_ofColumns hv)
    refine ⟨c.selectItem true f, List.mem_map_of_mem hf, ?_⟩
    rw [output_selectItem, (Prod.mk.inj hcolumn).1]

/-! ### Select lists -/

variable {c} {e : EntityDecl} {exprs : List Expr} {d d' : Draft} {items : List SelectItem}

/-- **Members are read back from the rows of a select list**, where different names are quoted
differently. A row that holds the selected columns gives every selected member its value exactly if
it holds nothing else under the names of these members. Rows without other columns give it for all
values exactly if no selected member is named like another selected column. -/
theorem readRow?_selected (hquote : Function.Injective c.dialect.quote)
    (hm : EntityMap.ofDecl e = .ok c.map) (hitems : c.selectItems exprs d = .ok items d')
    (houtputs : (items.map (·.output)).Nodup) :
    (∀ row value, row.Holds c.dialect items value →
      ((∀ i ∈ items, c.map.readRow? row i.member = some (value i)) ↔
        ∀ i ∈ items, ∀ v, row.value? i.member = some v → v = value i)) ∧
      ((∀ row value, row.HoldsOnly c.dialect items value →
          ∀ i ∈ items, c.map.readRow? row i.member = some (value i)) ↔
        ∀ i ∈ items, ∀ j ∈ items, c.dialect.quote i.member = j.output → j = i) := by
  obtain ⟨fs, hfs, rfl⟩ := selectItems_eq_ok hitems
  have hread : ∀ row value, row.Holds c.dialect (fs.map (c.selectItem true)) value →
      ∀ i ∈ fs.map (c.selectItem true), (c.map.readRow? row i.member = some (value i) ↔
        ∀ v, row.value? i.member = some v → v = value i) := by
    intro row value hholds i hi
    obtain ⟨f, hf, rfl⟩ := List.mem_map.mp hi
    have hmem := (List.mem_filter.mp (stored_of_allLeafFields exprs hfs f hf)).1
    rw [member_selectItem]
    exact EntityMap.readRow?_eq_some_iff hm hmem
      (hholds _ hi (f.exportName c.dialect) (output_selectItem f).symm)
  refine ⟨fun row value hholds => forall₂_congr (hread row value hholds), ?_, ?_⟩
  · intro hall i hi j hj hname
    -- the row in which this column alone is true
    have hnames : (fs.map (·.exportName c.dialect)).Nodup := by
      have hquoted : (fs.map (c.selectItem true)).map (·.output)
          = (fs.map (·.exportName c.dialect)).map c.dialect.quote := by
        rw [List.map_map, List.map_map]
        exact List.map_congr_left fun f _ => output_selectItem f
      rw [hquoted] at houtputs
      exact houtputs.of_map
    obtain ⟨row, hrow⟩ := c.exists_holdsOnly hquote hnames fun k => .bool (k == j)
    have hright := hall row _ hrow i hi
    have hunder := hrow.holds j hj i.member hname
    have hsame := (hread row _ hrow.holds i hi).mp hright _ hunder
    have htrue : (i == j) = true := by simpa using hsame.symm
    exact (eq_of_beq htrue).symm
  · intro hnames row value hrow i hi
    refine (hread row value hrow.holds i hi).mpr fun v hv => ?_
    obtain ⟨j, hj, hname⟩ := hrow.only i.member v hv
    obtain rfl := hnames i hi j hj hname
    exact Option.some.inj (hv.symm.trans (hrow.holds j hj j.member hname))

end Scope

/-- People with a nickname, which is stored in a column that is named like another member. -/
def nicknamed : EntityDecl where
  typeName := "Person"
  table := "people"
  members := [.column "Name" "FullName", .column "Nick" "Name", .column "Shout" "UPPER(FullName)"]

/-- The map of these people. -/
def nicknamedMap : EntityMap where
  entity := "Person"
  table := "people"
  fields := nicknamed.members.map .ofDecl
  key := none

/-- Without the nickname, every row of the select is read right. -/
theorem readRow?_selected_withoutNick :
    EntityMap.ofDecl nicknamed = .ok nicknamedMap ∧ ∃ items d,
      Scope.selectItems ⟨nicknamedMap, .sqlServer⟩ [.ofMember "Name", .ofMember "Shout"] (.fresh 0)
        = .ok items d ∧
      items.map (·.output) = ["[FullName]", "[Shout]"] ∧
      ∀ row value, row.HoldsOnly .sqlServer items value →
        ∀ i ∈ items, nicknamedMap.readRow? row i.member = some (value i) := by
  have hmap : EntityMap.ofDecl nicknamed = .ok nicknamedMap := by decide
  have hread := @Scope.readRow?_selected ⟨nicknamedMap, .sqlServer⟩ nicknamed
    [.ofMember "Name", .ofMember "Shout"] (.fresh 0) _ _
    (BuiltinDialect.quote_injective .sqlServer) hmap rfl (by decide)
  exact ⟨hmap, _, _, rfl, rfl, hread.2.mpr (by decide)⟩

/-- With the nickname, the names of the columns still differ, and the name of a person is read from
the column of the nickname. -/
theorem readRow?_takesNick :
    let row : Row := .ofColumns [("FullName", .text "Ada Lovelace"), ("Name", .text "Ada")]
    let value : SelectItem → Value := fun i =>
      if i.member = "Name" then .text "Ada Lovelace" else .text "Ada"
    EntityMap.ofDecl nicknamed = .ok nicknamedMap ∧ ∃ items d,
      Scope.selectItems ⟨nicknamedMap, .sqlServer⟩ [.ofMember "Name", .ofMember "Nick"] (.fresh 0)
        = .ok items d ∧
      items.map (·.member) = ["Name", "Nick"] ∧
      items.map (·.output) = ["[FullName]", "[Name]"] ∧
      row.HoldsOnly .sqlServer items value ∧
      nicknamedMap.readRow? row "Name" = some (.text "Ada") := by
  intro row value
  refine ⟨by decide, [⟨"[FullName]", none, "Name", true⟩, ⟨"[Name]", none, "Nick", true⟩],
    _, rfl, rfl, rfl, ⟨fun i hi name hname => ?_, fun name v hv => ?_⟩, rfl⟩
  · obtain rfl | rfl :
        i = ⟨"[FullName]", none, "Name", true⟩ ∨ i = ⟨"[Name]", none, "Nick", true⟩ := by
      simpa using hi
    · obtain rfl : name = "FullName" := BuiltinDialect.quote_injective .sqlServer hname
      rfl
    · obtain rfl : name = "Name" := BuiltinDialect.quote_injective .sqlServer hname
      rfl
  · obtain ⟨rfl, -⟩ | ⟨rfl, -⟩ : (name = "FullName" ∧ _) ∨ (name = "Name" ∧ _) := by
      simpa using Row.mem_of_value?_ofColumns hv
    · exact ⟨_, List.mem_cons_self, rfl⟩
    · exact ⟨_, List.mem_cons_of_mem _ List.mem_cons_self, rfl⟩

end EntitySql
