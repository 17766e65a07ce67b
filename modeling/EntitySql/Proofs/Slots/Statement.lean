import EntitySql.Proofs.Drafts
import EntitySql.Proofs.Slots.Draft

/-!
# Slots of statements

`TableOperation` lists the operations that end a query, and `Query.statements` gives the
statements of each. The main statement, `statements_slotted`, says that every one of them shows
what it binds: a reader of its text meets the slots of its binds, each for the first time in the
order of their positions, and no others (`Statement.IsSlotted`).

No value is therefore bound without a place in the text, and positional binds stay in step with
it, however many clauses share the bind table.
-/

namespace EntitySql

open Condition Slots Drafting

/-! ### Computed columns -/

/-- Columns that are computed for the dialect hold no marks of slots, no quotes of names and no
brackets. -/
def EntityDecl.HasUnmarkedColumns (e : EntityDecl) (d : Dialect) : Prop :=
  ∀ member ∈ e.members, member.isPersisted = true → d.isPlain member.columnName = false →
    isUnmarked member.columnName = true

instance (e : EntityDecl) (d : Dialect) : Decidable (e.HasUnmarkedColumns d) :=
  inferInstanceAs (Decidable (∀ member ∈ e.members, _ → _ → _))

theorem EntityDecl.HasUnmarkedColumns.map {e : EntityDecl} {d : Dialect}
    (h : e.HasUnmarkedColumns d) {m : EntityMap} (hm : EntityMap.ofDecl e = .ok m) :
    m.HasUnmarkedColumns d := by
  intro f hf
  obtain rfl := EntityMap.eq_of_ofDecl hm
  obtain ⟨member, hmember, rfl⟩ := List.mem_map.mp hf
  exact h member hmember

theorem isUnmarked_random (b : BuiltinDialect) : isUnmarked b.dialect.random = true := by
  cases b <;> rfl

namespace Query

/-- The map of the entity with the dialect of the query. -/
abbrev scope (q : Query) (m : EntityMap) : Scope := ⟨m, q.dialect⟩

variable {q : Query} {m : EntityMap} {marks : Marks}

section Selects

variable (hd : IsScannable q.dialect marks) (hm : m.HasUnmarkedColumns q.dialect)

include hd

/-- A select of the table of the query shows the slots of the condition. -/
theorem isShown_table (m : EntityMap) {columns : List SelectColumn} {filter : Option String}
    {order : List OrderItem} {ss : List String} (distinct : Bool) (limit : Option Nat)
    (hcolumns : ∀ column ∈ columns, column.IsSilent marks)
    (hfilter : ShowsAny marks filter ss) (horder : ∀ i ∈ order, i.IsSilent marks) :
    (Select.table (q.source (q.scope m)) { distinct, columns, filter, order, limit }).IsShown
      marks ss :=
  .table (shows_quote hd _) ⟨hcolumns, horder, hfilter⟩

include hm

theorem brings_filterText :
    Brings (q.scope m) (q.filterText (q.scope m)) (ShowsAny marks) := by
  rw [filterText]
  cases q.filter with
  | none => exact brings_pure rfl
  | some e => exact Scope.brings_filterSql hd hm e

/-! ### Lists -/

theorem brings_listSelect (hrandom : isUnmarked q.dialect.random = true) (top : Nat)
    (distinct random : Bool) :
    Brings (q.scope m) (q.listSelect top distinct random (q.scope m))
      (Select.IsShown marks) := by
  rw [listSelect]
  generalize (if top = 0 then none else some top) = limit
  refine (Scope.brings_selectItems hd hm q.selection).bind ?_
  rintro items _ ⟨hitems, rfl⟩
  refine (brings_filterText hd hm).bind ?_
  intro filter ss hfilter
  have hcolumns := silent_columns hitems
  dsimp only
  split
  -- the random key takes the place of the ordering, outside the distinct rows if there are such
  · have hsilent : ∀ i ∈ [randomItem q.dialect], i.IsSilent marks := by
      intro i hi
      obtain rfl := List.mem_singleton.mp hi
      have hshows := (passes_of_isUnmarked hd hrandom).shows
      exact ⟨hshows, hshows⟩
    split
    · refine brings_pure ?_
      rw [List.append_nil]
      have hrows := isShown_table hd m distinct none hcolumns hfilter (List.forall_mem_nil _)
      exact hrows.outer rfl rfl nofun hsilent
    · refine brings_pure ?_
      rw [List.append_nil]
      exact isShown_table hd m false limit hcolumns hfilter hsilent
  · refine Brings.bind (Scope.brings_orderItems (c := q.scope m) hd hm q.order) ?_
    rintro order _ ⟨horder, rfl⟩
    refine brings_pure ?_
    rw [List.append_nil, List.append_nil]
    exact isShown_table hd m distinct limit hcolumns hfilter horder

/-! ### Pages -/

omit hd hm in
theorem silent_appendNew {order items : List OrderItem}
    (horder : ∀ i ∈ order, i.IsSilent marks) (hitems : ∀ i ∈ items, i.IsSilent marks) :
    ∀ i ∈ appendNew order items, i.IsSilent marks :=
  fun i hi => (mem_appendNew hi).elim (horder i) (hitems i)

theorem brings_pageOrder (distinct : Bool) {items : List SelectItem}
    (hitems : ∀ i ∈ items, i.IsSilent marks) :
    Brings (q.scope m) (q.pageOrder distinct items (q.scope m)) fun order ss =>
      (∀ i ∈ order, i.IsSilent marks) ∧ ss = [] := by
  rw [pageOrder]
  refine Brings.bind (Scope.brings_orderItems (c := q.scope m) hd hm q.order) ?_
  rintro order _ ⟨horder, rfl⟩
  split
  -- a distinct page over a select list is ordered by selected columns only
  · split
    · exact brings_throw
    · refine brings_pure ⟨silent_appendNew horder fun i hi => ?_, rfl⟩
      obtain ⟨j, hj, rfl⟩ := List.mem_map.mp hi
      exact ⟨(hitems j hj).1, (hitems j hj).output⟩
  · split
    · next key _ =>
      refine Brings.bind (Scope.brings_orderItems (c := q.scope m) hd hm
        [⟨.ofMember key.member, true⟩]) ?_
      rintro tieBreak _ ⟨htieBreak, rfl⟩
      exact brings_pure ⟨silent_appendNew horder htieBreak, rfl⟩
    · split
      · exact brings_throw
      · exact brings_pure ⟨horder, rfl⟩

theorem brings_pageSelect (size index : Nat) (distinct : Bool) :
    Brings (q.scope m) (q.pageSelect size index distinct (q.scope m))
      (Select.IsShown marks) := by
  rw [pageSelect]
  refine (Scope.brings_selectItems hd hm q.selection).bind ?_
  rintro items _ ⟨hitems, rfl⟩
  refine (brings_filterText hd hm).bind ?_
  intro filter ss hfilter
  refine (brings_pageOrder hd hm distinct hitems).bind ?_
  rintro order _ ⟨horder, rfl⟩
  dsimp only
  split
  · next sel hsel =>
    refine brings_pure ?_
    rw [List.append_nil, List.append_nil]
    refine PageSpec.IsShown.page ?_ hsel
    exact ⟨shows_quote hd _, hitems, horder, hfilter⟩
  · exact brings_throw

/-! ### Counts -/

theorem brings_countSelect (distinct : Bool) :
    Brings (q.scope m) (q.countSelect distinct (q.scope m)) (Select.IsShown marks) := by
  have hcount : ∀ column ∈ [SelectColumn.expr countColumn none], column.IsSilent marks := by
    intro column hcolumn
    obtain rfl := List.mem_singleton.mp hcolumn
    exact ⟨(passes_of_isUnmarked hd rfl).shows, nofun⟩
  rw [countSelect]
  split
  -- the distinct rows are counted from outside, and their select has the only condition
  · refine (Scope.brings_selectItems hd hm q.selection).bind ?_
    rintro items _ ⟨hitems, rfl⟩
    refine (brings_filterText hd hm).bind ?_
    intro filter ss hfilter
    refine brings_pure ?_
    rw [List.append_nil]
    have hrows := isShown_table hd m distinct none (silent_columns hitems) hfilter
      (List.forall_mem_nil _)
    exact hrows.outer rfl rfl hcount nofun
  · refine (brings_filterText hd hm).bind ?_
    intro filter ss hfilter
    refine brings_pure ?_
    rw [List.append_nil]
    exact isShown_table hd m false none hcount hfilter (List.forall_mem_nil _)

/-! ### Mutations -/

omit hm in
/-- Words, the table of the query, and words after it. -/
theorem passes_source (m : EntityMap) {before after : String} (hbefore : isUnmarked before = true)
    (hafter : isJoint after = true) :
    Passes marks (before ++ q.source (q.scope m) ++ after) [] :=
  ((passes_of_isUnmarked hd hbefore).append_shows (shows_quote hd _)).joint hd hafter

theorem brings_updateFilter (entity : Record) :
    Brings (q.scope m) (q.updateFilter entity (q.scope m)) (ShowsAny marks) := by
  rw [updateFilter]
  split
  · exact Scope.brings_filterSql hd hm _
  · split
    · exact Scope.brings_filterSql hd hm _
    · exact brings_throw

end Selects

/-! ### Statements -/

end Query

/-- The statement shows what it binds: positions count up from 1, and the slots that are met in
the text are those of the binds, each for the first time in the order of positions. -/
structure Statement.IsSlotted (k : Marks) (s : Statement) : Prop where
  ordinals : s.binds.map (·.ordinal) = List.range' 1 s.binds.length
  texts : (slotsIn k s.sql).eraseDups = s.binds.map (·.text)

namespace Query

variable {q : Query} {s : Statement} {marks : Marks}

theorem isSlotted_of_brings (hapart : q.dialect.TellsSlotsApart) {body : Scope → Drafting String}
    (h : ∀ m, EntityMap.ofDecl q.entity = .ok m →
      Brings (q.scope m) (body (q.scope m)) (Shows marks))
    (hs : q.statement body = .ok s) : s.IsSlotted marks := by
  obtain ⟨m, d, hmap, hrun, hslots⟩ := statement_eq_ok.mp hs
  -- the table of a fresh draft has no slots yet
  have hempty : BindTable.Sound q.dialect (Draft.fresh q.index).binds :=
    BindTable.sound_empty q.dialect q.index
  obtain ⟨ps, hbinds, hshows⟩ := h m hmap _ d s.sql hempty hrun
  have hsound : d.binds.Sound q.dialect := by
    rw [hbinds]
    exact Scope.sound_fill (q.scope m) hempty ps
  have htexts := Scope.eraseDups_slotsOf (q.scope m) hapart hempty ps
  rw [← hbinds] at htexts
  constructor
  · rw [← hslots]
    exact hsound.ordinals
  · rw [hshows.slotsIn, ← hslots]
    exact htexts

theorem isSlotted_of_selects (hd : IsScannable q.dialect marks) {body : Scope → Drafting Select}
    (h : ∀ m, EntityMap.ofDecl q.entity = .ok m →
      Brings (q.scope m) (body (q.scope m)) (Select.IsShown marks))
    (hs : q.selectStatement body = .ok s) : s.IsSlotted marks :=
  isSlotted_of_brings hd.slotsApart (fun m hm => (h m hm).map fun _ _ hsel => hsel.shows hd _) hs

section Statements

variable (hd : IsScannable q.dialect marks) (hentity : q.entity.HasUnmarkedColumns q.dialect)

include hd hentity

theorem isSlotted_list (hrandom : isUnmarked q.dialect.random = true) {top : Nat}
    {distinct random : Bool} (hs : q.list top distinct random = .ok s) : s.IsSlotted marks :=
  isSlotted_of_selects hd
    (fun _ hm => brings_listSelect hd (hentity.map hm) hrandom top distinct random) hs

theorem isSlotted_page (hrandom : isUnmarked q.dialect.random = true) {size index : Nat}
    {distinct : Bool} (hs : q.page size index distinct = .ok s) : s.IsSlotted marks := by
  rw [page] at hs
  split at hs
  · exact isSlotted_list hd hentity hrandom hs
  · exact isSlotted_of_selects hd
      (fun _ hm => brings_pageSelect hd (hentity.map hm) size index distinct) hs

theorem isSlotted_countOf {distinct : Bool} (hs : q.countOf distinct = .ok s) :
    s.IsSlotted marks :=
  isSlotted_of_selects hd (fun _ hm => brings_countSelect hd (hentity.map hm) distinct) hs

omit hentity in
theorem isSlotted_insert {entity : Record} (hs : q.insert entity = .ok s) :
    s.IsSlotted marks := by
  refine isSlotted_of_brings hd.slotsApart (fun m _ => ?_) hs
  refine Brings.bind (Scope.brings_insertLists (c := q.scope m) hd entity) ?_
  intro lists ss hlists
  have hspace : isJoint " " = true := rfl
  split
  · exact brings_throw
  · refine brings_pure ?_
    rw [List.append_nil]
    exact (passes_source hd m rfl hspace).append_shows hlists

theorem isSlotted_update {entity : Record} (hs : q.update entity = .ok s) :
    s.IsSlotted marks := by
  refine isSlotted_of_brings hd.slotsApart (fun m hm => ?_) hs
  refine Brings.bind (Scope.brings_entityAssignmentSql (c := q.scope m) hd entity) ?_
  intro assignments ss hassignments
  have hset : isJoint " SET " = true := rfl
  split
  · exact brings_throw
  · refine Brings.bind (brings_updateFilter hd (hentity.map hm) entity) ?_
    intro filter ss' hfilter
    refine brings_pure ?_
    rw [List.append_nil]
    exact ((passes_source hd m rfl hset).append_shows hassignments).whereText hd hfilter

theorem isSlotted_updateBy {assignment : Expr} (hs : q.updateBy assignment = .ok s) :
    s.IsSlotted marks := by
  refine isSlotted_of_brings hd.slotsApart (fun m hm => ?_) hs
  refine Brings.bind (Scope.brings_clauseSql (c := q.scope m) hd (hentity.map hm)
    (.assignment assignment)) ?_
  intro assignments ss hassignments
  have hset : isJoint " SET " = true := rfl
  cases assignments with
  | none => exact brings_throw
  | some assignments =>
    refine Brings.bind (brings_filterText hd (hentity.map hm)) ?_
    intro filter ss' hfilter
    refine brings_pure ?_
    rw [List.append_nil]
    exact ((passes_source hd m rfl hset).append_shows hassignments).whereText hd hfilter

theorem isSlotted_delete (hs : q.delete = .ok s) : s.IsSlotted marks := by
  refine isSlotted_of_brings hd.slotsApart (fun m hm => ?_) hs
  refine Brings.bind (brings_filterText hd (hentity.map hm)) ?_
  intro filter ss hfilter
  refine brings_pure ?_
  rw [List.append_nil]
  have hfrom : Passes marks "DELETE FROM " [] := passes_of_isUnmarked hd rfl
  exact (hfrom.append_shows (shows_quote hd _)).whereText hd hfilter

end Statements

/-! ### Operations -/

end Query

/-- An operation that ends a query. -/
inductive TableOperation where
  | list (top : Nat) (distinct random : Bool)
  | page (size index : Nat) (distinct : Bool)
  | countedPage (size index : Nat) (distinct : Bool)
  | count
  | insert (entity : Record)
  | update (entity : Record)
  | updateBy (assignment : Expr)
  | delete

namespace Query

/-- The statements of an operation. -/
def statements (q : Query) : TableOperation → Except SqlError (List Statement)
  | .list top distinct random => (q.list top distinct random).map ([·])
  | .page size index distinct => (q.page size index distinct).map ([·])
  | .countedPage size index distinct =>
    (q.countedPage size index distinct).map fun r => [r.page, r.count]
  | .count => q.count.map ([·])
  | .insert entity => (q.insert entity).map ([·])
  | .update entity => (q.update entity).map ([·])
  | .updateBy assignment => (q.updateBy assignment).map ([·])
  | .delete => q.delete.map ([·])

theorem forall_of_map {r : Except SqlError Statement} {P : Statement → Prop}
    (h : ∀ s, r = .ok s → P s) {ss : List Statement} (hss : r.map ([·]) = .ok ss) :
    ∀ s ∈ ss, P s := by
  cases hr : r with
  | error e =>
    rw [hr] at hss
    cases hss
  | ok s =>
    rw [hr] at hss
    obtain rfl := Except.ok.inj hss
    exact List.forall_mem_singleton.mpr (h s hr)

/-- **Statements show what they bind.** If computed columns hold no marks of slots, no quotes of
names and no brackets, then in every statement of every operation the positions of the binds
count up from 1, and a reader of the text meets their slots, each for the first time, in this
order, and no others. -/
theorem statements_slotted {b : BuiltinDialect} {q : Query} (hq : q.dialect = b.dialect)
    (hentity : q.entity.HasUnmarkedColumns q.dialect) {op : TableOperation} {ss : List Statement}
    (hss : q.statements op = .ok ss) : ∀ s ∈ ss, s.IsSlotted b.marks := by
  have hd : IsScannable q.dialect b.marks := hq ▸ isScannable_builtin b
  have hrandom : isUnmarked q.dialect.random = true := hq ▸ isUnmarked_random b
  cases op with
  | list top distinct random =>
    exact forall_of_map (fun _ => isSlotted_list hd hentity hrandom) hss
  | page size index distinct =>
    exact forall_of_map (fun _ => isSlotted_page hd hentity hrandom) hss
  | countedPage size index distinct =>
    rw [statements, countedPage] at hss
    cases hpage : q.page size index distinct with
    | error e =>
      rw [hpage] at hss
      cases hss
    | ok page =>
      cases hcount : q.countOf distinct with
      | error e =>
        rw [hpage, hcount] at hss
        cases hss
      | ok count =>
        rw [hpage, hcount] at hss
        obtain rfl := Except.ok.inj hss
        refine List.forall_mem_cons.mpr ⟨isSlotted_page hd hentity hrandom hpage, ?_⟩
        exact List.forall_mem_singleton.mpr (isSlotted_countOf hd hentity hcount)
  | count => exact forall_of_map (fun _ => isSlotted_countOf hd hentity) hss
  | insert entity => exact forall_of_map (fun _ => isSlotted_insert hd) hss
  | update entity => exact forall_of_map (fun _ => isSlotted_update hd hentity) hss
  | updateBy assignment => exact forall_of_map (fun _ => isSlotted_updateBy hd hentity) hss
  | delete => exact forall_of_map (fun _ => isSlotted_delete hd hentity) hss

end Query

/-- The labels whose name is not `a` and starts with `b`, in a table whose name holds a mark. -/
def otherLabels : Query where
  dialect := .sqlServer
  entity :=
    { typeName := "Label", table := "labels @home"
      members := [.key "Id", .field "Name", .column "Initial" "LEFT(Name, 1)"] }
  filter := some (.conj (.binary .ne (.ofMember "Name") (.constant (.text "a")))
    (.binary .eq (.ofMember "Initial") (.constant (.text "b"))))

/-- The statement that names them all `a`. -/
def relabeled : Statement where
  sql := "UPDATE [labels @home] SET [Name] = @p0_Name "
    ++ "WHERE ([Name] <> @p0_Name AND LEFT(Name, 1) = @p0_LEFT_Name__1_)"
  binds :=
    [⟨⟨0, "Name"⟩, .text "a", "p0_Name", "@p0_Name", 1⟩,
      ⟨⟨0, "LEFT(Name, 1)"⟩, .text "b", "p0_LEFT_Name__1_", "@p0_LEFT_Name__1_", 2⟩]

/-- The condition uses the slot of the assignment again. -/
theorem statements_slotted_relabeled :
    otherLabels.statements (.updateBy (.assign (.ofMember "Name") (.constant (.text "a"))))
        = .ok [relabeled] ∧
      slotsIn BuiltinDialect.sqlServer.marks relabeled.sql
        = ["@p0_Name", "@p0_Name", "@p0_LEFT_Name__1_"] ∧
      relabeled.IsSlotted BuiltinDialect.sqlServer.marks := by
  have hstatements :
      otherLabels.statements (.updateBy (.assign (.ofMember "Name") (.constant (.text "a"))))
        = .ok [relabeled] := rfl
  refine ⟨hstatements, by decide, ?_⟩
  exact Query.statements_slotted (b := .sqlServer) rfl (by decide) hstatements relabeled
    (List.mem_singleton_self _)

end EntitySql
