import EntitySql.Proofs.Drafts
import EntitySql.Proofs.Slots.Statement

/-!
# Quoted names in statements

A quoted name can be read back. `scanIdentifier` reads from the opening quote up to the first
closing quote that is not doubled, and it recovers every name from its quoted form, whatever
characters the name has, if what follows does not begin with a closing quote itself
(`scanIdentifier_quote`).

For the table of a statement this condition is met. What stands before the quoted table and what
stands after it does not depend on the table: a statement is a `Frame` around it, the same one for
every table that a query may be turned to (`Query.onTable`). What stands after it begins with a
blank or a closing parenthesis, if there is anything (`Breaks`). The main statement,
`table_recovered`, says this of every statement of every operation.
-/

namespace EntitySql

open Condition

/-! ### Reading a quoted name -/

/-- The name in quotes at the start of a text, and what follows it. -/
def scanIdentifier (k : Marks) : List Char → Option (String × List Char)
  | [] => none
  | c :: rest =>
    if c = k.openQuote then
      (scanQuoted k.closeQuote rest).map fun scanned => (String.ofList scanned.1, scanned.2)
    else none

/-- A name is recovered from its quoted form, and what follows it is left. -/
theorem scanIdentifier_quote {d : Dialect} {k : Marks} (hd : d.QuotesBy k) (name : String)
    {rest : List Char} (hrest : ∀ tail, rest ≠ k.closeQuote :: tail) :
    scanIdentifier k ((d.quote name).toList ++ rest) = some (name, rest) := by
  have hscan := scanQuoted_doubleQuotes name.toList hrest
  rw [hd.toList_append, scanIdentifier, if_pos rfl, hscan, Option.map_some, String.ofList_toList]

/-! ### What may follow a table -/

/-- The text is empty, or begins with a blank or a closing parenthesis. -/
def Breaks (text : String) : Prop :=
  ∀ c rest, text.toList = c :: rest → c = ' ' ∨ c = ')'

theorem breaks_empty : Breaks "" := by
  intro c rest h
  cases h

theorem breaks_of_head {text : String} {c : Char} {rest : List Char} (h : text.toList = c :: rest)
    (hc : c = ' ' ∨ c = ')') : Breaks text := by
  intro e tail he
  obtain ⟨rfl, -⟩ := List.cons.inj (h.symm.trans he)
  exact hc

/-- A text that begins with a blank goes on in any way. -/
theorem breaks_of_blank {a : String} {rest : List Char} (h : a.toList = ' ' :: rest) (b : String) :
    Breaks (a ++ b) := by
  have hhead : (a ++ b).toList = ' ' :: (rest ++ b.toList) := by
    rw [String.toList_append, h, List.cons_append]
  exact breaks_of_head hhead (.inl rfl)

theorem Breaks.append {a b : String} (ha : Breaks a) (hb : Breaks b) : Breaks (a ++ b) := by
  intro c rest h
  rw [String.toList_append] at h
  rcases hlist : a.toList with _ | ⟨e, tail⟩
  · rw [hlist, List.nil_append] at h
    exact hb c rest h
  · rw [hlist, List.cons_append] at h
    obtain ⟨rfl, -⟩ := List.cons.inj h
    exact ha e tail hlist

/-- No closing quote of a built-in dialect is a blank or a parenthesis. -/
theorem Breaks.ne_closeQuote {text : String} (h : Breaks text) (b : BuiltinDialect) :
    ∀ tail, text.toList ≠ b.marks.closeQuote :: tail := by
  intro tail htail
  have hhead := h _ _ htail
  revert hhead
  cases b <;> decide

/-! ### Selects around a source -/

namespace SelectBody

variable (style : BoundStyle) (b : SelectBody)

/-- What stands before the source. -/
def head : String :=
  "SELECT " ++ (if b.distinct then "DISTINCT " else "") ++ b.topText style ++ b.columnsText
    ++ " FROM "

/-- What stands after the source. -/
def tail : String :=
  b.filterText ++ b.orderText ++ b.boundsText style

theorem toSql_eq (source : String) :
    b.toSql style source = b.head style ++ source ++ b.tail style := by
  unfold toSql head tail
  simp only [String.append_assoc]

theorem breaks_boundsText : Breaks (b.boundsText style) := by
  have hoffset : ∀ text, Breaks (" OFFSET " ++ text) := breaks_of_blank rfl
  fun_cases boundsText style b with
  | case1 => exact breaks_empty
  | case2 m =>
    rw [String.append_assoc]
    exact hoffset _
  | case3 n m =>
    rw [String.append_assoc, String.append_assoc, String.append_assoc]
    exact hoffset _
  | case4 =>
    refine Breaks.append ?_ ?_
    · split
      · exact breaks_of_blank rfl _
      · exact breaks_empty
    · split
      · exact hoffset _
      · exact breaks_empty

theorem breaks_tail : Breaks (b.tail style) := by
  have hfilter : Breaks b.filterText := by
    rw [filterText]
    split
    · exact breaks_of_blank rfl _
    · exact breaks_empty
  have horder : Breaks b.orderText := by
    rw [orderText]
    split
    · exact breaks_empty
    · exact breaks_of_blank rfl _
  exact (hfilter.append horder).append (b.breaks_boundsText style)

end SelectBody

namespace Select

/-- The select with another table. -/
def onTable (table : String) : Select → Select
  | .table _ body => .table table body
  | .derived inner label body => .derived (inner.onTable table) label body

/-- What stands before the table. -/
def head (style : BoundStyle) : Select → String
  | .table _ body => body.head style
  | .derived inner _ body => body.head style ++ "(" ++ inner.head style

/-- What stands after the table. -/
def tail (style : BoundStyle) : Select → String
  | .table _ body => body.tail style
  | .derived inner label body => inner.tail style ++ (") " ++ label ++ body.tail style)

variable (style : BoundStyle)

theorem toSql_onTable (table : String) (s : Select) :
    (s.onTable table).toSql style = s.head style ++ table ++ s.tail style := by
  induction s with
  | table source body => exact body.toSql_eq style table
  | derived inner label body ih =>
    rw [onTable, toSql, ih, SelectBody.toSql_eq]
    simp only [head, tail, String.append_assoc]

/-- A table in a derived table may be followed by the parenthesis that closes this. -/
theorem breaks_tail (s : Select) : Breaks (s.tail style) := by
  induction s with
  | table source body => exact body.breaks_tail style
  | derived inner label body ih =>
    have hclosing : (") " ++ label ++ body.tail style).toList
        = ')' :: ' ' :: (label.toList ++ (body.tail style).toList) := by
      simp
    exact ih.append (breaks_of_head hclosing (.inr rfl))

end Select

/-! ### Pages around a source -/

namespace PageSpec

variable (p : PageSpec) (table : String)

/-- The page of another table. -/
def onTable : PageSpec :=
  { p with source := table }

theorem carried_onTable (order : List OrderItem) (outputs : List String) :
    (p.onTable table).carried order outputs = p.carried order outputs := by
  induction order generalizing outputs with
  | nil => rfl
  | cons i rest ih =>
    simp only [carried, ih]
    rfl

theorem byOffset_onTable :
    (p.onTable table).byOffset = p.byOffset.map (·.onTable table) := by
  have hrows : (p.onTable table).rowsOn (p.index - 1) = p.rowsOn (p.index - 1) := rfl
  have hindex : (p.onTable table).index = p.index := rfl
  rw [byOffset, byOffset, hindex]
  split
  · rfl
  · rw [hrows]
    rcases p.rowsOn (p.index - 1) with e | skipped <;> rfl

theorem byReversal_onTable :
    (p.onTable table).byReversal = p.byReversal.map (·.onTable table) := by
  have hrows : (p.onTable table).rowsOn p.index = p.rowsOn p.index := rfl
  have hcarried : (p.onTable table).carried p.order (p.items.map (·.output))
      = p.carried p.order (p.items.map (·.output)) := p.carried_onTable table _ _
  have hfields : (p.onTable table).index = p.index ∧ (p.onTable table).order = p.order
      ∧ (p.onTable table).items = p.items := ⟨rfl, rfl, rfl⟩
  rw [byReversal, byReversal, hfields.1, hfields.2.1, hfields.2.2]
  split
  · rfl
  · rw [hrows, hcarried]
    rcases p.rowsOn p.index with e | window
    · rfl
    · rcases hcolumns : p.carried p.order (p.items.map (·.output)) with e | columns
      · rw [hcolumns]
        rfl
      · rw [hcolumns]
        rfl

end PageSpec

/-- A page is cut from another table in the same way. -/
theorem PageMethod.page_onTable (method : PageMethod) (p : PageSpec) (table : String) :
    method.page (p.onTable table) = (method.page p).map (·.onTable table) := by
  cases method with
  | offset => exact p.byOffset_onTable table
  | reversal => exact p.byReversal_onTable table

theorem PageMethod.draft_onTable (method : PageMethod) (p : PageSpec) (table : String) :
    (match method.page (p.onTable table) with
      | .ok s => pure s
      | .error e => throw e : Drafting Select)
      = (·.onTable table) <$> (match method.page p with
        | .ok s => pure s
        | .error e => throw e : Drafting Select) := by
  rw [page_onTable]
  rcases method.page p with e | s <;> rfl

/-! ### Frames of statements -/

/-- A statement without its table. -/
structure Frame where
  before : String
  after : String
  binds : List BindSlot

/-- The statement with a quoted table. -/
def Frame.around (f : Frame) (table : String) : Statement where
  sql := f.before ++ table ++ f.after
  binds := f.binds

namespace Query

/-- The query over a table of its own, or over the mapped one. -/
def onTable (q : Query) (table : Option String) : Query :=
  { q with table }

/-- The table that a query is over. -/
def tableName (q : Query) : String :=
  q.table.getD q.entity.table

/-- Whatever table the query is turned to, the statement is one frame around its quoted name, and
what follows the name breaks it off. -/
def IsFramed (q : Query) (run : Query → Except SqlError Statement) : Prop :=
  ∃ f : Frame, Breaks f.after ∧
    ∀ table, run (q.onTable table) = .ok (f.around (q.dialect.quote (q.onTable table).tableName))

variable {q : Query} {s : Statement}

/-- A program that writes around the table it is given is framed. -/
theorem isFramed_of_program {α : Type} {body : Query → Scope → Drafting String}
    {program : Scope → Drafting α} {head tail : α → String} (htail : ∀ a, Breaks (tail a))
    (hbody : ∀ table c, body (q.onTable table) c
      = (fun a => head a ++ (q.onTable table).source c ++ tail a) <$> program c)
    (hs : q.statement (body q) = .ok s) : q.IsFramed fun q => q.statement (body q) := by
  obtain ⟨m, d, hmap, hrun, -⟩ := statement_eq_ok.mp hs
  have hquery : q.onTable q.table = q := rfl
  have hstart := hbody q.table
  rw [hquery] at hstart
  rw [hstart] at hrun
  obtain ⟨a, ha, -⟩ := map_eq_ok.mp hrun
  refine ⟨⟨head a, tail a, d.binds.slots⟩, htail a, fun table => ?_⟩
  refine statement_eq_ok.mpr ⟨m, d, hmap, ?_, rfl⟩
  have htable : (q.onTable table).source ⟨m, q.dialect⟩
      = q.dialect.quote (q.onTable table).tableName := by
    rw [EntityMap.eq_of_ofDecl hmap]
    rfl
  rw [hbody table, Frame.around, ← htable]
  exact map_eq_ok.mpr ⟨a, ha, rfl⟩

/-- A program that makes the same select over every table is framed. -/
theorem isFramed_of_select {program : Query → Scope → Drafting Select}
    (hprogram : ∀ table c, program (q.onTable table) c
      = (·.onTable ((q.onTable table).source c)) <$> program q c)
    (hs : q.selectStatement (program q) = .ok s) :
    q.IsFramed fun q => q.selectStatement (program q) := by
  let body (q : Query) (c : Scope) : Drafting String :=
    (fun select => select.toSql q.dialect.boundStyle) <$> program q c
  let style := q.dialect.boundStyle
  have hbody : ∀ table c, body (q.onTable table) c
      = (fun select => select.head style ++ (q.onTable table).source c ++ select.tail style)
        <$> program q c := by
    intro table c
    have hturned : body (q.onTable table) c
        = (fun select => select.toSql style) <$> program (q.onTable table) c := rfl
    rw [hturned, hprogram table c, Functor.map_map]
    exact congrArg (· <$> program q c) (funext fun select => select.toSql_onTable style _)
  exact isFramed_of_program (Select.breaks_tail style) hbody hs

/-! ### Selects of a query -/

theorem listSelect_onTable (top : Nat) (distinct random : Bool) (table : Option String)
    (c : Scope) :
    (q.onTable table).listSelect top distinct random c
      = (·.onTable ((q.onTable table).source c)) <$> q.listSelect top distinct random c := by
  rw [listSelect, listSelect, map_bind]
  refine bind_congr fun items => ?_
  rw [map_bind]
  refine bind_congr fun filter => ?_
  rcases random with _ | _
  · rw [if_neg Bool.false_ne_true, if_neg Bool.false_ne_true, map_bind]
    exact bind_congr fun order => (map_pure _ _).symm
  · rcases distinct with _ | _ <;> exact (map_pure _ _).symm

theorem pageSelect_onTable (size index : Nat) (distinct : Bool) (table : Option String)
    (c : Scope) :
    (q.onTable table).pageSelect size index distinct c
      = (·.onTable ((q.onTable table).source c)) <$> q.pageSelect size index distinct c := by
  rw [pageSelect, pageSelect, map_bind]
  refine bind_congr fun items => ?_
  rw [map_bind]
  refine bind_congr fun filter => ?_
  rw [map_bind]
  refine bind_congr fun order => ?_
  exact q.dialect.pageMethod.draft_onTable
    { source := q.source c, distinct, items, filter, order, size
      index := if index = 0 then 1 else index } _

theorem countSelect_onTable (distinct : Bool) (table : Option String) (c : Scope) :
    (q.onTable table).countSelect distinct c
      = (·.onTable ((q.onTable table).source c)) <$> q.countSelect distinct c := by
  rcases distinct with _ | _
  · rw [countSelect, countSelect, if_neg Bool.false_ne_true, if_neg Bool.false_ne_true, map_bind]
    exact bind_congr fun filter => (map_pure _ _).symm
  · rw [countSelect, countSelect, if_pos rfl, if_pos rfl, map_bind]
    refine bind_congr fun items => ?_
    rw [map_bind]
    exact bind_congr fun filter => (map_pure _ _).symm

/-! ### Statements of a query -/

theorem isFramed_list {top : Nat} {distinct random : Bool}
    (hs : q.list top distinct random = .ok s) :
    q.IsFramed fun q => q.list top distinct random :=
  isFramed_of_select (listSelect_onTable top distinct random) hs

theorem isFramed_page {size index : Nat} {distinct : Bool}
    (hs : q.page size index distinct = .ok s) :
    q.IsFramed fun q => q.page size index distinct := by
  by_cases hsize : size = 0
  · simp only [page, if_pos hsize] at hs ⊢
    exact isFramed_list hs
  · simp only [page, if_neg hsize] at hs ⊢
    exact isFramed_of_select (pageSelect_onTable size index distinct) hs

theorem isFramed_countOf {distinct : Bool} (hs : q.countOf distinct = .ok s) :
    q.IsFramed fun q => q.countOf distinct :=
  isFramed_of_select (countSelect_onTable distinct) hs

theorem isFramed_insert {entity : Record} (hs : q.insert entity = .ok s) :
    q.IsFramed fun q => q.insert entity := by
  let program (c : Scope) : Drafting InsertLists := do
    let lists ← c.insertLists entity
    if lists.isEmpty then throw .emptyInsert
    return lists
  have htail : ∀ lists : InsertLists, Breaks (" " ++ lists.toSql) :=
    fun lists => breaks_of_blank rfl lists.toSql
  have hbody : ∀ table c, (do
      let lists ← c.insertLists entity
      if lists.isEmpty then throw .emptyInsert
      return "INSERT INTO " ++ (q.onTable table).source c ++ " " ++ lists.toSql : Drafting String)
      = (fun lists => "INSERT INTO " ++ (q.onTable table).source c ++ (" " ++ lists.toSql))
        <$> program c := by
    intro table c
    rw [map_bind]
    refine bind_congr fun lists => ?_
    rcases lists.isEmpty with _ | _
    · exact congrArg pure String.append_assoc
    · rfl
  exact isFramed_of_program htail hbody hs

theorem breaks_whereText (filter : Option String) : Breaks (whereText filter) := by
  rcases filter with _ | filter
  · exact breaks_empty
  · exact breaks_of_blank rfl filter

/-- What follows the table of an update. -/
def settingText (assignments : String) (filter : Option String) : String :=
  " SET " ++ assignments ++ whereText filter

theorem breaks_settingText (u : String × Option String) : Breaks (settingText u.1 u.2) := by
  rw [settingText, String.append_assoc]
  exact breaks_of_blank rfl _

theorem updateText_eq (source assignments : String) (filter : Option String) :
    "UPDATE " ++ source ++ " SET " ++ assignments ++ whereText filter
      = "UPDATE " ++ source ++ settingText assignments filter := by
  simp only [settingText, String.append_assoc]

theorem isFramed_update {entity : Record} (hs : q.update entity = .ok s) :
    q.IsFramed fun q => q.update entity := by
  let program (c : Scope) : Drafting (String × Option String) := do
    let assignments ← c.entityAssignmentSql entity
    if assignments.isEmpty then throw .emptyUpdate
    let filter ← q.updateFilter entity c
    return (assignments, filter)
  have hbody : ∀ table c, (do
      let assignments ← c.entityAssignmentSql entity
      if assignments.isEmpty then throw .emptyUpdate
      let filter ← (q.onTable table).updateFilter entity c
      return "UPDATE " ++ (q.onTable table).source c ++ " SET " ++ assignments
        ++ whereText filter : Drafting String)
      = (fun u => "UPDATE " ++ (q.onTable table).source c ++ settingText u.1 u.2)
        <$> program c := by
    intro table c
    rw [map_bind]
    refine bind_congr fun assignments => ?_
    rcases assignments.isEmpty with _ | _
    · refine (bind_congr fun filter => ?_).trans (map_bind _ _ _).symm
      exact congrArg pure (updateText_eq _ assignments filter)
    · rfl
  exact isFramed_of_program breaks_settingText hbody hs

/-- The assignments and the filter of a partial update. -/
def updateParts (q : Query) (assignment : Expr) (c : Scope) :
    Drafting (String × Option String) := do
  match ← c.assignmentSql assignment with
  | none => throw .emptyUpdate
  | some assignments =>
    let filter ← q.filterText c
    return (assignments, filter)

theorem isFramed_updateBy {assignment : Expr} (hs : q.updateBy assignment = .ok s) :
    q.IsFramed fun q => q.updateBy assignment := by
  have hbody : ∀ table c, (do
      match ← c.assignmentSql assignment with
      | none => throw .emptyUpdate
      | some assignments =>
        let filter ← (q.onTable table).filterText c
        return "UPDATE " ++ (q.onTable table).source c ++ " SET " ++ assignments
          ++ whereText filter : Drafting String)
      = (fun u => "UPDATE " ++ (q.onTable table).source c ++ settingText u.1 u.2)
        <$> q.updateParts assignment c := by
    intro table c
    rw [updateParts, map_bind]
    refine bind_congr fun result => ?_
    rcases result with _ | assignments
    · rfl
    · refine (bind_congr fun filter => ?_).trans (map_bind _ _ _).symm
      exact congrArg pure (updateText_eq _ assignments filter)
  exact isFramed_of_program breaks_settingText hbody hs

theorem isFramed_delete (hs : q.delete = .ok s) : q.IsFramed fun q => q.delete := by
  have hbody : ∀ table c, (do
      let filter ← (q.onTable table).filterText c
      return "DELETE FROM " ++ (q.onTable table).source c ++ whereText filter : Drafting String)
      = (fun filter => "DELETE FROM " ++ (q.onTable table).source c ++ whereText filter)
        <$> q.filterText c := fun table c => rfl
  exact isFramed_of_program breaks_whereText hbody hs

/-! ### Operations -/

/-- An operation with one statement has one frame. -/
theorem exists_frame (run : Query → Except SqlError Statement) {ss : List Statement}
    (h : ∀ s, run q = .ok s → q.IsFramed run) (hss : (run q).map ([·]) = .ok ss) :
    ∃ frames : List Frame, (∀ f ∈ frames, Breaks f.after) ∧
      ∀ table, (run (q.onTable table)).map ([·])
        = .ok (frames.map (·.around (q.dialect.quote (q.onTable table).tableName))) := by
  rcases hrun : run q with e | s
  · rw [hrun] at hss
    cases hss
  · obtain ⟨f, hbreaks, hturned⟩ := h s hrun
    refine ⟨[f], List.forall_mem_singleton.mpr hbreaks, fun table => ?_⟩
    rw [hturned table]
    rfl

/-- The frames of an operation. -/
theorem exists_frames {op : TableOperation} {ss : List Statement}
    (hss : q.statements op = .ok ss) :
    ∃ frames : List Frame, (∀ f ∈ frames, Breaks f.after) ∧
      ∀ table, (q.onTable table).statements op
        = .ok (frames.map (·.around (q.dialect.quote (q.onTable table).tableName))) := by
  cases op with
  | list top distinct random =>
    exact exists_frame (fun q => q.list top distinct random) (fun _ => isFramed_list) hss
  | page size index distinct =>
    exact exists_frame (fun q => q.page size index distinct) (fun _ => isFramed_page) hss
  | countedPage size index distinct =>
    rw [statements, countedPage] at hss
    rcases hpage : q.page size index distinct with e | page
    · rw [hpage] at hss
      cases hss
    · rcases hcount : q.countOf distinct with e | count
      · rw [hpage, hcount] at hss
        cases hss
      · obtain ⟨f, hf, hpages⟩ := isFramed_page hpage
        obtain ⟨g, hg, hcounts⟩ := isFramed_countOf hcount
        refine ⟨[f, g], List.forall_mem_cons.mpr ⟨hf, List.forall_mem_singleton.mpr hg⟩, ?_⟩
        intro table
        have hpage := hpages table
        have hcount := hcounts table
        dsimp only at hpage hcount
        rw [statements, countedPage, hpage, hcount]
        rfl
  | count => exact exists_frame (fun q => q.countOf false) (fun _ => isFramed_countOf) hss
  | insert entity => exact exists_frame (fun q => q.insert entity) (fun _ => isFramed_insert) hss
  | update entity => exact exists_frame (fun q => q.update entity) (fun _ => isFramed_update) hss
  | updateBy assignment =>
    exact exists_frame (fun q => q.updateBy assignment) (fun _ => isFramed_updateBy) hss
  | delete => exact exists_frame (fun q => q.delete) (fun _ => isFramed_delete) hss

/-- **Quoted names are recovered.** Under a built-in dialect every name is read back from its
quotes, and what follows it is left, unless that begins with a closing quote. In the statements of
an operation this never happens to the table: each statement is a frame around the quoted table,
the same one for every table, and what follows the table begins with a blank or a closing
parenthesis, if there is anything. -/
theorem table_recovered (b : BuiltinDialect) :
    (∀ (name : String) (rest : List Char), (∀ tail, rest ≠ b.marks.closeQuote :: tail) →
      scanIdentifier b.marks ((b.dialect.quote name).toList ++ rest) = some (name, rest)) ∧
    ∀ {q : Query} {op : TableOperation} {ss : List Statement}, q.dialect = b.dialect →
      q.statements op = .ok ss → ∃ frames : List Frame,
        ss = frames.map (·.around (b.dialect.quote q.tableName)) ∧
        (∀ table, (q.onTable table).statements op
          = .ok (frames.map (·.around (b.dialect.quote (q.onTable table).tableName)))) ∧
        ∀ f ∈ frames, Breaks f.after ∧ ∀ name,
          scanIdentifier b.marks ((b.dialect.quote name).toList ++ f.after.toList)
            = some (name, f.after.toList) := by
  constructor
  · intro name rest hrest
    exact scanIdentifier_quote b.quotesBy name hrest
  · intro q op ss hq hss
    obtain ⟨frames, hbreaks, hturned⟩ := exists_frames hss
    rw [hq] at hturned
    have hstart : q.statements op = .ok (frames.map (·.around (b.dialect.quote q.tableName))) :=
      hturned q.table
    refine ⟨frames, Except.ok.inj (hss.symm.trans hstart), hturned, fun f hf => ?_⟩
    have hafter := hbreaks f hf
    exact ⟨hafter, fun name => scanIdentifier_quote b.quotesBy name (hafter.ne_closeQuote b)⟩

end Query

/-- Notes in a table whose name begins and ends with a closing bracket, and holds two. -/
def bracketedNotes : Query where
  dialect := .sqlServer2000
  entity :=
    { typeName := "Note", table := "notes"
      members := [.key "Id", .column "Body" "body"] }
  table := some "]a]]b]"

/-- A later page reads the table in a derived one, and its name is read back there. -/
theorem table_recovered_bracketedNotes :
    ∃ f : Frame,
      bracketedNotes.page 2 2 false = .ok (f.around "[]]a]]]]b]]]") ∧
      scanIdentifier BuiltinDialect.sqlServer2000.marks ("[]]a]]]]b]]]".toList ++ f.after.toList)
        = some ("]a]]b]", f.after.toList) := by
  obtain ⟨s, hpage⟩ : ∃ s, bracketedNotes.page 2 2 false = .ok s := ⟨_, rfl⟩
  have hss : bracketedNotes.statements (.page 2 2 false) = .ok [s] :=
    congrArg (·.map ([·])) hpage
  obtain ⟨frames, hframes, -, hafter⟩ :=
    (Query.table_recovered .sqlServer2000).2 (rfl : bracketedNotes.dialect = _) hss
  obtain ⟨f, hlist, rfl⟩ := List.map_eq_singleton_iff.mp hframes.symm
  have hquote : BuiltinDialect.sqlServer2000.dialect.quote bracketedNotes.tableName
      = "[]]a]]]]b]]]" := by decide
  rw [hquote] at hpage
  have hscan := (hafter f (hlist ▸ List.mem_singleton_self f)).2 bracketedNotes.tableName
  rw [hquote] at hscan
  exact ⟨f, hpage, hscan⟩

end EntitySql
