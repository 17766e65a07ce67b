import EntitySql.Page
import EntitySql.Proofs.Reading.Clauses
import EntitySql.Proofs.SelectAnswers

/-!
# Selects from their text

A select is read back from its text alone: the clauses say a body, and a source in parentheses is
read in the same way (`Select.IsReading`). A text has at most one reading.

The main statement, `Select.IsLegible.isReadFrom`, says that the text of a select has a reading if
the texts of which the select is made are fragments of a statement (`Select.IsLegible`). It is the
select as far as it is written (`Select.shown`). What is not written does not matter: the names
under which ordered columns could be carried, the difference between an empty select list and `*`,
and an offset of zero. So a reading has the rows of the select, counts what it counts, and may give
the same answers (`Select.Agrees`).

Pages, by an offset or by reversal, are legible if what they are cut from is
(`PageSpec.IsLegible.page`).
-/

namespace EntitySql

/-! ### Readings -/

/-- What the text of a select says. A source is a name, or a select in parentheses with a label. -/
inductive Select.IsReading (k : Marks) (style : BoundStyle) : String → Select → Prop where
  | table {text source : String} {ws : List String} {body : SelectBody} :
    HasWords k (" " ++ text) ws → (SelectWords.ofWords ws).source = some [source] →
    (SelectWords.ofWords ws).body? style = some body → IsReading k style text (.table source body)
  | derived {text inner label : String} {ws : List String} {s : Select} {body : SelectBody} :
    HasWords k (" " ++ text) ws →
    (SelectWords.ofWords ws).source = some ["(" ++ inner ++ ")", label] →
    (SelectWords.ofWords ws).body? style = some body → IsReading k style inner s →
    IsReading k style text (.derived s label body)

theorem Select.IsReading.exists_words {k : Marks} {style : BoundStyle} {text : String} {s : Select}
    (h : IsReading k style text s) : ∃ ws, HasWords k (" " ++ text) ws := by
  cases h with
  | table hws => exact ⟨_, hws⟩
  | derived hws => exact ⟨_, hws⟩

/-- A text has at most one reading. -/
theorem Select.IsReading.unique {k : Marks} (hk : k.QuotesWords) {style : BoundStyle}
    {text : String} {s s' : Select} (h : IsReading k style text s)
    (h' : IsReading k style text s') : s = s' := by
  induction h generalizing s' with
  | table hws hsource hbody =>
    cases h' with
    | table hws' hsource' hbody' =>
      obtain rfl := hws.unique hk hws'
      obtain ⟨rfl, -⟩ := List.cons.inj (Option.some.inj (hsource.symm.trans hsource'))
      obtain rfl := Option.some.inj (hbody.symm.trans hbody')
      rfl
    | derived hws' hsource' hbody' hinner' =>
      obtain rfl := hws.unique hk hws'
      cases hsource.symm.trans hsource'
  | derived hws hsource hbody hinner ih =>
    cases h' with
    | table hws' hsource' hbody' =>
      obtain rfl := hws.unique hk hws'
      cases hsource.symm.trans hsource'
    | derived hws' hsource' hbody' hinner' =>
      obtain rfl := hws.unique hk hws'
      obtain ⟨htext, hlabel⟩ := List.cons.inj (Option.some.inj (hsource.symm.trans hsource'))
      obtain ⟨rfl, -⟩ := List.cons.inj hlabel
      have hinner_eq := String.append_left_inj ")" |>.mp htext
      obtain rfl := String.append_right_inj "(" |>.mp hinner_eq
      obtain rfl := Option.some.inj (hbody.symm.trans hbody')
      rw [ih hinner']

/-! ### What is written of a select -/

/-- The select as far as it is written. -/
def Select.shown : Select → Select
  | .table source body => .table source body.shown
  | .derived inner label body => .derived inner.shown label body.shown

/-- Both selects have the same rows, count the same, and may give the same answers. -/
structure Select.Agrees (r s : Select) : Prop where
  rows : ∀ {V : Type} [DecidableEq V] (E : Evaluator V) (tables : String → Table V),
    r.rows E tables = s.rows E tables
  number? : ∀ {V : Type} [DecidableEq V] (E : Evaluator V) (tables : String → Table V) (n : Nat),
    s.number? E tables = some n → r.number? E tables = some n
  mayGive_iff : ∀ {V : Type} [DecidableEq V] (E : Evaluator V) (random : String)
    (tables : String → Table V) (draws : Nat → Nat → V) (answer : List (Tuple V)),
    r.MayGive E random tables draws answer ↔ s.MayGive E random tables draws answer

section Shown

variable {V : Type} {E : Evaluator V}

namespace SelectBody

variable (b : SelectBody) {source answer : List (Tuple V)}

theorem projectBy_shown : projectBy E b.shown.columns = projectBy E b.columns := by
  funext row
  cases hcolumns : b.columns with
  | nil => simp [shown, projectBy, hcolumns, SelectColumn.cells]
  | cons column columns => simp [shown, hcolumns]

theorem before_shown : E.Before b.shown.order = E.Before b.order := by
  have hcompare : ∀ order, E.compareRows (order.map (·.shown)) = E.compareRows order := by
    intro order
    induction order with
    | nil => rfl
    | cons i is ih =>
      rw [List.map_cons, Evaluator.compareRows, Evaluator.compareRows, ih]
      rfl
  funext r r'
  rw [shown, Evaluator.Before, hcompare, Evaluator.Before]

theorem window_shown (rows : List (Tuple V)) : b.shown.window rows = b.window rows := by
  have hoffset : b.shown.offset.getD 0 = b.offset.getD 0 := by
    rw [shown, RowBounds.offset?, bounds]
    dsimp only
    split
    · next hzero => exact hzero.symm
    · rfl
  rw [window, hoffset]
  rfl

theorem number?_shown {n : Nat} (h : b.number? E source = some n) :
    b.shown.number? E source = some n := by
  rw [number?] at h
  split at h
  · next hcount =>
    have hshown : b.shown = { columns := [.expr Query.countColumn none], filter := b.filter } := by
      rw [hcount]
      rfl
    exact (if_pos hshown).trans h
  · cases h

variable [DecidableEq V]

theorem kept_shown : b.shown.kept E source = b.kept E source := by
  rw [kept, projectBy_shown]
  rfl

theorem rows_shown : b.shown.rows E source = b.rows E source := by
  have hsorted : b.shown.sorted E source = b.sorted E source := by
    rw [sorted, kept_shown, sorted]
    -- the instances that decide the two orders are equal with the orders
    have hbefore : E.Before b.shown.order = E.Before b.order := b.before_shown
    congr!
  rw [rows, hsorted, window_shown, projectBy_shown, rows]

theorem mayGiveDrawn_shown {random : String} {draw : Nat → V} :
    b.shown.MayGiveDrawn E random draw source answer ↔
      b.MayGiveDrawn E random draw source answer := by
  have hkeys : E.sortKeys random draw b.shown.order = E.sortKeys random draw b.order := by
    funext row
    rw [Evaluator.sortKeys, shown, List.map_map]
    rfl
  simp only [MayGiveDrawn, kept_shown, before_shown, window_shown, projectBy_shown, hkeys]

end SelectBody

namespace Select

variable [DecidableEq V] {select : Select} {tables : String → Table V}

theorem rows_shown (s : Select) : s.shown.rows E tables = s.rows E tables := by
  induction s with
  | table source body => exact body.rows_shown
  | derived inner label body ih => rw [shown, rows, ih, rows, SelectBody.rows_shown]

theorem number?_shown {n : Nat} (h : select.number? E tables = some n) :
    select.shown.number? E tables = some n := by
  cases select with
  | table source body => exact body.number?_shown h
  | derived inner label body =>
    rw [shown, number?, rows_shown]
    exact body.number?_shown h

theorem mayGive_shown {random : String} {draws : Nat → Nat → V} {answer : List (Tuple V)} :
    select.shown.MayGive E random tables draws answer ↔
      select.MayGive E random tables draws answer := by
  induction select generalizing draws answer with
  | table source body => exact body.mayGiveDrawn_shown
  | derived inner label body ih =>
    simp only [shown, MayGive, ih, SelectBody.mayGiveDrawn_shown]

/-- What is not written of a select does not matter. -/
theorem agrees_shown (s : Select) : s.shown.Agrees s where
  rows _ _ := s.rows_shown
  number? _ _ _ := number?_shown
  mayGive_iff _ _ _ _ _ := mayGive_shown

end Select

end Shown

/-! ### Legible selects -/

/-- The texts of the select are fragments, and its names are words. -/
inductive Select.IsLegible (k : Marks) : Select → Prop where
  | table {source : String} {body : SelectBody} :
    IsName k source → body.IsLegible k → IsLegible k (.table source body)
  | derived {inner : Select} {label : String} {body : SelectBody} :
    IsLegible k inner → IsName k label → body.IsLegible k →
    IsLegible k (.derived inner label body)

/-- The text has one reading, which is the select as far as it is written, and agrees with it. -/
structure Select.IsReadFrom (k : Marks) (style : BoundStyle) (text : String) (s : Select) :
    Prop where
  reading_iff : ∀ r, IsReading k style text r ↔ r = s.shown
  agrees : s.shown.Agrees s

/-- The text of a select whose texts are fragments says the select as far as it is written. -/
theorem Select.isReading_toSql {k : Marks} (hk : k.QuotesWords) {s : Select} (h : s.IsLegible k)
    (style : BoundStyle) : IsReading k style (s.toSql style) s.shown := by
  induction h with
  | table hsource hbody =>
    obtain ⟨clauses, hlegible, hwords, htext, hread⟩ := hbody.exists_clauses hk style
      (.word hk hsource.word)
      (List.forall_mem_singleton.mpr (startsClause_of_not_mem (of_isReserved hsource.free).2.2))
    refine .table htext ?_ ?_
    · rw [SelectWords.ofWords_words hlegible, hwords]
    · rw [SelectWords.ofWords_words hlegible, hread]
  | @derived inner label body hinner hlabel hbody ih =>
    obtain ⟨ws, hws⟩ := ih.exists_words
    have hparen : ("(" ++ inner.toSql style ++ ")").toList
        = '(' :: ((inner.toSql style).toList ++ [')']) := by simp
    have hrows : IsName k ("(" ++ inner.toSql style ++ ")") :=
      isName_of_toList (hws.isWord_paren hk) hparen (by decide)
    have hsource : HasWords k (" " ++ ("(" ++ inner.toSql style ++ ") " ++ label))
        ["(" ++ inner.toSql style ++ ")", label] :=
      ((HasWords.word hk hrows.word).append (.word hk hlabel.word)).of_toList (by simp)
    obtain ⟨clauses, hlegible, hwords, htext, hread⟩ := hbody.exists_clauses hk style hsource
      (List.forall_mem_cons.mpr ⟨startsClause_of_not_mem (of_isReserved hrows.free).2.2,
        List.forall_mem_singleton.mpr (startsClause_of_not_mem (of_isReserved hlabel.free).2.2)⟩)
    refine .derived htext ?_ ?_ ih
    · rw [SelectWords.ofWords_words hlegible, hwords]
    · rw [SelectWords.ofWords_words hlegible, hread]

/-- **A select is read back from its text**, if the texts of which it is made are fragments of a
statement. -/
theorem Select.IsLegible.isReadFrom {k : Marks} (hk : k.QuotesWords) {s : Select}
    (h : s.IsLegible k) (style : BoundStyle) : s.IsReadFrom k style (s.toSql style) where
  reading_iff _ :=
    ⟨fun hr => hr.unique hk (isReading_toSql hk h style),
      fun heq => heq ▸ isReading_toSql hk h style⟩
  agrees := s.agrees_shown

/-! ### Columns -/

/-- The texts of a column: an expression, and the name under which it is seen. -/
structure IsLegibleColumn (k : Marks) (expr output : String) : Prop where
  fragment : IsFragment k expr
  single : expr ≠ "*"
  name : IsName k output

section Columns

variable {k : Marks}

theorem SelectColumn.isLegible_unlabeled {expr : String} (h : IsFragment k expr)
    (hsingle : expr ≠ "*") : (SelectColumn.expr expr none).IsLegible k :=
  ⟨h, hsingle, nofun⟩

/-- An output is a column on its own. -/
theorem IsName.isLegible_column (hk : k.QuotesWords) {name : String} (h : IsName k name) :
    (SelectColumn.expr name none).IsLegible k :=
  SelectColumn.isLegible_unlabeled (h.isFragment hk) h.single

/-- A body that has a select list alone. -/
theorem SelectBody.isLegible_of_columns {columns : List SelectColumn}
    (h : ∀ column ∈ columns, column.IsLegible k) : ({ columns } : SelectBody).IsLegible k :=
  ⟨h, nofun, nofun⟩

theorem SelectItem.isLegible_column {i : SelectItem} (h : IsLegibleColumn k i.expr i.output) :
    i.column.IsLegible k := by
  refine ⟨h.fragment, h.single, fun label hlabel => ?_⟩
  have houtput : i.output = label := by
    rw [SelectItem.output, Option.mem_def.mp hlabel, Option.getD_some]
  exact houtput ▸ h.name

theorem OrderItem.isLegible_carriedColumn {i : OrderItem}
    (h : IsLegibleColumn k i.expr i.output) : i.carriedColumn.IsLegible k := by
  refine ⟨h.fragment, h.single, fun label hlabel => ?_⟩
  split at hlabel
  · cases hlabel
  · exact Option.mem_some_iff.mp hlabel ▸ h.name

end Columns

/-! ### Pages -/

namespace PageSpec

variable {k : Marks} {p : PageSpec}

/-- What the page is cut from is made of fragments. -/
structure IsLegible (k : Marks) (p : PageSpec) : Prop where
  source : IsName k p.source
  items : ∀ i ∈ p.items, IsLegibleColumn k i.expr i.output
  filter : ∀ text ∈ p.filter, IsFragment k text
  order : ∀ i ∈ p.order, IsLegibleColumn k i.expr i.output

theorem IsLegible.body (h : p.IsLegible k) : p.body.IsLegible k where
  columns column hcolumn := by
    obtain ⟨i, hi, rfl⟩ := List.mem_map.mp hcolumn
    exact SelectItem.isLegible_column (h.items i hi)
  filter := h.filter
  order i hi := (h.order i hi).fragment

theorem IsLegible.first (h : p.IsLegible k) : p.first.IsLegible k :=
  .table h.source ⟨h.body.columns, h.body.filter, h.body.order⟩

theorem IsLegible.byOffset (h : p.IsLegible k) {s : Select} (hs : p.byOffset = .ok s) :
    s.IsLegible k := by
  obtain ⟨-, rfl⟩ | ⟨-, skipped, -, rfl⟩ := byOffset_cases hs
  · exact h.first
  · exact .table h.source ⟨h.body.columns, h.body.filter, h.body.order⟩

theorem IsLegible.byReversal (hk : k.QuotesWords) (h : p.IsLegible k) {s : Select}
    (hs : p.byReversal = .ok s) : s.IsLegible k := by
  obtain ⟨-, rfl⟩ | ⟨-, window, columns, -, hcarried, rfl⟩ := byReversal_cases hs
  · exact h.first
  · have hinner : (p.innermost columns window).IsLegible k := by
      refine .table h.source ⟨fun column hcolumn => ?_, h.body.filter, h.body.order⟩
      obtain rfl | ⟨i, hi, rfl⟩ | hcolumn := mem_innerColumns hcolumn
      · exact trivial
      · exact SelectItem.isLegible_column (h.items i hi)
      · obtain ⟨i, hi, rfl⟩ := exists_of_mem_carried hcarried column hcolumn
        exact OrderItem.isLegible_carriedColumn (h.order i hi)
    -- the outer selects hold names only
    have houtput : ∀ f : OrderItem → OrderItem, (∀ i, (f i).expr = i.output) →
        ∀ o ∈ p.order.map f, IsFragment k o.expr := by
      intro f hf o ho
      obtain ⟨i, hi, rfl⟩ := List.mem_map.mp ho
      exact hf i ▸ (h.order i hi).name.isFragment hk
    have hmiddle : (p.reversed (p.innermost columns window)).IsLegible k :=
      .derived hinner (isName_of_isOrdinary hk rfl rfl (by decide))
        ⟨nofun, nofun, houtput _ fun _ => rfl⟩
    refine .derived hmiddle (isName_of_isOrdinary hk rfl rfl (by decide))
      ⟨fun column hcolumn => ?_, nofun, houtput _ fun _ => rfl⟩
    obtain ⟨i, hi, rfl⟩ := List.mem_map.mp hcolumn
    exact (h.items i hi).name.isLegible_column hk

theorem IsLegible.page (hk : k.QuotesWords) (h : p.IsLegible k) {method : PageMethod} {s : Select}
    (hs : method.page p = .ok s) : s.IsLegible k := by
  cases method with
  | offset => exact h.byOffset hs
  | reversal => exact h.byReversal hk hs

end PageSpec

end EntitySql
