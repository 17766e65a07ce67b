import EntitySql.Proofs.Reading.Select

/-!
# The rows of a page

A page that is cut by reversal and the page that an offset cuts, in the list meaning of selects.
The main statement, `byReversal_rows`, is for orderings that are total on the rows of the result
(`PageSpec.IsTotal`): a page cut by reversal has the last rows, as many as the page has, of the
rows up to its end. Away from a partial last page these are the rows that the offset leaves.

Reversal sorts the rows of the source once, and then sorts derived rows that have other columns.
Two facts bring the three sorts together. The order of derived rows is the order of the rows they
come from, because the innermost select exports every item of the ordering
(`PageSpec.IsRestorable`). Sorting the last rows of a sorted list back and forth does not change
what is seen of them, because rows that may stand either way look alike
(`map_sort_take_sort`).
-/

namespace EntitySql

/-! ### Sorting a window back and forth -/

section SortedWindow

variable {α β : Type} {r : α → α → Prop} {f : α → β}

/-- Two sorted arrangements of the same items look alike if items that may stand either way look
alike. -/
theorem map_eq_of_perm_of_sorted {l l' : List α} (hperm : l.Perm l') (hl : l.Pairwise r)
    (hl' : l'.Pairwise r) (tie : ∀ a ∈ l, ∀ b ∈ l, r a b → r b a → f a = f b) :
    l.map f = l'.map f := by
  induction l generalizing l' with
  | nil => rw [hperm.nil_eq]
  | cons a t ih =>
    obtain ⟨front, back, rfl⟩ := List.append_of_mem (hperm.subset List.mem_cons_self)
    have hrest : t.Perm (front ++ back) := (hperm.trans List.perm_middle).cons_inv
    have hsorted : (front ++ back).Pairwise r :=
      hl'.sublist ((List.sublist_cons_self a back).append_left front)
    have htail : ∀ x ∈ t, ∀ y ∈ t, r x y → r y x → f x = f y := fun x hx y hy =>
      tie x (List.mem_cons_of_mem a hx) y (List.mem_cons_of_mem a hy)
    -- what stands before `a` in one list and after it in the other looks like `a`
    have hfront : ∀ x ∈ front, f x = f a := by
      intro x hx
      have hxa : r x a := (List.pairwise_append.mp hl').2.2 x hx a List.mem_cons_self
      have hxt : x ∈ t := hrest.symm.subset (List.mem_append_left back hx)
      have hax : r a x := (List.pairwise_cons.mp hl).1 x hxt
      exact tie x (List.mem_cons_of_mem a hxt) a List.mem_cons_self hxa hax
    have hreplicate : front.map f = List.replicate front.length (f a) :=
      List.eq_replicate_iff.mpr ⟨List.length_map f, List.forall_mem_map.mpr hfront⟩
    rw [List.map_cons, ih hrest (List.pairwise_cons.mp hl).2 hsorted htail, List.map_append,
      List.map_append, List.map_cons, hreplicate, ← List.cons_append, ← List.replicate_succ,
      List.replicate_succ', List.append_assoc, List.singleton_append]

/-- The first items of a sorted list in reverse, sorted back again, look like its last items. -/
theorem map_sort_take_sort {r' : α → α → Prop} [DecidableRel r] [DecidableRel r'] [Std.Total r]
    [Std.Total r'] [IsTrans α r] [IsTrans α r'] (hflip : ∀ a b, r' a b ↔ r b a) {l : List α}
    (hl : l.Pairwise r) (tie : ∀ a ∈ l, ∀ b ∈ l, r a b → r b a → f a = f b) (n : Nat) :
    (((l.insertionSort r').take n).insertionSort r).map f = (l.map f).rtake n := by
  have hperm : (l.insertionSort r').Perm l := List.perm_insertionSort r' l
  have hreversed : (l.insertionSort r').map f = l.reverse.map f := by
    refine map_eq_of_perm_of_sorted (hperm.trans l.reverse_perm.symm)
      (List.pairwise_insertionSort r' l) ?_ ?_
    · exact List.pairwise_reverse.mpr (hl.imp fun h => (hflip _ _).mpr h)
    · intro a ha b hb hab hba
      exact tie a (hperm.subset ha) b (hperm.subset hb) ((hflip _ _).mp hba) ((hflip _ _).mp hab)
  have hmem : ∀ a ∈ (l.insertionSort r').take n, a ∈ l := fun a ha =>
    hperm.subset (List.mem_of_mem_take ha)
  have hrestored : (((l.insertionSort r').take n).insertionSort r).map f =
      ((l.insertionSort r').take n).reverse.map f := by
    have hback := List.perm_insertionSort r ((l.insertionSort r').take n)
    refine map_eq_of_perm_of_sorted (hback.trans (List.reverse_perm _).symm)
      (List.pairwise_insertionSort r _) ?_ ?_
    · have hsorted := (List.pairwise_insertionSort r' l).sublist (List.take_sublist n _)
      exact List.pairwise_reverse.mpr (hsorted.imp fun h => (hflip _ _).mp h)
    · intro a ha b hb hab hba
      exact tie a (hmem a (hback.subset ha)) b (hmem b (hback.subset hb)) hab hba
  rw [hrestored, List.map_reverse, List.map_take, hreversed, List.map_reverse,
    List.rtake_eq_reverse_take_reverse]

end SortedWindow

/-! ### The columns of a page -/

namespace PageSpec

variable {V : Type} {p : PageSpec} {columns : List String} {carried : List SelectColumn}

/-- The columns of a row that are selected: those of the table if nothing is selected by name. -/
def seen (p : PageSpec) (columns : List String) (row : Tuple V) : Tuple V :=
  if p.items.isEmpty then row.filter fun cell => cell.1 ∈ columns else row

/-- The innermost select exports every item of the ordering under its output name, and no name
twice. -/
def IsRestorable (p : PageSpec) (columns : List String) : Prop :=
  ∀ carried, p.carried p.order (p.items.map (·.output)) = .ok carried →
    ((exportsOf columns (p.innerColumns carried)).map Prod.fst).Nodup ∧
      ∀ i ∈ p.order, (i.output, i.expr) ∈ exportsOf columns (p.innerColumns carried)

/-- Nothing is carried on a distinct page over a select list. -/
theorem carried_of_distinct (hdistinct : p.distinct = true) (hitems : p.items.isEmpty = false)
    {order : List OrderItem} {outputs : List String} (h : p.carried order outputs = .ok carried) :
    carried = [] := by
  induction order generalizing outputs carried with
  | nil =>
    cases h
    rfl
  | cons i is ih =>
    rw [PageSpec.carried] at h
    split at h
    · exact ih h
    · rw [hdistinct, hitems] at h
      cases h

/-- The innermost select exports the selected columns and those that are carried. -/
theorem exportsOf_innerColumns :
    exportsOf columns (p.innerColumns carried)
      = exportsOf columns p.body.columns ++ carried.flatMap (·.exports columns) := by
  cases hitems : p.items with
  | nil =>
    cases carried with
    | nil => simp [innerColumns, exportsOf, body, hitems]
    | cons c cs => simp [innerColumns, exportsOf, body, hitems, SelectColumn.exports]
  | cons i is => simp [innerColumns, exportsOf, body, hitems]

/-- The export of every item of a select list. -/
theorem mem_exportsOf_body {i : SelectItem} (hi : i ∈ p.items) :
    (i.output, i.expr) ∈ exportsOf columns p.body.columns := by
  have hne : p.body.columns.isEmpty = false := by
    cases hitems : p.items with
    | nil => simp [hitems] at hi
    | cons j js => simp [body, hitems]
  rw [exportsOf, hne]
  refine List.mem_flatMap.mpr ⟨i.column, List.mem_map_of_mem hi, ?_⟩
  exact List.mem_singleton.mpr rfl

variable {E : Evaluator V} {row : Tuple V}

/-- What is seen of a row that was carried through the derived tables is the selected part of the
row it comes from. -/
theorem seen_restored (hnodup : columns.Nodup) (hshape : row.map Prod.fst = columns)
    (hnames : ((exportsOf columns (p.innerColumns carried)).map Prod.fst).Nodup) :
    p.seen columns (projectBy E (p.items.map fun i => .expr i.output none)
        (projectBy E (p.innerColumns carried) row))
      = projectBy E p.body.columns row := by
  by_cases hitems : p.items = []
  -- nothing is selected by name: the carried columns follow those of the table under new names,
  -- and are dropped again
  · have hbody : projectBy E p.body.columns row = row := by simp [projectBy, body, hitems]
    have hinner : projectBy E (p.innerColumns carried) row
        = row ++ (carried.flatMap (·.exports columns)).map fun e => (e.1, E.value row e.2) := by
      rw [projectBy_eq_exports hnodup hshape, exportsOf_innerColumns, List.map_append,
        ← projectBy_eq_exports hnodup hshape, hbody]
    have hnew : ∀ e ∈ carried.flatMap (·.exports columns), e.1 ∉ columns := by
      have hexports : (exportsOf columns p.body.columns).map Prod.fst = columns := by
        simp [exportsOf, body, hitems, Function.comp_def]
      rw [exportsOf_innerColumns, List.map_append, hexports] at hnames
      intro e he hmem
      exact (List.nodup_append.mp hnames).2.2 e.1 hmem e.1 (List.mem_map_of_mem he) rfl
    have hold : ∀ cell ∈ row, cell.1 ∈ columns := by
      intro cell hcell
      rw [← hshape]
      exact List.mem_map_of_mem hcell
    have hkept : row.filter (fun cell => cell.1 ∈ columns) = row :=
      List.filter_eq_self.mpr fun cell hcell => decide_eq_true (hold cell hcell)
    rw [hbody, hinner, seen, hitems, List.map_nil, projectBy, List.isEmpty_nil, List.isEmpty_nil,
      if_pos rfl, if_pos rfl, List.filter_append, hkept, List.filter_eq_nil_iff.mpr,
      List.append_nil]
    intro cell hcell
    obtain ⟨e, he, rfl⟩ := List.mem_map.mp hcell
    simpa using hnew e he
  -- a select list: the outermost select reads each output back under its name
  · have hvalue : ∀ i ∈ p.items,
        E.value (projectBy E (p.innerColumns carried) row) i.output = E.value row i.expr := by
      intro i hi
      refine value_projectBy hnodup hshape hnames ?_
      rw [exportsOf_innerColumns]
      exact List.mem_append_left _ (mem_exportsOf_body hi)
    have hseen : ∀ q : Tuple V, p.seen columns q = q := fun q => if_neg (by simpa using hitems)
    have hbody : projectBy E p.body.columns row
        = p.items.map fun i => (i.output, E.value row i.expr) :=
      projectBy_map_expr hitems _ _
    rw [hseen, hbody, projectBy_map_expr hitems]
    exact List.map_congr_left fun i hi => by rw [hvalue i hi]; rfl

/-! ### The three sorts -/

/-- The order of derived rows on the outputs of the items is the order of the rows they come
from. -/
theorem before_onOutput {order : List OrderItem} {q q' r r' : Tuple V}
    (h : ∀ i ∈ order, E.value q i.output = E.value r i.expr)
    (h' : ∀ i ∈ order, E.value q' i.output = E.value r' i.expr) :
    E.Before (order.map (·.onOutput)) q q' ↔ E.Before order r r' := by
  have hcompare : E.compareRows (order.map (·.onOutput)) q q' = E.compareRows order r r' := by
    refine E.compareRows_congr ?_
    rw [List.forall₂_map_left_iff, List.forall₂_same]
    exact fun i hi => ⟨rfl, h i hi, h' i hi⟩
  rw [Evaluator.Before, hcompare, Evaluator.Before]

variable [DecidableEq V] {tables : String → Table V} {sel : Select}

/-- Rows of the result that are equal in every item of the ordering are equal. -/
def IsTotal (p : PageSpec) (E : Evaluator V) (rows : List (Tuple V)) : Prop :=
  ∀ r ∈ p.body.kept E rows, ∀ r' ∈ p.body.kept E rows,
    (∀ i ∈ p.order, E.compare (E.value r i.expr) (E.value r' i.expr) = .eq) →
      projectBy E p.body.columns r = projectBy E p.body.columns r'

/-- The carried columns do not change which rows the innermost select keeps. -/
theorem kept_innerColumns {T : Table V}
    (h : p.carried p.order (p.items.map (·.output)) = .ok carried)
    (hnames : ((exportsOf T.columns (p.innerColumns carried)).map Prod.fst).Nodup) :
    ({ p.body with columns := p.innerColumns carried } : SelectBody).kept E T.rows
      = p.body.kept E T.rows := by
  -- only a distinct select looks at its columns
  refine SelectBody.kept_columns_congr fun hdistinct r hr r' hr' => ⟨fun heq => ?_, fun heq => ?_⟩
  · have hseen := congrArg (fun q => p.seen T.columns
      (projectBy E (p.items.map fun i => .expr i.output none) q)) heq
    rwa [seen_restored T.nodup (T.shape r hr) hnames,
      seen_restored T.nodup (T.shape r' hr') hnames] at hseen
  · cases hitems : p.items.isEmpty with
    | false =>
      -- over a select list nothing is carried, so both selects have the same columns
      obtain rfl := carried_of_distinct hdistinct hitems h
      simpa [innerColumns, hitems, body] using heq
    | true =>
      have hrows : r = r' := by
        simpa [projectBy, body, List.isEmpty_iff.mp hitems] using heq
      rw [hrows]

/-- The rows of the innermost select. -/
theorem rows_innermost {window : Nat}
    (h : p.carried p.order (p.items.map (·.output)) = .ok carried)
    (hnames : ((exportsOf (tables p.source).columns (p.innerColumns carried)).map Prod.fst).Nodup) :
    (p.innermost carried window).rows E tables
      = ((p.body.sorted E (tables p.source).rows).take window).map
          (projectBy E (p.innerColumns carried)) := by
  have hkept := kept_innerColumns (E := E) h hnames
  have hsorted : ({ p.body with
      columns := p.innerColumns carried, limit := some window } : SelectBody).sorted E
        (tables p.source).rows = p.body.sorted E (tables p.source).rows :=
    congrArg (fun rows => rows.insertionSort (E.Before p.order)) hkept
  rw [innermost, Select.rows, SelectBody.rows, hsorted]
  rfl

/-- The rows of the middle select. -/
theorem rows_reversed :
    (p.reversed sel).rows E tables
      = ((sel.rows E tables).insertionSort
          (E.Before (p.order.map fun i => i.onOutput.flipped))).take p.size := by
  have hid : projectBy E [] = (id : Tuple V → Tuple V) := rfl
  rw [reversed, Select.rows, SelectBody.rows, hid, List.map_id]
  rfl

/-- The rows of the outermost select. -/
theorem rows_restored :
    (p.restored sel).rows E tables
      = ((sel.rows E tables).insertionSort (E.Before (p.order.map (·.onOutput)))).map
          (projectBy E (p.items.map fun i => .expr i.output none)) :=
  rfl

/-- Among the rows that are kept, those that may stand either way look alike. -/
theorem IsTotal.projectBy_eq {rows : List (Tuple V)} (htotal : p.IsTotal E rows) {r r' : Tuple V}
    (hr : r ∈ p.body.sorted E rows) (hr' : r' ∈ p.body.sorted E rows)
    (hrr : E.Before p.order r r') (hrr' : E.Before p.order r' r) :
    projectBy E p.body.columns r = projectBy E p.body.columns r' := by
  have hkept : ∀ x ∈ p.body.sorted E rows, x ∈ p.body.kept E rows := fun x hx =>
    (List.perm_insertionSort _ _).subset hx
  exact htotal r (hkept r hr) r' (hkept r' hr') (E.compareRows_eq_eq.mp (hrr.antisymm _ hrr'))

/-- The two outer selects, over derived rows in the order of the rows they come from, are two
sorts of these rows. -/
theorem rows_restored_of_carry {L : List (Tuple V)} {carry : Tuple V → Tuple V}
    (hrows : sel.rows E tables = L.map carry)
    (hvalue : ∀ r ∈ L, ∀ i ∈ p.order, E.value (carry r) i.output = E.value r i.expr) :
    (p.restored (p.reversed sel)).rows E tables
      = (((L.insertionSort (E.Before (p.order.map (·.flipped)))).take p.size).insertionSort
          (E.Before p.order)).map fun r =>
            projectBy E (p.items.map fun i => .expr i.output none) (carry r) := by
  have hbefore : ∀ r ∈ L, ∀ r' ∈ L,
      E.Before p.order r r' ↔ E.Before (p.order.map (·.onOutput)) (carry r) (carry r') :=
    fun r hr r' hr' => (before_onOutput (hvalue r hr) (hvalue r' hr')).symm
  have hmap : (p.order.map fun i => i.onOutput.flipped)
      = (p.order.map (·.onOutput)).map (·.flipped) := by
    rw [List.map_map]
    rfl
  have hafter : ∀ r ∈ L, ∀ r' ∈ L, E.Before (p.order.map (·.flipped)) r r' ↔
      E.Before (p.order.map fun i => i.onOutput.flipped) (carry r) (carry r') := by
    intro r hr r' hr'
    rw [Evaluator.before_flipped, hbefore r' hr' r hr, hmap, Evaluator.before_flipped]
  -- the second sort only sees rows that the first one was given
  have hpage : ∀ r ∈ (L.insertionSort (E.Before (p.order.map (·.flipped)))).take p.size, r ∈ L :=
    fun r hr => (List.perm_insertionSort _ L).subset (List.mem_of_mem_take hr)
  rw [rows_restored, rows_reversed, hrows, ← List.map_insertionSort _ _ carry L hafter,
    ← List.map_take, ← List.map_insertionSort _ _ carry _ fun r hr r' hr' =>
      hbefore r (hpage r hr) r' (hpage r' hr'), List.map_map]
  rfl

/-- A page that is cut by reversing a window twice has the last rows of the window. -/
theorem rows_restored_reversed {window : Nat} (htotal : p.IsTotal E (tables p.source).rows)
    (h : p.carried p.order (p.items.map (·.output)) = .ok carried)
    (hexports : p.IsRestorable (tables p.source).columns) :
    ((p.restored (p.reversed (p.innermost carried window))).rows E tables).map
        (p.seen (tables p.source).columns)
      = (((p.body.sorted E (tables p.source).rows).take window).map
          (projectBy E p.body.columns)).rtake p.size := by
  obtain ⟨hnames, horder⟩ := hexports carried h
  set T := tables p.source
  set L := (p.body.sorted E T.rows).take window
  have hshape : ∀ r ∈ L, r.map Prod.fst = T.columns := fun r hr =>
    T.shape r (SelectBody.mem_of_mem_sorted (List.mem_of_mem_take hr))
  have hvalue : ∀ r ∈ L, ∀ i ∈ p.order,
      E.value (projectBy E (p.innerColumns carried) r) i.output = E.value r i.expr :=
    fun r hr i hi => value_projectBy T.nodup (hshape r hr) hnames (horder i hi)
  have hsorted : L.Pairwise (E.Before p.order) :=
    (SelectBody.pairwise_sorted (b := p.body)).sublist (List.take_sublist window _)
  rw [rows_restored_of_carry (rows_innermost h hnames) hvalue, List.map_map,
    ← map_sort_take_sort (fun _ _ => E.before_flipped) hsorted ?_ p.size]
  · refine List.map_congr_left fun r hr => ?_
    have hpage := (List.perm_insertionSort _ _).subset hr
    have hrL : r ∈ L := (List.perm_insertionSort _ _).subset (List.mem_of_mem_take hpage)
    exact seen_restored T.nodup (hshape r hrL) hnames
  · intro r hr r' hr' hrr hrr'
    exact htotal.projectBy_eq (List.mem_of_mem_take hr) (List.mem_of_mem_take hr') hrr hrr'

/-! ### Pages -/

/-- The rows of the whole result. -/
def result (p : PageSpec) (E : Evaluator V) (tables : String → Table V) : List (Tuple V) :=
  (Select.table p.source p.body).rows E tables

theorem result_eq :
    p.result E tables
      = (p.body.sorted E (tables p.source).rows).map (projectBy E p.body.columns) :=
  rfl

/-- The rows of the first page. -/
theorem rows_first : p.first.rows E tables = (p.result E tables).take p.size := by
  rw [result_eq, ← List.map_take]
  rfl

/-- The rows of a page that is cut by an offset. -/
theorem rows_byOffset (hindex : 1 ≤ p.index) (h : p.byOffset = .ok sel) :
    sel.rows E tables = ((p.result E tables).drop (p.size * (p.index - 1))).take p.size := by
  obtain ⟨hfirst, rfl⟩ | ⟨-, skipped, hskipped, rfl⟩ := byOffset_cases h
  · have hone : p.index = 1 := by omega
    rw [rows_first, hone, Nat.sub_self, Nat.mul_zero, List.drop_zero]
  · obtain ⟨rfl, -⟩ := (p.rowsOn_eq_ok_iff _ _).mp hskipped
    rw [result_eq, ← List.map_drop, ← List.map_take]
    rfl

/-- A page that reversal accepts is accepted by offsets as well. -/
theorem exists_byOffset (h : p.byReversal = .ok sel) : ∃ native, p.byOffset = .ok native := by
  rw [byOffset]
  obtain ⟨hfirst, -⟩ | ⟨hlater, window, columns, hwindow, -, -⟩ := byReversal_cases h
  · exact ⟨_, if_pos hfirst⟩
  · obtain ⟨hw, hlt⟩ := (p.rowsOn_eq_ok_iff _ _).mp hwindow
    have hle : p.size * (p.index - 1) ≤ p.size * p.index := Nat.mul_le_mul_left _ (Nat.sub_le _ _)
    have hskipped := (p.rowsOn_eq_ok_iff (p.index - 1) _).mpr ⟨rfl, by omega⟩
    rw [if_neg (by omega), hskipped]
    exact ⟨_, rfl⟩

/-- The columns of a row of the whole result are all seen. -/
theorem map_seen_result : (p.result E tables).map (p.seen (tables p.source).columns)
    = p.result E tables := by
  refine (List.map_congr_left fun row hrow => ?_).trans (List.map_id _)
  rw [seen]
  split
  · next hitems =>
    obtain ⟨r, hr, rfl⟩ := List.mem_map.mp hrow
    have hbody : projectBy E p.body.columns r = r := by
      simp [projectBy, body, List.isEmpty_iff.mp hitems]
    rw [hbody]
    refine List.filter_eq_self.mpr fun cell hcell => decide_eq_true ?_
    rw [← (tables p.source).shape r (SelectBody.mem_of_mem_sorted hr)]
    exact List.mem_map_of_mem hcell
  · rfl

/-- A page cut by reversal has the last rows of those up to its end. -/
theorem map_seen_byReversal (hindex : 1 ≤ p.index) (h : p.byReversal = .ok sel)
    (htotal : p.IsTotal E (tables p.source).rows)
    (hexports : 1 < p.index → p.IsRestorable (tables p.source).columns) :
    (sel.rows E tables).map (p.seen (tables p.source).columns)
      = ((p.result E tables).take (p.size * p.index)).rtake p.size := by
  obtain ⟨hfirst, rfl⟩ | ⟨hlater, window, columns, hwindow, hcarried, rfl⟩ := byReversal_cases h
  · have hone : p.index = 1 := by omega
    rw [rows_first, List.map_take, map_seen_result, hone, Nat.mul_one, List.rtake, List.length_take,
      Nat.sub_eq_zero_of_le (Nat.min_le_left _ _), List.drop_zero]
  · obtain ⟨rfl, -⟩ := (p.rowsOn_eq_ok_iff _ _).mp hwindow
    rw [rows_restored_reversed htotal hcarried (hexports hlater), result_eq, List.map_take]

/-- **A page cut by reversal** of an ordering that is total on the result: of its first rows, as
many as fit on the pages up to this one, the page has the last ones, as many as fit on a page.
Unless this is a partial last page or beyond it, an offset cuts the same page; in any case the
page cut by an offset is the end of it. Both selects are read back from their text if what the page
is cut from is made of fragments. -/
theorem byReversal_rows (E : Evaluator V) (tables : String → Table V) (p : PageSpec)
    {sel : Select} (hindex : 1 ≤ p.index) (h : p.byReversal = .ok sel)
    (htotal : p.IsTotal E (tables p.source).rows)
    (hexports : 1 < p.index → p.IsRestorable (tables p.source).columns) :
    let full := p.result E tables
    let page := (sel.rows E tables).map (p.seen (tables p.source).columns)
    page = (full.take (min full.length (p.size * p.index))).rtake (min p.size full.length) ∧
      ∃ native, p.byOffset = .ok native ∧
        (p.size * p.index ≤ full.length ∨ p.index = 1 → native.rows E tables = page) ∧
        native.rows E tables <:+ page ∧
        ∀ k style, k.QuotesWords → p.IsLegible k →
          sel.IsReadFrom k style (sel.toSql style) ∧
            native.IsReadFrom k style (native.toSql style) := by
  intro full page
  have hpage : page = (full.take (p.size * p.index)).rtake p.size :=
    map_seen_byReversal hindex h htotal hexports
  obtain ⟨native, hnative⟩ := exists_byOffset h
  -- the window ends one page after the rows that the offset skips
  obtain ⟨i, hi⟩ : ∃ i, p.index = i + 1 := ⟨p.index - 1, by omega⟩
  have hend : p.size * p.index = p.size * i + p.size := by rw [hi, Nat.mul_succ]
  have hrows : native.rows E tables = (full.take (p.size * p.index)).drop (p.size * i) := by
    rw [rows_byOffset hindex hnative, List.drop_take, hend, hi, Nat.add_sub_cancel,
      Nat.add_sub_cancel_left]
  have hlength : (full.take (p.size * p.index)).length = min (p.size * p.index) full.length :=
    List.length_take
  refine ⟨?_, native, hnative, ?_, ?_, fun k style hk hp => ⟨?_, ?_⟩⟩
  · rw [hpage, Nat.min_comm full.length, ← List.take_eq_take_min, List.rtake, List.rtake, hlength]
    congr 1
    omega
  · rintro (hfull | hone)
    · rw [hrows, hpage, List.rtake, hlength, Nat.min_eq_left hfull, hend, Nat.add_sub_cancel]
    · obtain rfl : i = 0 := by omega
      rw [hrows, hpage, List.rtake, hlength]
      congr 1
      omega
  · rw [hrows, hpage, List.rtake]
    exact List.drop_suffix_drop_left _ (by omega)
  · exact (hp.byReversal hk h).isReadFrom hk style
  · exact (hp.byOffset hnative).isReadFrom hk style

end PageSpec

/-- Numbers, with nothing computed. -/
def plainNumbers : Evaluator Nat where
  computed _ _ := 0
  accepts _ _ := true
  compare := compare

/-- Five numbered scores. -/
def scores : Table Nat where
  columns := ["id", "score"]
  rows := [[("id", 1), ("score", 7)], [("id", 2), ("score", 9)], [("id", 3), ("score", 7)],
    [("id", 4), ("score", 8)], [("id", 5), ("score", 9)]]
  nodup := by decide
  shape := by decide

/-- The third page of two numbers, the best scores first. The score is carried. -/
def bestFirst : PageSpec where
  source := "scores"
  distinct := false
  items := [⟨"id", none, "Id", true⟩]
  filter := none
  order := [⟨"score", "score", false⟩, ⟨"id", "id", true⟩]
  size := 2
  index := 3

/-- All its texts are ordinary words. -/
theorem isLegible_bestFirst {k : Marks} (hk : k.QuotesWords) : bestFirst.IsLegible k := by
  have hcolumn : ∀ {name}, IsName k name → IsLegibleColumn k name name :=
    fun hname => ⟨hname.isFragment hk, hname.single, hname⟩
  have hnumber : IsLegibleColumn k "id" "id" :=
    hcolumn (isName_of_isOrdinary hk rfl rfl (by decide))
  have hscore : IsLegibleColumn k "score" "score" :=
    hcolumn (isName_of_isOrdinary hk rfl rfl (by decide))
  exact ⟨isName_of_isOrdinary hk rfl rfl (by decide), List.forall_mem_singleton.mpr hnumber,
    nofun, List.forall_mem_cons.mpr ⟨hscore, List.forall_mem_singleton.mpr hnumber⟩⟩

/-- On the third page of two out of five rows, reversal repeats a row of the second page. Its text
is that of three selects, each in the parentheses of the next one. -/
theorem byReversal_rows_bestFirst :
    ∃ sel native, bestFirst.byReversal = .ok sel ∧ bestFirst.byOffset = .ok native ∧
      (sel.rows plainNumbers fun _ => scores).map (bestFirst.seen scores.columns)
        = [[("id", 1)], [("id", 3)]] ∧
      (native.rows plainNumbers fun _ => scores) <:+ [[("id", 1)], [("id", 3)]] ∧
      sel.IsReadFrom BuiltinDialect.sqlServer2000.marks .top (sel.toSql .top) := by
  have htotal : bestFirst.IsTotal plainNumbers scores.rows := by
    unfold PageSpec.IsTotal
    decide
  have hexports : bestFirst.IsRestorable scores.columns := by
    rintro carried ⟨⟩
    decide
  obtain ⟨hpage, native, hnative, -, hsuffix, hread⟩ := PageSpec.byReversal_rows plainNumbers
    (fun _ => scores) bestFirst (by decide) rfl htotal fun _ => hexports
  have hlast : ((bestFirst.result plainNumbers fun _ => scores).take
      (min (bestFirst.result plainNumbers fun _ => scores).length (2 * 3))).rtake
      (min 2 (bestFirst.result plainNumbers fun _ => scores).length)
        = [[("id", 1)], [("id", 3)]] := by
    decide
  have hrows := hpage.trans hlast
  have hmarks : BuiltinDialect.sqlServer2000.marks.QuotesWords := ⟨by decide, by decide⟩
  obtain ⟨hsel, -⟩ := hread _ .top hmarks (isLegible_bestFirst hmarks)
  exact ⟨_, native, rfl, hnative, hrows, hrows ▸ hsuffix, hsel⟩

end EntitySql
