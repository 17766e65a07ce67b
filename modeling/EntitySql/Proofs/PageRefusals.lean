import EntitySql.Proofs.PageOrder
import EntitySql.Proofs.RowBounds

/-!
# Pages that are refused

A query whose clauses can be written has a page unless it orders distinct rows by something that is
not selected, or by nothing at all, or the rows that its method has to count do not fit a word. The
main statement, `page_refused_iff`, says that these are all refusals, and which error is given.

Whether the ordering is refused does not depend on the method. Reversal looks for unselected columns
once more, after the tie-break was appended, but finds none: what is appended is selected itself
(`exists_carried`). So the methods differ only in how many pages they count the rows of
(`PageMethod.countedPages`).
-/

namespace EntitySql

/-! ### Orderings that are refused -/

/-- Distinct rows of a select list are ordered by a column that is not among the outputs. -/
def OrdersUnselected (distinct : Bool) (items : List SelectItem) (requested : List OrderItem) :
    Prop :=
  IsCollapsed distinct items ∧ ∃ o ∈ requested, ∀ i ∈ items, i.output ≠ o.output

/-- Nothing is ordered by: neither a key nor anything that is requested. -/
def LacksOrder (m : EntityMap) (distinct : Bool) (items : List SelectItem)
    (requested : List OrderItem) : Prop :=
  ¬ IsCollapsed distinct items ∧ m.key = none ∧ requested = []

namespace Scope

variable {c : Scope} {distinct : Bool} {items : List SelectItem} {requested : List OrderItem}

theorem not_any_output_iff {o : OrderItem} :
    (!(items.any fun i => i.output == o.output)) = true ↔ ∀ i ∈ items, i.output ≠ o.output := by
  simp

/-- An item that is not selected is reported. -/
theorem orderRefusal?_of_ordersUnselected (h : OrdersUnselected distinct items requested) :
    ∃ o ∈ requested, (∀ i ∈ items, i.output ≠ o.output) ∧
      c.orderRefusal? distinct items requested = some (.orderNotSelected o.expr) := by
  obtain ⟨hcollapsed, o, ho, hunselected⟩ := h
  rw [orderRefusal?, if_pos hcollapsed]
  cases hfind : requested.find? fun o => !(items.any fun i => i.output == o.output) with
  | none =>
    have hselected := List.find?_eq_none.mp hfind o ho
    exact absurd (not_any_output_iff.mpr hunselected) hselected
  | some o' =>
    have hfound := List.find?_some hfind
    exact ⟨o', List.mem_of_find?_eq_some hfind, not_any_output_iff.mp hfound, rfl⟩

theorem orderRefusal?_of_lacksOrder (h : LacksOrder c.map distinct items requested) :
    c.orderRefusal? distinct items requested = some (.noPageOrder c.map.entity) := by
  obtain ⟨hcollapsed, hkey, hrequested⟩ := h
  rw [orderRefusal?, if_neg hcollapsed, if_pos ⟨hkey, hrequested⟩]

/-- Nothing else is refused. -/
theorem orderRefusal?_eq_none (hselected : ¬ OrdersUnselected distinct items requested)
    (hordered : ¬ LacksOrder c.map distinct items requested) :
    c.orderRefusal? distinct items requested = none := by
  rw [orderRefusal?]
  split
  · next hcollapsed =>
    rw [Option.map_eq_none_iff, List.find?_eq_none]
    intro o ho hnone
    exact hselected ⟨hcollapsed, o, ho, not_any_output_iff.mp hnone⟩
  · next hcollapsed =>
    exact if_neg fun h => hordered ⟨hcollapsed, h⟩

/-- An ordering that is not refused orders distinct rows by selected columns only, the tie-break
included. -/
theorem selected_of_mem_order (hselected : ¬ OrdersUnselected distinct items requested)
    (hcollapsed : IsCollapsed distinct items) {o : OrderItem}
    (ho : o ∈ requested ++ newItems requested (c.tieBreak distinct items)) :
    o.output ∈ items.map (·.output) := by
  obtain ho | ho := List.mem_append.mp ho
  · by_contra hunselected
    refine hselected ⟨hcollapsed, o, ho, fun i hi heq => hunselected ?_⟩
    exact heq ▸ List.mem_map_of_mem hi
  · have htie := newItems_sublist.subset ho
    rw [tieBreak, if_pos hcollapsed] at htie
    obtain ⟨i, hi, rfl⟩ := List.mem_map.mp htie
    exact List.mem_map_of_mem hi

end Scope

/-! ### Pages of a method -/

/-- The number of pages whose rows a method counts to cut a page after the first: it skips the
pages before, or reads up to the end of the page. -/
def PageMethod.countedPages : PageMethod → Nat → Nat
  | .offset, index => index - 1
  | .reversal, index => index

/-- The rows that a method counts for a page do not fit a word. -/
def PageMethod.Exceeds (method : PageMethod) (size index : Nat) : Prop :=
  2 ≤ index ∧ wordCount ≤ size * method.countedPages index

theorem PageMethod.lt_of_not_exceeds {method : PageMethod} {size index : Nat}
    (h : ¬ method.Exceeds size index) (hlater : ¬ index ≤ 1) :
    size * method.countedPages index < wordCount := by
  by_contra hle
  exact h ⟨by omega, by omega⟩

/-- The row bounds of a page; the first page only has its size. -/
def PageMethod.bounds : PageMethod → Nat → Nat → List RowBounds
  | .offset, size, index =>
    if index ≤ 1 then [⟨0, some size⟩] else [⟨size * (index - 1), some size⟩]
  | .reversal, size, index =>
    if index ≤ 1 then [⟨0, some size⟩]
    else [⟨0, some (size * index)⟩, ⟨0, some size⟩, ⟨0, none⟩]

namespace PageSpec

variable {p : PageSpec}

/-- A page that orders distinct rows by selected columns only can carry its order columns. -/
theorem exists_carried {order : List OrderItem} {outputs : List String}
    (h : IsCollapsed p.distinct p.items → ∀ o ∈ order, o.output ∈ outputs) :
    ∃ columns, p.carried order outputs = .ok columns := by
  induction order generalizing outputs with
  | nil => exact ⟨[], rfl⟩
  | cons o os ih =>
    rw [carried]
    split
    · exact ih fun hcollapsed o' ho' => h hcollapsed o' (List.mem_cons_of_mem o ho')
    · next hneeded =>
      have hcollapsed : ¬ IsCollapsed p.distinct p.items := by
        intro hcollapsed
        have hmem := h hcollapsed o List.mem_cons_self
        exact hneeded (by simp [hmem])
      obtain ⟨columns, hcolumns⟩ : ∃ columns, p.carried os (outputs ++ [o.output]) = .ok columns :=
        ih fun hc => absurd hc hcollapsed
      rw [if_neg hcollapsed, hcolumns]
      exact ⟨_, rfl⟩

/-- Rows that do not fit a word are not counted. -/
theorem rowsOn_of_le {pages : Nat} (h : wordCount ≤ p.size * pages) :
    p.rowsOn pages = .error (.pageOutOfRange p.index p.size) :=
  if_neg (by omega)

end PageSpec

namespace PageMethod

variable {method : PageMethod} {p : PageSpec} {s : Select}

/-- A page whose rows are too many to be counted is refused. -/
theorem page_of_exceeds (h : method.Exceeds p.size p.index) :
    method.page p = .error (.pageOutOfRange p.index p.size) := by
  obtain ⟨hlater, hcount⟩ := h
  have hfirst : ¬ p.index ≤ 1 := by omega
  have hrows := p.rowsOn_of_le hcount
  cases method with
  | offset =>
    rw [countedPages] at hrows
    rw [page, PageSpec.byOffset, if_neg hfirst, hrows]
    rfl
  | reversal =>
    rw [countedPages] at hrows
    rw [page, PageSpec.byReversal, if_neg hfirst, hrows]
    rfl

/-- Any other page can be cut, if its order columns can be carried. -/
theorem exists_page {columns : List SelectColumn}
    (hcarried : p.carried p.order (p.items.map (·.output)) = .ok columns)
    (h : ¬ method.Exceeds p.size p.index) : ∃ s, method.page p = .ok s := by
  by_cases hfirst : p.index ≤ 1
  · exact ⟨p.first, method.page_first hfirst⟩
  · have hrows := (p.rowsOn_eq_ok_iff (method.countedPages p.index) _).mpr
      ⟨rfl, lt_of_not_exceeds h hfirst⟩
    cases method with
    | offset =>
      rw [countedPages] at hrows
      rw [page, PageSpec.byOffset, if_neg hfirst, hrows]
      exact ⟨_, rfl⟩
    | reversal =>
      rw [countedPages] at hrows
      rw [page, PageSpec.byReversal, if_neg hfirst, hrows, hcarried]
      exact ⟨_, rfl⟩

/-- The bounds of a page are the exact numbers of its rows. -/
theorem bounds_page (h : method.page p = .ok s) : s.bounds = method.bounds p.size p.index := by
  cases method with
  | offset =>
    rw [bounds]
    obtain ⟨hfirst, rfl⟩ | ⟨hlater, skipped, hskipped, rfl⟩ := PageSpec.byOffset_cases h
    · rw [if_pos hfirst]
      rfl
    · obtain ⟨rfl, -⟩ := (p.rowsOn_eq_ok_iff _ _).mp hskipped
      rw [if_neg (by omega)]
      rfl
  | reversal =>
    rw [bounds]
    obtain ⟨hfirst, rfl⟩ | ⟨hlater, window, columns, hwindow, -, rfl⟩ := PageSpec.byReversal_cases h
    · rw [if_pos hfirst]
      rfl
    · obtain ⟨rfl, -⟩ := (p.rowsOn_eq_ok_iff _ _).mp hwindow
      rw [if_neg (by omega)]
      rfl

/-- The bounds of a page that is not refused fit a word, if its size does. -/
theorem fits_of_mem_bounds {size index : Nat} (hsize : size < wordCount)
    (h : ¬ method.Exceeds size index) : ∀ b ∈ method.bounds size index, b.Fits := by
  have hzero : 0 < wordCount := by decide
  have hfits : ∀ n, n < wordCount → (⟨0, some n⟩ : RowBounds).Fits := fun n hn =>
    ⟨hzero, fun m hm => Option.mem_some_iff.mp hm ▸ hn⟩
  have hcount := lt_of_not_exceeds h
  cases method with
  | offset =>
    rw [bounds]
    split
    · exact List.forall_mem_singleton.mpr (hfits size hsize)
    · next hlater =>
      exact List.forall_mem_singleton.mpr ⟨hcount hlater, (hfits size hsize).2⟩
  | reversal =>
    rw [bounds]
    split
    · exact List.forall_mem_singleton.mpr (hfits size hsize)
    · next hlater =>
      have hnone : (⟨0, none⟩ : RowBounds).Fits := ⟨hzero, nofun⟩
      simpa using ⟨hfits _ (hcount hlater), hfits size hsize, hnone⟩

end PageMethod

/-! ### Refused pages -/

namespace Query

open Drafting

variable {q : Query}

/-- Clauses that can be written apart can be written one after another. -/
theorem exists_clauseRun_of_drafts {items : List SelectItem} {filter : Option String}
    {requested : List OrderItem} {s₁ s₂ s₃ : List BindSlot}
    (hitems : q.draft (·.selectItems q.selection) = .ok (items, s₁))
    (hfilter : q.draft q.filterText = .ok (filter, s₂))
    (horder : q.draft (·.orderItems q.order) = .ok (requested, s₃)) :
    ∃ m, ∃ r : ClauseRun q ⟨m, q.dialect⟩ (Draft.fresh q.index),
      EntityMap.ofDecl q.entity = .ok m ∧ r.items = items ∧ r.filter = filter ∧
        r.order = requested := by
  obtain ⟨m, d₁, hm, hrunItems, -⟩ := draft_eq_ok.mp hitems
  obtain ⟨m', d₂, hm', hrunFilter, -⟩ := draft_eq_ok.mp hfilter
  obtain ⟨m'', d₃, hm'', hrunOrder, -⟩ := draft_eq_ok.mp horder
  obtain rfl := Except.ok.inj (hm.symm.trans hm')
  obtain rfl := Except.ok.inj (hm.symm.trans hm'')
  have hbinds : d₁.binds = (Draft.fresh q.index).binds :=
    binds_of_result (Scope.selectItems_result _ _ _) hrunItems
  obtain ⟨e₂, hrunFilter', -⟩ := filterText_of_binds hbinds hrunFilter
  have hordered : Scope.orderedItems ⟨m, q.dialect⟩ q.order = .ok requested :=
    (Scope.orderedItems_eq_ok (Draft.fresh q.index)).mpr
      ⟨d₃, hrunOrder, binds_of_result (Scope.orderItems_result _ _ _) hrunOrder⟩
  obtain ⟨e₃, hrunOrder', -⟩ := (Scope.orderedItems_eq_ok e₂).mp hordered
  exact ⟨m, ⟨items, filter, requested, d₁, e₂, e₃, hrunItems, hrunFilter', hrunOrder'⟩, hm, rfl,
    rfl, rfl⟩

namespace ClauseRun

variable {c : Scope} {d : Draft} (r : ClauseRun q c d) {distinct : Bool}

/-- The order columns of a page can be carried, unless its ordering is refused. -/
theorem exists_carried_spec (size index : Nat)
    (hselected : ¬ OrdersUnselected distinct r.items r.order) :
    ∃ columns, (r.spec size index distinct).carried (r.spec size index distinct).order
      ((r.spec size index distinct).items.map (·.output)) = .ok columns :=
  PageSpec.exists_carried fun hcollapsed _ ho =>
    Scope.selected_of_mem_order hselected hcollapsed ho

/-- Such a page is refused by a method exactly if the method has to count too many rows. Its bounds
are the exact numbers of rows. -/
theorem page_spec_iff {size index : Nat} (hselected : ¬ OrdersUnselected distinct r.items r.order)
    (method : PageMethod) :
    ((∃ s, method.page (r.spec size index distinct) = .ok s) ↔
      ¬ method.Exceeds size (max index 1)) ∧
    ∀ s, method.page (r.spec size index distinct) = .ok s →
      s.bounds = method.bounds size (max index 1) ∧
        (size < wordCount → ∀ b ∈ s.bounds, b.Fits) := by
  obtain ⟨columns, hcarried⟩ := r.exists_carried_spec size index hselected
  have hiff : (∃ s, method.page (r.spec size index distinct) = .ok s) ↔
      ¬ method.Exceeds size (max index 1) := by
    refine ⟨fun ⟨s, hs⟩ hexceeds => ?_, fun h => PageMethod.exists_page hcarried h⟩
    cases hs.symm.trans (PageMethod.page_of_exceeds hexceeds)
  refine ⟨hiff, fun s hs => ?_⟩
  have hbounds : s.bounds = method.bounds size (max index 1) := PageMethod.bounds_page hs
  refine ⟨hbounds, fun hsize => ?_⟩
  rw [hbounds]
  exact PageMethod.fits_of_mem_bounds hsize (hiff.mp ⟨s, hs⟩)

end ClauseRun

section Outcomes

variable {m : EntityMap} (r : ClauseRun q ⟨m, q.dialect⟩ (Draft.fresh q.index))
  (hm : EntityMap.ofDecl q.entity = .ok m) {size : Nat} (hsize : 1 ≤ size) (index : Nat)
  {distinct : Bool}

include hm hsize

theorem ClauseRun.page_of_ordersUnselected (h : OrdersUnselected distinct r.items r.order) :
    ∃ o ∈ r.order, (∀ i ∈ r.items, i.output ≠ o.output) ∧
      q.page size index distinct = .error (.orderNotSelected o.expr) := by
  obtain ⟨o, ho, houtput, hrefusal⟩ := Scope.orderRefusal?_of_ordersUnselected h
  refine ⟨o, ho, houtput, ?_⟩
  rw [page_of_clauseRun r hm hsize, ClauseRun.paged, hrefusal]
  rfl

theorem ClauseRun.page_of_lacksOrder (h : LacksOrder m distinct r.items r.order) :
    q.page size index distinct = .error (.noPageOrder m.entity) := by
  have hrefusal := Scope.orderRefusal?_of_lacksOrder (c := ⟨m, q.dialect⟩) h
  rw [page_of_clauseRun r hm hsize, ClauseRun.paged, hrefusal]
  rfl

/-- Any other page is what the method makes of it. -/
theorem ClauseRun.page_of_ordered (hselected : ¬ OrdersUnselected distinct r.items r.order)
    (hordered : ¬ LacksOrder m distinct r.items r.order) :
    q.page size index distinct
      = (q.dialect.pageMethod.page (r.spec size index distinct)).map fun s =>
          ⟨s.toSql q.dialect.boundStyle, r.filtered.binds.slots⟩ := by
  rw [page_of_clauseRun r hm hsize, ClauseRun.paged,
    Scope.orderRefusal?_eq_none hselected hordered]

/-- Where the rows are too many to be counted, the method refuses it. -/
theorem ClauseRun.page_of_exceeds (hselected : ¬ OrdersUnselected distinct r.items r.order)
    (hordered : ¬ LacksOrder m distinct r.items r.order)
    (hexceeds : q.dialect.pageMethod.Exceeds size (max index 1)) :
    q.page size index distinct = .error (.pageOutOfRange (max index 1) size) := by
  have hrefused := PageMethod.page_of_exceeds (p := r.spec size index distinct) hexceeds
  rw [r.page_of_ordered hm hsize index hselected hordered, hrefused]
  rfl

/-- Everything else is a page. -/
theorem ClauseRun.exists_page_of_fits (hselected : ¬ OrdersUnselected distinct r.items r.order)
    (hordered : ¬ LacksOrder m distinct r.items r.order)
    (hfits : ¬ q.dialect.pageMethod.Exceeds size (max index 1)) :
    ∃ statement, q.page size index distinct = .ok statement := by
  obtain ⟨s, hs⟩ := (r.page_spec_iff hselected q.dialect.pageMethod).1.mpr hfits
  rw [r.page_of_ordered hm hsize index hselected hordered, hs]
  exact ⟨_, rfl⟩

end Outcomes

/-- **The pages that are refused**, of a query whose select list, filter and ordering can be
written: those that order distinct rows by something that is not selected, those that are ordered by
nothing, and those whose method has to count more rows than fit a word. The first two are found
before the method is asked. What the method is then asked for, any method grants as far as it can
count: reversal can carry the order columns, and the bounds are the exact numbers of rows. -/
theorem page_refused_iff {size : Nat} (index : Nat) (distinct : Bool) {items : List SelectItem}
    {filter : Option String} {requested : List OrderItem} {s₁ s₂ s₃ : List BindSlot}
    (hsize : 1 ≤ size)
    (hitems : q.draft (·.selectItems q.selection) = .ok (items, s₁))
    (hfilter : q.draft q.filterText = .ok (filter, s₂))
    (horder : q.draft (·.orderItems q.order) = .ok (requested, s₃)) :
    ∃ m, EntityMap.ofDecl q.entity = .ok m ∧
      let number := max index 1
      let page := q.page size index distinct
      let unselected := OrdersUnselected distinct items requested
      let unordered := LacksOrder m distinct items requested
      let exceeds := q.dialect.pageMethod.Exceeds size number
      ((∃ e, page = .error e) ↔ unselected ∨ unordered ∨ exceeds) ∧
      (unselected → ∃ o ∈ requested, (∀ i ∈ items, i.output ≠ o.output) ∧
        page = .error (.orderNotSelected o.expr)) ∧
      (unordered → page = .error (.noPageOrder m.entity)) ∧
      (¬ unselected → ¬ unordered →
        (exceeds → page = .error (.pageOutOfRange number size)) ∧
        ∃ (spec : PageSpec) (slots : List BindSlot),
          spec.items = items ∧ spec.distinct = distinct ∧ spec.size = size ∧ spec.index = number ∧
          requested <+: spec.order ∧
          page = (q.dialect.pageMethod.page spec).map
            (fun s => ⟨s.toSql q.dialect.boundStyle, slots⟩) ∧
          (∃ columns, spec.carried spec.order (spec.items.map (·.output)) = .ok columns) ∧
          ∀ method : PageMethod, ((∃ s, method.page spec = .ok s) ↔ ¬ method.Exceeds size number) ∧
            ∀ s, method.page spec = .ok s → s.bounds = method.bounds size number ∧
              (size < wordCount → ∀ b ∈ s.bounds, b.Fits)) := by
  obtain ⟨m, r, hm, rfl, rfl, rfl⟩ := exists_clauseRun_of_drafts hitems hfilter horder
  refine ⟨m, hm, ⟨?_, ?_⟩, r.page_of_ordersUnselected hm hsize index,
    r.page_of_lacksOrder hm hsize index, ?_⟩
  · rintro ⟨e, he⟩
    by_contra hnone
    obtain ⟨hselected, hrest⟩ := not_or.mp hnone
    obtain ⟨hordered, hfits⟩ := not_or.mp hrest
    obtain ⟨statement, hok⟩ := r.exists_page_of_fits hm hsize index hselected hordered hfits
    cases he.symm.trans hok
  · intro h
    by_cases hselected : OrdersUnselected distinct r.items r.order
    · obtain ⟨o, -, -, herror⟩ := r.page_of_ordersUnselected hm hsize index hselected
      exact ⟨_, herror⟩
    · by_cases hordered : LacksOrder m distinct r.items r.order
      · exact ⟨_, r.page_of_lacksOrder hm hsize index hordered⟩
      · have hexceeds := (h.resolve_left hselected).resolve_left hordered
        exact ⟨_, r.page_of_exceeds hm hsize index hselected hordered hexceeds⟩
  · intro hselected hordered
    exact ⟨r.page_of_exceeds hm hsize index hselected hordered, r.spec size index distinct,
      _, rfl, rfl, rfl, rfl, List.prefix_append _ _,
      r.page_of_ordered hm hsize index hselected hordered,
      r.exists_carried_spec size index hselected, r.page_spec_iff hselected⟩

end Query

/-- Of items with half a word of rows each, reversal cannot cut the second page, but an offset
could. -/
theorem page_refused_iff_dearestFirst :
    dearestFirst.page 9223372036854775808 2 false
        = .error (.pageOutOfRange 2 9223372036854775808) ∧
      ∃ (spec : PageSpec) (s : Select), spec.size = 9223372036854775808 ∧ spec.index = 2 ∧
        PageMethod.offset.page spec = .ok s ∧
        s.bounds = [⟨9223372036854775808, some 9223372036854775808⟩] := by
  have hitems : dearestFirst.draft (·.selectItems dearestFirst.selection) = .ok ([], []) := rfl
  have hfilter : dearestFirst.draft dearestFirst.filterText = .ok (none, []) := rfl
  have horder : dearestFirst.draft (·.orderItems dearestFirst.order)
      = .ok ([⟨"price * amount", "[Total]", false⟩], []) := rfl
  have hsize : 1 ≤ 9223372036854775808 := by decide
  obtain ⟨m, -, -, -, -, hcut⟩ := Query.page_refused_iff 2 false hsize hitems hfilter horder
  have hselected : ¬ OrdersUnselected false [] [⟨"price * amount", "[Total]", false⟩] :=
    fun h => absurd h.1 (by decide)
  have hordered : ¬ LacksOrder m false [] [⟨"price * amount", "[Total]", false⟩] :=
    fun h => absurd h.2.2 (by decide)
  obtain ⟨hexceeds, spec, slots, -, -, hspecSize, hspecIndex, -, -, -, hmethods⟩ :=
    hcut hselected hordered
  obtain ⟨hiff, hbounds⟩ := hmethods .offset
  obtain ⟨s, hs⟩ := hiff.mpr fun h => absurd h.2 (by decide)
  exact ⟨hexceeds ⟨by decide, by decide⟩, spec, s, hspecSize, hspecIndex, hs, (hbounds s hs).1⟩

end EntitySql
