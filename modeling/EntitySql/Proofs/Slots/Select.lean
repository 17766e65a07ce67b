import EntitySql.Query
import EntitySql.Proofs.Slots.Scan

/-!
# Slots of selects

A select shows the slots of its conditions, the innermost select first (`Select.IsShown.shows`):
its columns, its ordering and its bounds have none. A page that is cut out of a select, by an
offset or by reversal, has the condition of the page in one place, so it shows just these slots
(`PageSpec.IsShown.page`).
-/

namespace EntitySql

open Condition Slots

variable {d : Dialect} {k : Marks} {ss ss' : List String}

namespace Slots

/-- Texts with commas between them show the slots of each in turn. -/
theorem shows_intercalate {α : Type} (hd : IsScannable d k) (text : α → String)
    (slots : α → List String) {as : List α} (h : ∀ a ∈ as, Shows k (text a) (slots a)) :
    Shows k (String.intercalate ", " (as.map text)) (as.flatMap slots) := by
  induction as with
  | nil => exact fun _ _ => rfl
  | cons a rest ih =>
    have ha := h a List.mem_cons_self
    have hrest := ih fun b hb => h b (List.mem_cons_of_mem _ hb)
    cases rest with
    | nil =>
      rw [List.map_singleton, String.intercalate_singleton, List.flatMap_singleton]
      exact ha
    | cons b rest =>
      have hcomma : isJoint ", " = true := rfl
      rw [List.map_cons, List.map_cons, String.intercalate_cons_cons]
      exact (ha.joint hd hcomma).append_shows hrest

/-- Texts without slots, with commas between them. -/
theorem shows_intercalate_nil {α : Type} (hd : IsScannable d k) (text : α → String) {as : List α}
    (h : ∀ a ∈ as, Shows k (text a) []) :
    Shows k (String.intercalate ", " (as.map text)) [] := by
  have hnone : (as.flatMap fun _ => ([] : List String)) = [] :=
    List.flatMap_eq_nil_iff.mpr fun _ _ => rfl
  have hall := shows_intercalate hd text (fun _ => []) h
  rwa [hnone] at hall

/-- A text that may be missing shows the slots; without it there are none. -/
def ShowsAny (k : Marks) : Option String → List String → Prop
  | none, ss => ss = []
  | some text, ss => Shows k text ss

theorem Shows.whereText (hd : IsScannable d k) {a : String} (ha : Shows k a ss)
    {filter : Option String} (hfilter : ShowsAny k filter ss') :
    Shows k (a ++ Query.whereText filter) (ss ++ ss') := by
  cases filter with
  | none =>
    obtain rfl : ss' = [] := hfilter
    rwa [Query.whereText, String.append_empty, List.append_nil]
  | some filter =>
    have hwhere : isJoint " WHERE " = true := rfl
    have hall := (ha.joint hd hwhere).append_shows hfilter
    rwa [String.append_assoc] at hall

end Slots

/-! ### Columns and orderings -/

/-- The column shows no slots, nor does its label. -/
def SelectColumn.IsSilent (k : Marks) : SelectColumn → Prop
  | .every => True
  | .expr text label => Shows k text [] ∧ ∀ l ∈ label, Shows k l []

/-- The item shows no slots, nor does its label. -/
def SelectItem.IsSilent (k : Marks) (i : SelectItem) : Prop :=
  i.column.IsSilent k

/-- The item shows no slots, nor does the name under which it is carried. -/
structure OrderItem.IsSilent (k : Marks) (i : OrderItem) : Prop where
  expr : Shows k i.expr []
  output : Shows k i.output []

theorem SelectColumn.IsSilent.shows (hd : IsScannable d k) {column : SelectColumn}
    (h : column.IsSilent k) : Shows k column.toSql [] := by
  cases column with
  | every => exact (passes_of_isUnmarked hd rfl).shows
  | expr text label =>
    obtain ⟨htext, hlabel⟩ := h
    cases label with
    | none => exact htext
    | some label =>
      have has : isJoint " AS " = true := rfl
      exact (htext.joint hd has).append_shows (hlabel label rfl)

theorem SelectItem.IsSilent.output {i : SelectItem} (h : i.IsSilent k) : Shows k i.output [] := by
  obtain ⟨expr, label, member, plain⟩ := i
  cases label with
  | none => exact h.1
  | some label => exact h.2 label rfl

theorem silent_columns {items : List SelectItem} (h : ∀ i ∈ items, i.IsSilent k) :
    ∀ column ∈ items.map (·.column), column.IsSilent k := by
  intro column hcolumn
  obtain ⟨i, hi, rfl⟩ := List.mem_map.mp hcolumn
  exact h i hi

theorem OrderItem.IsSilent.shows (hd : IsScannable d k) {i : OrderItem} (h : i.IsSilent k) :
    Shows k i.toSql [] := by
  rw [toSql]
  refine (h.expr.joint hd ?_).shows
  split <;> rfl

theorem OrderItem.IsSilent.flipped {i : OrderItem} (h : i.IsSilent k) : i.flipped.IsSilent k :=
  ⟨h.expr, h.output⟩

theorem OrderItem.IsSilent.onOutput {i : OrderItem} (h : i.IsSilent k) : i.onOutput.IsSilent k :=
  ⟨h.output, h.output⟩

theorem OrderItem.IsSilent.carriedColumn {i : OrderItem} (h : i.IsSilent k) :
    i.carriedColumn.IsSilent k := by
  refine ⟨h.expr, fun label hlabel => ?_⟩
  split at hlabel
  · cases hlabel
  · obtain rfl := Option.mem_some_iff.mp hlabel
    exact h.output

/-! ### Selects -/

/-- The body shows the slots of its condition. -/
structure SelectBody.IsShown (k : Marks) (b : SelectBody) (ss : List String) : Prop where
  columns : ∀ column ∈ b.columns, column.IsSilent k
  order : ∀ i ∈ b.order, i.IsSilent k
  filter : ShowsAny k b.filter ss

namespace SelectBody

variable {b : SelectBody}

theorem isUnmarked_topText (style : BoundStyle) : isUnmarked (b.topText style) = true := by
  fun_cases topText style b with
  | case1 n => rw [isUnmarked_append, isUnmarked_append, isUnmarked_toString]; rfl
  | case2 => rfl

theorem boundsText_cases (style : BoundStyle) :
    b.boundsText style = "" ∨ isJoint (b.boundsText style) = true := by
  have hlimit : ∀ n : Nat, isJoint (" LIMIT " ++ toString n) = true := fun n =>
    isJoint_append rfl (isUnmarked_toString n)
  have hoffset : ∀ n : Nat, isJoint (" OFFSET " ++ toString n) = true := fun n =>
    isJoint_append rfl (isUnmarked_toString n)
  fun_cases boundsText style b with
  | case1 => exact .inl rfl
  | case2 m => exact .inr (isJoint_append (hoffset m) rfl)
  | case3 n m =>
    exact .inr (isJoint_append (isJoint_append (isJoint_append (hoffset m) rfl)
      (isUnmarked_toString n)) rfl)
  | case4 =>
    cases b.limit with
    | none =>
      cases b.offset with
      | none => exact .inl rfl
      | some m => exact .inr (hoffset m)
    | some n =>
      cases b.offset with
      | none => exact .inr (isJoint_append (hlimit n) rfl)
      | some m => exact .inr (isJoint_append (hlimit n) (isUnmarked_of_isJoint (hoffset m)))

theorem IsShown.columnsText (hd : IsScannable d k) (h : b.IsShown k ss) :
    Shows k b.columnsText [] := by
  rw [SelectBody.columnsText]
  split
  · exact (passes_of_isUnmarked hd rfl).shows
  · exact shows_intercalate_nil hd _ fun column hcolumn => (h.columns column hcolumn).shows hd

theorem IsShown.orderText (hd : IsScannable d k) (h : b.IsShown k ss) {a : String}
    (ha : Shows k a ss') : Shows k (a ++ b.orderText) ss' := by
  rw [SelectBody.orderText]
  split
  · rwa [String.append_empty]
  · have horder : Shows k (String.intercalate ", " (b.order.map (·.toSql))) [] :=
      shows_intercalate_nil hd _ fun i hi => (h.order i hi).shows hd
    have hby : isJoint " ORDER BY " = true := rfl
    have hall := (ha.joint hd hby).append_shows horder
    rwa [List.append_nil, String.append_assoc] at hall

/-- A select shows the slots of what it reads before its own. -/
theorem IsShown.shows (hd : IsScannable d k) (h : b.IsShown k ss) (style : BoundStyle)
    {source : String} (hsource : Shows k source ss') :
    Shows k (b.toSql style source) (ss' ++ ss) := by
  have htop : isUnmarked ("SELECT " ++ (if b.distinct then "DISTINCT " else "") ++ b.topText style)
      = true := by
    have hdistinct : isUnmarked (if b.distinct then "DISTINCT " else "") = true := by
      split <;> rfl
    rw [isUnmarked_append, isUnmarked_append, hdistinct, isUnmarked_topText]
    rfl
  have hfrom : isJoint " FROM " = true := rfl
  have hcolumns := (passes_of_isUnmarked hd htop).append_shows (h.columnsText hd)
  have hhead := (hcolumns.joint hd hfrom).append_shows hsource
  exact (h.orderText hd (hhead.whereText hd h.filter)).close hd (boundsText_cases style)

end SelectBody

/-- The select shows the slots of its conditions, the innermost first. -/
inductive Select.IsShown (k : Marks) : Select → List String → Prop where
  | table {source : String} {body : SelectBody} {ss : List String} :
    Shows k source [] → body.IsShown k ss → IsShown k (.table source body) ss
  | derived {inner : Select} {label : String} {body : SelectBody} {ss ss' : List String} :
    IsShown k inner ss → isUnmarked label = true → body.IsShown k ss' →
    IsShown k (.derived inner label body) (ss ++ ss')

/-- **A select shows the slots of its conditions.** -/
theorem Select.IsShown.shows (hd : IsScannable d k) {s : Select} (h : s.IsShown k ss)
    (style : BoundStyle) : Shows k (s.toSql style) ss := by
  induction h with
  | table hsource hbody => exact hbody.shows hd style hsource
  | derived hinner hlabel hbody ih =>
    refine hbody.shows hd style ?_
    have hopening : Passes k "(" [] := passes_of_isUnmarked hd rfl
    have hclosing := isJoint_append (a := ") ") rfl hlabel
    have hall := ((hopening.append_shows ih).joint hd hclosing).shows
    rwa [← String.append_assoc] at hall

/-- A select over derived rows without a condition of its own shows the slots of these. -/
theorem Select.IsShown.outer {inner : Select} (h : inner.IsShown k ss) {label : String}
    (hlabel : isUnmarked label = true) {body : SelectBody} (hfilter : body.filter = none)
    (hcolumns : ∀ column ∈ body.columns, column.IsSilent k)
    (horder : ∀ i ∈ body.order, i.IsSilent k) :
    (Select.derived inner label body).IsShown k ss := by
  have hbody : body.IsShown k [] :=
    { columns := hcolumns
      order := horder
      filter := by
        rw [hfilter]
        exact rfl }
  have hall := Select.IsShown.derived h hlabel hbody
  rwa [List.append_nil] at hall

/-! ### Pages -/

namespace PageSpec

variable {p : PageSpec}

/-- What the page is cut from shows the slots of its condition. -/
structure IsShown (k : Marks) (p : PageSpec) (ss : List String) : Prop where
  source : Shows k p.source []
  items : ∀ i ∈ p.items, i.IsSilent k
  order : ∀ i ∈ p.order, i.IsSilent k
  filter : ShowsAny k p.filter ss

theorem IsShown.first (h : p.IsShown k ss) : p.first.IsShown k ss :=
  .table h.source ⟨silent_columns h.items, h.order, h.filter⟩

theorem IsShown.byOffset (h : p.IsShown k ss) {s : Select} (hs : p.byOffset = .ok s) :
    s.IsShown k ss := by
  obtain ⟨-, rfl⟩ | ⟨-, skipped, -, rfl⟩ := byOffset_cases hs
  · exact h.first
  · exact .table h.source ⟨silent_columns h.items, h.order, h.filter⟩

/-- Carried columns show no slots. -/
theorem silent_of_carried {order : List OrderItem} {outputs : List String}
    {columns : List SelectColumn} (horder : ∀ i ∈ order, i.IsSilent k)
    (hcarried : p.carried order outputs = .ok columns) :
    ∀ column ∈ columns, column.IsSilent k := by
  intro column hcolumn
  obtain ⟨i, hi, rfl⟩ := exists_of_mem_carried hcarried column hcolumn
  exact (horder i hi).carriedColumn

theorem IsShown.innermost (h : p.IsShown k ss) {carried : List SelectColumn}
    (hcarried : ∀ column ∈ carried, column.IsSilent k) (window : Nat) :
    (p.innermost carried window).IsShown k ss := by
  refine .table h.source ⟨fun column hcolumn => ?_, h.order, h.filter⟩
  obtain rfl | ⟨i, hi, rfl⟩ | hcolumn := mem_innerColumns hcolumn
  · exact trivial
  · exact h.items i hi
  · exact hcarried column hcolumn

theorem IsShown.restored (h : p.IsShown k ss) {window : Select} (hwindow : window.IsShown k ss') :
    (p.restored (p.reversed window)).IsShown k ss' := by
  have hreversed : (p.reversed window).IsShown k ss' := by
    refine hwindow.outer rfl rfl nofun fun i hi => ?_
    obtain ⟨j, hj, rfl⟩ := List.mem_map.mp hi
    exact (h.order j hj).onOutput.flipped
  refine hreversed.outer rfl rfl (fun column hcolumn => ?_) fun i hi => ?_
  · obtain ⟨i, hi, rfl⟩ := List.mem_map.mp hcolumn
    exact ⟨(h.items i hi).output, nofun⟩
  · obtain ⟨j, hj, rfl⟩ := List.mem_map.mp hi
    exact (h.order j hj).onOutput

theorem IsShown.byReversal (h : p.IsShown k ss) {s : Select} (hs : p.byReversal = .ok s) :
    s.IsShown k ss := by
  obtain ⟨-, rfl⟩ | ⟨-, window, columns, -, hcarried, rfl⟩ := byReversal_cases hs
  · exact h.first
  · exact h.restored (h.innermost (silent_of_carried h.order hcarried) window)

/-- **A page shows the slots of its condition, in whatever way it is cut.** -/
theorem IsShown.page (h : p.IsShown k ss) {method : PageMethod} {s : Select}
    (hs : method.page p = .ok s) : s.IsShown k ss := by
  cases method with
  | offset => exact h.byOffset hs
  | reversal => exact h.byReversal hs

end PageSpec

end EntitySql
