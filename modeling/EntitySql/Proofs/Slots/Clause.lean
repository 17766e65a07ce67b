import EntitySql.Proofs.Slots.Scan
import EntitySql.Proofs.Template

/-!
# Slots of clauses

A reader of the text of a clause meets the slots of its template, in the order of its pieces
(`shown_clauseTemplate`), as long as computed columns hold no marks and no quotes. The slots that
a bind table gains are those that are met for the first time (`eraseDups_slotsOf`).
-/

namespace EntitySql

open Condition Slots

/-! ### Slots of pieces -/

/-- The texts of the slots. -/
def BindTable.texts (t : BindTable) : List String :=
  t.slots.map (·.text)

theorem eraseDups_of_nodup {l : List String} (h : l.Nodup) : l.eraseDups = l := by
  induction l with
  | nil => rfl
  | cons a l ih =>
    obtain ⟨ha, hl⟩ := List.nodup_cons.mp h
    have hfilter : l.filter (fun b => !b == a) = l :=
      List.filter_eq_self.mpr fun b hb => by
        have hne : b ≠ a := fun heq => ha (heq ▸ hb)
        simp [hne]
    rw [List.eraseDups_cons, hfilter, ih hl]

/-- An item that was there before is not a first one. -/
theorem eraseDups_append_cons {first rest : List String} {a : String} (h : a ∈ first) :
    (first ++ a :: rest).eraseDups = (first ++ rest).eraseDups := by
  rw [List.eraseDups_append, List.eraseDups_append, List.cons_removeAll]
  simp [h]

namespace Scope

variable (c : Scope)

/-- The slots in the text of pieces, in order. -/
def slotsOf (c : Scope) : List Piece → BindTable → List String
  | [], _ => []
  | .words _ :: rest, t => c.slotsOf rest t
  | .slot column value :: rest, t =>
    let (slot, u) := t.bind c.dialect column value
    slot.text :: c.slotsOf rest u

theorem slotsOf_append (ps qs : List Piece) (t : BindTable) :
    c.slotsOf (ps ++ qs) t = c.slotsOf ps t ++ c.slotsOf qs (c.fill ps t).2 := by
  induction ps generalizing t with
  | nil => rfl
  | cons p ps ih =>
    cases p with
    | words text => exact ih t
    | slot column value => exact congrArg (_ :: ·) (ih _)

theorem sound_fill {t : BindTable} (h : t.Sound c.dialect) (ps : List Piece) :
    (c.fill ps t).2.Sound c.dialect :=
  h.grows ⟨_, c.fill_snd ps t⟩

/-- The slots of a table are those that it had, and those that were met for the first time. -/
theorem eraseDups_slotsOf (hslots : c.dialect.TellsSlotsApart) {t : BindTable}
    (h : t.Sound c.dialect) (ps : List Piece) :
    (t.texts ++ c.slotsOf ps t).eraseDups = (c.fill ps t).2.texts := by
  induction ps generalizing t with
  | nil =>
    rw [slotsOf, List.append_nil]
    exact eraseDups_of_nodup (h.nodup_texts hslots)
  | cons p ps ih =>
    cases p with
    | words text => exact ih h
    | slot column value =>
      have hrest := ih (h.bind column value)
      rw [slotsOf, fill]
      dsimp only
      obtain ⟨s, hs, -, hbind⟩ | hbind := t.bind_cases c.dialect column value
      · have hmem : s.text ∈ t.texts := List.mem_map_of_mem hs
        rw [hbind] at hrest ⊢
        exact (eraseDups_append_cons hmem).trans hrest
      · rw [hbind] at hrest ⊢
        rw [← hrest, ← List.singleton_append, ← List.append_assoc]
        simp [BindTable.texts]

/-! ### Templates -/

/-- Wherever the template is filled in, its text shows its slots, if it is followed by what ends a
name. -/
def Shown (c : Scope) (marks : Marks) (tm : Template) : Prop :=
  tm.stop? = none → ∀ t : BindTable, t.Sound c.dialect →
    Shows marks (c.fill tm.pieces t).1 (c.slotsOf tm.pieces t)

/-- Wherever the template is filled in, its text shows its slots, whatever follows it. -/
def Passed (c : Scope) (marks : Marks) (tm : Template) : Prop :=
  tm.stop? = none → ∀ t : BindTable, t.Sound c.dialect →
    Passes marks (c.fill tm.pieces t).1 (c.slotsOf tm.pieces t)

variable {c} {marks : Marks} {a b : Template}

theorem Passed.shown (h : c.Passed marks a) : c.Shown marks a :=
  fun hstop t ht => (h hstop t ht).shows

theorem shown_fail (e : SqlError) : c.Shown marks (.fail e) :=
  nofun

theorem passed_words (hd : IsScannable c.dialect marks) {text : String}
    (h : isUnmarked text = true) : c.Passed marks (.words text) := by
  intro _ t _
  rw [Template.words, fill, fill, String.append_empty]
  exact passes_of_isUnmarked hd h

theorem shown_words {text : String} (h : Shows marks text []) : c.Shown marks (.words text) := by
  intro _ t _
  rw [Template.words, fill, fill, String.append_empty]
  exact h

theorem shown_slot (hd : IsScannable c.dialect marks) (column : String) (value : Value) :
    c.Shown marks (.slot column value) := by
  intro _ t ht
  obtain ⟨hmem, -⟩ := t.bind_mem c.dialect column value
  have hsound := ht.bind column value
  have hslot : Shows marks (t.bind c.dialect column value).1.text
      [(t.bind c.dialect column value).1.text] := by
    rw [hsound.texts _ hmem]
    exact shows_slotText hd (hsound.spelled _ hmem).1 _
  have hfill : (c.fill (Template.slot column value).pieces t).1
      = (t.bind c.dialect column value).1.text := String.append_empty
  rw [hfill]
  exact hslot

theorem Passed.append_shown (ha : c.Passed marks a) (hb : c.Shown marks b) :
    c.Shown marks (a ++ b) := by
  intro hstop t ht
  obtain ⟨hstopa, hstopb⟩ := Template.stop?_append_eq_none.mp hstop
  rw [Template.pieces_append hstopa, fill_append, slotsOf_append]
  exact (ha hstopa t ht).append_shows (hb hstopb _ (c.sound_fill ht _))

/-- A template goes on with a text that may stand after a name. -/
theorem Shown.joint (hd : IsScannable c.dialect marks) (ha : c.Shown marks a) {text : String}
    (h : isJoint text = true) : c.Passed marks (a ++ .words text) := by
  intro hstop t ht
  have hstopa := (Template.stop?_append_eq_none.mp hstop).1
  rw [Template.pieces_append hstopa, fill_append, slotsOf_append, Template.words, fill, fill]
  dsimp only
  rw [String.append_empty, slotsOf, slotsOf, List.append_nil]
  exact (ha hstopa t ht).joint hd h

theorem shown_join (hd : IsScannable c.dialect marks) {separator : String}
    (hseparator : isJoint separator = true) {ts : List Template} (h : ∀ tm ∈ ts, c.Shown marks tm) :
    c.Shown marks (.join separator ts) := by
  induction ts with
  | nil => exact fun _ _ _ _ _ => rfl
  | cons tm rest ih =>
    have htm := h tm List.mem_cons_self
    cases rest with
    | nil => exact htm
    | cons u rest =>
      exact (htm.joint hd hseparator).append_shown (ih fun v hv => h v (List.mem_cons_of_mem _ hv))

end Scope

/-! ### Columns -/

/-- The computed columns of the map hold no marks of slots, no quotes of names and no brackets. -/
def EntityMap.HasUnmarkedColumns (m : EntityMap) (d : Dialect) : Prop :=
  ∀ f ∈ m.fields, f.column.isPersisted = true → d.isPlain f.column.name = false →
    isUnmarked f.column.name = true

namespace Scope

variable {c : Scope} {marks : Marks}

theorem isUnmarked_of_resolve (hm : c.map.HasUnmarkedColumns c.dialect) {e : Expr} {f : MappedField}
    (h : c.resolve e = .ok f) (hplain : c.dialect.isPlain f.column.name = false) :
    isUnmarked f.column.name = true := by
  obtain ⟨hmem, hpersisted⟩ := mem_fields_of_resolve h
  exact hm f hmem hpersisted hplain

/-- The column of a field, quoted or computed, shows no slots. -/
theorem shows_columnSql (hd : IsScannable c.dialect marks) (hm : c.map.HasUnmarkedColumns c.dialect)
    {e : Expr} {f : MappedField} (hf : c.resolve e = .ok f) :
    Shows marks (c.columnSql f) [] := by
  rw [columnSql, selectItem]
  cases hplain : c.dialect.isPlain f.column.name with
  | true => exact shows_quote hd f.column.name
  | false => exact (passes_of_isUnmarked hd (isUnmarked_of_resolve hm hf hplain)).shows

theorem shown_onField {e : Expr} {k : MappedField → Template}
    (h : ∀ f, c.resolve e = .ok f → c.Shown marks (k f)) : c.Shown marks (c.onField e k) := by
  rw [onField]
  cases hresolve : c.resolve e with
  | ok f => exact h f hresolve
  | error error => exact shown_fail error

/-! ### Clauses -/

section

variable (hd : IsScannable c.dialect marks) (hm : c.map.HasUnmarkedColumns c.dialect)

include hd hm

theorem shown_operandTemplate (column : String) (clause : ClauseKind) (e : Expr) :
    c.Shown marks (c.operandTemplate column clause e) := by
  fun_induction operandTemplate c column clause e with
  | case1 owner name => exact shown_onField fun f hf => shown_words (shows_columnSql hd hm hf)
  | case2 value => exact shown_slot hd column value
  | case3 inner ih => exact ih
  | case4 op left right hop ihl ihr =>
    have hop : isJoint (" " ++ op.text ++ " ") = true := by cases op <;> rfl
    have hopening : c.Passed marks (.words "(") := passed_words hd rfl
    have hleft := (hopening.append_shown ihl).joint hd hop
    exact ((hleft.append_shown ihr).joint hd rfl).shown
  | case5 op left right hop => exact shown_fail _
  | case6 e => exact shown_fail _

theorem shown_comparisonTemplate (op : Operator) (left right : Expr) :
    c.Shown marks (c.comparisonTemplate op left right) := by
  rw [comparisonTemplate]
  split
  · have htest : isJoint (if op = .eq then " IS NULL" else " IS NOT NULL") = true := by
      cases op <;> rfl
    exact ((shown_operandTemplate hd hm _ _ _).joint hd htest).shown
  · have hop : isJoint (" " ++ op.text ++ " ") = true := by cases op <;> rfl
    exact ((shown_operandTemplate hd hm _ _ left).joint hd hop).append_shown
      (shown_operandTemplate hd hm _ _ right)

theorem shown_flagTemplate (member : Expr) (expected : Bool) :
    c.Shown marks (c.flagTemplate member expected) :=
  shown_onField fun _ hf => ((shown_words (shows_columnSql hd hm hf)).joint hd rfl).append_shown
    (shown_slot hd _ _)

theorem shown_membershipTemplate (member : Expr) (values : List Value) :
    c.Shown marks (c.membershipTemplate member values) := by
  refine shown_onField fun f hf => ?_
  cases values with
  | nil => exact (passed_words hd rfl).shown
  | cons value rest =>
    have hslots : c.Shown marks (.join ", " ((value :: rest).map (.slot f.column.name))) := by
      refine shown_join hd rfl fun tm htm => ?_
      obtain ⟨v, -, rfl⟩ := List.mem_map.mp htm
      exact shown_slot hd f.column.name v
    have hin : isJoint " IN (" = true := rfl
    have hcolumn := (shown_words (shows_columnSql hd hm hf)).joint hd hin
    exact ((hcolumn.append_shown hslots).joint hd rfl).shown

theorem shown_matchTemplate (method : Callee) (member : Expr) (text : String) :
    c.Shown marks (c.matchTemplate method member text) := by
  refine shown_onField fun f hf => ?_
  have hlike : isJoint " LIKE " = true := rfl
  have hcolumn := (shown_words (shows_columnSql hd hm hf)).joint hd hlike
  exact ((hcolumn.append_shown (shown_slot hd _ _)).joint hd rfl).shown

theorem shown_callTemplate (method : Callee) (target : Expr) (args : List Expr) :
    c.Shown marks (c.callTemplate method target args) := by
  cases args with
  | nil => exact shown_fail _
  | cons arg rest =>
    rw [callTemplate]
    cases CallForm.of method target arg with
    | comparison => exact shown_comparisonTemplate hd hm .eq target arg
    | membership values => exact shown_membershipTemplate hd hm arg.unconverted values
    | textMatch owner name text => exact shown_matchTemplate hd hm method (.member owner name) text
    | badArgument => exact shown_fail _
    | refused => exact shown_fail _

theorem shown_conditionTemplate (e : Expr) : c.Shown marks (c.conditionTemplate e) := by
  fun_induction conditionTemplate c e with
  | case1 params body ih => exact ih
  | case2 inner ih => exact ih
  | case3 op left right hop ihl ihr =>
    have hop : isJoint (" " ++ op.text ++ " ") = true := by cases op <;> rfl
    have hopening : c.Passed marks (.words "(") := passed_words hd rfl
    have hleft := (hopening.append_shown ihl).joint hd hop
    exact ((hleft.append_shown ihr).joint hd rfl).shown
  | case4 op left right hop hcmp => exact shown_comparisonTemplate hd hm op left right
  | case5 op left right hop hcmp => exact shown_fail _
  | case6 owner name => exact shown_flagTemplate hd hm _ _
  | case7 owner name => exact shown_flagTemplate hd hm _ _
  | case8 inner hinner ih => exact (((passed_words hd rfl).append_shown ih).joint hd rfl).shown
  | case9 method target args => exact shown_callTemplate hd hm method target args
  | case10 => exact (passed_words hd rfl).shown
  | case11 => exact (passed_words hd rfl).shown
  | case12 e => exact shown_fail _

theorem shown_setTemplate (target value : Expr) : c.Shown marks (c.setTemplate target value) := by
  refine shown_onField fun f hf => ?_
  split
  · exact ((shown_words (shows_quote hd _)).joint hd rfl).append_shown
      (shown_operandTemplate hd hm _ _ value)
  · exact shown_fail _

end

mutual

theorem shown_assignmentTemplates (hd : IsScannable c.dialect marks)
    (hm : c.map.HasUnmarkedColumns c.dialect) :
    ∀ e : Expr, ∀ tm ∈ c.assignmentTemplates e, c.Shown marks tm
  | .lambda _ body => shown_assignmentTemplates hd hm body
  | .record items => shown_allAssignmentTemplates hd hm items
  | .assign target value => by
    intro tm htm
    obtain rfl := List.mem_singleton.mp htm
    exact shown_setTemplate hd hm target value
  | .parameter _ | .member _ _ | .constant _ | .convert _ | .not _ | .binary _ _ _
  | .call _ _ _ | .conditional _ _ _ => by
    intro tm htm
    obtain rfl := List.mem_singleton.mp htm
    exact shown_fail _

theorem shown_allAssignmentTemplates (hd : IsScannable c.dialect marks)
    (hm : c.map.HasUnmarkedColumns c.dialect) :
    ∀ es : List Expr, ∀ tm ∈ c.allAssignmentTemplates es, c.Shown marks tm
  | [] => nofun
  | e :: es => by
    intro tm htm
    obtain h | h := List.mem_append.mp htm
    · exact shown_assignmentTemplates hd hm e tm h
    · exact shown_allAssignmentTemplates hd hm es tm h

end

/-- **A reader of a clause meets the slots of its template.** -/
theorem shown_clauseTemplate (hd : IsScannable c.dialect marks)
    (hm : c.map.HasUnmarkedColumns c.dialect) (k : BindingClause) :
    c.Shown marks (c.clauseTemplate k) := by
  cases k with
  | filter e => exact shown_conditionTemplate hd hm e
  | assignment e =>
    have hcomma : isJoint ", " = true := rfl
    exact shown_join hd hcomma (shown_assignmentTemplates hd hm e)

end Scope

end EntitySql
