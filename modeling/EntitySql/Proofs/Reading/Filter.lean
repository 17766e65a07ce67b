import EntitySql.Proofs.Reading.Select
import EntitySql.Proofs.Slots.Draft

/-!
# Conditions inside a select

The condition of a filter is a fragment of a statement (`Scope.isFragment_filterSql`): however the
filter is nested, no word of its text starts a clause or separates items, because operators are
words of their own and lists of values stand in parentheses. The only assumption is that computed
columns are fragments too (`EntityMap.HasLegibleColumns`).

The proof goes over the template of the filter. `Scope.Writes c P tm` says that the text of a
template has a property wherever it is filled in.
-/

namespace EntitySql

open Condition

/-! ### Fragments -/

section Fragments

variable {k : Marks} (hk : k.QuotesWords) {a b : String}

theorem IsFragment.spaced (ha : IsFragment k a) (hb : IsFragment k b) :
    IsFragment k (a ++ " " ++ b) := by
  obtain ⟨as, has, hafree⟩ := ha
  obtain ⟨bs, hbs, hbfree⟩ := hb
  exact ⟨as ++ bs, (has.append hbs).of_toList (by simp),
    List.forall_mem_append.mpr ⟨hafree, hbfree⟩⟩

include hk

theorem isFragment_of_isOrdinary (ws : List String) (htext : (" " ++ a).toList = ws.flatMap spaced)
    (hws : ws.all isOrdinary = true) (hfree : ∀ w ∈ ws, isReserved w = false) : IsFragment k a :=
  ⟨ws, .of_isOrdinary hk htext hws, hfree⟩

theorem HasWords.isFragment_paren {ws : List String} (h : HasWords k (" " ++ a) ws) :
    IsFragment k ("(" ++ a ++ ")") := by
  have htext : ("(" ++ a ++ ")").toList = '(' :: (a.toList ++ [')']) := by simp
  exact (isName_of_toList (h.isWord_paren hk) htext (by decide)).isFragment hk

end Fragments

/-! ### Computed columns -/

/-- A quoted name is a name. -/
theorem isName_quote {d : Dialect} {k : Marks} (hd : IsScannable d k) (name : String) :
    IsName k (d.quote name) := by
  have htext := hd.quotes.toList_append name []
  rw [List.append_nil] at htext
  refine isName_of_toList (isWord_quote hd.quotes name) htext ?_
  rcases hd.openQuote with h | h <;> rw [h] <;> decide

/-- A slot is a name. -/
theorem isName_slotText {d : Dialect} {k : Marks} (hd : IsScannable d k) {name : String}
    (hname : IsSpelled name) (ordinal : Nat) : IsName k (d.slotText name ordinal) := by
  obtain ⟨run, -, htext⟩ := hd.slots name ordinal hname
  refine isName_of_toList (isWord_slotText hd hname ordinal) htext ?_
  rcases hd.slot with h | h | h <;> rw [h] <;> decide

/-- The computed columns of the map are fragments of a statement. -/
def EntityMap.HasLegibleColumns (m : EntityMap) (d : Dialect) (k : Marks) : Prop :=
  ∀ f ∈ m.fields, f.column.isPersisted = true → d.isPlain f.column.name = false →
    IsFragment k f.column.name ∧ f.column.name ≠ "*"

namespace Scope

variable {c : Scope} {k : Marks}

/-- The column of a stored field is a fragment, and does not stand for every column. -/
theorem isFragment_columnSql (hd : IsScannable c.dialect k)
    (hm : c.map.HasLegibleColumns c.dialect k) {f : MappedField} (hf : f ∈ c.map.fields)
    (hpersisted : f.column.isPersisted = true) :
    IsFragment k (c.columnSql f) ∧ c.columnSql f ≠ "*" := by
  rw [columnSql, selectItem]
  cases hplain : c.dialect.isPlain f.column.name with
  | true =>
    have hname := isName_quote hd f.column.name
    exact ⟨hname.isFragment hd.quotesWords, hname.single⟩
  | false => exact hm f hf hpersisted hplain

/-! ### Texts of templates -/

/-- Wherever the template is filled in, its text has the property. -/
def Writes (c : Scope) (P : String → Prop) (tm : Template) : Prop :=
  tm.stop? = none → ∀ t : BindTable, t.Sound c.dialect → P (c.fill tm.pieces t).1

section Writes

variable {P Q R : String → Prop} {a b : Template}

theorem writes_fail (e : SqlError) : c.Writes P (.fail e) :=
  nofun

theorem writes_words {text : String} (h : P text) : c.Writes P (.words text) := by
  intro _ t _
  rw [Template.words, fill, fill, String.append_empty]
  exact h

theorem Writes.append (ha : c.Writes P a) (hb : c.Writes Q b)
    (h : ∀ x y, P x → Q y → R (x ++ y)) : c.Writes R (a ++ b) := by
  intro hstop t ht
  obtain ⟨hstopa, hstopb⟩ := Template.stop?_append_eq_none.mp hstop
  rw [Template.pieces_append hstopa, fill_append]
  exact h _ _ (ha hstopa t ht) (hb hstopb _ (c.sound_fill ht _))

theorem writes_onField {e : Expr} {tm : MappedField → Template}
    (h : ∀ f, c.resolve e = .ok f → c.Writes P (tm f)) : c.Writes P (c.onField e tm) := by
  rw [onField]
  cases hresolve : c.resolve e with
  | ok f => exact h f hresolve
  | error error => exact writes_fail error

end Writes

section Parts

variable {a b : Template} {word joint : String}

/-- Two fragments with a word between them. -/
theorem Writes.infixed (ha : c.Writes (IsFragment k) a) (hb : c.Writes (IsFragment k) b)
    (hword : IsFragment k word) (hjoint : joint = " " ++ word ++ " ") :
    c.Writes (IsFragment k) (a ++ .words joint ++ b) := by
  have hleft : c.Writes (fun x => ∃ y, IsFragment k y ∧ x = y ++ " ") (a ++ .words joint) := by
    refine ha.append (writes_words (P := (· = joint)) rfl) ?_
    rintro x _ hx rfl
    exact ⟨x ++ " " ++ word, hx.spaced hword, by rw [hjoint]; simp only [String.append_assoc]⟩
  refine hleft.append hb ?_
  rintro _ y ⟨x, hx, rfl⟩ hy
  exact hx.spaced hy

/-- A fragment with a word after it. -/
theorem Writes.suffixed (ha : c.Writes (IsFragment k) a) (hword : IsFragment k word)
    (hjoint : joint = " " ++ word) : c.Writes (IsFragment k) (a ++ .words joint) := by
  refine ha.append (writes_words (P := (· = joint)) rfl) ?_
  rintro x _ hx rfl
  rw [hjoint, ← String.append_assoc]
  exact hx.spaced hword

/-- The text ends with an opening parenthesis, after a fragment or at once. -/
def Opens (k : Marks) (text : String) : Prop :=
  text = "(" ∨ ∃ front, IsFragment k front ∧ text = front ++ " ("

/-- Words in parentheses are a fragment, also after another one. -/
theorem Writes.closed (hk : k.QuotesWords) (ha : c.Writes (Opens k) a)
    (hb : c.Writes (fun x => ∃ ws, HasWords k (" " ++ x) ws) b) :
    c.Writes (IsFragment k) (a ++ b ++ .words ")") := by
  have hopened : c.Writes (fun x => IsFragment k (x ++ ")")) (a ++ b) := by
    refine ha.append hb ?_
    rintro _ y (rfl | ⟨front, hfront, rfl⟩) ⟨ws, hws⟩
    · exact hws.isFragment_paren hk
    · have hall := hfront.spaced (hws.isFragment_paren hk)
      have htext : front ++ " " ++ ("(" ++ y ++ ")") = front ++ " (" ++ y ++ ")" := by
        rw [← String.toList_inj]
        simp
      exact htext ▸ hall
  refine hopened.append (writes_words (P := (· = ")")) rfl) ?_
  rintro x _ hx rfl
  exact hx

/-- A fragment is made of words. -/
theorem Writes.words (ha : c.Writes (IsFragment k) a) :
    c.Writes (fun x => ∃ ws, HasWords k (" " ++ x) ws) a := fun hstop t ht =>
  let ⟨ws, hws, _⟩ := ha hstop t ht
  ⟨ws, hws⟩

end Parts

/-! ### Conditions -/

section Conditions

variable (hd : IsScannable c.dialect k)

include hd

theorem writes_slot (column : String) (value : Value) :
    c.Writes (IsFragment k) (.slot column value) := by
  intro _ t ht
  obtain ⟨hmem, -⟩ := t.bind_mem c.dialect column value
  have hsound := ht.bind column value
  have hfill : (c.fill (Template.slot column value).pieces t).1
      = (t.bind c.dialect column value).1.text := String.append_empty
  rw [hfill, hsound.texts _ hmem]
  exact (isName_slotText hd (hsound.spelled _ hmem).1 _).isFragment hd.quotesWords

/-- Slots with commas between them are words. -/
theorem writes_slots {column : String} {values : List Value} (hne : values ≠ []) :
    c.Writes (fun x => ∃ ws, HasWords k (" " ++ x) ws)
      (.join ", " (values.map (.slot column))) := by
  induction values with
  | nil => exact absurd rfl hne
  | cons value rest ih =>
    have hslot := (writes_slot hd column value).words
    cases rest with
    | nil => exact hslot
    | cons next rest =>
      have hfirst : c.Writes (fun x => ∃ y ws, HasWords k (" " ++ y) ws ∧ x = y ++ ", ")
          (.slot column value ++ .words ", ") := by
        refine hslot.append (writes_words (P := (· = ", ")) rfl) ?_
        rintro x _ ⟨ws, hws⟩ rfl
        exact ⟨x, ws, hws, rfl⟩
      refine hfirst.append (ih (List.cons_ne_nil next rest)) ?_
      rintro _ y ⟨x, ws, hws, rfl⟩ ⟨vs, hvs⟩
      exact ⟨_, ((hws.append .comma).append hvs).of_toList (by simp)⟩

theorem isFragment_operator (op : Operator) : IsFragment k op.text := by
  refine isFragment_of_isOrdinary hd.quotesWords [op.text] ?_ ?_ ?_ <;> cases op <;> decide

variable (hm : c.map.HasLegibleColumns c.dialect k)

include hm

theorem writes_columnSql {e : Expr} {f : MappedField} (hf : c.resolve e = .ok f) :
    c.Writes (IsFragment k) (.words (c.columnSql f)) := by
  obtain ⟨hmem, hpersisted⟩ := mem_fields_of_resolve hf
  exact writes_words (isFragment_columnSql hd hm hmem hpersisted).1

theorem writes_operandTemplate (column : String) (clause : ClauseKind) (e : Expr) :
    c.Writes (IsFragment k) (c.operandTemplate column clause e) := by
  fun_induction operandTemplate c column clause e with
  | case1 owner name => exact writes_onField fun f hf => writes_columnSql hd hm hf
  | case2 value => exact writes_slot hd column value
  | case3 inner ih => exact ih
  | case4 op left right hop ihl ihr =>
    have hinner := ihl.infixed ihr (isFragment_operator hd op) rfl
    have hall := (writes_words (.inl rfl)).closed hd.quotesWords hinner.words
    simpa only [Template.append_assoc] using hall
  | case5 op left right hop => exact writes_fail _
  | case6 e => exact writes_fail _

theorem writes_comparisonTemplate (op : Operator) (left right : Expr) :
    c.Writes (IsFragment k) (c.comparisonTemplate op left right) := by
  rw [comparisonTemplate]
  split
  · have hoperand := writes_operandTemplate hd hm (c.comparisonColumn left right) .predicate
      (if right.isNullLiteral then left else right)
    have hnull : IsFragment k "IS NULL" :=
      isFragment_of_isOrdinary hd.quotesWords ["IS", "NULL"] rfl rfl (by decide)
    have hnotNull : IsFragment k "IS NOT NULL" :=
      isFragment_of_isOrdinary hd.quotesWords ["IS", "NOT", "NULL"] rfl rfl (by decide)
    rw [nullTestTemplate]
    by_cases hop : op = .eq
    · rw [if_pos hop]
      exact hoperand.suffixed hnull rfl
    · rw [if_neg hop]
      exact hoperand.suffixed hnotNull rfl
  · exact (writes_operandTemplate hd hm _ _ left).infixed (writes_operandTemplate hd hm _ _ right)
      (isFragment_operator hd op) rfl

theorem writes_flagTemplate (member : Expr) (expected : Bool) :
    c.Writes (IsFragment k) (c.flagTemplate member expected) :=
  writes_onField fun _ hf => (writes_columnSql hd hm hf).infixed (writes_slot hd _ _)
    (isFragment_operator hd .eq) rfl

theorem writes_membershipTemplate (member : Expr) (values : List Value) :
    c.Writes (IsFragment k) (c.membershipTemplate member values) := by
  refine writes_onField fun f hf => ?_
  cases values with
  | nil =>
    exact writes_words
      (isFragment_of_isOrdinary hd.quotesWords ["1", "=", "0"] rfl rfl (by decide))
  | cons value rest =>
    have hin : IsFragment k "IN" :=
      isFragment_of_isOrdinary hd.quotesWords ["IN"] rfl rfl (by decide)
    have hopens : c.Writes (Opens k) (.words (c.columnSql f) ++ .words " IN (") := by
      refine (writes_columnSql hd hm hf).append (writes_words (P := (· = " IN (")) rfl) ?_
      rintro x _ hx rfl
      refine .inr ⟨x ++ " " ++ "IN", hx.spaced hin, ?_⟩
      rw [← String.toList_inj]
      simp
    exact hopens.closed hd.quotesWords (writes_slots hd (List.cons_ne_nil value rest))

theorem writes_matchTemplate (method : Callee) (member : Expr) (text : String) :
    c.Writes (IsFragment k) (c.matchTemplate method member text) := by
  refine writes_onField fun f hf => ?_
  have hlike : IsFragment k "LIKE" :=
    isFragment_of_isOrdinary hd.quotesWords ["LIKE"] rfl rfl (by decide)
  have hescape : IsFragment k "ESCAPE '\\'" :=
    isFragment_of_isOrdinary hd.quotesWords ["ESCAPE", "'\\'"] rfl rfl (by decide)
  exact ((writes_columnSql hd hm hf).infixed (writes_slot hd _ _) hlike rfl).suffixed hescape rfl

theorem writes_callTemplate (method : Callee) (target : Expr) (args : List Expr) :
    c.Writes (IsFragment k) (c.callTemplate method target args) := by
  cases args with
  | nil => exact writes_fail _
  | cons arg rest =>
    rw [callTemplate]
    cases CallForm.of method target arg with
    | comparison => exact writes_comparisonTemplate hd hm .eq target arg
    | membership values => exact writes_membershipTemplate hd hm arg.unconverted values
    | textMatch owner name text =>
      exact writes_matchTemplate hd hm method (.member owner name) text
    | badArgument => exact writes_fail _
    | refused => exact writes_fail _

/-- Wherever it is filled in, the template of a condition writes a fragment. -/
theorem writes_conditionTemplate (e : Expr) :
    c.Writes (IsFragment k) (c.conditionTemplate e) := by
  have hconstant : IsFragment k "1 = 1" ∧ IsFragment k "1 = 0" :=
    ⟨isFragment_of_isOrdinary hd.quotesWords ["1", "=", "1"] rfl rfl (by decide),
      isFragment_of_isOrdinary hd.quotesWords ["1", "=", "0"] rfl rfl (by decide)⟩
  fun_induction conditionTemplate c e with
  | case1 params body ih => exact ih
  | case2 inner ih => exact ih
  | case3 op left right hop ihl ihr =>
    have hinner := ihl.infixed ihr (isFragment_operator hd op) rfl
    have hall := (writes_words (.inl rfl)).closed hd.quotesWords hinner.words
    simpa only [Template.append_assoc] using hall
  | case4 op left right hop hcmp => exact writes_comparisonTemplate hd hm op left right
  | case5 op left right hop hcmp => exact writes_fail _
  | case6 owner name => exact writes_flagTemplate hd hm _ _
  | case7 owner name => exact writes_flagTemplate hd hm _ _
  | case8 inner hinner ih =>
    have hnot : IsFragment k "NOT" :=
      isFragment_of_isOrdinary hd.quotesWords ["NOT"] rfl rfl (by decide)
    exact (writes_words (.inr ⟨"NOT", hnot, rfl⟩)).closed hd.quotesWords ih.words
  | case9 method target args => exact writes_callTemplate hd hm method target args
  | case10 => exact writes_words hconstant.1
  | case11 => exact writes_words hconstant.2
  | case12 e => exact writes_fail _

/-- **The condition of a filter is a fragment.** -/
theorem isFragment_filterSql {e : Expr} {d d' : Draft} (hsound : d.binds.Sound c.dialect)
    {filter : Option String} (h : c.filterSql e d = .ok filter d') :
    ∀ text ∈ filter, IsFragment k text := by
  obtain ⟨text, rfl, htext⟩ := filterSql_ok c h
  rw [conditionText_eq] at htext
  obtain ⟨hstop, hfill⟩ := write_eq_ok.mp htext
  have hfragment := writes_conditionTemplate hd hm e hstop d.binds hsound
  rw [hfill] at hfragment
  rintro _ ⟨⟩
  exact hfragment

end Conditions

end Scope

end EntitySql
