import EntitySql.Proofs.ClauseCall
import EntitySql.Proofs.Condition.Scan
import EntitySql.Proofs.Template

/-!
# Conversions in operands

An operand is written as if it had no conversions, and the column that a comparison is about is
found through them (`operandTemplate_bare`, `subjectColumn?_bare`). So a comparison does not change
when conversions are put around its operands, or anywhere inside them, with one exception. An
equality with a null literal is a test for null, and a null below a conversion is no literal.

The main statement, `filterSql_converted`, says that this is the only exception: the text and the
slots stay what they were exactly if the conversions neither hide the last null literal of an
equality or an inequality nor bring out the first. That the texts do differ otherwise is seen by
counting: a test for null has one sign of the operator less, whatever the operands and the slots
hold.
-/

namespace EntitySql

open Condition

/-! ### Operands without conversions -/

/-- The operand without its conversions. -/
def Expr.bare : Expr → Expr
  | .convert inner => inner.bare
  | .binary op left right => .binary op left.bare right.bare
  | e => e

namespace Scope

variable (c : Scope)

theorem subjectColumn?_bare : ∀ e : Expr, c.subjectColumn? e.bare = c.subjectColumn? e
  | .convert inner => subjectColumn?_bare inner
  | .binary op left right => by
    rw [Expr.bare, subjectColumn?, subjectColumn?, subjectColumn?_bare left,
      subjectColumn?_bare right]
  | .parameter _ | .member _ _ | .constant _ | .not _ | .call _ _ _ | .record _ | .lambda _ _
  | .assign _ _ | .conditional _ _ _ => rfl

theorem operandTemplate_bare (column : String) (clause : ClauseKind) :
    ∀ e : Expr, c.operandTemplate column clause e.bare = c.operandTemplate column clause e
  | .convert inner => operandTemplate_bare column clause inner
  | .binary op left right => by
    rw [Expr.bare, operandTemplate, operandTemplate, operandTemplate_bare column clause left,
      operandTemplate_bare column clause right]
  | .parameter _ | .member _ _ | .constant _ | .not _ | .call _ _ _ | .record _ | .lambda _ _
  | .assign _ _ | .conditional _ _ _ => rfl

variable {l r l' r' : Expr}

theorem comparisonColumn_congr (hl : l'.bare = l.bare) (hr : r'.bare = r.bare) :
    c.comparisonColumn l' r' = c.comparisonColumn l r := by
  rw [comparisonColumn, comparisonColumn, ← c.subjectColumn?_bare l', ← c.subjectColumn?_bare r',
    hl, hr, subjectColumn?_bare, subjectColumn?_bare]

theorem operandTemplate_congr (column : String) (clause : ClauseKind) (h : l'.bare = l.bare) :
    c.operandTemplate column clause l' = c.operandTemplate column clause l := by
  rw [← operandTemplate_bare, h, operandTemplate_bare]

theorem operandTemplate_null (column : String) (clause : ClauseKind) (h : l.isNullLiteral = true) :
    c.operandTemplate column clause l = .slot column .null := by
  rw [Expr.eq_null_of_isNullLiteral h]
  rfl

end Scope

/-! ### Counting a character -/

namespace Template

variable {a b : Template}

/-- How often a character stands in the words of the template. -/
def count (x : Char) (t : Template) : Nat :=
  List.count x <| t.pieces.flatMap fun
    | .words text => text.toList
    | .slot _ _ => []

theorem count_words (x : Char) (text : String) : (words text).count x = text.toList.count x := by
  simp [count, words]

theorem count_append (x : Char) (h : a.stop? = none) :
    (a ++ b).count x = a.count x + b.count x := by
  rw [count, pieces_append h]
  simp [count]

end Template

namespace Scope

variable {c : Scope} {marks : Marks} {t : BindTable}

/-- Slots hold neither other signs than their mark nor blanks, so a sign is counted in the words
alone. -/
theorem count_fill (hslots : c.dialect.SlotsBy marks) {x : Char} (hmark : x ≠ marks.slot)
    (hx : isNameRest x = false) (ht : t.Sound c.dialect) (tm : Template) :
    (c.fill tm.pieces t).1.toList.count x = tm.count x := by
  rw [Template.count]
  generalize tm.pieces = ps
  induction ps generalizing t with
  | nil => rfl
  | cons p ps ih =>
    cases p with
    | words text => simp [fill, ih ht]
    | slot column value =>
      have hsound := ht.bind column value
      obtain ⟨hmem, -⟩ := t.bind_mem c.dialect column value
      have hslot : (t.bind c.dialect column value).1.text.toList.count x = 0 := by
        obtain ⟨run, hrun, htext⟩ :=
          hslots _ (t.bind c.dialect column value).1.ordinal (hsound.spelled _ hmem).1
        rw [hsound.texts _ hmem, htext, List.count_eq_zero, List.mem_cons]
        rintro (h | h)
        · exact hmark h
        · rw [hrun x h] at hx
          cases hx
      simp [fill, ih hsound, hslot]

end Scope

/-! ### Comparisons -/

/-- The comparison is written as a test for null. -/
def IsNullTest (op : Operator) (l r : Expr) : Prop :=
  (op = .eq ∨ op = .ne) ∧ (l.isNullLiteral || r.isNullLiteral) = true

/-- A comparison as a filter: with an operator, or as a call on the left operand. -/
inductive ComparisonForm where
  | operator (op : Operator) (isComparison : op.isComparison = true)
  /-- An equality. A call may have more arguments, which are not looked at. -/
  | equals (more : List Expr)

namespace ComparisonForm

/-- The operator of the comparison. -/
def op : ComparisonForm → Operator
  | .operator op _ => op
  | .equals _ => .eq

/-- The comparison of two operands. -/
def filter : ComparisonForm → Expr → Expr → Expr
  | .operator op _, l, r => .binary op l r
  | .equals more, l, r => .call .equals l (r :: more)

end ComparisonForm

namespace Scope

variable {c : Scope} {marks : Marks} {t : BindTable} {op : Operator} {l r l' r' : Expr}

/-- A comparison as a filter is written by its template. -/
theorem filterSql_form_result (c : Scope) (form : ComparisonForm) (l r : Expr) (d : Draft) :
    (c.filterSql (form.filter l r)).result d =
      let tm := c.comparisonTemplate form.op l r
      let filled := c.fill tm.pieces d.binds
      (tm.outcome (some filled.1), filled.2) := by
  have hcondition : c.conditionTemplate (form.filter l r) = c.comparisonTemplate form.op l r := by
    cases form with
    | operator op hop =>
      have hlogical : ¬ op.isLogical = true := by cases op <;> first | decide | cases hop
      rw [ComparisonForm.filter, conditionTemplate, if_neg hlogical, if_pos hop]
      rfl
    | equals more => rfl
  have hresult := c.clauseSql_result (.filter (form.filter l r)) d
  rw [clauseTemplate, clauseTemplates, Template.join, hcondition] at hresult
  exact hresult

theorem comparisonTemplate_of_isNullTest (h : IsNullTest op l r) :
    c.comparisonTemplate op l r =
      c.nullTestTemplate op (c.comparisonColumn l r) (if r.isNullLiteral then l else r) := by
  rw [comparisonTemplate]
  exact if_pos h

theorem comparisonTemplate_of_not (h : ¬ IsNullTest op l r) :
    c.comparisonTemplate op l r =
      c.operandTemplate (c.comparisonColumn l r) .predicate l ++ .words (" " ++ op.text ++ " ")
        ++ c.operandTemplate (c.comparisonColumn l r) .predicate r := by
  rw [comparisonTemplate]
  exact if_neg h

/-- Conversions do not change what is written if they leave a test for null one, and any other
comparison another. -/
theorem comparisonTemplate_congr (hl : l'.bare = l.bare) (hr : r'.bare = r.bare)
    (h : IsNullTest op l' r' ↔ IsNullTest op l r) :
    c.comparisonTemplate op l' r' = c.comparisonTemplate op l r := by
  have hcolumn := c.comparisonColumn_congr hl hr
  generalize hk : c.comparisonColumn l r = column at hcolumn
  by_cases hnull : IsNullTest op l r
  · rw [comparisonTemplate_of_isNullTest (h.mpr hnull), comparisonTemplate_of_isNullTest hnull,
      hcolumn, hk, nullTestTemplate, nullTestTemplate]
    congr 1
    -- if it is not the same operand that is tested, both of them are null
    have htested : ∀ {e e' : Expr}, (e.isNullLiteral || e'.isNullLiteral) = true →
        ¬ e'.isNullLiteral = true → e.isNullLiteral = true := fun h h' => by simpa [h'] using h
    by_cases hr₁ : r.isNullLiteral = true <;> by_cases hr₂ : r'.isNullLiteral = true
    · rw [if_pos hr₁, if_pos hr₂]
      exact c.operandTemplate_congr column .predicate hl
    · have hl₂ := htested (h.mpr hnull).2 hr₂
      rw [if_pos hr₁, if_neg hr₂, c.operandTemplate_congr column .predicate hr,
        ← c.operandTemplate_congr column _ hl, operandTemplate_null c _ _ hr₁,
        operandTemplate_null c _ _ hl₂]
    · have hl₁ := htested hnull.2 hr₁
      rw [if_neg hr₁, if_pos hr₂, c.operandTemplate_congr column .predicate hl,
        ← c.operandTemplate_congr column _ hr, operandTemplate_null c _ _ hl₁,
        operandTemplate_null c _ _ hr₂]
    · rw [if_neg hr₁, if_neg hr₂]
      exact c.operandTemplate_congr column .predicate hr
  · rw [comparisonTemplate_of_not fun hnull' => hnull (h.mp hnull'),
      comparisonTemplate_of_not hnull, hcolumn, hk, c.operandTemplate_congr column _ hl,
      c.operandTemplate_congr column _ hr]

/-- A test for null holds no sign of the operator, so it differs from any comparison of which it
holds one operand. -/
theorem fill_nullTest_ne (hd : IsScannable c.dialect marks) (ht : t.Sound c.dialect)
    (hop : op = .eq ∨ op = .ne) {s a b : Template} (hs : s.stop? = none) (ha : a.stop? = none)
    (hoperand : s = a ∨ s = b) :
    (c.fill (s ++ .words (if op = .eq then " IS NULL" else " IS NOT NULL")).pieces t).1
      ≠ (c.fill (a ++ .words (" " ++ op.text ++ " ") ++ b).pieces t).1 := by
  intro heq
  have hab : (a ++ .words (" " ++ op.text ++ " ")).stop? = none :=
    Template.stop?_append_eq_none.mpr ⟨ha, rfl⟩
  have hcount : ∀ x : Char, x ≠ marks.slot → isNameRest x = false →
      s.count x + (if op = .eq then " IS NULL" else " IS NOT NULL").toList.count x
        = a.count x + (" " ++ op.text ++ " ").toList.count x + b.count x := by
    intro x hmark hx
    have hcounts := congrArg (fun text : String => text.toList.count x) heq
    rw [count_fill hd.slots hmark hx ht, count_fill hd.slots hmark hx ht,
      Template.count_append x hs, Template.count_append x hab, Template.count_append x ha,
      Template.count_words, Template.count_words] at hcounts
    exact hcounts
  have hle : ∀ x, s.count x ≤ a.count x + b.count x := by
    intro x
    rcases hoperand with rfl | rfl <;> omega
  obtain rfl | rfl := hop
  · have hx := hcount '=' (by rcases hd.slot with h | h | h <;> rw [h] <;> decide) rfl
    have hone : (" " ++ Operator.eq.text ++ " ").toList.count '=' = 1 := rfl
    have hzero : (if Operator.eq = .eq then " IS NULL" else " IS NOT NULL").toList.count '=' = 0 :=
      rfl
    have := hle '='
    omega
  · have hx := hcount '<' (by rcases hd.slot with h | h | h <;> rw [h] <;> decide) rfl
    have hone : (" " ++ Operator.ne.text ++ " ").toList.count '<' = 1 := rfl
    have hzero : (if Operator.ne = .eq then " IS NULL" else " IS NOT NULL").toList.count '<' = 0 :=
      rfl
    have := hle '<'
    omega

/-- A test for null and a comparison of the same operands: if one can be written then so can the
other, and the texts differ. -/
theorem comparisonTemplate_ne (hd : IsScannable c.dialect marks) (ht : t.Sound c.dialect)
    (hl : l'.bare = l.bare) (hr : r'.bare = r.bare) (hnull : IsNullTest op l r)
    (hother : ¬ IsNullTest op l' r') :
    ((c.comparisonTemplate op l r).stop? = none ↔ (c.comparisonTemplate op l' r').stop? = none) ∧
      ((c.comparisonTemplate op l r).stop? = none →
        (c.fill (c.comparisonTemplate op l r).pieces t).1
          ≠ (c.fill (c.comparisonTemplate op l' r').pieces t).1) := by
  rw [comparisonTemplate_of_isNullTest hnull, comparisonTemplate_of_not hother,
    c.comparisonColumn_congr hl hr, c.operandTemplate_congr _ _ hl, c.operandTemplate_congr _ _ hr,
    nullTestTemplate]
  generalize c.comparisonColumn l r = column
  generalize hsubject : c.operandTemplate column .predicate (if r.isNullLiteral then l else r) = s
  generalize hleft : c.operandTemplate column .predicate l = a
  generalize hright : c.operandTemplate column .predicate r = b
  -- the tested operand is one of the two, and the other is a slot for null
  have hcases : (s = a ∧ b = .slot column .null) ∨ (s = b ∧ a = .slot column .null) := by
    by_cases hr₁ : r.isNullLiteral = true
    · rw [if_pos hr₁, hleft] at hsubject
      exact .inl ⟨hsubject.symm, hright ▸ operandTemplate_null c column _ hr₁⟩
    · have hl₁ : l.isNullLiteral = true := by simpa [hr₁] using hnull.2
      rw [if_neg hr₁, hright] at hsubject
      exact .inr ⟨hsubject.symm, hleft ▸ operandTemplate_null c column _ hl₁⟩
  have hstop : (s ++ .words (if op = .eq then " IS NULL" else " IS NOT NULL")).stop? = none ↔
      (a ++ .words (" " ++ op.text ++ " ") ++ b).stop? = none := by
    rw [Template.stop?_append_eq_none, Template.stop?_append_eq_none, Template.stop?_append_eq_none]
    rcases hcases with ⟨rfl, rfl⟩ | ⟨rfl, rfl⟩ <;> simp
  refine ⟨hstop, fun hs => ?_⟩
  have hab := (Template.stop?_append_eq_none.mp (hstop.mp hs)).1
  exact fill_nullTest_ne hd ht hnull.1 (Template.stop?_append_eq_none.mp hs).1
    (Template.stop?_append_eq_none.mp hab).1 (hcases.imp And.left And.left)

end Scope

/-- **Conversions are transparent** in the operands of a comparison, however many there are and
wherever they stand, exactly if they leave a test for null a test for null, and make none out of
another comparison. The draft is any that calls have reached. If the operands can be written
without the conversions, then they can be with them. -/
theorem filterSql_converted (m : EntityMap) (b : BuiltinDialect) (index : Nat)
    (calls : List ClauseCall) (form : ComparisonForm) {l r l' r' : Expr} (hl : l'.bare = l.bare)
    (hr : r'.bare = r.bare) {text : Option String} {u : BindTable}
    (h : (Scope.filterSql ⟨m, b.dialect⟩ (form.filter l r)).result
      (Scope.draftAfter ⟨m, b.dialect⟩ calls (Draft.fresh index)) = (.ok text, u)) :
    ∃ text' u', (Scope.filterSql ⟨m, b.dialect⟩ (form.filter l' r')).result
        (Scope.draftAfter ⟨m, b.dialect⟩ calls (Draft.fresh index)) = (.ok text', u') ∧
      ((text' = text ∧ u' = u) ↔ (IsNullTest form.op l' r' ↔ IsNullTest form.op l r)) := by
  have hsound := Scope.sound_draftAfter ⟨m, b.dialect⟩ calls index
  have hd := isScannable_builtin b
  rw [Scope.filterSql_form_result] at h ⊢
  obtain ⟨houtcome, rfl⟩ := Prod.mk.inj h
  obtain ⟨hstop, rfl⟩ := Template.outcome_eq_ok.mp houtcome
  by_cases hsame : IsNullTest form.op l' r' ↔ IsNullTest form.op l r
  · rw [Scope.comparisonTemplate_congr hl hr hsame]
    exact ⟨_, _, h, iff_of_true ⟨rfl, rfl⟩ hsame⟩
  -- one of the two is a test for null, and their texts differ
  · have hne : (Scope.comparisonTemplate ⟨m, b.dialect⟩ form.op l' r').stop? = none ∧
        (Scope.fill ⟨m, b.dialect⟩ (Scope.comparisonTemplate ⟨m, b.dialect⟩ form.op l' r').pieces
            (Scope.draftAfter ⟨m, b.dialect⟩ calls (Draft.fresh index)).binds).1
          ≠ (Scope.fill ⟨m, b.dialect⟩ (Scope.comparisonTemplate ⟨m, b.dialect⟩ form.op l r).pieces
            (Scope.draftAfter ⟨m, b.dialect⟩ calls (Draft.fresh index)).binds).1 := by
      by_cases hnull : IsNullTest form.op l r
      · have hother : ¬ IsNullTest form.op l' r' := fun h' => hsame (iff_of_true h' hnull)
        obtain ⟨hiff, htexts⟩ := Scope.comparisonTemplate_ne hd hsound hl hr hnull hother
        exact ⟨hiff.mp hstop, (htexts hstop).symm⟩
      · have hnull' : IsNullTest form.op l' r' := by
          by_contra h'
          exact hsame (iff_of_false h' hnull)
        obtain ⟨hiff, htexts⟩ := Scope.comparisonTemplate_ne hd hsound hl.symm hr.symm hnull' hnull
        exact ⟨hiff.mpr hstop, htexts (hiff.mpr hstop)⟩
    refine ⟨_, _, Prod.ext (Template.outcome_eq_ok.mpr ⟨hne.1, rfl⟩) rfl, iff_of_false ?_ hsame⟩
    rintro ⟨htext, -⟩
    exact hne.2 (Option.some.inj htext)

/-- A type with a text that may be missing. -/
def visitors : EntityMap where
  entity := "Visitor"
  table := "visitors"
  fields := [⟨"Host", ⟨"host", false, true, .scalar⟩⟩, ⟨"Visits", ⟨"visits", false, true, .scalar⟩⟩]
  key := none

/-- A draft on which a filter was written before. -/
def draftOfVisitors : Draft :=
  Scope.draftAfter ⟨visitors, BuiltinDialect.postgres.dialect⟩ [.filter (.ofMember "Visits")]
    (Draft.fresh 0)

/-- Of two nulls one is hidden, and the other still makes the equality a test for null. -/
theorem filterSql_converted_oneOfTwo :
    ∃ u, (Scope.filterSql ⟨visitors, BuiltinDialect.postgres.dialect⟩
          (.call .equals (.constant .null) [.constant .null])).result draftOfVisitors
        = (.ok (some "$2 IS NULL"), u) ∧
      (Scope.filterSql ⟨visitors, BuiltinDialect.postgres.dialect⟩
          (.call .equals (.convert (.convert (.constant .null))) [.constant .null])).result
          draftOfVisitors
        = (.ok (some "$2 IS NULL"), u) := by
  have hnulls : (Scope.filterSql ⟨visitors, BuiltinDialect.postgres.dialect⟩
      (.call .equals (.constant .null) [.constant .null])).result draftOfVisitors
      = (.ok (some "$2 IS NULL"), _) := rfl
  have hleft : (Expr.convert (.convert (.constant .null))).bare = (Expr.constant .null).bare := rfl
  have hright : (Expr.constant .null).bare = (Expr.constant .null).bare := rfl
  obtain ⟨text, u, hrun, hiff⟩ := filterSql_converted visitors .postgres 0
    [.filter (.ofMember "Visits")] (.equals []) hleft hright hnulls
  have htests : IsNullTest .eq (.convert (.convert (.constant .null))) (.constant .null) ↔
      IsNullTest .eq (.constant .null) (.constant .null) :=
    iff_of_true ⟨.inl rfl, rfl⟩ ⟨.inl rfl, rfl⟩
  obtain ⟨rfl, rfl⟩ := hiff.mpr htests
  exact ⟨_, hnulls, hrun⟩

/-- A converted null is compared with, and no row is found. -/
theorem filterSql_convertedNull :
    let c : Scope := ⟨visitors, BuiltinDialect.sqlServer.dialect⟩
    ((c.filterSql (.binary .eq (.ofMember "Host") (.constant .null))).result (Draft.fresh 0)).1
        = .ok (some "[host] IS NULL") ∧
      ((c.filterSql (.binary .eq (.ofMember "Host") (.convert (.constant .null)))).result
        (Draft.fresh 0)).1 = .ok (some "[host] = @p0_host") :=
  ⟨rfl, rfl⟩

end EntitySql
