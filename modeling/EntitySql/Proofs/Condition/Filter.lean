import EntitySql.Proofs.ClauseCall
import EntitySql.Proofs.Condition.Meaning
import EntitySql.Proofs.Condition.Scan

/-!
# The text of a filter means the filter

The main statement, `filterSql_reading`: when a filter over plain columns is written, on a draft
that any calls have reached, its text is a condition with exactly one reading, and on every row,
under every interpretation, this reading has the truth value of the filter.

The proof follows the writers. `Written` is what each of them establishes: the text scans to
tokens, the tokens have a reading, and the reading means what it should in every table that the
present one grows to. The last clause is what survives later writers: a slot that stands in a text
keeps its value however many slots are bound after it.
-/

namespace EntitySql

open Condition

/-! ### Patterns -/

theorem escapePattern_eq (cs : List Char) :
    Scope.escapePattern cs = (cs.map PatternPart.character).flatMap PatternPart.chars := by
  induction cs with
  | nil => rfl
  | cons c cs ih =>
    rw [Scope.escapePattern, ih]
    by_cases h : c = '\\' ∨ c = '%' ∨ c = '_' ∨ c = '['
    · simp [h, PatternPart.chars]
    · simp [h, PatternPart.chars]

/-- The pattern that is bound is the pattern of the text match. -/
theorem matchPattern_eq (method : Callee) (text : String) :
    Scope.matchPattern method text = patternOf method text := by
  cases method <;> simp [Scope.matchPattern, patternOf, escapePattern_eq, PatternPart.chars]

/-! ### Fragments of a condition -/

/-- Every member chain of the filter that resolves stands for a plain column. -/
def Scope.HasPlainMembers (c : Scope) : Expr → Prop
  | .member owner name =>
    ∀ f, c.resolve (.member owner name) = .ok f → c.dialect.isPlain f.column.name = true
  | .convert inner | .not inner | .lambda _ inner => c.HasPlainMembers inner
  | .binary _ left right => c.HasPlainMembers left ∧ c.HasPlainMembers right
  | .call _ target [] => c.HasPlainMembers target
  | .call _ target (arg :: _) => c.HasPlainMembers target ∧ c.HasPlainMembers arg
  | _ => True

/-- A text written between two bind tables, with a reading at level `k` that satisfies `P` in
every table that grows from the second. -/
structure Written (c : Scope) (marks : Marks) (t u : BindTable) (k : Nat) (text : String)
    (P : Reading → BindTable → Prop) : Prop where
  grows : t.Grows c.dialect u
  reads : ∃ tokens r, Scans marks text tokens ∧ Reads k tokens r ∧
    ∀ final, u.Grows c.dialect final → final.Sound c.dialect → P r final

/-- The reading has the value of an operand, up to equality of values. -/
def HasValue (value? : Interpretation → ColumnValues → Option Value) (r : Reading)
    (final : BindTable) : Prop :=
  ∀ I row, ∃ v w, value? I row = some v ∧ r.value? I row final.valueOf? = some w ∧
    w.same v = true

/-- The reading has the truth value of a condition. -/
def HasTruth (truth? : Interpretation → ColumnValues → Option Truth) (r : Reading)
    (final : BindTable) : Prop :=
  ∀ I row, ∃ b, truth? I row = some b ∧ r.truth? I row final.valueOf? = some b

theorem Condition.Reads.loosen {j k : Nat} {ts : List Token} {r : Reading} (h : Reads k ts r)
    (hjk : j ≤ k) (hk : k ≤ 7) : Reads j ts r := by
  induction hjk using Nat.decreasingInduction with
  | self => exact h
  | of_succ j hj ih => exact .tighter (by omega) ih

variable {c : Scope} {marks : Marks} {t u v : BindTable}

/-! ### Operands -/

/-- A plain column is written as its quoted name. -/
theorem columnSql_eq {f : MappedField} (h : c.dialect.isPlain f.column.name = true) :
    c.columnSql f = c.dialect.quote f.column.name := by
  simp [Scope.columnSql, Scope.selectItem, h]

theorem memberValue?_eq {e : Expr} {f : MappedField} (h : c.resolve e = .ok f)
    (row : ColumnValues) : c.memberValue? row e = some (row f.column.name) := by
  rw [Scope.memberValue?, h]

theorem column_written (hd : IsScannable c.dialect marks) {e : Expr} {f : MappedField}
    (hf : c.resolve e = .ok f) (hplain : c.dialect.isPlain f.column.name = true) (t : BindTable) :
    Written c marks t t 7 (c.columnSql f) (HasValue fun _ row => c.memberValue? row e) where
  grows := .refl t
  reads := by
    rw [columnSql_eq hplain]
    refine ⟨_, _, scans_column hd f.column.name, .column f.column.name, fun final _ _ I row => ?_⟩
    exact ⟨_, _, memberValue?_eq hf row, rfl, Value.same_refl _⟩

/-- A slot stands for a value that is equal to the one that was asked for, also in the tables that
are reached later. -/
theorem slotOf_hasValue (hd : c.dialect.TellsSlotsApart) (ht : t.Sound c.dialect)
    {column : String} {value : Value} {text : String} (h : c.slotOf column value t = .ok text u) :
    t.Grows c.dialect u ∧
      (∃ name ordinal, IsSpelled name ∧ text = c.dialect.slotText name ordinal) ∧
      ∀ final, u.Grows c.dialect final → final.Sound c.dialect →
        HasValue (fun _ _ => some value) (.slot text) final := by
  obtain ⟨rfl, rfl⟩ := slotOf_eq_ok.mp h
  have hsound := ht.bind column value
  obtain ⟨hmem, hsame⟩ := t.bind_mem c.dialect column value
  -- from here on only that the slot is one of the table counts, not whether it is a new one
  generalize (t.bind c.dialect column value).1 = slot at hmem hsame ⊢
  refine ⟨t.grows_bind c.dialect column value,
    ⟨slot.name, slot.ordinal, (hsound.spelled slot hmem).1, hsound.texts slot hmem⟩, ?_⟩
  intro final hgrows hfinal I row
  exact ⟨value, slot.value, rfl, hfinal.valueOf?_text hd (hgrows.isPrefix.subset hmem), hsame⟩

/-- A slot is written as one token. -/
theorem slot_written (hd : IsScannable c.dialect marks) (ht : t.Sound c.dialect) {column : String}
    {value : Value} {text : String} (h : c.slotOf column value t = .ok text u) :
    Written c marks t u 7 text (HasValue fun _ _ => some value) := by
  obtain ⟨hgrows, ⟨name, ordinal, hname, rfl⟩, hvalue⟩ := slotOf_hasValue hd.slotsApart ht h
  exact ⟨hgrows, _, _, scans_slot hd hname ordinal, .slot _, hvalue⟩

theorem Written.loosen {j k : Nat} {text : String} {P : Reading → BindTable → Prop}
    (h : Written c marks t u k text P) (hjk : j ≤ k) (hk : k ≤ 7) :
    Written c marks t u j text P := by
  obtain ⟨hgrows, tokens, r, hscan, hread, hmean⟩ := h
  exact ⟨hgrows, tokens, r, hscan, hread.loosen hjk hk, hmean⟩

theorem Written.paren {text : String} {P : Reading → BindTable → Prop}
    (h : Written c marks t u 1 text P) : Written c marks t u 7 ("(" ++ text ++ ")") P := by
  obtain ⟨hgrows, tokens, r, hscan, hread, hmean⟩ := h
  exact ⟨hgrows, _, r, hscan.paren, .paren hread, hmean⟩

/-- Two texts with an operator between them, read at level `k`. The second is written after the
first, so the first has to mean the same in the table that the second leaves. -/
theorem Written.infix {j k : Nat} {leftText rightText : String}
    {P Q R : Reading → BindTable → Prop} (hd : IsScannable c.dialect marks)
    (hl : Written c marks t v j leftText P) (hr : Written c marks v u j rightText Q) (op : Operator)
    (hreads : ∀ {ls rs l r}, Reads j ls l → Reads j rs r →
      Reads k (ls ++ .operator op :: rs) (.binary op l r))
    (hmeans : ∀ {l r final}, P l final → Q r final → R (.binary op l r) final) :
    Written c marks t u k (leftText ++ " " ++ op.text ++ " " ++ rightText) R := by
  obtain ⟨hgl, ls, l, hls, hlr, hlm⟩ := hl
  obtain ⟨hgr, rs, r, hrs, hrr, hrm⟩ := hr
  refine ⟨hgl.trans hgr, ls ++ .operator op :: rs, .binary op l r, ?_, hreads hlr hrr, ?_⟩
  · have hscan := (hls.blank (scans_operator hd op)).blank hrs
    rwa [List.append_assoc] at hscan
  · intro final hfinal hsound
    exact hmeans (hlm final (hgr.trans hfinal) hsound) (hrm final hfinal hsound)

/-- Operators that associate are read in parentheses on operands that bind at least as tightly as
`NOT`, or as single operands do. -/
theorem reads_paren_operator {op : Operator} {j k : Nat}
    (hlevel : (Token.operator op).level = some k)
    (hjoin : (Token.operator op).join? = some (.binary op)) (hk : 1 ≤ k ∧ k < j) (hj : j ≤ 7)
    {ls rs : List Token} {l r : Reading} (hl : Reads j ls l) (hr : Reads j rs r) :
    Reads 1 (ls ++ .operator op :: rs) (.binary op l r) :=
  (Reads.join hlevel hjoin (hl.loosen (by omega) hj) (hr.loosen (by omega) hj)).loosen hk.1
    (by omega)

theorem reads_arithmetic {op : Operator} (hop : op.isArithmetic = true) {ls rs : List Token}
    {l r : Reading} (hl : Reads 7 ls l) (hr : Reads 7 rs r) :
    Reads 1 (ls ++ .operator op :: rs) (.binary op l r) := by
  cases op with
  | add => exact reads_paren_operator rfl rfl (by decide) (Nat.le_refl 7) hl hr
  | sub => exact reads_paren_operator rfl rfl (by decide) (Nat.le_refl 7) hl hr
  | mul => exact reads_paren_operator rfl rfl (by decide) (Nat.le_refl 7) hl hr
  | div => exact reads_paren_operator rfl rfl (by decide) (Nat.le_refl 7) hl hr
  | _ => cases hop

/-- An operation on two operands with their values has the value of the operation. -/
theorem HasValue.compute {p q : Interpretation → ColumnValues → Option Value} {op : Operator}
    (hop : op.isArithmetic = true) {l r : Reading} {final : BindTable} (hl : HasValue p l final)
    (hr : HasValue q r final) :
    HasValue (fun I row => do return I.compute op (← p I row) (← q I row)) (.binary op l r)
      final := by
  intro I row
  obtain ⟨vl, wl, hvl, hwl, hsl⟩ := hl I row
  obtain ⟨vr, wr, hvr, hwr, hsr⟩ := hr I row
  refine ⟨I.compute op vl vr, I.compute op wl wr, ?_, ?_, I.compute_same op hsl hsr⟩
  · simp only [hvl, hvr]
    rfl
  · simp only [Reading.value?, if_pos hop, hwl, hwr]
    rfl

/-- The text of an operand that is read so. -/
def Condition.Reading.text (d : Dialect) : Reading → String
  | .column name => d.quote name
  | .slot text => text
  | .binary op left right => "(" ++ left.text d ++ " " ++ op.text ++ " " ++ right.text d ++ ")"
  | _ => ""

/-- A reading of an operand: columns, slots and arithmetic. -/
inductive Condition.Reading.IsOperand (d : Dialect) : Reading → Prop where
  | column (name : String) : IsOperand d (.column name)
  | slot {name : String} (ordinal : Nat) :
    IsSpelled name → IsOperand d (.slot (d.slotText name ordinal))
  | operation {op : Operator} {left right : Reading} :
    op.isArithmetic = true → IsOperand d left → IsOperand d right →
    IsOperand d (.binary op left right)

/-- The text of a reading of an operand is read as it. -/
theorem Condition.Reading.IsOperand.reads {d : Dialect} (hd : IsScannable d marks) {r : Reading}
    (h : r.IsOperand d) : ∃ tokens, Scans marks (r.text d) tokens ∧ Reads 7 tokens r := by
  induction h with
  | column name => exact ⟨_, scans_column hd name, .column name⟩
  | slot ordinal hname => exact ⟨_, scans_slot hd hname ordinal, .slot _⟩
  | @operation op left right hop _ _ ihl ihr =>
    obtain ⟨ls, hls, hlr⟩ := ihl
    obtain ⟨rs, hrs, hrr⟩ := ihr
    have hscan := ((hls.blank (scans_operator hd op)).blank hrs).paren
    refine ⟨_, ?_, .paren (reads_arithmetic hop hlr hrr)⟩
    rw [Reading.text]
    simpa [String.append_assoc] using hscan

/-- In every dialect that tells slots apart, an operand is written as the text of a reading that has
its value. -/
theorem operandText_spelled (hd : c.dialect.TellsSlotsApart) (column : String)
    (clause : ClauseKind) {e : Expr} {text : String} (ht : t.Sound c.dialect)
    (hplain : c.HasPlainMembers e) (h : c.operandText column clause e t = .ok text u) :
    t.Grows c.dialect u ∧ ∃ r : Reading, r.IsOperand c.dialect ∧ text = r.text c.dialect ∧
      ∀ final, u.Grows c.dialect final → final.Sound c.dialect →
        HasValue (fun I row => c.operandValue? I row e) r final := by
  fun_induction Scope.operandText c column clause e generalizing t u text with
  | case1 owner name =>
    obtain ⟨f, hrun, rfl⟩ := map_eq_ok.mp h
    obtain ⟨hf, rfl⟩ := resolved_eq_ok.mp hrun
    rw [Scope.HasPlainMembers] at hplain
    refine ⟨.refl t, .column f.column.name, .column _, columnSql_eq (hplain f hf), ?_⟩
    exact fun final _ _ I row => ⟨_, _, memberValue?_eq hf row, rfl, Value.same_refl _⟩
  | case2 value =>
    obtain ⟨hgrows, ⟨name, ordinal, hname, rfl⟩, hvalue⟩ := slotOf_hasValue hd ht h
    exact ⟨hgrows, _, .slot ordinal hname, rfl, hvalue⟩
  | case3 inner ih =>
    rw [Scope.HasPlainMembers] at hplain
    exact ih ht hplain h
  | case4 op left right hop ihl ihr =>
    rw [Scope.HasPlainMembers] at hplain
    obtain ⟨leftText, v, hl, h⟩ := bind_eq_ok.mp h
    obtain ⟨rightText, hr, rfl⟩ := map_eq_ok.mp h
    obtain ⟨hgl, l, hlo, rfl, hlm⟩ := ihl ht hplain.1 hl
    -- the right operand is written in the table that the left one leaves
    obtain ⟨hgr, r, hro, rfl, hrm⟩ := ihr (ht.grows hgl) hplain.2 hr
    refine ⟨hgl.trans hgr, .binary op l r, .operation hop hlo hro, rfl,
      fun final hfinal hsound => ?_⟩
    simp only [Scope.operandValue?, if_pos hop]
    exact (hlm final (hgr.trans hfinal) hsound).compute hop (hrm final hfinal hsound)
  | case5 op left right hop => exact absurd h throw_ne_ok
  | case6 e => exact absurd h throw_ne_ok

/-- An operand is written as a text that has its value. -/
theorem operandText_written (hd : IsScannable c.dialect marks) (column : String)
    (clause : ClauseKind) {e : Expr} {text : String} (ht : t.Sound c.dialect)
    (hplain : c.HasPlainMembers e) (h : c.operandText column clause e t = .ok text u) :
    Written c marks t u 7 text (HasValue fun I row => c.operandValue? I row e) := by
  obtain ⟨hgrows, r, hoperand, rfl, hmean⟩ :=
    operandText_spelled hd.slotsApart column clause ht hplain h
  obtain ⟨tokens, hscan, hread⟩ := hoperand.reads hd
  exact ⟨hgrows, tokens, r, hscan, hread, hmean⟩

/-! ### Comparisons -/

/-- The truth value of an equality or inequality with a null literal. -/
theorem comparisonTruth?_null {op : Operator} {l r : Expr}
    (h : (op = .eq ∨ op = .ne) ∧ (l.isNullLiteral || r.isNullLiteral) = true)
    (I : Interpretation) (row : ColumnValues) :
    c.comparisonTruth? I row op l r = do
      return .ofNullTest (← c.operandValue? I row (if r.isNullLiteral then l else r))
        (op != .eq) := by
  obtain ⟨rfl | rfl, hnull⟩ := h <;> cases hr : r.isNullLiteral with
  | true =>
    rw [Expr.eq_null_of_isNullLiteral hr, Scope.comparisonTruth?]
    rfl
  | false =>
    rw [hr, Bool.or_false] at hnull
    rw [Expr.eq_null_of_isNullLiteral hnull, Scope.comparisonTruth?]
    · rfl
    · rintro rfl
      cases hr

/-- The truth value of any other comparison. -/
theorem comparisonTruth?_other {op : Operator} {l r : Expr}
    (h : ¬ ((op = .eq ∨ op = .ne) ∧ (l.isNullLiteral || r.isNullLiteral) = true))
    (I : Interpretation) (row : ColumnValues) :
    c.comparisonTruth? I row op l r = do
      return I.compare op (← c.operandValue? I row l) (← c.operandValue? I row r) := by
  rw [Scope.comparisonTruth?]
  all_goals
    rintro rfl rfl
    exact h (by simp [Expr.isNullLiteral])

/-- A test for null is written as a condition that has its truth value. -/
theorem nullTestText_written (hd : IsScannable c.dialect marks) (op : Operator) (column : String)
    {subject : Expr} {text : String} (ht : t.Sound c.dialect)
    (hplain : c.HasPlainMembers subject) (h : c.nullTestText op column subject t = .ok text u) :
    Written c marks t u 4 text (HasTruth fun I row => do
      return .ofNullTest (← c.operandValue? I row subject) (op != .eq)) := by
  obtain ⟨subjectText, hs, rfl⟩ := map_eq_ok.mp h
  obtain ⟨hgrows, tokens, r, hscan, hread, hmean⟩ := operandText_written hd column _ ht hplain hs
  have hread5 : Reads 5 tokens r := hread.loosen (by decide) (by decide)
  have htruth : ∀ final, u.Grows c.dialect final → final.Sound c.dialect →
      HasTruth (fun I row => do
        return .ofNullTest (← c.operandValue? I row subject) (op != .eq))
        (.nullTest r (op != .eq)) final := by
    intro final hfinal hsound I row
    obtain ⟨v, w, hv, hw, hsame⟩ := hmean final hfinal hsound I row
    -- the slot may hold another value than the constant, but an equal one, which is null alike
    have hnull : w.isNull = v.isNull := Value.isNull_eq_of_same hsame
    refine ⟨.ofNullTest v (op != .eq), by simp only [hv]; rfl, ?_⟩
    rw [Truth.ofNullTest, ← hnull, Reading.truth?, hw]
    rfl
  by_cases hop : op = .eq
  · subst hop
    have htail : Scans marks ("IS" ++ " " ++ "NULL") [.word .is, .word .null] :=
      (scans_keyword hd "IS" rfl rfl).blank (scans_keyword hd "NULL" rfl rfl)
    have hall := hscan.blank htail
    rw [String.append_assoc] at hall
    exact ⟨hgrows, _, _, hall, .isNull hread5, htruth⟩
  · have htail : Scans marks ("IS" ++ " " ++ "NOT" ++ " " ++ "NULL")
        [.word .is, .word .not, .word .null] :=
      ((scans_keyword hd "IS" rfl rfl).blank (scans_keyword hd "NOT" rfl rfl)).blank
        (scans_keyword hd "NULL" rfl rfl)
    have hneg : (op != .eq) = true := by simpa using hop
    have hall := hscan.blank htail
    rw [String.append_assoc] at hall
    rw [hneg] at htruth ⊢
    rw [if_neg hop]
    exact ⟨hgrows, _, _, hall, .isNotNull hread5, htruth⟩

/-- A comparison is written as a condition that has its truth value. -/
theorem comparisonText_written (hd : IsScannable c.dialect marks) {op : Operator}
    (hop : op.isComparison = true) {left right : Expr} {text : String} (ht : t.Sound c.dialect)
    (hleft : c.HasPlainMembers left) (hright : c.HasPlainMembers right)
    (h : c.comparisonText op left right t = .ok text u) :
    Written c marks t u 4 text (HasTruth fun I row => c.comparisonTruth? I row op left right) := by
  rw [Scope.comparisonText] at h
  by_cases hnull : (op = .eq ∨ op = .ne) ∧ (left.isNullLiteral || right.isNullLiteral) = true
  · simp only [comparisonTruth?_null hnull]
    rw [if_pos hnull] at h
    have hsubject : c.HasPlainMembers (if right.isNullLiteral then left else right) := by
      split <;> assumption
    exact nullTestText_written hd op _ ht hsubject h
  -- no side is a null literal, or the comparison is an order: both sides are operands
  · simp only [comparisonTruth?_other hnull]
    rw [if_neg hnull] at h
    obtain ⟨leftText, v, hl, h⟩ := bind_eq_ok.mp h
    obtain ⟨rightText, hr, rfl⟩ := map_eq_ok.mp h
    have hwl := operandText_written hd _ _ ht hleft hl
    have hwr := operandText_written hd _ _ (ht.grows hwl.grows) hright hr
    refine hwl.infix hd hwr op (fun hls hrs => ?_) fun hl hr I row => ?_
    · exact .compare hop (hls.loosen (by decide) (by decide)) (hrs.loosen (by decide) (by decide))
    · obtain ⟨vl, wl, hvl, hwl, hsl⟩ := hl I row
      obtain ⟨vr, wr, hvr, hwr, hsr⟩ := hr I row
      refine ⟨I.compare op vl vr, by simp only [hvl, hvr]; rfl, ?_⟩
      rw [← I.compare_same op hsl hsr, Reading.truth?_comparison _ _ _ hop, hwl, hwr]
      rfl

/-- A test of a boolean member is written as a condition that has its truth value. -/
theorem flagText_written (hd : IsScannable c.dialect marks) {member : Expr} {expected : Bool}
    {text : String} (ht : t.Sound c.dialect)
    (hplain : ∀ f, c.resolve member = .ok f → c.dialect.isPlain f.column.name = true)
    (h : c.flagText member expected t = .ok text u) :
    Written c marks t u 4 text (HasTruth fun I row => do
      return I.compare .eq (← c.memberValue? row member) (.bool expected)) := by
  obtain ⟨f, v, hrun, h⟩ := bind_eq_ok.mp h
  obtain ⟨hf, rfl⟩ := resolved_eq_ok.mp hrun
  obtain ⟨slot, hs, rfl⟩ := map_eq_ok.mp h
  have hcolumn := column_written hd hf (hplain f hf) t
  have hslot := slot_written hd ht hs
  have hinfix := hcolumn.infix hd hslot .eq (R := HasTruth fun I row => do
      return I.compare .eq (← c.memberValue? row member) (.bool expected))
    (fun hls hrs =>
      .compare rfl (hls.loosen (by decide) (by decide)) (hrs.loosen (by decide) (by decide)))
    fun hl hr I row => ?_
  · have htext : " = " = " " ++ Operator.eq.text ++ " " := rfl
    rw [htext]
    simpa only [String.append_assoc] using hinfix
  · obtain ⟨vl, wl, hvl, hwl, hsl⟩ := hl I row
    obtain ⟨vr, wr, hvr, hwr, hsr⟩ := hr I row
    obtain rfl := Option.some.inj hvr
    refine ⟨I.compare .eq vl (.bool expected), by simp only [hvl]; rfl, ?_⟩
    rw [← I.compare_same .eq hsl hsr, Reading.truth?_comparison _ _ _ rfl, hwl, hwr]
    rfl

/-! ### Lists -/

/-- The reading has the values of a list, up to equality of values. -/
def HasValues (values : List Value) (r : Reading) (final : BindTable) : Prop :=
  ∀ I row, ∃ ws, r.values? I row final.valueOf? = some ws ∧
    List.Forall₂ (fun w v => w.same v = true) ws values

/-- An operand is a list of one item. -/
theorem values?_of_value? {I : Interpretation} {row : ColumnValues} {slots : String → Option Value}
    {r : Reading} {w : Value} (h : r.value? I row slots = some w) :
    r.values? I row slots = some [w] := by
  rw [Reading.values?, h]
  · rfl
  · rintro items last rfl
    cases h

/-- A slot is a list of one value. -/
theorem item_written (hd : IsScannable c.dialect marks) (ht : t.Sound c.dialect) {column : String}
    {value : Value} {text : String} (h : c.slotOf column value t = .ok text u) :
    Written c marks t u 0 text (HasValues [value]) := by
  obtain ⟨hgrows, tokens, r, hscan, hread, hmean⟩ := slot_written hd ht h
  refine ⟨hgrows, tokens, r, hscan, hread.loosen (by decide) (by decide), ?_⟩
  intro final hfinal hsound I row
  obtain ⟨v, w, hv, hw, hsame⟩ := hmean final hfinal hsound I row
  obtain rfl := Option.some.inj hv
  exact ⟨[w], values?_of_value? hw, .cons hsame .nil⟩

/-- A slot after a list of values is a longer list. -/
theorem Written.item {front text : String} {done : List Value} {column : String} {value : Value}
    (hd : IsScannable c.dialect marks) (hfront : Written c marks t v 0 front (HasValues done))
    (hv : v.Sound c.dialect) (h : c.slotOf column value v = .ok text u) :
    Written c marks t u 0 (front ++ ", " ++ text) (HasValues (done ++ [value])) := by
  obtain ⟨hgf, fs, items, hfs, hfr, hfm⟩ := hfront
  obtain ⟨hgs, ss, last, hss, hsr, hsm⟩ := slot_written hd hv h
  refine ⟨hgf.trans hgs, fs ++ .comma :: ss, .list items last, hfs.comma hss, ?_, ?_⟩
  · exact .join rfl rfl hfr (hsr.loosen (by decide) (by decide))
  · intro final hfinal hsound I row
    obtain ⟨ws, hws, hall⟩ := hfm final (hgs.trans hfinal) hsound I row
    obtain ⟨x, w, hx, hw, hsame⟩ := hsm final hfinal hsound I row
    obtain rfl := Option.some.inj hx
    refine ⟨ws ++ [w], ?_, List.rel_append hall (.cons hsame .nil)⟩
    rw [Reading.values?, hws, hw]
    rfl

/-- The slots of the values that remain extend a list. The text grows on the left, as the list
does. -/
theorem items_written (hd : IsScannable c.dialect marks) {column : String} {rest : List Value}
    {slots : List String} {front : String} {done : List Value} (ht : t.Sound c.dialect)
    (hfront : Written c marks t v 0 front (HasValues done))
    (h : rest.mapM (c.slotOf column) v = .ok slots u) :
    Written c marks t u 0 (String.intercalate ", " (front :: slots))
      (HasValues (done ++ rest)) := by
  induction rest generalizing v slots front done with
  | nil =>
    rw [List.mapM_nil, pure_eq_ok] at h
    obtain ⟨rfl, rfl⟩ := h
    rwa [List.append_nil, String.intercalate_singleton]
  | cons value rest ih =>
    rw [List.mapM_cons] at h
    obtain ⟨slot, w, hs, h⟩ := bind_eq_ok.mp h
    obtain ⟨others, ho, rfl⟩ := map_eq_ok.mp h
    have hnext := hfront.item hd (ht.grows hfront.grows) hs
    have hall := ih hnext ho
    rwa [List.append_assoc, String.intercalate_cons_append, ← String.intercalate_cons_cons] at hall

/-- Membership does not tell lists of equal values apart. -/
theorem among_same (I : Interpretation) {v w : Value} (h : w.same v = true) {vs ws : List Value}
    (hall : List.Forall₂ (fun w v => w.same v = true) ws vs) : I.among w ws = I.among v vs := by
  induction hall with
  | nil => rfl
  | cons hx _ ih => rw [Interpretation.among, Interpretation.among, I.compare_same .eq h hx, ih]

/-- Membership in a list is written as a condition that has its truth value. -/
theorem membershipText_written (hd : IsScannable c.dialect marks) {member : Expr}
    {values : List Value} {text : String} (ht : t.Sound c.dialect)
    (hplain : ∀ f, c.resolve member = .ok f → c.dialect.isPlain f.column.name = true)
    (h : c.membershipText member values t = .ok text u) :
    Written c marks t u 4 text (HasTruth fun I row => do
      return I.among (← c.memberValue? row member) values) := by
  obtain ⟨f, v, hrun, h⟩ := bind_eq_ok.mp h
  obtain ⟨hf, rfl⟩ := resolved_eq_ok.mp hrun
  cases values with
  | nil =>
    obtain ⟨rfl, rfl⟩ := pure_eq_ok.mp h
    -- among no values there is none, even for a column that is null
    refine ⟨.refl t, _, _, ?_, .settled false, fun final _ _ I row => ?_⟩
    · exact ((scans_digit hd true).blank (scans_operator hd .eq)).blank (scans_digit hd false)
    · refine ⟨.no, ?_, rfl⟩
      simp only [memberValue?_eq hf]
      rfl
  | cons value rest =>
    obtain ⟨slots, hs, rfl⟩ := map_eq_ok.mp h
    rw [List.mapM_cons] at hs
    obtain ⟨slot, w, hslot, hs⟩ := bind_eq_ok.mp hs
    obtain ⟨others, ho, rfl⟩ := map_eq_ok.mp hs
    have hitems := items_written hd ht (item_written hd ht hslot) ho
    rw [List.singleton_append] at hitems
    obtain ⟨hgrows, tokens, r, hscan, hread, hmean⟩ := hitems
    obtain ⟨-, cs, l, hcs, hcr, hcm⟩ := column_written hd hf (hplain f hf) t
    refine ⟨hgrows, cs ++ .word .among :: .opening :: (tokens ++ [.closing]), .among l r, ?_,
      .among (hcr.loosen (by decide) (by decide)) hread, ?_⟩
    · have htail := (scans_keyword hd "IN" rfl rfl).blank hscan.paren
      have htext : " IN (" = " " ++ "IN" ++ " " ++ "(" := rfl
      rw [htext]
      simpa only [String.append_assoc, List.singleton_append] using hcs.blank htail
    · intro final hfinal hsound I row
      obtain ⟨x, y, hx, hy, hsame⟩ := hcm final (hgrows.trans hfinal) hsound I row
      obtain ⟨ws, hws, hall⟩ := hmean final hfinal hsound I row
      refine ⟨I.among x (value :: rest), by simp only [hx]; rfl, ?_⟩
      rw [Reading.truth?, hy, hws, ← among_same I hsame hall]
      rfl

/-! ### Text matches -/

/-- A text match is written as a condition that has its truth value. -/
theorem matchText_written (hd : IsScannable c.dialect marks) {method : Callee} {member : Expr}
    {literal text : String} (ht : t.Sound c.dialect)
    (hplain : ∀ f, c.resolve member = .ok f → c.dialect.isPlain f.column.name = true)
    (h : c.matchText method member literal t = .ok text u) :
    Written c marks t u 4 text (HasTruth fun I row => do
      return I.like (← c.memberValue? row member) (.text (patternOf method literal))) := by
  obtain ⟨f, v, hrun, h⟩ := bind_eq_ok.mp h
  obtain ⟨hf, rfl⟩ := resolved_eq_ok.mp hrun
  obtain ⟨slot, hs, rfl⟩ := map_eq_ok.mp h
  rw [matchPattern_eq] at hs
  obtain ⟨-, cs, l, hcs, hcr, hcm⟩ := column_written hd hf (hplain f hf) t
  obtain ⟨hgrows, ss, p, hss, hsr, hsm⟩ := slot_written hd ht hs
  refine ⟨hgrows, cs ++ .word .like :: (ss ++ [.word .escape, .literal "\\"]), .like l p, ?_,
    .like (hcr.loosen (by decide) (by decide)) (hsr.loosen (by decide) (by decide)), ?_⟩
  · have hescape := (scans_keyword hd "ESCAPE" rfl rfl).blank
      (scans_escapeCharacter marks)
    have hall := hcs.blank ((scans_keyword hd "LIKE" rfl rfl).blank (hss.blank hescape))
    have hlike : " LIKE " = " " ++ "LIKE" ++ " " := rfl
    have hend : " ESCAPE '\\'" = " " ++ "ESCAPE" ++ " " ++ "'\\'" := rfl
    rw [hlike, hend]
    simpa only [String.append_assoc, List.singleton_append] using hall
  · intro final hfinal hsound I row
    obtain ⟨x, y, hx, hy, hxy⟩ := hcm final (hgrows.trans hfinal) hsound I row
    obtain ⟨z, w, hz, hw, hzw⟩ := hsm final hfinal hsound I row
    obtain rfl := Option.some.inj hz
    refine ⟨I.like x (.text (patternOf method literal)), by simp only [hx]; rfl, ?_⟩
    rw [Reading.truth?, hy, hw, ← I.like_same hxy hzw]
    rfl

/-! ### Calls -/

theorem Scope.HasPlainMembers.unconverted {e : Expr} (h : c.HasPlainMembers e) :
    c.HasPlainMembers e.unconverted := by
  fun_induction Expr.unconverted e with
  | case1 inner ih =>
    rw [Scope.HasPlainMembers] at h
    exact ih h
  | case2 e => exact h

/-- Only member chains resolve, and those of the filter to plain columns. -/
theorem Scope.HasPlainMembers.resolve {e : Expr} (h : c.HasPlainMembers e) (f : MappedField)
    (hf : c.resolve e = .ok f) : c.dialect.isPlain f.column.name = true := by
  cases e with
  | member owner name =>
    rw [Scope.HasPlainMembers] at h
    exact h f hf
  | _ => cases hf

/-- A call is written as a condition that has its truth value. -/
theorem callText_written (hd : IsScannable c.dialect marks) {method : Callee} {target : Expr}
    {args : List Expr} {text : String} (ht : t.Sound c.dialect)
    (hplain : c.HasPlainMembers (.call method target args))
    (h : c.callText method target args t = .ok text u) :
    Written c marks t u 4 text (HasTruth fun I row => c.callTruth? I row method target args) := by
  cases args with
  | nil => exact absurd h throw_ne_ok
  | cons arg rest =>
    rw [Scope.HasPlainMembers] at hplain
    obtain ⟨htarget, harg⟩ := hplain
    rw [Scope.callText] at h
    simp only [Scope.callTruth?]
    cases hform : CallForm.of method target arg with
    | comparison =>
      rw [hform] at h
      exact comparisonText_written hd rfl ht htarget harg h
    | membership values =>
      rw [hform] at h
      exact membershipText_written hd ht harg.unconverted.resolve h
    | textMatch owner name literal =>
      rw [hform] at h
      have hmember := htarget.unconverted
      rw [(CallForm.of_eq_textMatch.mp hform).2.1] at hmember
      exact matchText_written hd ht hmember.resolve h
    | badArgument =>
      rw [hform] at h
      exact absurd h throw_ne_ok
    | refused =>
      rw [hform] at h
      exact absurd h throw_ne_ok

/-! ### Conditions -/

/-- Two conditions that are joined in parentheses. -/
theorem Written.connective {leftText rightText : String}
    {p q : Interpretation → ColumnValues → Option Truth} (hd : IsScannable c.dialect marks)
    {op : Operator} (hop : op.isLogical = true) {join : Truth → Truth → Truth}
    (hjoin : ∀ (l r : Reading) I row slots, Reading.truth? I row slots (.binary op l r) = do
      return join (← l.truth? I row slots) (← r.truth? I row slots))
    (hl : Written c marks t v 3 leftText (HasTruth p))
    (hr : Written c marks v u 3 rightText (HasTruth q)) :
    Written c marks t u 3 ("(" ++ leftText ++ " " ++ op.text ++ " " ++ rightText ++ ")")
      (HasTruth fun I row => do return join (← p I row) (← q I row)) := by
  have hinfix := hl.infix hd hr op (k := 1)
    (R := HasTruth fun I row => do return join (← p I row) (← q I row)) ?_ ?_
  · have hparen := hinfix.paren.loosen (j := 3) (by decide) (by decide)
    simpa only [String.append_assoc] using hparen
  -- each side binds as tightly as `NOT`, hence tighter than both connectives
  · intro ls rs l r hls hrs
    cases op with
    | and => exact reads_paren_operator rfl rfl (by decide) (by decide) hls hrs
    | or => exact reads_paren_operator rfl rfl (by decide) (by decide) hls hrs
    | _ => cases hop
  · intro l r final hl hr I row
    obtain ⟨x, hx, hlx⟩ := hl I row
    obtain ⟨y, hy, hry⟩ := hr I row
    refine ⟨join x y, by simp only [hx, hy]; rfl, ?_⟩
    rw [hjoin, hlx, hry]
    rfl

/-- A negated condition in parentheses. -/
theorem Written.negation {text : String} {p : Interpretation → ColumnValues → Option Truth}
    (hd : IsScannable c.dialect marks) (h : Written c marks t u 3 text (HasTruth p)) :
    Written c marks t u 3 ("NOT (" ++ text ++ ")")
      (HasTruth fun I row => do return (← p I row).not) := by
  obtain ⟨hgrows, tokens, r, hscan, hread, hmean⟩ := (h.loosen (j := 1) (by decide)
    (by decide)).paren
  refine ⟨hgrows, .word .not :: tokens, .not r, ?_, .not (hread.loosen (by decide) (by decide)), ?_⟩
  · have hall := (scans_keyword hd "NOT" rfl rfl).blank hscan
    have htext : "NOT (" = "NOT" ++ " " ++ "(" := rfl
    rw [htext]
    simpa only [String.append_assoc, List.singleton_append] using hall
  · intro final hfinal hsound I row
    obtain ⟨x, hx, hrx⟩ := hmean final hfinal hsound I row
    refine ⟨x.not, by simp only [hx]; rfl, ?_⟩
    rw [Reading.truth?, hrx]
    rfl

/-- One of the two constant conditions. -/
theorem settled_written (hd : IsScannable c.dialect marks) (t : BindTable) (b : Bool) :
    Written c marks t t 4 ("1" ++ " " ++ "=" ++ " " ++ if b then "1" else "0")
      (HasTruth fun _ _ => some (.ofBool b)) where
  grows := .refl t
  reads := by
    refine ⟨_, _, ?_, .settled b, fun _ _ _ _ _ => ⟨_, rfl, rfl⟩⟩
    exact ((scans_digit hd true).blank (scans_operator hd .eq)).blank (scans_digit hd b)

/-- **The condition of a filter has its truth value.** -/
theorem conditionText_written (hd : IsScannable c.dialect marks) {e : Expr} {text : String}
    (ht : t.Sound c.dialect) (hplain : c.HasPlainMembers e)
    (h : c.conditionText e t = .ok text u) :
    Written c marks t u 3 text (HasTruth fun I row => c.filterTruth? I row e) := by
  fun_induction Scope.conditionText c e generalizing t u text with
  | case1 params body ih =>
    rw [Scope.HasPlainMembers] at hplain
    exact ih ht hplain h
  | case2 inner ih =>
    rw [Scope.HasPlainMembers] at hplain
    exact ih ht hplain h
  | case3 op left right hop ihl ihr =>
    rw [Scope.HasPlainMembers] at hplain
    obtain ⟨leftText, v, hl, h⟩ := bind_eq_ok.mp h
    obtain ⟨rightText, hr, rfl⟩ := map_eq_ok.mp h
    have hleft := ihl ht hplain.1 hl
    have hright := ihr (ht.grows hleft.grows) hplain.2 hr
    cases op with
    | and => exact hleft.connective hd hop (fun _ _ _ _ _ => rfl) hright
    | or => exact hleft.connective hd hop (fun _ _ _ _ _ => rfl) hright
    | _ => cases hop
  | case4 op left right hop hcmp =>
    rw [Scope.HasPlainMembers] at hplain
    simp only [Scope.filterTruth?_comparison _ _ _ hcmp]
    have hcomparison := comparisonText_written hd hcmp ht hplain.1 hplain.2 h
    exact hcomparison.loosen (by decide) (by decide)
  | case5 op left right hop hcmp => exact absurd h throw_ne_ok
  | case6 owner name =>
    exact (flagText_written hd ht hplain.resolve h).loosen (by decide) (by decide)
  | case7 owner name =>
    rw [Scope.HasPlainMembers] at hplain
    exact (flagText_written hd ht hplain.resolve h).loosen (by decide) (by decide)
  | case8 inner hinner ih =>
    rw [Scope.HasPlainMembers] at hplain
    obtain ⟨innerText, hi, rfl⟩ := map_eq_ok.mp h
    simp only [Scope.filterTruth?_not _ _ _ hinner]
    exact (ih ht hplain hi).negation hd
  | case9 method target args =>
    exact (callText_written hd ht hplain h).loosen (by decide) (by decide)
  | case10 =>
    obtain ⟨rfl, rfl⟩ := pure_eq_ok.mp h
    exact (settled_written hd t true).loosen (by decide) (by decide)
  | case11 =>
    obtain ⟨rfl, rfl⟩ := pure_eq_ok.mp h
    exact (settled_written hd t false).loosen (by decide) (by decide)
  | case12 e => exact absurd h throw_ne_ok

/-! ### Filters -/

/-- **The text of a filter has one reading, and it means the filter.** The draft is any that calls
have reached, and the slots have the values of the table after any later calls: on every row the
one reading of the text has the truth value of the filter, whatever the interpretation. -/
theorem filterSql_reading (m : EntityMap) (b : BuiltinDialect) (index : Nat)
    (calls later : List ClauseCall) {e : Expr} {sql : Option String} {d : Draft}
    (hplain : Scope.HasPlainMembers ⟨m, b.dialect⟩ e)
    (h : Scope.filterSql ⟨m, b.dialect⟩ e
      (Scope.draftAfter ⟨m, b.dialect⟩ calls (Draft.fresh index)) = .ok sql d) :
    ∃ text r, sql = some text ∧ IsReading b.marks text r ∧
      (∀ r', IsReading b.marks text r' → r' = r) ∧
      ∀ I row, ∃ truth, Scope.filterTruth? ⟨m, b.dialect⟩ I row e = some truth ∧
        r.truth? I row (Scope.draftAfter ⟨m, b.dialect⟩ later d).binds.valueOf? = some truth := by
  -- the text is that of a program over the bind table, where the writers compose
  obtain ⟨text, rfl, htext⟩ := Scope.filterSql_ok _ h
  have hsound := Scope.sound_draftAfter ⟨m, b.dialect⟩ calls index
  obtain ⟨hgrows, tokens, r, hscan, hread, hmean⟩ :=
    conditionText_written (isScannable_builtin b) hsound hplain htext
  have hreading : IsReading b.marks text r :=
    ⟨tokens, hscan.tokens, hread.loosen (by decide) (by decide)⟩
  have hlater := Scope.grows_draftAfter ⟨m, b.dialect⟩ later d
  refine ⟨text, r, rfl, hreading, fun r' hr' => isReading_unique hr' hreading, ?_⟩
  exact hmean _ hlater (hsound.grows (hgrows.trans hlater))

/-- A type with a text and a truth value. -/
def people : EntityMap where
  entity := "Person"
  table := "people"
  fields := [⟨"Name", ⟨"name", false, true, .scalar⟩⟩, ⟨"Active", ⟨"active", false, true, .scalar⟩⟩]
  key := none

/-- A person of a name who is active, or is not. -/
def namedOrNot (name : String) : Expr :=
  .disj (.not (.binary .eq (.ofMember "Name") (.constant (.text name)))) (.ofMember "Active")

theorem hasPlainMembers_namedOrNot (name : String) :
    Scope.HasPlainMembers ⟨people, BuiltinDialect.postgres.dialect⟩ (namedOrNot name) := by
  have hname : Scope.HasPlainMembers ⟨people, BuiltinDialect.postgres.dialect⟩
      (.ofMember "Name") := by
    rintro f ⟨⟩
    rfl
  have hactive : Scope.HasPlainMembers ⟨people, BuiltinDialect.postgres.dialect⟩
      (.ofMember "Active") := by
    rintro f ⟨⟩
    rfl
  exact ⟨⟨hname, trivial⟩, hactive⟩

/-- The filter is written twice. Its slots are shared, and its text keeps its meaning. -/
theorem filterSql_reading_twice :
    ∃ d, Scope.filterSql ⟨people, BuiltinDialect.postgres.dialect⟩ (namedOrNot "Ann")
        (Scope.draftAfter ⟨people, BuiltinDialect.postgres.dialect⟩ [.filter (namedOrNot "Ann")]
          (Draft.fresh 0)) = .ok (some "(NOT (\"name\" = $1) OR \"active\" = $2)") d ∧
      d.binds.slots.map (fun s => (s.text, s.value)) = [("$1", .text "Ann"), ("$2", .bool true)] ∧
      ∃ r, IsReading BuiltinDialect.postgres.marks "(NOT (\"name\" = $1) OR \"active\" = $2)" r ∧
        ∀ I row, ∃ truth,
          Scope.filterTruth? ⟨people, BuiltinDialect.postgres.dialect⟩ I row (namedOrNot "Ann")
            = some truth ∧
          r.truth? I row d.binds.valueOf? = some truth := by
  refine ⟨_, rfl, rfl, ?_⟩
  obtain ⟨text, r, htext, hr, -, hmean⟩ := filterSql_reading people .postgres 0
    [.filter (namedOrNot "Ann")] [] (hasPlainMembers_namedOrNot "Ann") rfl
  obtain rfl := Option.some.inj htext
  exact ⟨r, hr, hmean⟩

end EntitySql
