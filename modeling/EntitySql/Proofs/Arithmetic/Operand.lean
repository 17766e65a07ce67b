import EntitySql.Proofs.Arithmetic.Pairing
import EntitySql.Proofs.Arithmetic.Scan
import EntitySql.Proofs.Condition.Filter

/-!
# Operands over computed columns

The text of a computed column stands in an operand as it is, without parentheses, while every
operation in the operand stands in parentheses. So the operators of a computed column and the one
operator next to it compete for their operands, and nothing else in the text is at stake.

The main statement, `emitOperand_value_iff`, is for maps whose computed columns are arithmetic over
columns. The text of an operand has exactly one reading. On every row and under every
interpretation this reading has the value of the operand, in which a computed member stands for
the value of its column as a whole, exactly if the operand fits: wherever a computed column stands
next to an operator, its text binds tightly enough (`Scope.Fits`).

`Scope.IsPasted` is what is established node by node: what the text says (`flat`), what the operand
is (`tree`), and that the two are the same if the operand fits and differ already in their shape
if it does not. A difference in shape is a difference in value for the interpretation that keeps
the two operands of every operation apart (`Interpretation.pairing`).
-/

namespace EntitySql

open Condition

/-! ### Formulas -/

/-- The reading is arithmetic over columns. -/
def Condition.Reading.IsFormula : Reading → Prop
  | .column _ => True
  | .binary op l r => op.isArithmetic = true ∧ l.IsFormula ∧ r.IsFormula
  | _ => False

/-- Every computed column is arithmetic over columns. Its text is read as its formula. -/
def EntityMap.HasFormulas (m : EntityMap) (d : Dialect) (marks : Marks)
    (formula : String → Reading) : Prop :=
  ∀ f ∈ m.fields, f.column.isPersisted = true → d.isPlain f.column.name = false →
    Arithmetic.IsReading marks f.column.name (formula f.column.name) ∧
      (formula f.column.name).IsFormula

/-- The row with the computed columns: each has the value of its formula, under its text. -/
def withFormulas (d : Dialect) (formula : String → Reading) (I : Interpretation)
    (row : ColumnValues) : ColumnValues := fun name =>
  if d.isPlain name then row name
  else ((formula name).value? I row fun _ => none).getD .null

/-- A formula has a value on every row, and reads no slot. -/
theorem Condition.Reading.IsFormula.exists_value {F : Reading} (h : F.IsFormula)
    (I : Interpretation) (row : ColumnValues) :
    ∃ v, ∀ slots, F.value? I row slots = some v := by
  induction F with
  | column name => exact ⟨row name, fun _ => rfl⟩
  | binary op l r ihl ihr =>
    obtain ⟨hop, hl, hr⟩ := h
    obtain ⟨v, hv⟩ := ihl hl
    obtain ⟨w, hw⟩ := ihr hr
    refine ⟨I.compute op v w, fun slots => ?_⟩
    rw [Reading.value?, if_pos hop, hv, hw]
    rfl
  | _ => exact h.elim

namespace Scope

/-- An operand whose text, standing without parentheses, is read at level `k`. Only computed
columns stand without parentheses and are no single operands. -/
def BindsAt (c : Scope) (marks : Marks) (k : Nat) : Expr → Prop
  | .member owner name => ∀ f, c.resolve (.member owner name) = .ok f →
      c.dialect.isPlain f.column.name = false →
      ∃ tokens F, Arithmetic.Tokens marks f.column.name.toList tokens ∧ Reads k tokens F
  | .convert inner => c.BindsAt marks k inner
  | _ => True

/-- The operands of every operation bind tightly enough: the left one as tightly as the operator,
the right one more tightly. -/
def Fits (c : Scope) (marks : Marks) : Expr → Prop
  | .convert inner => c.Fits marks inner
  | .binary op l r => (c.Fits marks l ∧ c.Fits marks r) ∧
      ∃ k, (Token.operator op).level = some k ∧ c.BindsAt marks k l ∧ c.BindsAt marks (k + 1) r
  | _ => True

/-! ### What is written -/

/-- The text of an operand. It says `flat`, while the operand itself is `tree`. -/
structure IsPasted (c : Scope) (marks : Marks) (e : Expr) (text : String) (tokens : List Token)
    (flat tree : Reading) : Prop where
  scans : Arithmetic.Tokens marks text.toList tokens
  reads : Reads 5 tokens flat
  /-- How tightly the text binds is seen from the operand. -/
  binds : ∀ k, 5 ≤ k → k ≤ 7 → (c.BindsAt marks k e ↔ Reads k tokens flat)
  leaves : flat.leaves = tree.leaves
  /-- With `shape`: the text says what the operand is exactly if the operand fits. -/
  fits : c.Fits marks e → flat = tree
  shape : flat.SameShape tree → c.Fits marks e

variable {c : Scope} {marks : Marks}

theorem isPasted_single {e : Expr} {text : String} {t : Token} {r : Reading}
    (hscans : Arithmetic.Tokens marks text.toList [t]) (hreads : Reads 7 [t] r)
    (hbinds : ∀ k, c.BindsAt marks k e) (hfits : c.Fits marks e) :
    c.IsPasted marks e text [t] r r where
  scans := hscans
  reads := hreads.loosen (by decide) (by decide)
  binds k _ hk := iff_of_true (hbinds k) (hreads.loosen hk (by decide))
  leaves := rfl
  fits _ := rfl
  shape _ := hfits

theorem isPasted_column (hd : IsScannable c.dialect marks) {owner : Expr} {name : String}
    {f : MappedField} (hf : c.resolve (.member owner name) = .ok f)
    (hplain : c.dialect.isPlain f.column.name = true) :
    c.IsPasted marks (.member owner name) (c.columnSql f) [.column f.column.name]
      (.column f.column.name) (.column f.column.name) := by
  rw [columnSql_eq hplain]
  refine isPasted_single (Arithmetic.tokens_quote hd f.column.name) (.column _) ?_ trivial
  intro k g hg hcomputed
  obtain rfl := Except.ok.inj (hf.symm.trans hg)
  rw [hplain] at hcomputed
  cases hcomputed

theorem isPasted_formula {owner : Expr} {name : String} {f : MappedField} {tokens : List Token}
    {F : Reading} (hf : c.resolve (.member owner name) = .ok f)
    (hplain : c.dialect.isPlain f.column.name = false)
    (hscans : Arithmetic.Tokens marks f.column.name.toList tokens) (hreads : Reads 5 tokens F) :
    c.IsPasted marks (.member owner name) (c.columnSql f) tokens F F where
  scans := by
    have htext : c.columnSql f = f.column.name := by simp [columnSql, selectItem, hplain]
    rwa [htext]
  reads := hreads
  binds k hk hk' := by
    constructor
    · intro h
      obtain ⟨tokens', F', hscans', hreads'⟩ := h f hf hplain
      obtain rfl := Arithmetic.tokens_unique hscans hscans'
      rwa [hreads.unique (hreads'.loosen hk hk')]
    · intro h g hg _
      obtain rfl := Except.ok.inj (hf.symm.trans hg)
      exact ⟨tokens, F, hscans, h⟩
  leaves := rfl
  fits _ := rfl
  shape _ := trivial

/-- An operation in parentheses on two operands. -/
theorem IsPasted.operation (hd : IsScannable c.dialect marks) {op : Operator}
    (hop : op.isArithmetic = true) {l r : Expr} {leftText rightText : String}
    {ls rs : List Token} {flatLeft treeLeft flatRight treeRight : Reading}
    (hl : c.IsPasted marks l leftText ls flatLeft treeLeft)
    (hr : c.IsPasted marks r rightText rs flatRight treeRight) :
    ∃ flat, c.IsPasted marks (.binary op l r)
      ("(" ++ leftText ++ " " ++ op.text ++ " " ++ rightText ++ ")")
      (.opening :: (ls ++ .operator op :: rs ++ [.closing])) flat
      (.binary op treeLeft treeRight) := by
  obtain ⟨flat, hreads, hleaves, hcases⟩ := exists_reads_operator hop hl.reads hr.reads
  have hparen : Reads 7 (.opening :: (ls ++ .operator op :: rs ++ [.closing])) flat :=
    .paren (hreads.loosen (by decide) (by decide))
  refine ⟨flat, ?_, hparen.loosen (by decide) (by decide),
    fun k _ hk => iff_of_true trivial (hparen.loosen hk (by decide)), ?_, ?_, ?_⟩
  · simpa using hl.scans.operation hd hop hr.scans
  · rw [hleaves, hl.leaves, hr.leaves, Reading.leaves]
  · rintro ⟨⟨hfitsLeft, hfitsRight⟩, k, hlevel, hbindsLeft, hbindsRight⟩
    have hk := level_eq_of_isArithmetic hop hlevel
    have hoperation := Reads.operation hk hlevel ((hl.binds k (by omega) (by omega)).mp hbindsLeft)
      ((hr.binds (k + 1) (by omega) (by omega)).mp hbindsRight)
    rw [hreads.unique (hoperation.loosen (by omega) (by omega)), hl.fits hfitsLeft,
      hr.fits hfitsRight]
  · intro hshape
    obtain ⟨k, hlevel, hbindsLeft, hbindsRight, rfl⟩ | ⟨op', x, y, rfl, hne⟩ := hcases
    · have hk := level_eq_of_isArithmetic hop hlevel
      exact ⟨⟨hl.shape hshape.1, hr.shape hshape.2⟩, k, hlevel,
        (hl.binds k (by omega) (by omega)).mpr hbindsLeft,
        (hr.binds (k + 1) (by omega) (by omega)).mpr hbindsRight⟩
    · exact absurd (hshape.2.leaves_eq.trans hr.leaves.symm) hne

/-- The column of a member is written as a text with the value of the member. -/
theorem columnSql_pasted (hd : IsScannable c.dialect marks) {formula : String → Reading}
    (hformulas : c.map.HasFormulas c.dialect marks formula) {owner : Expr} {name : String}
    {f : MappedField} (hf : c.resolve (.member owner name) = .ok f) :
    ∃ tokens flat tree, c.IsPasted marks (.member owner name) (c.columnSql f) tokens flat tree ∧
      ∀ final, HasValue
        (fun I row => c.operandValue? I (withFormulas c.dialect formula I row)
          (.member owner name)) tree final := by
  cases hplain : c.dialect.isPlain f.column.name with
  | true =>
    refine ⟨_, _, _, isPasted_column hd hf hplain, fun final I row => ?_⟩
    exact ⟨_, _, memberValue?_eq hf _, rfl, by simp [withFormulas, hplain, Value.same_refl]⟩
  | false =>
    obtain ⟨hmem, hpersisted⟩ := mem_fields_of_resolve hf
    obtain ⟨⟨tokens, hscans, hreads⟩, hformula⟩ := hformulas f hmem hpersisted hplain
    refine ⟨_, _, _, isPasted_formula hf hplain hscans hreads, fun final I row => ?_⟩
    obtain ⟨v, hv⟩ := hformula.exists_value I row
    exact ⟨_, v, memberValue?_eq hf _, hv _, by simp [withFormulas, hplain, hv, Value.same_refl]⟩

/-- A slot is written as a text with the value that it was asked for. -/
theorem slotOf_pasted (hd : IsScannable c.dialect marks) {t u : BindTable} (ht : t.Sound c.dialect)
    {column : String} {value : Value} {text : String} (h : c.slotOf column value t = .ok text u) :
    t.Grows c.dialect u ∧ ∃ tokens flat tree,
      c.IsPasted marks (.constant value) text tokens flat tree ∧
        ∀ final, u.Grows c.dialect final → final.Sound c.dialect →
          HasValue (fun _ _ => some value) tree final := by
  obtain ⟨hgrows, ⟨name, ordinal, hname, rfl⟩, hvalue⟩ := slotOf_hasValue hd.slotsApart ht h
  exact ⟨hgrows, _, _, _, isPasted_single (Arithmetic.tokens_slot hd hname ordinal) (.slot _)
    (fun _ => trivial) trivial, hvalue⟩

/-- **What the text of an operand says**, beside what the operand is. -/
theorem operandText_pasted (hd : IsScannable c.dialect marks) {formula : String → Reading}
    (hformulas : c.map.HasFormulas c.dialect marks formula) (column : String) (clause : ClauseKind)
    {e : Expr} {text : String} {t u : BindTable} (ht : t.Sound c.dialect)
    (h : c.operandText column clause e t = .ok text u) :
    t.Grows c.dialect u ∧ ∃ tokens flat tree, c.IsPasted marks e text tokens flat tree ∧
      ∀ final, u.Grows c.dialect final → final.Sound c.dialect →
        HasValue (fun I row => c.operandValue? I (withFormulas c.dialect formula I row) e)
          tree final := by
  fun_induction operandText c column clause e generalizing t u text with
  | case1 owner name =>
    obtain ⟨f, hrun, rfl⟩ := map_eq_ok.mp h
    obtain ⟨hf, rfl⟩ := resolved_eq_ok.mp hrun
    obtain ⟨tokens, flat, tree, hpasted, hvalue⟩ := columnSql_pasted hd hformulas hf
    exact ⟨.refl t, tokens, flat, tree, hpasted, fun final _ _ => hvalue final⟩
  | case2 value => exact slotOf_pasted hd ht h
  | case3 inner ih =>
    obtain ⟨hgrows, tokens, flat, tree, hpasted, hvalue⟩ := ih ht h
    exact ⟨hgrows, tokens, flat, tree, { hpasted with }, hvalue⟩
  | case4 op left right hop ihl ihr =>
    obtain ⟨leftText, v, hl, h⟩ := bind_eq_ok.mp h
    obtain ⟨rightText, hr, rfl⟩ := map_eq_ok.mp h
    obtain ⟨hgl, ls, flatLeft, treeLeft, hleft, hvl⟩ := ihl ht hl
    -- the right operand is written in the table that the left one leaves
    obtain ⟨hgr, rs, flatRight, treeRight, hright, hvr⟩ := ihr (ht.grows hgl) hr
    obtain ⟨flat, hpasted⟩ := hleft.operation hd hop hright
    refine ⟨hgl.trans hgr, _, flat, _, hpasted, fun final hfinal hsound => ?_⟩
    simp only [operandValue?, if_pos hop]
    exact (hvl final (hgr.trans hfinal) hsound).compute hop (hvr final hfinal hsound)
  | case5 op left right hop => exact absurd h throw_ne_ok
  | case6 e => exact absurd h throw_ne_ok

end Scope

/-! ### Operands -/

/-- **Operands keep their value exactly if they fit.** The draft is any that can be reached while
clauses are written, and the slots have the values of any table that is reached later. The text of
an operand, in a comparison or in an assignment, has one reading. On every row, under every
interpretation of arithmetic, it has the value of the operand, in which a computed member stands
for the value of its column as a whole, if every computed column in the operand binds tightly
enough; otherwise there is a row and an interpretation for which it has not. -/
theorem emitOperand_value_iff (m : EntityMap) (b : BuiltinDialect) {formula : String → Reading}
    (hformulas : m.HasFormulas b.dialect b.marks formula) (index : Nat) {column : String}
    {clause : ClauseKind} {e : Expr} {d d' : Draft}
    (hreached : (Draft.fresh index).binds.Grows b.dialect d.binds)
    (h : Scope.emitOperand ⟨m, b.dialect⟩ column clause e d = .ok () d') :
    ∃ text r, d' = { d with binds := d'.binds, texts := d.texts.push text } ∧
      Arithmetic.IsReading b.marks text r ∧
      (∀ r', Arithmetic.IsReading b.marks text r' → r' = r) ∧
      ((∀ final, d'.binds.Grows b.dialect final → ∀ I row, ∃ v w,
          Scope.operandValue? ⟨m, b.dialect⟩ I (withFormulas b.dialect formula I row) e = some v ∧
            r.value? I row final.valueOf? = some w ∧ w.same v = true) ↔
        Scope.Fits ⟨m, b.dialect⟩ b.marks e) := by
  obtain ⟨text, htext, hd'⟩ := (Scope.emitOperand_writes ⟨m, b.dialect⟩ column clause e).of_ok h
  have hsound : d.binds.Sound b.dialect := (BindTable.sound_empty b.dialect index).grows hreached
  obtain ⟨hgrows, tokens, flat, tree, hpasted, hvalue⟩ :=
    Scope.operandText_pasted (isScannable_builtin b) hformulas column clause hsound htext
  have hreading : Arithmetic.IsReading b.marks text flat := ⟨tokens, hpasted.scans, hpasted.reads⟩
  refine ⟨text, flat, hd', hreading, fun r' hr' => Arithmetic.isReading_unique hr' hreading, ?_, ?_⟩
  · intro hsame
    -- one interpretation and one row are enough to tell different shapes apart
    obtain ⟨mark, hmark⟩ := d'.binds.exists_mark
    obtain ⟨v, w, hv, hw, hwv⟩ := hsame d'.binds (.refl _) (.pairing mark) fun _ => .null
    obtain ⟨v', w', hv', hw', hwv'⟩ :=
      hvalue d'.binds (.refl _) (hsound.grows hgrows) (.pairing mark) fun _ => .null
    obtain rfl := Option.some.inj (hv.symm.trans hv')
    exact hpasted.shape (Reading.sameShape_of_value? hmark hw hw' hwv hwv')
  · intro hfits final hfinal I row
    rw [hpasted.fits hfits]
    exact hvalue final hfinal (hsound.grows (hgrows.trans hfinal)) I row

/-! ### Two computed columns -/

/-- A type with two computed columns. -/
def purchases : EntityMap where
  entity := "Purchase"
  table := "purchases"
  fields := [⟨"Price", ⟨"price", false, true, .scalar⟩⟩,
    ⟨"Total", ⟨"price * qty", false, true, .scalar⟩⟩,
    ⟨"Gross", ⟨"price + fee", false, true, .scalar⟩⟩]
  key := none

/-- The formulas of the computed columns of purchases. -/
def purchaseFormula (name : String) : Reading :=
  if name = "price * qty" then .binary .mul (.column "price") (.column "qty")
  else .binary .add (.column "price") (.column "fee")

theorem reads_total (b : BuiltinDialect) :
    ∃ tokens, Arithmetic.Tokens b.marks "price * qty".toList tokens ∧
      Reads 6 tokens (.binary .mul (.column "price") (.column "qty")) := by
  refine ⟨[.column "price"] ++ .operator .mul :: [.column "qty"], ?_, ?_⟩
  · cases b <;> exact .token rfl (.blank (.token rfl (.blank (.token rfl .nil))))
  · exact .operation (.inr rfl) rfl (.tighter (by decide) (.column _)) (.column _)

theorem reads_gross (b : BuiltinDialect) :
    ∃ tokens, Arithmetic.Tokens b.marks "price + fee".toList tokens ∧
      Reads 5 tokens (.binary .add (.column "price") (.column "fee")) := by
  have hcolumn : ∀ name, Reads 6 [.column name] (.column name) :=
    fun name => .tighter (by decide) (.column name)
  refine ⟨[.column "price"] ++ .operator .add :: [.column "fee"], ?_, ?_⟩
  · cases b <;> exact .token rfl (.blank (.token rfl (.blank (.token rfl .nil))))
  · exact .operation (.inl rfl) rfl (.tighter (by decide) (hcolumn _)) (hcolumn _)

theorem hasFormulas_purchases (b : BuiltinDialect) :
    purchases.HasFormulas b.dialect b.marks purchaseFormula := by
  intro f hf _ hplain
  rw [b.isPlain_dialect] at hplain
  simp only [purchases, List.mem_cons, List.not_mem_nil, or_false] at hf
  obtain rfl | rfl | rfl := hf
  · cases hplain
  · obtain ⟨tokens, hscans, hreads⟩ := reads_total b
    exact ⟨⟨tokens, hscans, .tighter (by decide) hreads⟩, rfl, trivial, trivial⟩
  · exact ⟨reads_gross b, rfl, trivial, trivial⟩

/-- The gross price and a percent of the total. -/
def grossAndPercent : Expr :=
  .binary .add (.ofMember "Gross")
    (.binary .div (.ofMember "Total") (.constant (.number (.int 100 rfl))))

theorem fits_grossAndPercent (b : BuiltinDialect) :
    Scope.Fits ⟨purchases, b.dialect⟩ b.marks grossAndPercent := by
  have htotal : Scope.BindsAt ⟨purchases, b.dialect⟩ b.marks 6 (.ofMember "Total") := by
    rintro f ⟨⟩ -
    obtain ⟨tokens, h⟩ := reads_total b
    exact ⟨tokens, _, h⟩
  have hgross : Scope.BindsAt ⟨purchases, b.dialect⟩ b.marks 5 (.ofMember "Gross") := by
    rintro f ⟨⟩ -
    obtain ⟨tokens, h⟩ := reads_gross b
    exact ⟨tokens, _, h⟩
  exact ⟨⟨trivial, ⟨trivial, trivial⟩, 6, rfl, htotal, trivial⟩, 5, rfl, hgross, trivial⟩

/-- A draft of purchases on which a filter was written before. -/
def draftOfPurchases : Draft :=
  Scope.draftAfter ⟨purchases, BuiltinDialect.sqlite.dialect⟩ [.filter (.ofMember "Price")]
    (Draft.fresh 0)

/-- Both columns are written on the left of their operators, where they fit. -/
theorem emitOperand_value_iff_percent :
    ∃ d' r, Scope.emitOperand ⟨purchases, BuiltinDialect.sqlite.dialect⟩ "price" .predicate
        grossAndPercent draftOfPurchases = .ok () d' ∧
      d'.texts.toList = ["(price + fee + (price * qty / ?2))"] ∧
      Arithmetic.IsReading BuiltinDialect.sqlite.marks "(price + fee + (price * qty / ?2))" r ∧
      ∀ final, d'.binds.Grows BuiltinDialect.sqlite.dialect final → ∀ I row, ∃ v w,
        Scope.operandValue? ⟨purchases, BuiltinDialect.sqlite.dialect⟩ I
            (withFormulas .sqlite purchaseFormula I row) grossAndPercent = some v ∧
          r.value? I row final.valueOf? = some w ∧ w.same v = true := by
  have hreached := Scope.grows_draftAfter ⟨purchases, BuiltinDialect.sqlite.dialect⟩
    [.filter (.ofMember "Price")] (Draft.fresh 0)
  have hrun : Scope.emitOperand ⟨purchases, BuiltinDialect.sqlite.dialect⟩ "price" .predicate
      grossAndPercent draftOfPurchases = .ok () _ := rfl
  obtain ⟨text, r, htexts, hreading, -, hiff⟩ := emitOperand_value_iff purchases .sqlite
    (hasFormulas_purchases .sqlite) 0 hreached hrun
  have htext : text = "(price + fee + (price * qty / ?2))" :=
    (Option.some.inj (congrArg (fun d => d.texts.latestFirst.head?) htexts)).symm
  rw [htext] at hreading
  exact ⟨_, r, hrun, rfl, hreading, hiff.mpr (fits_grossAndPercent .sqlite)⟩

/-! ### A column on the right of a division -/

/-- The integer that a value is. -/
def Value.whole? : Value → Option Int
  | .number (.int i _) => some i
  | _ => none

/-- Arithmetic on integers. A division drops the fraction. -/
def Operator.onWholes? : Operator → Int → Int → Option Int
  | .add, i, j => some (i + j)
  | .sub, i, j => some (i - j)
  | .mul, i, j => some (i * j)
  | .div, i, j => if j = 0 then none else some (i.tdiv j)
  | _, _, _ => none

theorem Value.whole?_eq_of_same {v w : Value} (h : v.same w = true) : v.whole? = w.whole? := by
  cases v with
  | number m =>
    cases w with
    | number n => cases m <;> cases n <;> simp_all [Value.same, Number.same, Value.whole?]
    | _ => cases h
  | _ => cases w <;> first | rfl | cases h

/-- The interpretation on integers. What is no integer, or out of range, is null. -/
def Interpretation.wholes : Interpretation where
  compare _ _ _ := .unknown
  compute op v w := (do
    let i ← v.whole?
    let j ← w.whole?
    Value.ofInt? (← op.onWholes? i j)).getD .null
  like _ _ := .unknown
  compare_same _ _ _ _ _ _ _ := rfl
  compute_same _ _ _ _ _ hv hw := by
    rw [Value.whole?_eq_of_same hv, Value.whole?_eq_of_same hw]
    exact Value.same_refl _
  like_same _ _ := rfl

/-- A hundred, divided by the total. -/
def hundredByTotal : Expr :=
  .binary .div (.constant (.number (.int 100 rfl))) (.ofMember "Total")

/-- Twenty-five pieces at a price of two. -/
def manyForTwo (name : String) : Value :=
  if name = "price" then .number (.int 2 rfl) else .number (.int 25 rfl)

/-- The hundred is divided by the price only, and the quotient is multiplied: 1250 in place of 2. -/
theorem filterSql_divides :
    ∃ d r, Scope.filterSql ⟨purchases, BuiltinDialect.sqlite.dialect⟩
        (.binary .eq hundredByTotal (.constant (.number (.int 1 rfl)))) (Draft.fresh 0)
        = .ok (some "(?1 / price * qty) = ?2") d ∧
      purchases.HasFormulas BuiltinDialect.sqlite.dialect BuiltinDialect.sqlite.marks
        purchaseFormula ∧
      Arithmetic.IsReading BuiltinDialect.sqlite.marks "(?1 / price * qty)" r ∧
      r.value? .wholes manyForTwo d.binds.valueOf? = some (.number (.int 1250 rfl)) ∧
      Scope.operandValue? ⟨purchases, BuiltinDialect.sqlite.dialect⟩ .wholes
          (withFormulas .sqlite purchaseFormula .wholes manyForTwo) hundredByTotal
        = some (.number (.int 2 rfl)) := by
  have hquotient : Reads 6 ([.slot "?1"] ++ .operator .div :: [.column "price"])
      (.binary .div (.slot "?1") (.column "price")) :=
    .operation (.inr rfl) rfl (.tighter (by decide) (.slot _)) (.column _)
  have hproduct : Reads 6 (([.slot "?1"] ++ .operator .div :: [.column "price"])
        ++ .operator .mul :: [.column "qty"])
      (.binary .mul (.binary .div (.slot "?1") (.column "price")) (.column "qty")) :=
    .operation (.inr rfl) rfl hquotient (.column _)
  have hread := (Reads.paren (hproduct.loosen (by decide) (by decide))).loosen (j := 5) (by decide)
    (by decide)
  refine ⟨_, _, rfl, hasFormulas_purchases .sqlite, ⟨_, ?_, hread⟩, rfl, rfl⟩
  exact .token rfl (.token rfl (.blank (.token rfl (.blank (.token rfl (.blank (.token rfl
    (.blank (.token rfl (.token rfl .nil))))))))))

end EntitySql
