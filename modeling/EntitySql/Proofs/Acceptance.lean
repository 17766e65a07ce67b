import EntitySql.Proofs.Drafts
import EntitySql.Proofs.Template

/-!
# What filters accept

Which trees are filters is said here by a grammar, `EntityMap.IsFilter`, beside the writers. It
looks at the map alone: a member chain has to stand for a persisted field (`EntityMap.Resolves`),
and everything else is a matter of the shape of the tree.

The main statement, `filterSql_accepts`, says that exactly these trees are written, on any draft
and in any dialect. A clause is written exactly if its template does not end early
(`clauseSql_written_iff`), and whether a template does is seen node by node.
-/

namespace EntitySql

namespace EntityMap

variable (m : EntityMap)

/-! ### The grammar of filters -/

/-- The member chain stands for a persisted field: the field of the member nearest to its leaf
that is mapped. -/
inductive Resolves : Expr → MappedField → Prop where
  | mapped {owner : Expr} {name : String} {f : MappedField} :
    m.find? name = some f → f.column.isPersisted = true → Resolves (.member owner name) f
  | above {owner : Expr} {name : String} {f : MappedField} :
    m.find? name = none → Resolves owner f → Resolves (.member owner name) f

/-- An operand: a member, a constant, or a conversion or arithmetic of operands. -/
inductive IsOperand : Expr → Prop where
  | member {e : Expr} {f : MappedField} : m.Resolves e f → IsOperand e
  | constant (value : Value) : IsOperand (.constant value)
  | convert {inner : Expr} : IsOperand inner → IsOperand (.convert inner)
  | arithmetic {op : Operator} {left right : Expr} :
    op.isArithmetic = true → IsOperand left → IsOperand right → IsOperand (.binary op left right)

/-- The two sides of a comparison. Beside a literal null, which an equality or an inequality tests
for, only the other side has to be an operand. -/
inductive IsComparison (op : Operator) : Expr → Expr → Prop where
  | operands {left right : Expr} :
    m.IsOperand left → m.IsOperand right → IsComparison op left right
  | nullRight {left : Expr} :
    op = .eq ∨ op = .ne → m.IsOperand left → IsComparison op left (.constant .null)
  | nullLeft {right : Expr} :
    op = .eq ∨ op = .ne → m.IsOperand right → IsComparison op (.constant .null) right

/-- A call on its first argument. Conversions around a list, a text or a member do not count. -/
inductive IsCall : Callee → Expr → Expr → Prop where
  | membership {target arg : Expr} {values : List Value} {f : MappedField} :
    target.unconverted = .constant (.array values) → m.Resolves arg.unconverted f →
    IsCall .contains target arg
  | textMatch {method : Callee} {target arg : Expr} {text : String} {f : MappedField} :
    method ≠ .equals → m.Resolves target.unconverted f →
    arg.unconverted = .constant (.text text) → IsCall method target arg
  | equality {target arg : Expr} : m.IsComparison .eq target arg → IsCall .equals target arg

/-- A filter. -/
inductive IsFilter : Expr → Prop where
  | lambda {params : List String} {body : Expr} : IsFilter body → IsFilter (.lambda params body)
  | convert {inner : Expr} : IsFilter inner → IsFilter (.convert inner)
  | connective {op : Operator} {left right : Expr} :
    op.isLogical = true → IsFilter left → IsFilter right → IsFilter (.binary op left right)
  | not {inner : Expr} : IsFilter inner → IsFilter (.not inner)
  | member {e : Expr} {f : MappedField} : m.Resolves e f → IsFilter e
  | settled (b : Bool) : IsFilter (.constant (.bool b))
  | comparison {op : Operator} {left right : Expr} :
    op.isComparison = true → m.IsComparison op left right → IsFilter (.binary op left right)
  | call {method : Callee} {target arg : Expr} {more : List Expr} :
    m.IsCall method target arg → IsFilter (.call method target (arg :: more))

variable {m}

/-! ### One node of the grammar -/

/-- Only a member chain stands for a field. -/
theorem Resolves.eq_member {e : Expr} {f : MappedField} (h : m.Resolves e f) :
    ∃ owner name, e = .member owner name := by
  cases h <;> exact ⟨_, _, rfl⟩

theorem isOperand_convert {inner : Expr} : m.IsOperand (.convert inner) ↔ m.IsOperand inner := by
  refine ⟨fun h => ?_, .convert⟩
  cases h with
  | member h => cases h
  | convert h => exact h

theorem isOperand_binary {op : Operator} {left right : Expr} :
    m.IsOperand (.binary op left right) ↔
      op.isArithmetic = true ∧ m.IsOperand left ∧ m.IsOperand right := by
  refine ⟨fun h => ?_, fun ⟨hop, hl, hr⟩ => .arithmetic hop hl hr⟩
  cases h with
  | member h => cases h
  | arithmetic hop hl hr => exact ⟨hop, hl, hr⟩

theorem isOperand_member {owner : Expr} {name : String} :
    m.IsOperand (.member owner name) ↔ ∃ f, m.Resolves (.member owner name) f := by
  refine ⟨fun h => ?_, fun ⟨f, h⟩ => .member h⟩
  cases h with
  | member h => exact ⟨_, h⟩

/-- A literal null is an operand, so a comparison comes to two operands after all. -/
theorem isComparison_iff {op : Operator} {left right : Expr} :
    m.IsComparison op left right ↔ m.IsOperand left ∧ m.IsOperand right := by
  constructor
  · rintro (⟨hl, hr⟩ | ⟨-, hl⟩ | ⟨-, hr⟩)
    · exact ⟨hl, hr⟩
    · exact ⟨hl, .constant .null⟩
    · exact ⟨.constant .null, hr⟩
  · exact fun ⟨hl, hr⟩ => .operands hl hr

theorem isFilter_lambda {params : List String} {body : Expr} :
    m.IsFilter (.lambda params body) ↔ m.IsFilter body := by
  refine ⟨fun h => ?_, .lambda⟩
  cases h with
  | member h => cases h
  | lambda h => exact h

theorem isFilter_convert {inner : Expr} : m.IsFilter (.convert inner) ↔ m.IsFilter inner := by
  refine ⟨fun h => ?_, .convert⟩
  cases h with
  | member h => cases h
  | convert h => exact h

theorem isFilter_not {inner : Expr} : m.IsFilter (.not inner) ↔ m.IsFilter inner := by
  refine ⟨fun h => ?_, .not⟩
  cases h with
  | member h => cases h
  | not h => exact h

theorem isFilter_member {owner : Expr} {name : String} :
    m.IsFilter (.member owner name) ↔ ∃ f, m.Resolves (.member owner name) f := by
  refine ⟨fun h => ?_, fun ⟨f, h⟩ => .member h⟩
  cases h with
  | member h => exact ⟨_, h⟩

theorem isFilter_binary {op : Operator} {left right : Expr} :
    m.IsFilter (.binary op left right) ↔
      (op.isLogical = true ∧ m.IsFilter left ∧ m.IsFilter right) ∨
        (op.isComparison = true ∧ m.IsComparison op left right) := by
  constructor
  · intro h
    cases h with
    | member h => cases h
    | connective hop hl hr => exact .inl ⟨hop, hl, hr⟩
    | comparison hop h => exact .inr ⟨hop, h⟩
  · rintro (⟨hop, hl, hr⟩ | ⟨hop, h⟩)
    · exact .connective hop hl hr
    · exact .comparison hop h

theorem isFilter_call {method : Callee} {target : Expr} {args : List Expr} :
    m.IsFilter (.call method target args) ↔
      ∃ arg more, args = arg :: more ∧ m.IsCall method target arg := by
  constructor
  · intro h
    cases h with
    | member h => cases h
    | call h => exact ⟨_, _, rfl, h⟩
  · rintro ⟨arg, more, rfl, h⟩
    exact .call h

/-- What a call has to be, by its form. -/
theorem isCall_iff {method : Callee} {target arg : Expr} :
    m.IsCall method target arg ↔
      match CallForm.of method target arg with
      | .comparison => m.IsComparison .eq target arg
      | .membership _ => ∃ f, m.Resolves arg.unconverted f
      | .textMatch owner name _ => ∃ f, m.Resolves (.member owner name) f
      | .badArgument | .refused => False := by
  constructor
  · intro h
    cases h with
    | membership htarget hresolves =>
      simp only [CallForm.of, htarget]
      exact ⟨_, hresolves⟩
    | textMatch hmethod htarget harg =>
      obtain ⟨owner, name, hmember⟩ := htarget.eq_member
      rw [hmember] at htarget
      cases method with
      | equals => exact absurd rfl hmethod
      | _ =>
        simp only [CallForm.of, hmember, harg]
        exact ⟨_, htarget⟩
    | equality h => exact h
  · intro h
    cases hform : CallForm.of method target arg with
    | comparison =>
      rw [hform] at h
      obtain rfl := CallForm.of_eq_comparison.mp hform
      exact .equality h
    | membership values =>
      rw [hform] at h
      obtain ⟨rfl, htarget⟩ := CallForm.of_eq_membership.mp hform
      obtain ⟨f, hf⟩ := h
      exact .membership htarget hf
    | textMatch owner name text =>
      rw [hform] at h
      obtain ⟨hmethod, htarget, harg⟩ := CallForm.of_eq_textMatch.mp hform
      obtain ⟨f, hf⟩ := h
      exact .textMatch hmethod (htarget ▸ hf) harg
    | badArgument =>
      rw [hform] at h
      exact h.elim
    | refused =>
      rw [hform] at h
      exact h.elim

end EntityMap

namespace Scope

open Drafting

variable {c : Scope}

/-! ### Member chains -/

/-- A chain stands for the mapped member nearest to its leaf, if this is persisted. -/
theorem nearest?_persisted_iff {e : Expr} {f : MappedField} :
    c.nearest? e = some f ∧ f.column.isPersisted = true ↔ c.map.Resolves e f := by
  fun_induction nearest? c e with
  | case1 owner name g hfind =>
    constructor
    · rintro ⟨heq, hpersisted⟩
      obtain rfl := Option.some.inj heq
      exact .mapped hfind hpersisted
    · intro h
      cases h with
      | mapped hfind' hpersisted => exact ⟨hfind.symm.trans hfind', hpersisted⟩
      | above hnone => cases hfind.symm.trans hnone
  | case2 owner name hfind ih =>
    rw [ih]
    refine ⟨.above hfind, fun h => ?_⟩
    cases h with
    | mapped hfind' => cases hfind.symm.trans hfind'
    | above _ h => exact h
  | case3 e hmember =>
    refine ⟨fun h => (nomatch h.1), fun h => ?_⟩
    cases h <;> exact absurd rfl (hmember _ _)

/-- A chain is resolved to the field that it stands for. -/
theorem resolve_eq_ok_iff {e : Expr} {f : MappedField} :
    c.resolve e = .ok f ↔ c.map.Resolves e f := by
  rw [← nearest?_persisted_iff, resolve]
  cases c.nearest? e with
  | none => simp
  | some g =>
    dsimp only
    split <;> grind

theorem stop?_onField_eq_none {e : Expr} {k : MappedField → Template} :
    (c.onField e k).stop? = none ↔ ∃ f, c.map.Resolves e f ∧ (k f).stop? = none := by
  simp only [← resolve_eq_ok_iff, onField]
  cases c.resolve e with
  | ok f => simp
  | error error => simp [Template.fail]

/-! ### Operands and comparisons -/

/-- The template of an operand ends early unless the tree is an operand. -/
theorem stop?_operandTemplate {column : String} {clause : ClauseKind} {e : Expr} :
    (c.operandTemplate column clause e).stop? = none ↔ c.map.IsOperand e := by
  fun_induction operandTemplate c column clause e with
  | case1 owner name =>
    rw [stop?_onField_eq_none, EntityMap.isOperand_member]
    simp
  | case2 value => exact iff_of_true rfl (.constant value)
  | case3 inner ih => rw [ih, EntityMap.isOperand_convert]
  | case4 op left right hop ihl ihr =>
    rw [EntityMap.isOperand_binary]
    simp [ihl, ihr, hop]
  | case5 op left right hop =>
    rw [EntityMap.isOperand_binary]
    simp [hop]
  | case6 e hmember hconstant hconvert hbinary =>
    refine iff_of_false (Option.some_ne_none _) fun h => ?_
    cases h with
    | member h => cases h <;> exact hmember _ _ rfl
    | constant => exact hconstant _ rfl
    | convert => exact hconvert _ rfl
    | arithmetic => exact hbinary _ _ _ rfl

/-- A null literal is an operand, which a test for null need not write. -/
theorem isOperand_of_isNullLiteral {e : Expr} (h : e.isNullLiteral = true) : c.map.IsOperand e := by
  obtain rfl := Expr.eq_null_of_isNullLiteral h
  exact .constant .null

theorem stop?_comparisonTemplate {op : Operator} {left right : Expr} :
    (c.comparisonTemplate op left right).stop? = none ↔ c.map.IsComparison op left right := by
  rw [comparisonTemplate, EntityMap.isComparison_iff]
  split
  · next hnull =>
    rw [nullTestTemplate, Template.stop?_append_eq_none, stop?_operandTemplate]
    split
    · next hright =>
      have := isOperand_of_isNullLiteral (c := c) hright
      simp [this]
    · next hright =>
      have := isOperand_of_isNullLiteral (c := c)
        ((Bool.or_eq_true _ _).mp hnull.2 |>.resolve_right hright)
      simp [this]
  · simp [stop?_operandTemplate]

/-! ### Conditions -/

theorem stop?_flagTemplate {member : Expr} {expected : Bool} :
    (c.flagTemplate member expected).stop? = none ↔ ∃ f, c.map.Resolves member f := by
  rw [flagTemplate, stop?_onField_eq_none]
  simp

theorem stop?_matchTemplate {method : Callee} {member : Expr} {text : String} :
    (c.matchTemplate method member text).stop? = none ↔ ∃ f, c.map.Resolves member f := by
  rw [matchTemplate, stop?_onField_eq_none]
  simp

theorem stop?_membershipTemplate {member : Expr} {values : List Value} :
    (c.membershipTemplate member values).stop? = none ↔ ∃ f, c.map.Resolves member f := by
  rw [membershipTemplate, stop?_onField_eq_none]
  cases values with
  | nil => simp
  | cons value rest => simp [Template.stop?_join]

theorem stop?_callTemplate {method : Callee} {target arg : Expr} {more : List Expr} :
    (c.callTemplate method target (arg :: more)).stop? = none ↔ c.map.IsCall method target arg := by
  rw [EntityMap.isCall_iff]
  simp only [callTemplate]
  cases CallForm.of method target arg with
  | comparison => exact stop?_comparisonTemplate
  | membership values => exact stop?_membershipTemplate
  | textMatch owner name text => exact stop?_matchTemplate
  | badArgument => simp
  | refused => simp

/-- The template of a condition ends early unless the tree is a filter. -/
theorem stop?_conditionTemplate {e : Expr} :
    (c.conditionTemplate e).stop? = none ↔ c.map.IsFilter e := by
  fun_induction conditionTemplate c e with
  | case1 params body ih => rw [ih, EntityMap.isFilter_lambda]
  | case2 inner ih => rw [ih, EntityMap.isFilter_convert]
  | case3 op left right hop ihl ihr =>
    have hcmp : op.isComparison = false := by cases op <;> first | rfl | cases hop
    rw [EntityMap.isFilter_binary]
    simp [ihl, ihr, hop, hcmp]
  | case4 op left right hop hcmp =>
    rw [stop?_comparisonTemplate, EntityMap.isFilter_binary]
    simp [hop, hcmp]
  | case5 op left right hop hcmp =>
    rw [EntityMap.isFilter_binary]
    simp [hop, hcmp]
  | case6 owner name => rw [stop?_flagTemplate, EntityMap.isFilter_member]
  | case7 owner name =>
    rw [stop?_flagTemplate, EntityMap.isFilter_not, EntityMap.isFilter_member]
  | case8 inner hinner ih =>
    rw [EntityMap.isFilter_not]
    simp [ih]
  | case9 method target args =>
    cases args with
    | nil =>
      rw [EntityMap.isFilter_call]
      simp [callTemplate]
    | cons arg more =>
      rw [stop?_callTemplate, EntityMap.isFilter_call]
      simp
  | case10 => exact iff_of_true rfl (.settled true)
  | case11 => exact iff_of_true rfl (.settled false)
  | case12 e hlambda hconvert hbinary hmember _ hnot hcall htrue hfalse =>
    refine iff_of_false (Option.some_ne_none _) fun h => ?_
    cases h with
    | lambda => exact hlambda _ _ rfl
    | convert => exact hconvert _ rfl
    | connective => exact hbinary _ _ _ rfl
    | not => exact hnot _ rfl
    | member h => cases h <;> exact hmember _ _ rfl
    | settled b => cases b <;> [exact hfalse rfl; exact htrue rfl]
    | comparison => exact hbinary _ _ _ rfl
    | call => exact hcall _ _ _ rfl

/-! ### Clauses -/

/-- A clause is written exactly if none of its templates ends early. -/
theorem clauseSql_written_iff {k : BindingClause} {d : Draft} :
    (∃ sql d', c.clauseSql k d = .ok sql d') ↔ ∀ s ∈ c.clauseTemplates k, s.stop? = none := by
  have hresult := c.clauseSql_result k d
  rw [← List.findSome?_eq_none_iff, ← Template.stop?_join k.separator]
  constructor
  · rintro ⟨sql, d', h⟩
    have hok := result_eq_ok.mpr ⟨d', h, rfl⟩
    rw [hresult] at hok
    exact (Template.outcome_eq_ok.mp (Prod.mk.inj hok).1).1
  · intro hstop
    obtain ⟨sql, hsql⟩ : ∃ sql, ((c.clauseSql k).result d).1 = .ok sql :=
      ⟨_, by rw [hresult]; exact Template.outcome_eq_ok.mpr ⟨hstop, rfl⟩⟩
    obtain ⟨d', hok, -⟩ := result_eq_ok.mp (Prod.ext hsql rfl)
    exact ⟨sql, d', hok⟩

/-- A clause that is written is made of the texts of its templates, written in turn. -/
theorem clauseSql_eq_ok {k : BindingClause} {d d' : Draft} {sql : Option String}
    (h : c.clauseSql k d = .ok sql d') :
    ∃ texts, (c.clauseTemplates k).mapM c.write d.binds = .ok texts d'.binds ∧
      sql = if texts.isEmpty then none else some (String.intercalate k.separator texts) := by
  have hresult := (result_eq_ok.mpr ⟨d', h, rfl⟩).symm.trans (c.clauseSql_result k d)
  obtain ⟨hsql, hbinds⟩ := Prod.mk.inj hresult
  obtain ⟨hstop, hsql⟩ := Template.outcome_eq_ok.mp hsql.symm
  have hwrite : c.write (.join k.separator (c.clauseTemplates k)) d.binds
      = .ok (c.fill (c.clauseTemplate k).pieces d.binds).1 d'.binds :=
    write_eq_ok.mpr ⟨hstop, Prod.ext rfl hbinds.symm⟩
  rw [write_join] at hwrite
  obtain ⟨texts, htexts, htext⟩ := map_eq_ok.mp hwrite
  exact ⟨texts, htexts, by rw [isEmpty_of_mapM htexts, htext]; exact hsql.symm⟩

/-- **Exactly the filters are written.** Any other tree is refused. -/
theorem filterSql_accepts (c : Scope) (e : Expr) (d : Draft) :
    ((∃ text d', c.filterSql e d = .ok (some text) d') ↔ c.map.IsFilter e) ∧
      ((∃ error d', c.filterSql e d = .error error d') ↔ ¬ c.map.IsFilter e) := by
  have hwritten : (∃ sql d', c.filterSql e d = .ok sql d') ↔ c.map.IsFilter e :=
    (clauseSql_written_iff (k := .filter e)).trans
      (List.forall_mem_singleton.trans stop?_conditionTemplate)
  refine ⟨⟨fun ⟨text, d', h⟩ => hwritten.mp ⟨_, d', h⟩, fun hfilter => ?_⟩, ?_⟩
  · obtain ⟨sql, d', h⟩ := hwritten.mpr hfilter
    obtain ⟨text, rfl, -⟩ := filterSql_ok c h
    exact ⟨text, d', h⟩
  · rw [← hwritten]
    cases c.filterSql e d <;> simp

end Scope

end EntitySql
