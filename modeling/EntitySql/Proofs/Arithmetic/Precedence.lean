import EntitySql.Proofs.Condition.Grammar

/-!
# Precedence

Two arithmetic texts with an operator between them are an arithmetic text again, whatever they are
(`exists_reads_operator`). It is read as the operation on the two, as long as each of them binds
tightly enough: the left one as tightly as the operator, the right one more tightly. Otherwise the
last operator of the reading is another one, and what stands on its right is not what was written
there: it has another number of operands. So the shape of the reading alone tells which of the two
happened.
-/

namespace EntitySql

namespace Condition

/-! ### Shapes -/

namespace Reading

/-- The number of operands that operators stand between. -/
def leaves : Reading → Nat
  | .binary _ l r => l.leaves + r.leaves
  | _ => 1

/-- Both readings have operators at the same places, which may be different operators. -/
def SameShape : Reading → Reading → Prop
  | .binary _ l r, .binary _ l' r' => l.SameShape l' ∧ r.SameShape r'
  | .binary _ _ _, _ => False
  | _, .binary _ _ _ => False
  | _, _ => True

theorem leaves_pos (r : Reading) : 0 < r.leaves := by
  induction r with
  | binary op l r ihl ihr =>
    rw [leaves]
    omega
  | _ => exact Nat.one_pos

theorem SameShape.leaves_eq {r r' : Reading} (h : r.SameShape r') : r.leaves = r'.leaves := by
  fun_induction SameShape r r' with
  | case1 op l r op' l' r' ihl ihr => rw [leaves, leaves, ihl h.1, ihr h.2]
  | case2 => exact h.elim
  | case3 => exact h.elim
  | case4 r r' hr hr' => rw [leaves, leaves] <;> assumption

/-- The last operator of the reading is one whose right operand cannot be the other reading. -/
def IsCutApart (s r : Reading) : Prop :=
  ∃ op x y, s = .binary op x y ∧ y.leaves ≠ r.leaves

end Reading

/-! ### Arithmetic -/

variable {k : Nat} {op : Operator} {ts ls rs : List Token} {r s l : Reading}

/-- At the levels of arithmetic a reading is tighter or an operation. -/
theorem Reads.view_operator (hk : k = 5 ∨ k = 6) (h : Reads k ts r) :
    Reads (k + 1) ts r ∨ ∃ ls op rs x y, ts = ls ++ .operator op :: rs ∧ r = .binary op x y ∧
      (Token.operator op).level = some k ∧ Reads k ls x ∧ Reads (k + 1) rs y := by
  have hlevels : k ≠ 3 ∧ k ≠ 7 := by omega
  obtain h | ⟨ls, t, rs, rfl, ⟨hlevel, -⟩, hcut⟩ := h.view hlevels.1 hlevels.2
  · exact .inl h
  · cases hcut with
    | join hjoin hl hr =>
      obtain ⟨op, rfl⟩ : ∃ op, t = .operator op := by
        cases t with
        | operator op => exact ⟨op, rfl⟩
        | comma => cases hlevel; omega
        | _ => cases hjoin
      rw [Token.join?] at hjoin
      split at hjoin
      · cases hjoin
      · obtain rfl := Option.some.inj hjoin
        exact .inr ⟨ls, op, rs, _, _, rfl, rfl, hlevel, hl, hr⟩
    | _ => omega

/-- An operation on operands that bind tightly enough. -/
theorem Reads.operation (hk : k = 5 ∨ k = 6) (hlevel : (Token.operator op).level = some k)
    (hl : Reads k ls l) (hr : Reads (k + 1) rs r) :
    Reads k (ls ++ .operator op :: rs) (.binary op l r) := by
  refine .join hlevel ?_ hl hr
  have hcomparison : op.isComparison = false := by
    cases hop : op.isComparison with
    | false => rfl
    | true =>
      rw [isComparison_level hop] at hlevel
      obtain rfl := Option.some.inj hlevel
      omega
  simp [Token.join?, hcomparison]

theorem level_of_isArithmetic (hop : op.isArithmetic = true) :
    (Token.operator op).level = some 5 ∨ (Token.operator op).level = some 6 := by
  cases op with
  | add | sub => exact .inl rfl
  | mul | div => exact .inr rfl
  | _ => cases hop

theorem level_eq_of_isArithmetic (hop : op.isArithmetic = true)
    (hlevel : (Token.operator op).level = some k) : k = 5 ∨ k = 6 := by
  obtain h | h := level_of_isArithmetic hop
  · exact .inl (Option.some.inj (hlevel.symm.trans h))
  · exact .inr (Option.some.inj (hlevel.symm.trans h))

/-- What becomes of an operator between two factors. The reading is the operation on them, or the
last operator is one of the right factor. -/
theorem exists_reads_factors {op : Operator} {ls rs : List Token} {l r : Reading}
    (hlevel : (Token.operator op).level = some 6) (hl : Reads 6 ls l) (hr : Reads 6 rs r) :
    ∃ s, Reads 6 (ls ++ .operator op :: rs) s ∧ s.leaves = l.leaves + r.leaves ∧
      ((Reads 7 rs r ∧ s = .binary op l r) ∨ s.IsCutApart r) := by
  obtain hr | ⟨front, op', last, x, y, rfl, rfl, hlevel', hfront, hlast⟩ :=
    hr.view_operator (.inr rfl)
  · exact ⟨_, .operation (.inr rfl) hlevel hl hr, rfl, .inl ⟨hr, rfl⟩⟩
  · obtain ⟨s, hs, hleaves, -⟩ := exists_reads_factors hlevel hl hfront
    refine ⟨.binary op' s y, ?_, ?_, .inr ⟨op', s, y, rfl, ?_⟩⟩
    · simpa using Reads.operation (.inr rfl) hlevel' hs hlast
    · simp only [Reading.leaves, hleaves]
      omega
    · have := x.leaves_pos
      rw [Reading.leaves]
      omega
termination_by rs.length

/-- What becomes of an operator between two arithmetic texts. The reading is the operation on them
if they bind tightly enough; otherwise the last operator is another one. -/
theorem exists_reads_operator {op : Operator} {ls rs : List Token} {l r : Reading}
    (hop : op.isArithmetic = true) (hl : Reads 5 ls l) (hr : Reads 5 rs r) :
    ∃ s, Reads 5 (ls ++ .operator op :: rs) s ∧ s.leaves = l.leaves + r.leaves ∧
      ((∃ k, (Token.operator op).level = some k ∧ Reads k ls l ∧ Reads (k + 1) rs r ∧
        s = .binary op l r) ∨ s.IsCutApart r) := by
  obtain hr | ⟨front, op', last, x, y, rfl, rfl, hlevel', hfront, hlast⟩ :=
    hr.view_operator (.inl rfl)
  · obtain hlevel | hlevel := level_of_isArithmetic hop
    · exact ⟨_, .operation (.inl rfl) hlevel hl hr, rfl, .inl ⟨5, hlevel, hl, hr, rfl⟩⟩
    obtain hl | ⟨front, op', last, x, y, rfl, rfl, hlevel', hfront, hlast⟩ :=
      hl.view_operator (.inl rfl)
    · obtain ⟨s, hs, hleaves, ⟨hr, rfl⟩ | hcut⟩ := exists_reads_factors hlevel hl hr
      · exact ⟨_, .tighter (by decide) hs, hleaves, .inl ⟨6, hlevel, hl, hr, rfl⟩⟩
      · exact ⟨s, .tighter (by decide) hs, hleaves, .inr hcut⟩
    -- the operator takes the last factor of the left text only
    · obtain ⟨s, hs, hleaves, -⟩ := exists_reads_factors hlevel hlast hr
      refine ⟨.binary op' x s, ?_, ?_, .inr ⟨op', x, s, rfl, ?_⟩⟩
      · simpa using Reads.operation (.inl rfl) hlevel' hfront hs
      · simp only [Reading.leaves, hleaves]
        omega
      · have := y.leaves_pos
        omega
  -- the last operator of the right text is the last of all
  · obtain ⟨s, hs, hleaves, -⟩ := exists_reads_operator hop hl hfront
    refine ⟨.binary op' s y, ?_, ?_, .inr ⟨op', s, y, rfl, ?_⟩⟩
    · simpa using Reads.operation (.inl rfl) hlevel' hs hlast
    · simp only [Reading.leaves, hleaves]
      omega
    · have := x.leaves_pos
      rw [Reading.leaves]
      omega
termination_by rs.length

end Condition

end EntitySql
