import EntitySql.Expr
import Mathlib.Data.List.Basic

/-!
# The grammar of conditions

Conditions of SQL over tokens. `Reads k tokens reading` is the usual grammar of expressions, with
one sort for conditions and operands and a level for each strength of binding:

| level | reads |
|---|---|
| 0 | items between commas |
| 1, 2, 3 | `OR`, `AND`, `NOT` |
| 4 | comparisons, `IS [NOT] NULL`, `IN`, `LIKE .. ESCAPE`, and the two constants `1 = 1`, `1 = 0` |
| 5, 6 | `+` and `-`, `*` and `/` |
| 7 | columns, slots, and anything in parentheses |

Operators of one level associate to the left; tests do not associate.

The grammar is unambiguous (`Reads.unique`). The proof compares two readings of one list at the
last token that separates at their level. Outside parentheses a part of a tighter level has no
such token (`Reads.clear`), hence the two readings are cut at the same place
(`Clear.split_unique`).
-/

namespace EntitySql

namespace Condition

/-! ### Tokens and readings -/

/-- The words of conditions other than the connectives. -/
inductive Keyword where
  | not | is | null | among | like | escape
deriving DecidableEq, Repr

/-- The tokens of conditions. -/
inductive Token where
  | column (name : String)
  | slot (text : String)
  | numeral (digits : String)
  | literal (text : String)
  | opening | closing | comma
  | operator (op : Operator)
  | word (k : Keyword)
deriving DecidableEq, Repr

/-- What a list of tokens says. -/
inductive Reading where
  | column (name : String)
  | slot (text : String)
  /-- One of the constants `1 = 1` and `1 = 0`. -/
  | settled (b : Bool)
  | binary (op : Operator) (left right : Reading)
  | not (inner : Reading)
  | nullTest (subject : Reading) (negated : Bool)
  | among (subject items : Reading)
  | like (subject pattern : Reading)
  /-- Items of a list, and one more item. -/
  | list (items last : Reading)
deriving DecidableEq, Repr

/-- The level at which a token stands between two parts. -/
def Token.level : Token → Option Nat
  | .comma => some 0
  | .operator .or => some 1
  | .operator .and => some 2
  | .operator .add | .operator .sub => some 5
  | .operator .mul | .operator .div => some 6
  -- the digit that ends a constant condition stands for the cut of the whole condition
  | .operator _ | .word .is | .word .among | .word .like | .numeral _ => some 4
  | _ => none

/-- What a token makes of the readings on its two sides, if it is an operator that associates. -/
def Token.join? : Token → Option (Reading → Reading → Reading)
  | .comma => some .list
  | .operator op => if op.isComparison then none else some (.binary op)
  | _ => none

/-- The digit of a constant condition. -/
def digit (b : Bool) : Token :=
  .numeral (if b then "1" else "0")

/-- The grammar of conditions. -/
inductive Reads : Nat → List Token → Reading → Prop where
  | column (name : String) : Reads 7 [.column name] (.column name)
  | slot (text : String) : Reads 7 [.slot text] (.slot text)
  | paren {ts : List Token} {r : Reading} :
    Reads 1 ts r → Reads 7 (.opening :: (ts ++ [.closing])) r
  | tighter {k : Nat} {ts : List Token} {r : Reading} :
    k < 7 → Reads (k + 1) ts r → Reads k ts r
  | join {k : Nat} {t : Token} {f : Reading → Reading → Reading} {ls rs : List Token}
    {l r : Reading} :
    t.level = some k → t.join? = some f → Reads k ls l → Reads (k + 1) rs r →
    Reads k (ls ++ t :: rs) (f l r)
  | not {ts : List Token} {r : Reading} :
    Reads 3 ts r → Reads 3 (.word .not :: ts) (.not r)
  | compare {op : Operator} {ls rs : List Token} {l r : Reading} :
    op.isComparison = true → Reads 5 ls l → Reads 5 rs r →
    Reads 4 (ls ++ .operator op :: rs) (.binary op l r)
  | isNull {ls : List Token} {l : Reading} :
    Reads 5 ls l → Reads 4 (ls ++ [.word .is, .word .null]) (.nullTest l false)
  | isNotNull {ls : List Token} {l : Reading} :
    Reads 5 ls l → Reads 4 (ls ++ [.word .is, .word .not, .word .null]) (.nullTest l true)
  | among {ls items : List Token} {l r : Reading} :
    Reads 5 ls l → Reads 0 items r →
    Reads 4 (ls ++ .word .among :: .opening :: (items ++ [.closing])) (.among l r)
  | like {ls pattern : List Token} {l p : Reading} :
    Reads 5 ls l → Reads 5 pattern p →
    Reads 4 (ls ++ .word .like :: (pattern ++ [.word .escape, .literal "\\"])) (.like l p)
  | settled (b : Bool) :
    Reads 4 [digit true, .operator .eq, digit b] (.settled b)

/-! ### Tokens outside parentheses -/

/-- From depth `d` on, every parenthesis is matched, and no token that satisfies `p` stands outside
parentheses. -/
def Clear (p : Token → Prop) : Nat → List Token → Prop
  | d, [] => d = 0
  | d, .opening :: ts => Clear p (d + 1) ts
  | 0, .closing :: _ => False
  | d + 1, .closing :: ts => Clear p d ts
  | d, t :: ts => (d = 0 → ¬ p t) ∧ Clear p d ts

variable {p q : Token → Prop}

/-- A token that is no parenthesis. -/
def Token.IsPlain (t : Token) : Prop :=
  t ≠ .opening ∧ t ≠ .closing

theorem clear_cons {t : Token} (ht : t.IsPlain) (d : Nat) (ts : List Token) :
    Clear p d (t :: ts) ↔ (d = 0 → ¬ p t) ∧ Clear p d ts := by
  cases t with
  | opening => exact absurd rfl ht.1
  | closing => exact absurd rfl ht.2
  | _ => cases d <;> rfl

/-- Parts that are clear one after another are clear together. Inside parentheses it only counts
that the first part is balanced. -/
theorem Clear.append {e d : Nat} {a b : List Token} (ha : Clear q e a) (hb : Clear p d b)
    (hpq : d = 0 → ∀ t, p t → q t) : Clear p (e + d) (a ++ b) := by
  -- the depth only changes at parentheses; for other tokens it is what decides if they count
  induction a generalizing e with
  | nil =>
    obtain rfl : e = 0 := ha
    rwa [Nat.zero_add, List.nil_append]
  | cons t a ih =>
    by_cases hopen : t = .opening
    · subst hopen
      have h := ih (e := e + 1) ha
      rwa [Nat.add_right_comm] at h
    · by_cases hclose : t = .closing
      · subst hclose
        cases e with
        | zero => exact ha.elim
        | succ e =>
          rw [Nat.add_right_comm]
          exact ih (e := e) ha
      · have ht : t.IsPlain := ⟨hopen, hclose⟩
        rw [clear_cons ht] at ha
        rw [List.cons_append, clear_cons ht]
        refine ⟨fun hzero hp => ?_, ih ha.2⟩
        have he : e = 0 := by omega
        have hd : d = 0 := by omega
        exact ha.1 he (hpq hd t hp)

theorem Clear.mono {d : Nat} {ts : List Token} (h : Clear q d ts) (hpq : ∀ t, p t → q t) :
    Clear p d ts := by
  have hnil : Clear p 0 [] := rfl
  simpa using h.append hnil fun _ => hpq

/-- Parentheses hide what stands between them. -/
theorem Clear.paren {ts : List Token} (h : Clear q 0 ts) :
    Clear p 0 (.opening :: (ts ++ [.closing])) := by
  have hend : Clear p 1 [Token.closing] := rfl
  exact h.append hend fun hone => absurd hone (by decide)

/-- The depth at which a list starts is determined by its end. -/
theorem Clear.depth_unique {d e : Nat} {ts : List Token} (hd : Clear p d ts)
    (he : Clear q e ts) : d = e := by
  induction ts generalizing d e with
  | nil => exact hd.trans he.symm
  | cons t ts ih =>
    by_cases hopen : t = .opening
    · subst hopen
      have h := ih (d := d + 1) (e := e + 1) hd he
      omega
    · by_cases hclose : t = .closing
      · subst hclose
        cases d with
        | zero => exact hd.elim
        | succ d =>
          cases e with
          | zero => exact he.elim
          | succ e => exact congrArg _ (ih (d := d) (e := e) hd he)
      · have ht : t.IsPlain := ⟨hopen, hclose⟩
        rw [clear_cons ht] at hd he
        exact ih hd.2 he.2

/-- A token before a balanced rest stands outside parentheses. -/
theorem Clear.not_of_balanced {d : Nat} {t : Token} {front rest : List Token} (ht : t.IsPlain)
    (h : Clear p d (front ++ t :: rest)) (hrest : Clear q 0 rest) : ¬ p t := by
  induction front generalizing d with
  | nil =>
    rw [List.nil_append, clear_cons ht] at h
    exact h.1 (h.2.depth_unique hrest)
  | cons s front ih =>
    by_cases hopen : s = .opening
    · subst hopen
      exact ih (d := d + 1) h
    · by_cases hclose : s = .closing
      · subst hclose
        cases d with
        | zero => exact h.elim
        | succ d => exact ih (d := d) h
      · rw [List.cons_append, clear_cons ⟨hopen, hclose⟩] at h
        exact ih h.2

/-- A list has one cut at a token that satisfies `p` before a rest that is clear of `p`. -/
theorem Clear.split_unique {t t' : Token} {ls ls' rs rs' : List Token}
    (ht : t.IsPlain) (ht' : t'.IsPlain) (hp : p t) (hp' : p t') (hrs : Clear p 0 rs)
    (hrs' : Clear p 0 rs') (h : ls ++ t :: rs = ls' ++ t' :: rs') :
    ls = ls' ∧ t = t' ∧ rs = rs' := by
  -- one cut stands before the other, or they are the same; the later of two would stand in the
  -- clear rest of the earlier
  obtain ⟨mid, hls, hmid⟩ | ⟨mid, hls, hmid⟩ := List.append_eq_append_iff.mp h
  · cases mid with
    | nil =>
      obtain ⟨rfl, rfl⟩ := List.cons.inj hmid
      exact ⟨by rw [hls, List.append_nil], rfl, rfl⟩
    | cons s mid =>
      obtain ⟨rfl, rfl⟩ := List.cons.inj hmid
      exact absurd hp' (hrs.not_of_balanced ht' hrs')
  · cases mid with
    | nil =>
      obtain ⟨rfl, rfl⟩ := List.cons.inj hmid
      exact ⟨by rw [hls, List.append_nil], rfl, rfl⟩
    | cons s mid =>
      obtain ⟨rfl, rfl⟩ := List.cons.inj hmid
      exact absurd hp (hrs'.not_of_balanced ht hrs)

/-! ### Separating tokens -/

/-- The token separates at a level below `k`. -/
def Token.IsBelow (k : Nat) (t : Token) : Prop :=
  ∃ j < k, t.level = some j

theorem Token.isPlain_of_level {t : Token} {k : Nat} (h : t.level = some k) : t.IsPlain := by
  constructor <;> rintro rfl <;> cases h

theorem Token.not_isBelow_of_level {t : Token} {k : Nat} (h : t.level = some k) :
    ¬ t.IsBelow k := by
  rintro ⟨j, hj, hlevel⟩
  rw [h, Option.some.injEq] at hlevel
  omega

theorem Token.not_isBelow_of_none {t : Token} (h : t.level = none) (k : Nat) :
    ¬ t.IsBelow k := by
  rintro ⟨j, -, hlevel⟩
  rw [h] at hlevel
  cases hlevel

theorem Token.IsBelow.mono {j k : Nat} (hjk : j ≤ k) {t : Token} (h : t.IsBelow j) :
    t.IsBelow k := by
  obtain ⟨i, hi, hlevel⟩ := h
  exact ⟨i, by omega, hlevel⟩

/-- Two clear parts around a token that does not count. -/
theorem Clear.cut {t : Token} {ls rs : List Token} (hls : Clear p 0 ls) (ht : t.IsPlain)
    (hp : ¬ p t) (hrs : Clear p 0 rs) : Clear p 0 (ls ++ t :: rs) :=
  hls.append ((clear_cons ht 0 rs).mpr ⟨fun _ => hp, hrs⟩) fun _ _ h => h

theorem Clear.word {w : Keyword} {ts : List Token} (hp : ¬ p (.word w)) (h : Clear p 0 ts) :
    Clear p 0 (.word w :: ts) := by
  have hplain : (Token.word w).IsPlain := ⟨nofun, nofun⟩
  exact (clear_cons hplain 0 ts).mpr ⟨fun _ => hp, h⟩

theorem Token.level_ne_three_seven {t : Token} {k : Nat} (h : t.level = some k) :
    k ≠ 3 ∧ k ≠ 7 := by
  cases t with
  | operator op => cases op <;> cases h <;> decide
  | word w => cases w <;> cases h <;> decide
  | comma => cases h; decide
  | numeral digits => cases h; decide
  | _ => cases h

theorem isComparison_level {op : Operator} (h : op.isComparison = true) :
    (Token.operator op).level = some 4 := by
  cases op <;> first | rfl | cases h

/-- Outside parentheses no token separates at a looser level than the one that is read. -/
theorem Reads.clear {k : Nat} {ts : List Token} {r : Reading} (h : Reads k ts r) :
    Clear (Token.IsBelow k) 0 ts := by
  have hword : ∀ (k : Nat) (w : Keyword), (Token.word w).level = none →
      ∀ ts, Clear (Token.IsBelow k) 0 ts → Clear (Token.IsBelow k) 0 (.word w :: ts) :=
    fun k w hw _ hts => hts.word (Token.not_isBelow_of_none hw k)
  induction h with
  | column name => exact ⟨fun _ => Token.not_isBelow_of_none rfl 7, rfl⟩
  | slot text => exact ⟨fun _ => Token.not_isBelow_of_none rfl 7, rfl⟩
  | paren h ih => exact ih.paren
  | tighter hk h ih => exact ih.mono fun t ht => ht.mono (by omega)
  | join hlevel hjoin hl hr ihl ihr =>
    exact ihl.cut (Token.isPlain_of_level hlevel) (Token.not_isBelow_of_level hlevel)
      (ihr.mono fun t ht => ht.mono (by omega))
  | not h ih => exact hword 3 .not rfl _ ih
  | compare hop hl hr ihl ihr =>
    have hlevel := isComparison_level hop
    exact (ihl.mono fun t ht => ht.mono (by omega)).cut (Token.isPlain_of_level hlevel)
      (Token.not_isBelow_of_level hlevel) (ihr.mono fun t ht => ht.mono (by omega))
  | isNull hl ihl =>
    exact (ihl.mono fun t ht => ht.mono (by omega)).cut ⟨nofun, nofun⟩
      (Token.not_isBelow_of_level rfl) (hword 4 .null rfl [] rfl)
  | isNotNull hl ihl =>
    exact (ihl.mono fun t ht => ht.mono (by omega)).cut ⟨nofun, nofun⟩
      (Token.not_isBelow_of_level rfl) (hword 4 .not rfl _ (hword 4 .null rfl [] rfl))
  | among hl hr ihl ihr =>
    exact (ihl.mono fun t ht => ht.mono (by omega)).cut ⟨nofun, nofun⟩
      (Token.not_isBelow_of_level rfl) ihr.paren
  | like hl hp ihl ihp =>
    have hend : Clear (Token.IsBelow 4) 0 [Token.literal "\\"] :=
      ⟨fun _ => Token.not_isBelow_of_none rfl 4, rfl⟩
    refine (ihl.mono fun t ht => ht.mono (by omega)).cut ⟨nofun, nofun⟩
      (Token.not_isBelow_of_level rfl) ?_
    exact (ihp.mono fun t ht => ht.mono (by omega)).append (hword 4 .escape rfl _ hend)
      fun _ _ h => h
  | settled b =>
    refine ⟨fun _ => Token.not_isBelow_of_level rfl, fun _ => Token.not_isBelow_of_level rfl,
      fun _ => Token.not_isBelow_of_level rfl, rfl⟩

/-! ### Views of a reading -/

/-- A reading that is cut at a token of level `k`, by the rule that cuts it. -/
inductive Cut : Nat → List Token → Token → List Token → Reading → Prop where
  | join {k : Nat} {t : Token} {f : Reading → Reading → Reading} {ls rs : List Token}
    {l r : Reading} :
    t.join? = some f → Reads k ls l → Reads (k + 1) rs r → Cut k ls t rs (f l r)
  | compare {op : Operator} {ls rs : List Token} {l r : Reading} :
    op.isComparison = true → Reads 5 ls l → Reads 5 rs r →
    Cut 4 ls (.operator op) rs (.binary op l r)
  | isNull {ls : List Token} {l : Reading} :
    Reads 5 ls l → Cut 4 ls (.word .is) [.word .null] (.nullTest l false)
  | isNotNull {ls : List Token} {l : Reading} :
    Reads 5 ls l → Cut 4 ls (.word .is) [.word .not, .word .null] (.nullTest l true)
  | among {ls items : List Token} {l r : Reading} :
    Reads 5 ls l → Reads 0 items r →
    Cut 4 ls (.word .among) (.opening :: (items ++ [.closing])) (.among l r)
  | like {ls pattern : List Token} {l p : Reading} :
    Reads 5 ls l → Reads 5 pattern p →
    Cut 4 ls (.word .like) (pattern ++ [.word .escape, .literal "\\"]) (.like l p)
  | settled (b : Bool) : Cut 4 [digit true, .operator .eq] (digit b) [] (.settled b)

/-- The token separates at level `k`, and the rest is clear of such tokens. -/
def IsLastCut (k : Nat) (t : Token) (rs : List Token) : Prop :=
  t.level = some k ∧ Clear (fun t => t.level = some k) 0 rs

theorem Reads.clear_level {j k : Nat} {ts : List Token} {r : Reading} (h : Reads j ts r)
    (hk : k < j) : Clear (fun t => t.level = some k) 0 ts :=
  h.clear.mono fun _ ht => ⟨k, hk, ht⟩

theorem isLastCut_unique {k : Nat} {t t' : Token} {ls ls' rs rs' : List Token}
    (h : IsLastCut k t rs) (h' : IsLastCut k t' rs') (heq : ls ++ t :: rs = ls' ++ t' :: rs') :
    ls = ls' ∧ t = t' ∧ rs = rs' :=
  Clear.split_unique (Token.isPlain_of_level h.1) (Token.isPlain_of_level h'.1) h.1 h'.1 h.2 h'.2
    heq

/-- What is read at a tighter level has no cut. -/
theorem Reads.not_isLastCut {k : Nat} {t : Token} {ls rs : List Token} {r : Reading}
    (h : Reads (k + 1) (ls ++ t :: rs) r) : ¬ IsLastCut k t rs := by
  rintro ⟨hlevel, hrs⟩
  exact (h.clear_level (Nat.lt_succ_self k)).not_of_balanced (Token.isPlain_of_level hlevel) hrs
    hlevel

/-- Every cut is the last one of its level. -/
theorem Cut.isLastCut {k : Nat} {t : Token} {ls rs : List Token} {r : Reading}
    (hlevel : t.level = some k) (h : Cut k ls t rs r) : IsLastCut k t rs := by
  refine ⟨hlevel, ?_⟩
  have hword : ∀ (w : Keyword), (Token.word w).level = none →
      ∀ ts, Clear (fun t => t.level = some 4) 0 ts →
        Clear (fun t => t.level = some 4) 0 (.word w :: ts) :=
    fun w hw _ hts => hts.word (by simp [hw])
  cases h with
  | join hjoin hl hr => exact hr.clear_level (Nat.lt_succ_self k)
  | compare hop hl hr => exact hr.clear_level (by decide)
  | isNull hl => exact hword .null rfl [] rfl
  | isNotNull hl => exact hword .not rfl _ (hword .null rfl [] rfl)
  | among hl hr => exact hr.clear.paren
  | like hl hp =>
    have hend : Clear (fun t => t.level = some 4) 0 [Token.literal "\\"] := ⟨nofun, rfl⟩
    exact (hp.clear_level (by decide)).append (hword .escape rfl _ hend) fun _ _ h => h
  | settled b => rfl

/-- A level other than those of `NOT` and of single operands is read at a tighter level or cut. -/
theorem Reads.view {k : Nat} {ts : List Token} {r : Reading} (h : Reads k ts r) (h3 : k ≠ 3)
    (h7 : k ≠ 7) :
    Reads (k + 1) ts r ∨
      ∃ ls t rs, ts = ls ++ t :: rs ∧ IsLastCut k t rs ∧ Cut k ls t rs r := by
  have hcut : ∀ {ls t rs r}, Token.level t = some k → Cut k ls t rs r →
      ∃ ls' t' rs', ls ++ t :: rs = ls' ++ t' :: rs' ∧ IsLastCut k t' rs' ∧
        Cut k ls' t' rs' r :=
    fun hlevel hc => ⟨_, _, _, rfl, hc.isLastCut hlevel, hc⟩
  cases h with
  | column => exact absurd rfl h7
  | slot => exact absurd rfl h7
  | paren => exact absurd rfl h7
  | tighter hk h => exact .inl h
  | join hlevel hjoin hl hr => exact .inr (hcut hlevel (.join hjoin hl hr))
  | not => exact absurd rfl h3
  | compare hop hl hr => exact .inr (hcut (isComparison_level hop) (.compare hop hl hr))
  | isNull hl => exact .inr (hcut rfl (.isNull hl))
  | isNotNull hl => exact .inr (hcut rfl (.isNotNull hl))
  | among hl hr => exact .inr (hcut rfl (.among hl hr))
  | like hl hp => exact .inr (hcut rfl (.like hl hp))
  | settled b => exact .inr (hcut rfl (Cut.settled b))

/-- A list that has a cut is read by cutting it there. -/
theorem Reads.cut {k : Nat} {t : Token} {ls rs : List Token} {r : Reading}
    (h : Reads k (ls ++ t :: rs) r) (hcut : IsLastCut k t rs) : Cut k ls t rs r := by
  have hk := Token.level_ne_three_seven hcut.1
  obtain h' | ⟨ls', t', rs', heq, hcut', hview⟩ := h.view hk.1 hk.2
  · exact absurd hcut h'.not_isLastCut
  · obtain ⟨rfl, rfl, rfl⟩ := isLastCut_unique hcut hcut' heq
    exact hview

/-- At the level of `NOT` a reading is tighter or a negation. -/
theorem Reads.view_three {ts : List Token} {r : Reading} (h : Reads 3 ts r) :
    Reads 4 ts r ∨ ∃ rest inner, ts = .word .not :: rest ∧ r = .not inner ∧ Reads 3 rest inner := by
  -- the level has to be a variable for the split into rules
  generalize hk : 3 = k at h
  cases h with
  | tighter _ h =>
    subst hk
    exact .inl h
  | not h => exact .inr ⟨_, _, rfl, rfl, h⟩
  | join hlevel =>
    subst hk
    exact absurd rfl (Token.level_ne_three_seven hlevel).1
  | _ => cases hk

/-- A single operand is a column, a slot, or stands in parentheses. -/
theorem Reads.view_seven {ts : List Token} {r : Reading} (h : Reads 7 ts r) :
    (∃ name, ts = [.column name] ∧ r = .column name) ∨
      (∃ text, ts = [.slot text] ∧ r = .slot text) ∨
      ∃ inner, ts = .opening :: (inner ++ [.closing]) ∧ Reads 1 inner r := by
  generalize hk : 7 = k at h
  cases h with
  | column name => exact .inl ⟨name, rfl, rfl⟩
  | slot text => exact .inr (.inl ⟨text, rfl, rfl⟩)
  | paren h => exact .inr (.inr ⟨_, rfl, h⟩)
  | tighter hlt h => omega
  | join hlevel =>
    subst hk
    exact absurd rfl (Token.level_ne_three_seven hlevel).2
  | _ => cases hk

/-- What is read at a tighter level than `NOT` does not begin with `NOT`. -/
theorem Reads.head_ne_not {k : Nat} {ts : List Token} {r : Reading} (h : Reads k ts r)
    (hk : 4 ≤ k) : ∃ t rest, ts = t :: rest ∧ t ≠ .word .not := by
  have hfront : ∀ {ls : List Token}, (∃ t rest, ls = t :: rest ∧ t ≠ .word .not) →
      ∀ more, ∃ t rest, ls ++ more = t :: rest ∧ t ≠ .word .not := by
    rintro _ ⟨t, rest, rfl, ht⟩ more
    exact ⟨t, rest ++ more, rfl, ht⟩
  induction h with
  | column name => exact ⟨_, _, rfl, nofun⟩
  | slot text => exact ⟨_, _, rfl, nofun⟩
  | paren h ih => exact ⟨_, _, rfl, nofun⟩
  | tighter hlt h ih => exact ih (by omega)
  | join hlevel hjoin hl hr ihl ihr => exact hfront (ihl hk) _
  | not h ih => omega
  | compare hop hl hr ihl ihr => exact hfront (ihl (by decide)) _
  | isNull hl ihl => exact hfront (ihl (by decide)) _
  | isNotNull hl ihl => exact hfront (ihl (by decide)) _
  | among hl hr ihl ihr => exact hfront (ihl (by decide)) _
  | like hl hp ihl ihp => exact hfront (ihl (by decide)) _
  | settled b => exact ⟨_, _, rfl, nofun⟩

/-! ### Unambiguity -/

/-- **Unambiguity.** A list of tokens has at most one reading. -/
theorem Reads.unique {k : Nat} {ts : List Token} {r r' : Reading} (h : Reads k ts r)
    (h' : Reads k ts r') : r = r' := by
  induction h generalizing r' with
  | column name =>
    obtain ⟨_, hts, rfl⟩ | ⟨_, hts, -⟩ | ⟨_, hts, -⟩ := h'.view_seven <;> cases hts
    rfl
  | slot text =>
    obtain ⟨_, hts, -⟩ | ⟨_, hts, rfl⟩ | ⟨_, hts, -⟩ := h'.view_seven <;> cases hts
    rfl
  | paren h ih =>
    obtain ⟨_, hts, -⟩ | ⟨_, hts, -⟩ | ⟨inner, hts, hinner⟩ := h'.view_seven
    · cases hts
    · cases hts
    · obtain ⟨-, htail⟩ := List.cons.inj hts
      obtain rfl := List.append_cancel_right htail
      exact ih hinner
  -- the other reading is not cut at this level: `ts` is clear of its tokens, and of a leading `NOT`
  | @tighter k ts r hk h ih =>
    by_cases h3 : k = 3
    · subst h3
      obtain h' | ⟨rest, inner, rfl, -, -⟩ := h'.view_three
      · exact ih h'
      · obtain ⟨t, _, hts, ht⟩ := h.head_ne_not (Nat.le_refl 4)
        exact absurd (List.cons.inj hts).1.symm ht
    · obtain h' | ⟨ls, t, rs, rfl, hcut, -⟩ := h'.view h3 (by omega)
      · exact ih h'
      · exact absurd hcut h.not_isLastCut
  -- the other reading is cut at the same token, which says by which rule
  | join hlevel hjoin hl hr ihl ihr =>
    cases h'.cut ((Cut.join hjoin hl hr).isLastCut hlevel) with
    | join hjoin' hl' hr' =>
      obtain rfl := Option.some.inj (hjoin.symm.trans hjoin')
      rw [ihl hl', ihr hr']
    | compare hop => simp [Token.join?, hop] at hjoin
    | _ => cases hjoin
  | not h ih =>
    obtain h' | ⟨rest, inner, hts, rfl, hinner⟩ := h'.view_three
    · obtain ⟨t, _, hts, ht⟩ := h'.head_ne_not (Nat.le_refl 4)
      exact absurd (List.cons.inj hts).1.symm ht
    · obtain ⟨-, rfl⟩ := List.cons.inj hts
      rw [ih hinner]
  | compare hop hl hr ihl ihr =>
    cases h'.cut ((Cut.compare hop hl hr).isLastCut (isComparison_level hop)) with
    | join hjoin' => simp [Token.join?, hop] at hjoin'
    | compare _ hl' hr' => rw [ihl hl', ihr hr']
  | isNull hl ihl =>
    cases h'.cut ((Cut.isNull hl).isLastCut rfl) with
    | join hjoin' => cases hjoin'
    | isNull hl' => rw [ihl hl']
  | isNotNull hl ihl =>
    cases h'.cut ((Cut.isNotNull hl).isLastCut rfl) with
    | join hjoin' => cases hjoin'
    | isNotNull hl' => rw [ihl hl']
  | @among ls items l r hl hr ihl ihr =>
    have hview := h'.cut ((Cut.among hl hr).isLastCut rfl)
    -- the items are found again between the parentheses
    generalize hrs : Token.opening :: (items ++ [.closing]) = rs at hview
    cases hview with
    | join hjoin' => cases hjoin'
    | among hl' hr' =>
      obtain rfl := List.append_cancel_right (List.cons.inj hrs).2
      rw [ihl hl', ihr hr']
  | @like ls pattern l p hl hp ihl ihp =>
    have hview := h'.cut ((Cut.like hl hp).isLastCut rfl)
    generalize hrs : pattern ++ [.word .escape, .literal "\\"] = rs at hview
    cases hview with
    | join hjoin' => cases hjoin'
    | like hl' hp' =>
      obtain rfl := List.append_cancel_right hrs
      rw [ihl hl', ihp hp']
  | settled b =>
    -- a constant condition is cut at its last digit, and no other rule cuts at a digit
    have hcut := (Cut.settled b).isLastCut rfl
    have hview : Cut 4 [digit true, .operator .eq] (digit b) [] r' := Reads.cut h' hcut
    generalize hls : [digit true, Token.operator .eq] = ls at hview
    generalize hdigit : digit b = t at hview
    generalize hrs : [] = rs at hview
    cases hview with
    | join hjoin' =>
      subst hdigit
      cases hjoin'
    | settled b' => cases b <;> cases b' <;> simp [digit] at hdigit ⊢
    | _ => cases hdigit

end Condition

end EntitySql
