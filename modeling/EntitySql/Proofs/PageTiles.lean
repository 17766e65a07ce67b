import EntitySql.Proofs.PageRows
import EntitySql.Proofs.RowBounds
import EntitySql.Proofs.SelectAnswers

/-!
# Pages that tile a result

The pages that an offset cuts out of a result, one after another, are the result: no row is
skipped, and none is on two pages. The main statement, `byOffset_tiles`, says so of the answers
that a database may give, and of the bounds as they are written.

A database may leave rows that are equal in the ordering in any order, and in another one for the
next page. `SelectBody.MayGive` admits all of these answers. A total ordering leaves only one
(`mayGive_iff`), so that pages which are asked for one by one fit together.
-/

namespace EntitySql

/-! ### Answers -/

section Answers

variable {V : Type} {E : Evaluator V}

namespace SelectBody

variable {b : SelectBody} {source : List (Tuple V)}

theorem window_eq_cut (rows : List (Tuple V)) : b.window rows = b.bounds.cut rows := rfl

end SelectBody

namespace PageSpec

variable [DecidableEq V] {p : PageSpec} {tables : String → Table V} {answer full : List (Tuple V)}

/-- A total ordering leaves one answer: the window of the whole result. -/
theorem mayGive_iff (htotal : p.IsTotal E (tables p.source).rows) (limit offset : Option Nat) :
    ({ p.body with limit, offset } : SelectBody).MayGive E (tables p.source).rows answer ↔
      answer = ({ p.body with limit, offset } : SelectBody).window (p.result E tables) := by
  constructor
  · rintro ⟨arranged, hperm, hordered, rfl⟩
    have hsorted : (p.body.sorted E (tables p.source).rows).Perm arranged :=
      (List.perm_insertionSort _ _).trans hperm.symm
    have hmap := map_eq_of_perm_of_sorted hsorted SelectBody.pairwise_sorted hordered
      fun r hr r' hr' hrr hrr' => htotal.projectBy_eq hr hr' hrr hrr'
    rw [SelectBody.map_window, ← hmap]
    rfl
  · rintro rfl
    rw [result_eq, ← SelectBody.map_window]
    exact SelectBody.mayGive_rows

/-- An answer to the page with this number, which is cut by an offset. -/
def MayGivePage (p : PageSpec) (E : Evaluator V) (tables : String → Table V) (i : Nat)
    (answer : List (Tuple V)) : Prop :=
  ∃ body, ({ p with index := i } : PageSpec).byOffset = .ok (.table p.source body) ∧
    body.MayGive E (tables p.source).rows answer

/-- A page whose rows can be counted is the select of the rows with the numbers of the page. -/
theorem exists_byOffset_body {i : Nat} (hi : 1 ≤ i) (hcount : p.size * (i - 1) < wordCount) :
    ∃ limit offset, ({ p with index := i } : PageSpec).byOffset
        = .ok (.table p.source { p.body with limit, offset }) ∧
      ({ p.body with limit, offset } : SelectBody).bounds = ⟨p.size * (i - 1), some p.size⟩ := by
  by_cases hfirst : i ≤ 1
  · obtain rfl : i = 1 := by omega
    exact ⟨some p.size, none, if_pos hfirst, by simp [SelectBody.bounds]⟩
  · have hskipped := (({ p with index := i } : PageSpec).rowsOn_eq_ok_iff (i - 1) _).mpr
      ⟨rfl, hcount⟩
    refine ⟨some p.size, some (p.size * (i - 1)), ?_, rfl⟩
    rw [byOffset, if_neg hfirst, hskipped]
    rfl

/-- An answer to a page is the rows with the numbers of the page, if they can be counted. -/
theorem mayGivePage_iff (htotal : p.IsTotal E (tables p.source).rows) {i : Nat} (hi : 1 ≤ i) :
    p.MayGivePage E tables i answer ↔ p.size * (i - 1) < wordCount ∧
      answer = ((p.result E tables).drop (p.size * (i - 1))).take p.size := by
  constructor
  · rintro ⟨body, hpage, hanswer⟩
    have hcount : p.size * (i - 1) < wordCount := by
      obtain ⟨hfirst, -⟩ | ⟨-, skipped, hskipped, -⟩ := byOffset_cases hpage
      · obtain rfl : i = 1 := Nat.le_antisymm hfirst hi
        simp [wordCount]
      · obtain ⟨heq, hlt⟩ := (rowsOn_eq_ok_iff _ _ _).mp hskipped
        exact heq ▸ hlt
    obtain ⟨limit, offset, hselect, hbounds⟩ := exists_byOffset_body (p := p) hi hcount
    obtain ⟨-, rfl⟩ := Select.table.inj (Except.ok.inj (hpage.symm.trans hselect))
    have hwindow := (mayGive_iff htotal limit offset).mp hanswer
    rw [SelectBody.window_eq_cut, hbounds] at hwindow
    exact ⟨hcount, hwindow⟩
  · rintro ⟨hcount, rfl⟩
    obtain ⟨limit, offset, hselect, hbounds⟩ := exists_byOffset_body (p := p) hi hcount
    refine ⟨_, hselect, (mayGive_iff htotal limit offset).mpr ?_⟩
    rw [SelectBody.window_eq_cut, hbounds]
    rfl

end PageSpec

end Answers

/-! ### Tiling -/

section Tiling

variable {α : Type} (full : List α) (size : Nat)

/-- Windows of one size, one after another, are the start of a list. -/
theorem flatMap_windows (k : Nat) :
    (List.range' 1 k).flatMap (fun i => (full.drop (size * (i - 1))).take size)
      = full.take (size * k) := by
  induction k with
  | zero => rw [Nat.mul_zero, List.take_zero, List.range'_zero, List.flatMap_nil]
  | succ k ih =>
    rw [List.range'_1_concat, List.flatMap_append, ih, List.flatMap_singleton,
      Nat.add_sub_cancel_left, Nat.mul_succ, List.take_add]

/-- Windows of a list without repetitions have no item in common. -/
theorem disjoint_windows (hnodup : full.Nodup) {i j : Nat} (hi : 1 ≤ i) (hij : i < j) :
    ((full.drop (size * (i - 1))).take size).Disjoint ((full.drop (size * (j - 1))).take size) := by
  -- the first window ends before the second one begins
  have hend : size * (i - 1) + size ≤ size * (j - 1) := by
    rw [← Nat.mul_succ]
    exact Nat.mul_le_mul_left size (by omega)
  have hbefore : (full.drop (size * (i - 1))).take size ⊆ full.take (size * (i - 1) + size) := by
    rw [List.take_add]
    exact List.subset_append_right _ _
  intro a ha hb
  exact List.disjoint_take_drop hnodup hend (hbefore ha) (List.mem_of_mem_take hb)

end Tiling

/-- **Pages that tile a result.** For an ordering that is total on the result, and any answer that a
database may give to the unpaged select: every page whose rows can be counted is a select of the
same table, written in either style as the unpaged one with row bounds put in, which skip the rows
of the pages before and keep a page of rows; and its only answer is the rows with these numbers.
So the answers to the pages up to any one, which may be asked for one by one, are together the
start of the result, and no row of it is on two of them. -/
theorem PageSpec.byOffset_tiles {V : Type} [DecidableEq V] (E : Evaluator V)
    (tables : String → Table V) (p : PageSpec) {full : List (Tuple V)}
    (htotal : p.IsTotal E (tables p.source).rows)
    (hfull : p.body.MayGive E (tables p.source).rows full) :
    (∀ i, 1 ≤ i → p.size * (i - 1) < wordCount → ∃ body,
      ({ p with index := i } : PageSpec).byOffset = .ok (.table p.source body) ∧
      (∀ style, IsBounded style ((Select.table p.source p.body).toSql style)
        ((Select.table p.source body).toSql style) ⟨p.size * (i - 1), some p.size⟩) ∧
      ∀ answer, body.MayGive E (tables p.source).rows answer ↔
        answer = (full.drop (p.size * (i - 1))).take p.size) ∧
    ∀ (k : Nat) (page : Nat → List (Tuple V)),
      (∀ i, 1 ≤ i → i ≤ k → p.MayGivePage E tables i (page i)) →
        (List.range' 1 k).flatMap page = full.take (p.size * k) ∧
        (full.Nodup → ∀ i j, 1 ≤ i → i < j → j ≤ k → (page i).Disjoint (page j)) := by
  obtain rfl : full = p.result E tables := (p.mayGive_iff htotal none none).mp hfull
  constructor
  · intro i hi hcount
    obtain ⟨limit, offset, hselect, hbounds⟩ := p.exists_byOffset_body hi hcount
    refine ⟨_, hselect, fun style => ?_, fun answer => ?_⟩
    · rw [← hbounds]
      exact SelectBody.isBounded_toSql { p.body with limit, offset } style p.source
    · rw [mayGive_iff htotal, SelectBody.window_eq_cut, hbounds]
      rfl
  · intro k page hpage
    have hwindow : ∀ i, 1 ≤ i → i ≤ k →
        page i = ((p.result E tables).drop (p.size * (i - 1))).take p.size := fun i hi hk =>
      ((p.mayGivePage_iff htotal hi).mp (hpage i hi hk)).2
    constructor
    · rw [← flatMap_windows]
      refine List.flatMap_congr fun i hi => ?_
      obtain ⟨hlow, hhigh⟩ := List.mem_range'_1.mp hi
      exact hwindow i hlow (by omega)
    · intro hnodup i j hi hij hj
      rw [hwindow i hi (by omega), hwindow j (by omega) hj]
      exact disjoint_windows _ _ hnodup hi hij

/-- The three pages of two out of five scores are all scores, the best ones first. -/
theorem byOffset_tiles_bestFirst : ∃ page : Nat → List (Tuple Nat),
    (∀ i, 1 ≤ i → i ≤ 3 → bestFirst.MayGivePage plainNumbers (fun _ => scores) i (page i)) ∧
      (List.range' 1 3).flatMap page
        = [[("id", 2)], [("id", 5)], [("id", 4)], [("id", 1)], [("id", 3)]] := by
  have htotal : bestFirst.IsTotal plainNumbers scores.rows := by
    unfold PageSpec.IsTotal
    decide
  have hpage : ∀ i, 1 ≤ i → i ≤ 3 → bestFirst.MayGivePage plainNumbers (fun _ => scores) i
      (((bestFirst.result plainNumbers fun _ => scores).drop (2 * (i - 1))).take 2) := by
    intro i hi hk
    have hcount : 2 * (i - 1) < wordCount := by
      have hsmall : (4 : Nat) < wordCount := by decide
      omega
    exact (PageSpec.mayGivePage_iff htotal hi).mpr ⟨hcount, rfl⟩
  obtain ⟨-, htiles⟩ := PageSpec.byOffset_tiles plainNumbers (fun _ => scores) bestFirst htotal
    SelectBody.mayGive_rows
  obtain ⟨hrows, -⟩ := htiles 3 _ hpage
  exact ⟨_, hpage, hrows.trans (by decide)⟩

end EntitySql
