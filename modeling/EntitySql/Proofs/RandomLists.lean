import EntitySql.Proofs.PageOrder
import EntitySql.Proofs.PageTiles

/-!
# Lists in random order

A list in random order is the plain list in some other order, cut after as many rows as are asked
for. The main statement, `list_shuffled`, says so of every list whose ordering can be made, for
whatever keys a database draws: the two lists bind the same values, and every answer to the one has
rows of the answer to the other, each at most as often as it is there.

The draws of every select of a statement are a parameter (`Select.MayGive`). The rows of a distinct
list are collapsed by a select that is not sorted, and keys are drawn for what is left in a select
around it (`SelectBody.shuffled`); so the draws have no part in what is collapsed.
-/

namespace EntitySql

/-! ### Shuffled lists -/

namespace SelectBody

/-- The body with the random key of a dialect for its ordering, bounded if `top` is not zero. -/
def inRandomOrder (b : SelectBody) (d : Dialect) (top : Nat) : SelectBody :=
  { b with order := [Query.randomItem d], limit := if top = 0 then none else some top }

/-- Without bounds all rows are left. -/
theorem window_eq_self {V : Type} {b : SelectBody} (hlimit : b.limit = none)
    (hoffset : b.offset = none) (rows : List (Tuple V)) : b.window rows = rows := by
  rw [window, hlimit, hoffset]
  rfl

/-- In random order at most `top` rows are left, if that is not zero. -/
theorem window_inRandomOrder {V : Type} {b : SelectBody} (hoffset : b.offset = none) (d : Dialect)
    (top : Nat) (rows : List (Tuple V)) :
    (b.inRandomOrder d top).window rows = if top = 0 then rows else rows.take top := by
  rw [window, inRandomOrder]
  dsimp only
  rw [hoffset]
  by_cases htop : top = 0
  · rw [if_pos htop, if_pos htop]
    rfl
  · rw [if_neg htop, if_neg htop]
    rfl

/-- The list of a body in random order. Distinct rows are collapsed in a derived table. -/
def shuffled (b : SelectBody) (d : Dialect) (source : String) (top : Nat) : Select :=
  if b.distinct then
    .derived (.table source { b with order := [] }) "r" (({} : SelectBody).inRandomOrder d top)
  else .table source (b.inRandomOrder d top)

/-- An answer to a list in random order is the start of an arrangement of the rows that are kept. -/
theorem exists_whole_of_shuffled {V : Type} [DecidableEq V] {E : Evaluator V} {b : SelectBody}
    (hlimit : b.limit = none) (hoffset : b.offset = none) {d : Dialect} {source : String}
    {top : Nat} {tables : String → Table V} {draws : Nat → Nat → V} {answer : List (Tuple V)}
    (h : (b.shuffled d source top).MayGive E d.random tables draws answer) :
    ∃ whole : List (Tuple V),
      whole.Perm ((b.kept E (tables source).rows).map (projectBy E b.columns)) ∧
      answer = if top = 0 then whole else whole.take top := by
  rw [shuffled] at h
  split at h
  -- the derived table has all distinct rows, and the select around it keeps them as they are
  · obtain ⟨rows, hinner, houter⟩ := h
    obtain ⟨collapsed, hcollapsed, rfl⟩ := SelectBody.MayGiveDrawn.exists_whole hinner
    obtain ⟨whole, hwhole, rfl⟩ := houter.exists_whole
    have hall : ({ b with order := [] } : SelectBody).window collapsed = collapsed :=
      window_eq_self hlimit hoffset collapsed
    have hsame : collapsed.map (projectBy E []) = collapsed := List.map_id collapsed
    have hkept : whole.Perm (collapsed.map (projectBy E [])) := hall ▸ hwhole
    rw [hsame] at hkept
    exact ⟨whole, hkept.trans hcollapsed, window_inRandomOrder rfl d top whole⟩
  · obtain ⟨whole, hwhole, rfl⟩ := SelectBody.MayGiveDrawn.exists_whole h
    exact ⟨whole, hwhole, window_inRandomOrder hoffset d top whole⟩

end SelectBody

/-- The start of an arrangement of a list has items of the list. -/
theorem subperm_of_start {α : Type} {whole all rows : List α} {top : Nat}
    (hperm : whole.Perm all) (hrows : rows = if top = 0 then whole else whole.take top) :
    rows.Subperm all ∧ rows.length = (if top = 0 then all.length else min top all.length) ∧
      (top = 0 → rows.Perm all) := by
  by_cases htop : top = 0
  · rw [if_pos htop] at hrows
    subst hrows
    rw [if_pos htop]
    exact ⟨hperm.subperm, hperm.length_eq, fun _ => hperm⟩
  · rw [if_neg htop] at hrows
    subst hrows
    rw [if_neg htop, List.length_take, hperm.length_eq]
    exact ⟨(List.take_sublist top whole).subperm.trans hperm.subperm, rfl, fun h => absurd h htop⟩

namespace Query

open Drafting

variable {q : Query} {c : Scope} {d : Draft}

/-- The list in random order is made of the clauses of the plain one. -/
theorem ClauseRun.listSelect_random (r : ClauseRun q c d) (top : Nat) (distinct : Bool) :
    q.listSelect top distinct true c d
      = .ok ((r.body distinct).shuffled q.dialect (q.source c) top) r.filtered := by
  refine bind_eq_ok.mpr ⟨r.items, r.selected, r.run_items, bind_eq_ok.mpr
    ⟨r.filter, r.filtered, r.run_filter, ?_⟩⟩
  cases distinct <;> rfl

/-- If the ordering can be made, all lists fail at the same clause, or every clause can be made. -/
theorem listSelect_fails_or {requested : List OrderItem}
    (horder : c.orderedItems q.order = .ok requested) (d : Draft) :
    (∃ e t, ∀ top distinct random,
        (q.listSelect top distinct random c).result d = (.error e, t)) ∨
      Nonempty (ClauseRun q c d) := by
  cases hitems : c.selectItems q.selection d with
  | error e d₁ =>
    have hfailed := result_eq_error.mpr ⟨d₁, hitems, rfl⟩
    exact .inl ⟨e, d₁.binds, fun top distinct random => result_bind_of_error hfailed⟩
  | ok items d₁ =>
    cases hfilter : q.filterText c d₁ with
    | error e d₂ =>
      have hfailed := result_eq_error.mpr ⟨d₂, hfilter, rfl⟩
      exact .inl ⟨e, d₂.binds, fun top distinct random =>
        (result_bind_of_ok hitems).trans (result_bind_of_error hfailed)⟩
    | ok filter d₂ =>
      obtain ⟨d₃, hordered, -⟩ := (Scope.orderedItems_eq_ok d₂).mp horder
      exact .inr ⟨⟨items, filter, requested, d₁, d₂, d₃, hitems, hfilter, hordered⟩⟩

/-- **A list in random order only reorders and cuts.** If the ordering can be made, the plain list
and the list in random order fail with the same error or can both be made, with the same binds. The
text of the random one is the same for every ordering. Whatever the tables hold and whichever keys
are drawn, it has answers, and each has rows of any answer to the plain list, each at most as often
as there: all of them, or as many as are asked for. Both selects are read back from their texts if
computed columns are fragments. -/
theorem list_shuffled {q : Query} {requested : List OrderItem × List BindSlot}
    (horder : q.draft (·.orderItems q.order) = .ok requested) (top : Nat) (distinct : Bool) :
    (∀ order, ({ q with order } : Query).list top distinct true = q.list top distinct true) ∧
    ((∃ e, q.list 0 distinct false = .error e ∧ q.list top distinct true = .error e) ∨
      ∃ source body binds,
        let plain := Select.table source body
        let random := body.shuffled q.dialect source top
        q.draft (q.listSelect 0 distinct false) = .ok (plain, binds) ∧
        q.draft (q.listSelect top distinct true) = .ok (random, binds) ∧
        q.list 0 distinct false = .ok ⟨plain.toSql q.dialect.boundStyle, binds⟩ ∧
        q.list top distinct true = .ok ⟨random.toSql q.dialect.boundStyle, binds⟩ ∧
        body.distinct = distinct ∧
        (∀ {V : Type} [DecidableEq V] (E : Evaluator V) (tables : String → Table V)
            (draws : Nat → Nat → V),
          (∃ rows, random.MayGive E q.dialect.random tables draws rows) ∧
          ∀ rows all, random.MayGive E q.dialect.random tables draws rows →
            body.MayGive E (tables source).rows all →
              rows.Subperm all ∧
              rows.length = (if top = 0 then all.length else min top all.length) ∧
              (top = 0 → rows.Perm all)) ∧
        ∀ k, q.IsLegible k →
          plain.IsReadFrom k q.dialect.boundStyle (plain.toSql q.dialect.boundStyle) ∧
            random.IsReadFrom k q.dialect.boundStyle (random.toSql q.dialect.boundStyle)) := by
  refine ⟨fun order => rfl, ?_⟩
  obtain ⟨items, slots⟩ := requested
  obtain ⟨m, d, hm, hrun, -⟩ := draft_eq_ok.mp horder
  have hordered := (Scope.orderedItems_eq_ok _).mpr
    ⟨d, hrun, binds_of_result (Scope.orderItems_result _ _ _) hrun⟩
  obtain ⟨e, t, hfailed⟩ | ⟨⟨r⟩⟩ := listSelect_fails_or hordered (Draft.fresh q.index)
  · have hlist : ∀ top random, q.list top distinct random = .error e := by
      intro top random
      rw [list, selectStatement_eq, draft_of_result hm _ (hfailed top distinct random)]
      rfl
    exact .inl ⟨e, hlist 0 false, hlist top true⟩
  · have hplain := draft_eq_ok.mpr ⟨m, r.ordered, hm, r.listSelect distinct,
      congrArg BindTable.slots r.binds_ordered⟩
    have hrandom := draft_eq_ok.mpr ⟨m, r.filtered, hm, r.listSelect_random top distinct, rfl⟩
    refine .inr ⟨_, _, _, hplain, hrandom, selectStatement_eq_ok.mpr ⟨_, _, hplain, rfl⟩,
      selectStatement_eq_ok.mpr ⟨_, _, hrandom, rfl⟩, rfl, ?_, fun k hlegible =>
        ⟨hlegible.isReadFrom_list hplain, hlegible.isReadFrom_list hrandom⟩⟩
    intro V _ E tables draws
    refine ⟨Select.exists_mayGive E _ tables draws _, fun rows all hrows hall => ?_⟩
    obtain ⟨whole, hwhole, hstart⟩ := SelectBody.exists_whole_of_shuffled rfl rfl hrows
    obtain ⟨arranged, harranged, hwindow⟩ := hall.exists_whole
    rw [SelectBody.window_eq_self rfl rfl] at hwindow
    subst hwindow
    exact subperm_of_start (hwhole.trans harranged.symm) hstart

end Query

/-- The sensors with loud readings, the loudest one first. -/
def loudestSensors : Query :=
  { loudSensors with order := [⟨.ofMember "Level", false⟩] }

/-- The select that lists these sensors. -/
def loudestBody : SelectBody where
  distinct := true
  columns := [.expr "[sensor]" none]
  filter := some "[level] > @p0_level"
  order := [⟨"[level]", "[level]", false⟩]

/-- A random key that is 7 for the first row and 3 for the others. -/
def firstDrawnHigh (_ n : Nat) : Nat :=
  if n = 0 then 7 else 3

/-- With these keys one sensor in random order is the second one, and a sensor of the plain list. -/
theorem list_shuffled_loudestSensors : ∃ random binds,
    loudestSensors.draft (loudestSensors.listSelect 1 true true) = .ok (random, binds) ∧
      random.MayGive loudLevels "NEWID()" (fun _ => readings) firstDrawnHigh [[("[sensor]", 2)]] ∧
      List.Subperm [[("[sensor]", 2)]] (loudestBody.rows loudLevels readings.rows) ∧
      random.IsReadFrom BuiltinDialect.sqlServer2000.marks .top (random.toSql .top) := by
  obtain ⟨requested, horder⟩ : ∃ requested,
      loudestSensors.draft (·.orderItems loudestSensors.order) = .ok requested := ⟨_, rfl⟩
  obtain ⟨-, ⟨e, hfailed, -⟩ | ⟨source, body, binds, hplain, hrandom, -, -, -, hrows, hread⟩⟩ :=
    Query.list_shuffled horder 1 true
  · cases hfailed
  · obtain ⟨slots, hlist⟩ : ∃ slots, loudestSensors.draft (loudestSensors.listSelect 0 true false)
        = .ok (.table "[readings]" loudestBody, slots) := ⟨_, rfl⟩
    have hselect := (Prod.mk.inj (Except.ok.inj (hplain.symm.trans hlist))).1
    obtain ⟨rfl, rfl⟩ := Select.table.inj hselect
    have hgives : (loudestBody.shuffled loudestSensors.dialect "[readings]" 1).MayGive loudLevels
        "NEWID()" (fun _ => readings) firstDrawnHigh [[("[sensor]", 2)]] := by
      refine ⟨[[("[sensor]", 1)], [("[sensor]", 2)]],
        ⟨[([("[sensor]", 1), ("[level]", 5)], 0), ([("[sensor]", 2), ("[level]", 4)], 1)], ?_⟩,
        ⟨[([("[sensor]", 2)], 1), ([("[sensor]", 1)], 0)], ?_⟩⟩ <;> decide
    obtain ⟨-, hanswers⟩ := hrows loudLevels (fun _ => readings) firstDrawnHigh
    have hlegible : loudestSensors.IsLegible BuiltinDialect.sqlServer2000.marks :=
      Query.isLegible_builtin rfl (EntityDecl.hasLegibleColumns_of_isPlain (by decide))
    exact ⟨_, binds, hrandom, hgives, (hanswers _ _ hgives SelectBody.mayGive_rows).1,
      (hread _ hlegible).2⟩

end EntitySql
