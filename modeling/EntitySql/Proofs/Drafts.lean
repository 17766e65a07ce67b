import EntitySql.Proofs.ColumnFields
import EntitySql.Query

/-!
# Drafts of a query

A statement of a query is the result of a program over the map of its entity, run on a fresh draft
(`statement_eq_ok`, `selectStatement_eq_ok`).

Of the parts of a statement only clauses bind values. So a program leaves the same bind table
whether or not a select list or an ordering is written before, and a filter that is written over
the same bind table comes to the same text and the same slots (`filterText_of_binds`).
-/

namespace EntitySql

namespace Query

variable {α : Type} {q : Query} {s : Statement}

/-! ### Results of a draft -/

/-- A result of a draft is what the program gives over the map of the entity, with the slots that
are bound then. -/
theorem draft_eq_ok {body : Scope → Drafting α} {a : α} {slots : List BindSlot} :
    q.draft body = .ok (a, slots) ↔ ∃ m d, EntityMap.ofDecl q.entity = .ok m ∧
      body ⟨m, q.dialect⟩ (Draft.fresh q.index) = .ok a d ∧ d.binds.slots = slots := by
  rw [draft]
  rcases hmap : EntityMap.ofDecl q.entity with e | m
  · constructor
    · intro h
      cases h
    · rintro ⟨m, d, ⟨⟩, -⟩
  · dsimp only
    rw [EStateM.run]
    rcases hrun : body ⟨m, q.dialect⟩ (Draft.fresh q.index) with ⟨b, d⟩ | ⟨e, d⟩
    · constructor
      · rintro ⟨⟩
        exact ⟨m, d, rfl, hrun, rfl⟩
      · rintro ⟨m, d', ⟨⟩, hresult, rfl⟩
        obtain ⟨rfl, rfl⟩ := EStateM.Result.ok.inj (hrun.symm.trans hresult)
        rfl
    · constructor
      · intro h
        cases h
      · rintro ⟨m, d', ⟨⟩, hresult, -⟩
        cases hrun.symm.trans hresult

/-- A statement is the text that its program gives, with the slots that are bound then. -/
theorem statement_eq_ok {body : Scope → Drafting String} :
    q.statement body = .ok s ↔ ∃ m d, EntityMap.ofDecl q.entity = .ok m ∧
      body ⟨m, q.dialect⟩ (Draft.fresh q.index) = .ok s.sql d ∧ d.binds.slots = s.binds := by
  rw [← draft_eq_ok, statement]
  rcases q.draft body with e | ⟨sql, slots⟩
  · constructor <;> intro h <;> cases h
  · constructor
    · rintro ⟨⟩
      rfl
    · rintro ⟨⟩
      rfl

/-- The statement of a select is the text of a select that was drafted, with its slots. -/
theorem selectStatement_eq_ok {body : Scope → Drafting Select} :
    q.selectStatement body = .ok s ↔ ∃ select slots, q.draft body = .ok (select, slots) ∧
      s = ⟨select.toSql q.dialect.boundStyle, slots⟩ := by
  rw [selectStatement, statement_eq_ok]
  constructor
  · rintro ⟨m, d, hmap, hrun, hslots⟩
    obtain ⟨select, hselect, hsql⟩ := map_eq_ok.mp hrun
    refine ⟨select, s.binds, draft_eq_ok.mpr ⟨m, d, hmap, hselect, hslots⟩, ?_⟩
    rw [hsql]
  · rintro ⟨select, slots, hdraft, rfl⟩
    obtain ⟨m, d, hmap, hselect, hslots⟩ := draft_eq_ok.mp hdraft
    exact ⟨m, d, hmap, map_eq_ok.mpr ⟨select, hselect, rfl⟩, hslots⟩

end Query

/-! ### Outcomes over a bind table -/

namespace Drafting

variable {α : Type} {p : Drafting α} {d d' : Draft} {a : α} {t : BindTable}

theorem result_eq_ok : p.result d = (.ok a, t) ↔ ∃ d', p d = .ok a d' ∧ d'.binds = t := by
  rw [result]
  rcases p d with ⟨b, u⟩ | ⟨e, u⟩
  · constructor
    · rintro ⟨⟩
      exact ⟨u, rfl, rfl⟩
    · rintro ⟨_, ⟨⟩, rfl⟩
      rfl
  · constructor
    · intro h
      cases h
    · rintro ⟨_, ⟨⟩, -⟩

theorem result_eq_error {e : SqlError} :
    p.result d = (.error e, t) ↔ ∃ d', p d = .error e d' ∧ d'.binds = t := by
  rw [result]
  rcases p d with ⟨b, u⟩ | ⟨e', u⟩
  · constructor
    · intro h
      cases h
    · rintro ⟨_, ⟨⟩, -⟩
  · constructor
    · rintro ⟨⟩
      exact ⟨u, rfl, rfl⟩
    · rintro ⟨_, ⟨⟩, rfl⟩
      rfl

/-- The bind table that a program leaves when it succeeds. -/
theorem binds_of_result {x : Except SqlError α} (hresult : p.result d = (x, t))
    (h : p d = .ok a d') : d'.binds = t := by
  rw [result, h] at hresult
  exact (Prod.mk.inj hresult).2

end Drafting

namespace Query

/-- The program of a page; a page of size 0 is the whole list. -/
def pageBody (q : Query) (size index : Nat) (distinct : Bool) : Scope → Drafting Select :=
  if size = 0 then q.listSelect 0 distinct false else q.pageSelect size index distinct

theorem page_eq (q : Query) (size index : Nat) (distinct : Bool) :
    q.page size index distinct = q.selectStatement (q.pageBody size index distinct) := by
  rw [page, pageBody]
  split <;> rfl

end Query

namespace Query

open Drafting

variable {q : Query} {c : Scope} {d d' : Draft}

/-- Over the same bind table a filter comes to the same text and the same slots. -/
theorem filterText_of_binds {e : Draft} {filter : Option String} (hbinds : e.binds = d.binds)
    (h : q.filterText c d = .ok filter d') :
    ∃ e', q.filterText c e = .ok filter e' ∧ e'.binds = d'.binds := by
  have hresult : (q.filterText c).result e = (q.filterText c).result d := by
    rw [filterText]
    rcases q.filter with _ | condition
    · have hnone : ∀ u, (pure none : Drafting (Option String)).result u = (.ok none, u.binds) :=
        fun _ => rfl
      rw [hnone, hnone, hbinds]
    · have hd := c.clauseSql_result (.filter condition) d
      have he := c.clauseSql_result (.filter condition) e
      rw [hbinds] at he
      exact he.trans hd.symm
  have hrun : (q.filterText c).result d = (.ok filter, d'.binds) := result_eq_ok.mpr ⟨d', h, rfl⟩
  exact result_eq_ok.mp (hresult.trans hrun)

/-- The ordering of a page binds nothing, and can be made only where the requested one can. -/
theorem orderItems_of_pageOrder {distinct : Bool} {items : List SelectItem}
    {order : List OrderItem} (h : q.pageOrder distinct items c d = .ok order d') :
    d'.binds = d.binds ∧ ∃ requested e, c.orderItems q.order d = .ok requested e := by
  obtain ⟨requested, e, hrequested, h⟩ := bind_eq_ok.mp h
  have hbinds : e.binds = d.binds := binds_of_result (c.orderItems_result q.order d) hrequested
  refine ⟨?_, requested, e, hrequested⟩
  by_cases hdistinct : (distinct && !items.isEmpty) = true
  · rw [if_pos hdistinct] at h
    rcases hfind : requested.find? fun o => !(items.any fun i => i.output == o.output) with _ | o
    · rw [hfind] at h
      obtain ⟨-, rfl⟩ := pure_eq_ok.mp h
      exact hbinds
    · rw [hfind] at h
      cases h
  · rw [if_neg hdistinct] at h
    rcases hkey : c.map.key with _ | key
    · rw [hkey] at h
      dsimp only at h
      split at h
      · cases h
      · obtain ⟨-, rfl⟩ := pure_eq_ok.mp h
        exact hbinds
    -- the tie-break is one more ordering
    · rw [hkey] at h
      obtain ⟨tieBreak, u, htieBreak, h⟩ := bind_eq_ok.mp h
      obtain ⟨-, rfl⟩ := pure_eq_ok.mp h
      exact (binds_of_result (c.orderItems_result _ e) htieBreak).trans hbinds

end Query

end EntitySql
