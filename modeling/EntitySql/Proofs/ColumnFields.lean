import EntitySql.Clause.Columns
import EntitySql.Proofs.Template

/-!
# The fields of select lists and orderings

A select list and an ordering are read off their trees leaf by leaf. `Scope.leafFields` gives the
fields of the leaves, from left to right, or the error at the first leaf or node that is refused;
it looks at the map alone. A select list comes to an item for each of these fields
(`selectItems_result`), and an ordering to an item for each of them in the direction of its entry
(`orderItems_result`). Neither changes the bind table, and what waits on the stacks of the draft
has no part in either.
-/

namespace EntitySql

namespace Scope

/-! ### Leaves -/

mutual

/-- The fields of the member chains of a tree, from left to right. -/
def leafFields (c : Scope) (clause : ClauseKind) : Expr → Except SqlError (List MappedField)
  | .lambda _ body => c.leafFields clause body
  | .convert inner => c.leafFields clause inner
  | .record items => c.allLeafFields clause items
  | .member owner name => do return [← c.resolve (.member owner name)]
  | e => .error (.unsupported e.kind clause)

/-- The fields of the member chains of several trees. -/
def allLeafFields (c : Scope) (clause : ClauseKind) :
    List Expr → Except SqlError (List MappedField)
  | [] => .ok []
  | e :: es => do return (← c.leafFields clause e) ++ (← c.allLeafFields clause es)

end

/-- The fields of the entries of an ordering, each with the direction of its entry. -/
def orderFields (c : Scope) : List SortKey → Except SqlError (List (MappedField × Bool))
  | [] => .ok []
  | k :: ks => do
    return (← c.leafFields .ordering k.expr).map (·, k.ascending) ++ (← c.orderFields ks)

/-- The items of the fields of a select list. -/
def selectedItems (c : Scope) (exprs : List Expr) : Except SqlError (List SelectItem) :=
  (c.allLeafFields .projection exprs).map (·.map (c.selectItem true))

/-- The order item of a field in a direction. -/
def orderItemOf (c : Scope) (entry : MappedField × Bool) : OrderItem :=
  c.orderItem entry.2 (c.selectItem false entry.1)

/-- The items of the fields of an ordering. -/
def orderedItems (c : Scope) (keys : List SortKey) : Except SqlError (List OrderItem) :=
  (c.orderFields keys).map (·.map c.orderItemOf)

end Scope

/-- Two outcomes are put together if there are both. -/
theorem both_eq_ok {α β γ : Type} {x : Except SqlError α} {y : Except SqlError β} {f : α → β → γ}
    {r : γ} : (do return f (← x) (← y)) = .ok r ↔ ∃ a b, x = .ok a ∧ y = .ok b ∧ f a b = r := by
  cases x with
  | error e => exact ⟨nofun, nofun⟩
  | ok a =>
    cases y with
    | error e => exact ⟨nofun, nofun⟩
    | ok b =>
      constructor
      · rintro ⟨⟩
        exact ⟨a, b, rfl, rfl, rfl⟩
      · rintro ⟨_, _, ⟨⟩, ⟨⟩, rfl⟩
        rfl

/-! ### Programs that emit fields -/

namespace Drafting

variable {c : Scope} {p₁ p₂ : Drafting Unit} {fs₁ fs₂ : Except SqlError (List MappedField)}

/-- The program emits an item for each of the fields. With an error in their place, it fails with
this error. -/
def Emits (c : Scope) (p : Drafting Unit) : Except SqlError (List MappedField) → Prop
  | .ok fs => ∀ d, p d = .ok () { d with
      items := ⟨(fs.map (c.selectItem d.aliasing)).reverse ++ d.items.latestFirst⟩ }
  | .error e => ∀ d, ∃ items, p d = .error e { d with items }

theorem emits_throw (e : SqlError) : Emits c (throw e) (.error e) :=
  fun d => ⟨d.items, rfl⟩

theorem Emits.append (h₁ : Emits c p₁ fs₁) (h₂ : Emits c p₂ fs₂) :
    Emits c (do p₁; p₂) (do return (← fs₁) ++ (← fs₂)) := by
  have hrun : ∀ d, (do p₁; p₂ : Drafting Unit) d = EStateM.bind p₁ (fun _ => p₂) d := fun _ => rfl
  simp only [EStateM.bind] at hrun
  cases fs₁ with
  | error e =>
    intro d
    obtain ⟨items, hfirst⟩ := h₁ d
    exact ⟨items, by rw [hrun, hfirst]⟩
  | ok first =>
    have hsecond : ∀ d, (do p₁; p₂ : Drafting Unit) d = p₂ { d with
        items := ⟨(first.map (c.selectItem d.aliasing)).reverse ++ d.items.latestFirst⟩ } :=
      fun d => by rw [hrun, h₁ d]
    cases fs₂ with
    | error e =>
      intro d
      rw [hsecond]
      exact h₂ _
    | ok second =>
      intro d
      rw [hsecond]
      refine (h₂ _).trans ?_
      simp

/-- A program that succeeds has its result from an outcome that is there. -/
theorem eq_ok_of_result {α β : Type} {p : Drafting β} {x : Except SqlError α} {f : α → β}
    {d d' : Draft} {t : BindTable} {b : β} (hresult : p.result d = (x.map f, t))
    (h : p d = .ok b d') : ∃ a, x = .ok a ∧ f a = b := by
  rw [result, h] at hresult
  cases x with
  | error e => cases hresult
  | ok a => exact ⟨a, rfl, (Except.ok.inj (Prod.mk.inj hresult).1).symm⟩

end Drafting

namespace Scope

open Drafting

theorem emits_member (c : Scope) (clause : ClauseKind) (owner : Expr) (name : String) :
    Emits c (c.emitColumns clause (.member owner name))
      (c.leafFields clause (.member owner name)) := by
  rw [leafFields, emitColumns, fieldOf]
  cases c.resolve (.member owner name) with
  | ok f => exact fun _ => rfl
  | error e => exact emits_throw e

mutual

/-- The columns of a tree are emitted as the items of its fields. -/
theorem emitColumns_emits (c : Scope) (clause : ClauseKind) :
    ∀ e, Emits c (c.emitColumns clause e) (c.leafFields clause e)
  | .lambda _ body => by
    rw [emitColumns, leafFields]
    exact emitColumns_emits c clause body
  | .convert inner => by
    rw [emitColumns, leafFields]
    exact emitColumns_emits c clause inner
  | .record items => by
    rw [emitColumns, leafFields]
    exact emitAllColumns_emits c clause items
  | .member owner name => c.emits_member clause owner name
  | .parameter _ | .constant _ | .not _ | .binary _ _ _ | .call _ _ _ | .assign _ _
  | .conditional _ _ _ => by
    rw [emitColumns, leafFields] <;> first | exact emits_throw _ | (intros; contradiction)

theorem emitAllColumns_emits (c : Scope) (clause : ClauseKind) :
    ∀ es, Emits c (c.emitAllColumns clause es) (c.allLeafFields clause es)
  | [] => fun _ => rfl
  | e :: es => by
    rw [emitAllColumns, allLeafFields]
    exact (emitColumns_emits c clause e).append (emitAllColumns_emits c clause es)

end

/-! ### Select lists and orderings -/

/-- A select list comes to the items of its fields. -/
theorem selectItems_result (c : Scope) (exprs : List Expr) (d : Draft) :
    (c.selectItems exprs).result d = (c.selectedItems exprs, d.binds) := by
  have hemits := c.emitAllColumns_emits .projection exprs
  have hstart : c.selectItems exprs d = EStateM.bind (c.emitAllColumns .projection exprs)
      (fun _ => takeItems) { d with items := .empty, texts := .empty, aliasing := true } := rfl
  rw [result, hstart, EStateM.bind, selectedItems]
  cases hfields : c.allLeafFields .projection exprs with
  | error e =>
    rw [hfields] at hemits
    obtain ⟨items, hrun⟩ := hemits { d with items := .empty, texts := .empty, aliasing := true }
    rw [hrun]
    rfl
  | ok fs =>
    rw [hfields] at hemits
    have htake : ∀ u : Draft, takeItems u = .ok u.items.toList { u with items := .empty } :=
      fun _ => rfl
    simp [hemits _, htake, Stack.toList, Except.map, Stack.empty]

/-- The columns of an entry are taken before the next entry is read. -/
theorem orderItemsOf_cons (c : Scope) (k : SortKey) (ks : List SortKey) (d : Draft) :
    c.orderItemsOf (k :: ks) d =
      match c.emitColumns .ordering k.expr { d with items := .empty } with
      | .ok _ u =>
        match c.orderItemsOf ks { u with items := .empty } with
        | .ok rest v => .ok (u.items.toList.map (c.orderItem k.ascending) ++ rest) v
        | .error e v => .error e v
      | .error e u => .error e u := by
  have hrun : c.orderItemsOf (k :: ks) d = EStateM.bind (c.emitColumns .ordering k.expr)
      (fun _ => EStateM.bind takeItems fun items => EStateM.bind (c.orderItemsOf ks) fun rest =>
        pure (items.map (c.orderItem k.ascending) ++ rest)) { d with items := .empty } := rfl
  rw [hrun, EStateM.bind]
  cases c.emitColumns .ordering k.expr { d with items := .empty } with
  | error e u => rfl
  | ok a u =>
    have htake : takeItems u = .ok u.items.toList { u with items := .empty } := rfl
    simp only [EStateM.bind, htake]
    cases c.orderItemsOf ks { u with items := .empty } <;> rfl

/-- The entries of an ordering give the items of their fields, whatever waits on the stacks. -/
theorem orderItemsOf_run (c : Scope) (keys : List SortKey) (d : Draft) (hd : d.aliasing = false) :
    ∃ items, c.orderItemsOf keys d =
      match c.orderFields keys with
      | .ok fs => .ok (fs.map c.orderItemOf) { d with items }
      | .error e => .error e { d with items } := by
  induction keys generalizing d with
  | nil => exact ⟨d.items, rfl⟩
  | cons k ks ih =>
    have hemits := c.emitColumns_emits .ordering k.expr
    rw [orderItemsOf_cons, orderFields]
    cases hfields : c.leafFields .ordering k.expr with
    | error e =>
      rw [hfields] at hemits
      obtain ⟨items, hrun⟩ := hemits { d with items := .empty }
      exact ⟨items, by rw [hrun]; rfl⟩
    | ok fs =>
      rw [hfields] at hemits
      obtain ⟨items, hrest⟩ := ih { d with items := .empty } hd
      refine ⟨items, ?_⟩
      rw [hemits]
      dsimp only
      rw [hrest]
      cases c.orderFields ks with
      | error e => rfl
      | ok rest =>
        have hentry : (fs.map (·, k.ascending)).map c.orderItemOf
            = (fs.map (c.selectItem d.aliasing)).map (c.orderItem k.ascending) := by
          rw [hd, List.map_map, List.map_map]
          rfl
        have hboth : (do return (← Except.ok fs).map (·, k.ascending) ++ (← Except.ok rest) :
            Except SqlError (List (MappedField × Bool)))
              = .ok (fs.map (·, k.ascending) ++ rest) := rfl
        rw [hboth]
        dsimp only
        rw [List.map_append, hentry]
        simp [Stack.toList, Stack.empty]

/-- An ordering comes to the items of its fields. -/
theorem orderItems_result (c : Scope) (keys : List SortKey) (d : Draft) :
    (c.orderItems keys).result d = (c.orderedItems keys, d.binds) := by
  obtain ⟨items, hrun⟩ := c.orderItemsOf_run keys
    { d with items := .empty, texts := .empty, aliasing := false } rfl
  have hstart : c.orderItems keys d = c.orderItemsOf keys
      { d with items := .empty, texts := .empty, aliasing := false } := rfl
  rw [result, hstart, hrun, orderedItems]
  cases c.orderFields keys <;> rfl

/-- A select list that is written has the items of its fields. -/
theorem selectItems_eq_ok {c : Scope} {exprs : List Expr} {d d' : Draft} {items : List SelectItem}
    (h : c.selectItems exprs d = .ok items d') :
    ∃ fs, c.allLeafFields .projection exprs = .ok fs ∧ fs.map (c.selectItem true) = items :=
  eq_ok_of_result (c.selectItems_result exprs d) h

/-- An ordering that is written has the items of its fields. -/
theorem orderItems_eq_ok {c : Scope} {keys : List SortKey} {d d' : Draft} {order : List OrderItem}
    (h : c.orderItems keys d = .ok order d') :
    ∃ fs, c.orderFields keys = .ok fs ∧ fs.map c.orderItemOf = order :=
  eq_ok_of_result (c.orderItems_result keys d) h

end Scope

end EntitySql
