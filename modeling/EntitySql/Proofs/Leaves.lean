import EntitySql.Proofs.Acceptance
import EntitySql.Proofs.Exports

/-!
# Select lists and orderings, leaf by leaf

A tree of lambdas, conversions and records is nothing but the list of its leaves
(`Expr.leaves`). A select list is made leaf by leaf (`leafFields_eq`), and so is an ordering of
the same trees (`orderFields_fst`): the recursion over the tree is the traversal of its leaves,
which ends at the first that stands for no field.

The main statement, `columns_of_leaves`, takes both at once. Either every leaf stands for a field,
and both have one item for each leaf in order, with the same expressions and outputs; or both are
refused with what is wrong with the first leaf that does not. Neither binds anything.
-/

namespace EntitySql

/-! ### Traversals that may fail -/

section Traversal

variable {α β : Type} {f : α → Except SqlError β}

/-- A traversal succeeds if every step does. -/
theorem mapM_eq_ok_iff {as : List α} {bs : List β} :
    as.mapM f = .ok bs ↔ List.Forall₂ (fun a b => f a = .ok b) as bs := by
  induction as generalizing bs with
  | nil =>
    rw [List.mapM_nil, List.forall₂_nil_left_iff]
    exact ⟨fun h => (Except.ok.inj h).symm, fun h => h ▸ rfl⟩
  | cons a as ih =>
    rw [List.mapM_cons, List.forall₂_cons_left_iff]
    refine (both_eq_ok (f := List.cons)).trans ?_
    simp only [ih]
    exact ⟨fun ⟨b, rest, hb, hrest, h⟩ => ⟨b, rest, hb, hrest, h.symm⟩,
      fun ⟨b, rest, hb, hrest, h⟩ => ⟨b, rest, hb, hrest, h.symm⟩⟩

/-- A traversal ends at the first step that fails. -/
theorem mapM_append_cons_eq_error {before after : List α} {a : α} {e : SqlError}
    (hbefore : ∀ b ∈ before, ∃ x, f b = .ok x) (ha : f a = .error e) :
    (before ++ a :: after).mapM f = .error e := by
  induction before with
  | nil =>
    rw [List.nil_append, List.mapM_cons, ha]
    rfl
  | cons b before ih =>
    obtain ⟨⟨x, hx⟩, hbefore⟩ := List.forall_mem_cons.mp hbefore
    rw [List.cons_append, List.mapM_cons, hx, ih hbefore]
    rfl

/-- A traversal that fails has failed at a first step. -/
theorem exists_of_mapM_eq_error {as : List α} {e : SqlError} (h : as.mapM f = .error e) :
    ∃ before a after, as = before ++ a :: after ∧ (∀ b ∈ before, ∃ x, f b = .ok x) ∧
      f a = .error e := by
  induction as with
  | nil => cases h
  | cons a as ih =>
    rw [List.mapM_cons] at h
    rcases ha : f a with e' | x
    · rw [ha] at h
      cases h
      exact ⟨[], a, as, rfl, List.forall_mem_nil _, ha⟩
    · rw [ha] at h
      rcases hrest : as.mapM f with e' | rest
      · rw [hrest] at h
        cases h
        obtain ⟨before, b, after, rfl, hbefore, hb⟩ := ih hrest
        exact ⟨a :: before, b, after, rfl, List.forall_mem_cons.mpr ⟨⟨x, ha⟩, hbefore⟩, hb⟩
      · rw [hrest] at h
        cases h

end Traversal

/-! ### Leaves -/

namespace Expr

mutual

/-- The leaves of a tree of lambdas, conversions and records, from left to right. Any other node
is a leaf. -/
def leaves : Expr → List Expr
  | .lambda _ body => body.leaves
  | .convert inner => inner.leaves
  | .record items => allLeaves items
  | e => [e]

/-- The leaves of several trees, tree by tree. -/
def allLeaves : List Expr → List Expr
  | [] => []
  | e :: es => e.leaves ++ allLeaves es

end

end Expr

namespace EntityMap

variable {m : EntityMap}

/-- A tree of columns: lambdas, conversions and records over member chains that stand for persisted
fields. -/
inductive IsColumns (m : EntityMap) : Expr → Prop where
  | lambda {params : List String} {body : Expr} :
    IsColumns m body → IsColumns m (.lambda params body)
  | convert {inner : Expr} : IsColumns m inner → IsColumns m (.convert inner)
  | record {items : List Expr} : (∀ e ∈ items, IsColumns m e) → IsColumns m (.record items)
  | member {e : Expr} {f : MappedField} : m.Resolves e f → IsColumns m e

mutual

/-- A tree is one of columns if its leaves stand for fields. -/
theorem isColumns_iff : ∀ e : Expr, m.IsColumns e ↔ ∀ leaf ∈ e.leaves, ∃ f, m.Resolves leaf f
  | .lambda params body => by
    rw [Expr.leaves, ← isColumns_iff body]
    refine ⟨fun h => ?_, .lambda⟩
    cases h with
    | lambda h => exact h
    | member h => cases h
  | .convert inner => by
    rw [Expr.leaves, ← isColumns_iff inner]
    refine ⟨fun h => ?_, .convert⟩
    cases h with
    | convert h => exact h
    | member h => cases h
  | .record items => by
    rw [Expr.leaves, ← all_isColumns_iff items]
    refine ⟨fun h => ?_, .record⟩
    cases h with
    | record h => exact h
    | member h => cases h
  | .member owner name => by
    rw [Expr.leaves, List.forall_mem_singleton]
    refine ⟨fun h => ?_, fun ⟨f, h⟩ => .member h⟩
    cases h with
    | member h => exact ⟨_, h⟩
    all_goals intros; contradiction
  | .parameter _ | .constant _ | .not _ | .binary _ _ _ | .call _ _ _ | .assign _ _
  | .conditional _ _ _ => by
    refine iff_of_false (fun h => ?_) (fun h => ?_)
    · cases h with
      | member h => cases h
    · obtain ⟨f, h⟩ := h _ (List.mem_singleton_self _)
      cases h

theorem all_isColumns_iff : ∀ es : List Expr,
    (∀ e ∈ es, m.IsColumns e) ↔ ∀ leaf ∈ Expr.allLeaves es, ∃ f, m.Resolves leaf f
  | [] => by simp [Expr.allLeaves]
  | e :: es => by
    rw [List.forall_mem_cons, Expr.allLeaves, List.forall_mem_append, isColumns_iff e,
      all_isColumns_iff es]

end

end EntityMap

namespace Scope

open Drafting

variable {c : Scope}

/-- The field of a leaf, or what is wrong with it. -/
def leafField (c : Scope) (clause : ClauseKind) (leaf : Expr) : Except SqlError MappedField :=
  if leaf.kind = .memberAccess then c.resolve leaf else .error (.unsupported leaf.kind clause)

mutual

/-- The fields of a tree are those of its leaves. -/
theorem leafFields_eq (c : Scope) (clause : ClauseKind) :
    ∀ e : Expr, c.leafFields clause e = e.leaves.mapM (c.leafField clause)
  | .lambda _ body => by rw [leafFields, Expr.leaves, leafFields_eq c clause body]
  | .convert inner => by rw [leafFields, Expr.leaves, leafFields_eq c clause inner]
  | .record items => by rw [leafFields, Expr.leaves, allLeafFields_eq c clause items]
  | .member owner name => by
    rw [leafFields, Expr.leaves, List.mapM_cons, List.mapM_nil]
    rfl
    all_goals intros; contradiction
  | .parameter _ | .constant _ | .not _ | .binary _ _ _ | .call _ _ _ | .assign _ _
  | .conditional _ _ _ => rfl

theorem allLeafFields_eq (c : Scope) (clause : ClauseKind) :
    ∀ es : List Expr, c.allLeafFields clause es = (Expr.allLeaves es).mapM (c.leafField clause)
  | [] => rfl
  | e :: es => by
    rw [allLeafFields, Expr.allLeaves, List.mapM_append, leafFields_eq c clause e,
      allLeafFields_eq c clause es]

end

/-- A leaf has a field if it stands for one, in a select list as in an ordering. -/
theorem leafField_eq_ok_iff {clause : ClauseKind} {leaf : Expr} {f : MappedField} :
    c.leafField clause leaf = .ok f ↔ c.map.Resolves leaf f := by
  rw [leafField]
  split
  · exact resolve_eq_ok_iff
  · next hkind =>
    refine iff_of_false nofun fun h => ?_
    obtain ⟨owner, name, rfl⟩ := h.eq_member
    exact hkind rfl

/-- A leaf that stands for no field has an error of its own. -/
theorem leafField_eq_error {leaf : Expr} (h : ¬ ∃ f, c.map.Resolves leaf f) (clause : ClauseKind) :
    ∃ e, c.leafField clause leaf = .error e := by
  rcases hfield : c.leafField clause leaf with e | f
  · exact ⟨e, rfl⟩
  · exact absurd ⟨f, leafField_eq_ok_iff.mp hfield⟩ h

/-! ### Orderings -/

/-- The fields of an ordering are those of its trees. -/
theorem orderFields_fst (c : Scope) (keys : List SortKey) :
    (c.orderFields keys).map (·.map (·.1)) = c.allLeafFields .ordering (keys.map (·.expr)) := by
  induction keys with
  | nil => rfl
  | cons k ks ih =>
    rw [orderFields, List.map_cons, allLeafFields, ← ih]
    cases c.leafFields .ordering k.expr with
    | error e => rfl
    | ok fs =>
      cases c.orderFields ks with
      | error e => rfl
      | ok rest =>
        have hfst : (fs.map (·, k.ascending) ++ rest).map (·.1) = fs ++ rest.map (·.1) := by
          simp [Function.comp_def]
        exact congrArg Except.ok hfst

/-- The direction of each leaf is that of the entry it is in. -/
def directions (keys : List SortKey) : List Bool :=
  keys.flatMap fun k => k.expr.leaves.map fun _ => k.ascending

theorem orderFields_snd {keys : List SortKey} {fs : List (MappedField × Bool)}
    (h : c.orderFields keys = .ok fs) : fs.map (·.2) = directions keys := by
  induction keys generalizing fs with
  | nil =>
    cases h
    rfl
  | cons k ks ih =>
    obtain ⟨first, rest, hfirst, hrest, rfl⟩ := both_eq_ok.mp h
    rw [leafFields_eq, mapM_eq_ok_iff] at hfirst
    have hentry : (first.map (·, k.ascending)).map (·.2)
        = k.expr.leaves.map fun _ => k.ascending := by
      simp [Function.comp_def, hfirst.length_eq]
    rw [List.map_append, hentry, ih hrest, directions, directions, List.flatMap_cons]

/-! ### Items -/

/-- The item of a leaf in a select list: a plain column without a label, or a computed one under
the quoted name of its member. -/
def IsItemOf (c : Scope) (leaf : Expr) (i : SelectItem) : Prop :=
  ∃ f, c.map.Resolves leaf f ∧ i.member = f.member ∧
    if c.dialect.isPlain f.column.name then i.expr = c.dialect.quote f.column.name ∧ i.label = none
    else i.expr = f.column.name ∧ i.label = some (c.dialect.quote f.member)

theorem isItemOf_selectItem {leaf : Expr} {f : MappedField} (h : c.map.Resolves leaf f) :
    c.IsItemOf leaf (c.selectItem true f) := by
  refine ⟨f, h, ?_⟩
  cases hplain : c.dialect.isPlain f.column.name <;> simp [selectItem, hplain]

/-- A select list and an ordering of the same trees list their leaves in order: an item for each
leaf, the same expressions and outputs in both, and in the ordering the directions of the
entries. -/
structure ListsLeaves (c : Scope) (keys : List SortKey) (items : List SelectItem)
    (order : List OrderItem) : Prop where
  listed : List.Forall₂ c.IsItemOf (Expr.allLeaves (keys.map (·.expr))) items
  alike : order.map (fun o => (o.expr, o.output)) = items.map fun i => (i.expr, i.output)
  directed : order.map (·.ascending) = directions keys

/-- The items of fields and directions that were read off the same trees. -/
theorem listsLeaves_of_fields {keys : List SortKey} {fs : List MappedField}
    {entries : List (MappedField × Bool)}
    (hfs : List.Forall₂ c.map.Resolves (Expr.allLeaves (keys.map (·.expr))) fs)
    (hfst : entries.map (·.1) = fs) (hsnd : entries.map (·.2) = directions keys) :
    c.ListsLeaves keys (fs.map (c.selectItem true)) (entries.map c.orderItemOf) where
  listed := List.forall₂_map_right_iff.mpr (hfs.imp fun _ _ h => isItemOf_selectItem h)
  alike := by
    have hitem (entry : MappedField × Bool) :
        ((c.orderItemOf entry).expr, (c.orderItemOf entry).output)
          = ((c.selectItem true entry.1).expr, (c.selectItem true entry.1).output) := by
      rw [output_orderItemOf, output_selectItem, expr_selectItem]
      exact congrArg (·, _) (expr_selectItem false entry.1)
    rw [← hfst, List.map_map, List.map_map, List.map_map]
    exact List.map_congr_left fun entry _ => hitem entry
  directed := by
    rw [← hsnd, List.map_map]
    rfl

/-! ### Select lists beside orderings -/

theorem forall_isColumns_iff {keys : List SortKey} : (∀ k ∈ keys, c.map.IsColumns k.expr) ↔
    ∀ leaf ∈ Expr.allLeaves (keys.map (·.expr)), ∃ f, c.map.Resolves leaf f := by
  rw [← EntityMap.all_isColumns_iff, List.forall_mem_map]

/-- If the leaves stand for fields then both are written. -/
theorem columns_written {keys : List SortKey} {fs : List MappedField}
    (hfs : List.Forall₂ c.map.Resolves (Expr.allLeaves (keys.map (·.expr))) fs) (d₁ d₂ : Draft) :
    ∃ items order,
      (c.selectItems (keys.map (·.expr))).result d₁ = (.ok items, d₁.binds) ∧
      (c.orderItems keys).result d₂ = (.ok order, d₂.binds) ∧ c.ListsLeaves keys items order := by
  have hfields (clause : ClauseKind) :
      c.allLeafFields clause (keys.map (·.expr)) = .ok fs := by
    rw [allLeafFields_eq, mapM_eq_ok_iff]
    exact hfs.imp fun _ _ => leafField_eq_ok_iff.mpr
  have hfst := (c.orderFields_fst keys).trans (hfields .ordering)
  rcases hentries : c.orderFields keys with e | entries
  · rw [hentries] at hfst
    cases hfst
  · rw [hentries] at hfst
    rw [selectItems_result, selectedItems, hfields, orderItems_result, orderedItems, hentries]
    exact ⟨_, _, rfl, rfl,
      listsLeaves_of_fields hfs (Except.ok.inj hfst) (orderFields_snd hentries)⟩

/-- At the first leaf that stands for no field both are refused. -/
theorem columns_refused {keys : List SortKey} {before after : List Expr} {leaf : Expr}
    {e₁ e₂ : SqlError} (hleaves : Expr.allLeaves (keys.map (·.expr)) = before ++ leaf :: after)
    (hbefore : ∀ b ∈ before, ∃ f, c.map.Resolves b f)
    (he₁ : c.leafField .projection leaf = .error e₁) (he₂ : c.leafField .ordering leaf = .error e₂)
    (d₁ d₂ : Draft) :
    (c.selectItems (keys.map (·.expr))).result d₁ = (.error e₁, d₁.binds) ∧
      (c.orderItems keys).result d₂ = (.error e₂, d₂.binds) := by
  have hfields {clause : ClauseKind} {e : SqlError} (he : c.leafField clause leaf = .error e) :
      c.allLeafFields clause (keys.map (·.expr)) = .error e := by
    rw [allLeafFields_eq, hleaves]
    exact mapM_append_cons_eq_error
      (fun b hb => (hbefore b hb).imp fun _ => leafField_eq_ok_iff.mpr) he
  have hfst := (c.orderFields_fst keys).trans (hfields he₂)
  rcases hentries : c.orderFields keys with e | entries
  · rw [hentries] at hfst
    cases hfst
    rw [selectItems_result, selectedItems, hfields he₁, orderItems_result, orderedItems, hentries]
    exact ⟨rfl, rfl⟩
  · rw [hentries] at hfst
    cases hfst

/-- **Select lists and orderings are their leaves in order.** Over any drafts, a select list and an
ordering of the same trees are written exactly if the trees are trees of columns, and then they
list the leaves. Otherwise both fail with the error of the first leaf that stands for no field.
Neither changes the bind table. -/
theorem columns_of_leaves (c : Scope) (keys : List SortKey) (d₁ d₂ : Draft) :
    ((∀ k ∈ keys, c.map.IsColumns k.expr) ∧ ∃ items order d₁' d₂',
      c.selectItems (keys.map (·.expr)) d₁ = .ok items d₁' ∧ d₁'.binds = d₁.binds ∧
      c.orderItems keys d₂ = .ok order d₂' ∧ d₂'.binds = d₂.binds ∧
      c.ListsLeaves keys items order) ∨
    ((¬ ∀ k ∈ keys, c.map.IsColumns k.expr) ∧ ∃ before leaf after e₁ e₂ d₁' d₂',
      Expr.allLeaves (keys.map (·.expr)) = before ++ leaf :: after ∧
      (∀ b ∈ before, ∃ f, c.map.Resolves b f) ∧
      c.leafField .projection leaf = .error e₁ ∧ c.leafField .ordering leaf = .error e₂ ∧
      c.selectItems (keys.map (·.expr)) d₁ = .error e₁ d₁' ∧ d₁'.binds = d₁.binds ∧
      c.orderItems keys d₂ = .error e₂ d₂' ∧ d₂'.binds = d₂.binds) := by
  rw [forall_isColumns_iff]
  rcases hfields : (Expr.allLeaves (keys.map (·.expr))).mapM (c.leafField .projection) with e₁ | fs
  · obtain ⟨before, leaf, after, hleaves, hbefore, he₁⟩ := exists_of_mapM_eq_error hfields
    have hresolve (b : Expr) (hb : b ∈ before) : ∃ f, c.map.Resolves b f :=
      (hbefore b hb).imp fun _ => leafField_eq_ok_iff.mp
    have hbad : ¬ ∃ f, c.map.Resolves leaf f := fun ⟨f, hf⟩ =>
      nomatch he₁.symm.trans (leafField_eq_ok_iff.mpr hf)
    -- the ordering ends at the same leaf, which it refuses with an error of its own
    obtain ⟨e₂, he₂⟩ := leafField_eq_error hbad .ordering
    obtain ⟨hselect, horder⟩ := columns_refused hleaves hresolve he₁ he₂ d₁ d₂
    obtain ⟨d₁', hrun₁, hbinds₁⟩ := result_eq_error.mp hselect
    obtain ⟨d₂', hrun₂, hbinds₂⟩ := result_eq_error.mp horder
    refine .inr ⟨fun hall => hbad (hall leaf ?_), before, leaf, after, e₁, e₂, d₁', d₂', hleaves,
      hresolve, he₁, he₂, hrun₁, hbinds₁, hrun₂, hbinds₂⟩
    rw [hleaves]
    exact List.mem_append_right _ List.mem_cons_self
  · have hfs := (mapM_eq_ok_iff.mp hfields).imp fun _ _ => leafField_eq_ok_iff.mp
    have hboth : List.Forall₂ (fun leaf f => (∃ f, c.map.Resolves leaf f) ∧ c.map.Resolves leaf f)
        (Expr.allLeaves (keys.map (·.expr))) fs := hfs.imp fun _ f hf => ⟨⟨f, hf⟩, hf⟩
    obtain ⟨hall, -⟩ := (List.forall₂_and_left _ _).mp hboth
    obtain ⟨items, order, hselect, horder, hlists⟩ := columns_written hfs d₁ d₂
    obtain ⟨d₁', hrun₁, hbinds₁⟩ := result_eq_ok.mp hselect
    obtain ⟨d₂', hrun₂, hbinds₂⟩ := result_eq_ok.mp horder
    exact .inl ⟨hall, items, order, d₁', d₂', hrun₁, hbinds₁, hrun₂, hbinds₂, hlists⟩

end Scope

end EntitySql
