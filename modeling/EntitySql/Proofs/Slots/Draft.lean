import EntitySql.Proofs.Slots.Clause
import EntitySql.Proofs.Slots.Select

/-!
# Slots of drafts

A program over a draft binds slots and gives texts. `Drafting.Brings` relates the two: what the
program has bound is what its result shows, in the same order. Sequencing passes this on
(`Brings.bind`), so it is enough to look at the parts of which the statements are made: select
lists and orderings bind nothing (`Drafting.IsSilent`), clauses bind the slots of their templates,
and every cell of an entity binds one.
-/

namespace EntitySql

open Condition Slots

/-! ### Programs that bind what they show -/

namespace Drafting

variable {α β : Type} {c : Scope} {marks : Marks}

/-- Whenever the program succeeds, it has bound the slots of some pieces in order, and its result
shows these slots in the sense of the relation. -/
def Brings (c : Scope) (p : Drafting α) (R : α → List String → Prop) : Prop :=
  ∀ d d' a, d.binds.Sound c.dialect → p d = .ok a d' →
    ∃ ps, d'.binds = (c.fill ps d.binds).2 ∧ R a (c.slotsOf ps d.binds)

section Brings

variable {p : Drafting α} {R : α → List String → Prop} {Q : β → List String → Prop}

theorem brings_pure {a : α} (h : R a []) : Brings c (pure a) R := by
  intro d d' b _ hrun
  obtain ⟨rfl, rfl⟩ := pure_eq_ok.mp hrun
  exact ⟨[], rfl, h⟩

theorem brings_throw {e : SqlError} : Brings c (throw e : Drafting α) R :=
  fun _ _ _ _ hrun => absurd hrun throw_ne_ok

/-- The slots of a first program stand before those of a second. -/
theorem Brings.bind (hp : Brings c p R) {f : α → Drafting β}
    (hf : ∀ a ss, R a ss → Brings c (f a) fun b ss' => Q b (ss ++ ss')) :
    Brings c (p >>= f) Q := by
  intro d d' b hd hrun
  obtain ⟨a, u, hfirst, hsecond⟩ := bind_eq_ok.mp hrun
  obtain ⟨ps, hu, ha⟩ := hp d u a hd hfirst
  have hsound : u.binds.Sound c.dialect := hu ▸ c.sound_fill hd ps
  obtain ⟨qs, hd', hb⟩ := hf a _ ha u d' b hsound hsecond
  rw [hu] at hd' hb
  refine ⟨ps ++ qs, ?_, ?_⟩
  · rw [c.fill_append]
    exact hd'
  · rw [c.slotsOf_append]
    exact hb

theorem brings_reset : Brings c reset fun _ ss => ss = [] := by
  intro d d' a _ hrun
  obtain ⟨-, rfl⟩ := EStateM.Result.ok.inj hrun
  exact ⟨[], rfl, rfl⟩

theorem Brings.map (hp : Brings c p R) {f : α → β} (h : ∀ a ss, R a ss → Q (f a) ss) :
    Brings c (f <$> p) Q := by
  rw [← bind_pure_comp]
  exact hp.bind fun a ss ha => brings_pure (by rw [List.append_nil]; exact h a ss ha)

theorem brings_mapM {f : α → Drafting β} {P : β → Prop} {slots : β → List String} {as : List α}
    (h : ∀ a ∈ as, Brings c (f a) fun b ss => P b ∧ ss = slots b) :
    Brings c (as.mapM f) fun bs ss => (∀ b ∈ bs, P b) ∧ ss = bs.flatMap slots := by
  induction as with
  | nil => exact brings_pure ⟨nofun, rfl⟩
  | cons a rest ih =>
    have hrest := ih fun b hb => h b (List.mem_cons_of_mem _ hb)
    rw [List.mapM_cons]
    refine (h a List.mem_cons_self).bind ?_
    rintro b _ ⟨hb, rfl⟩
    refine hrest.bind ?_
    rintro bs _ ⟨hbs, rfl⟩
    refine brings_pure ⟨List.forall_mem_cons.mpr ⟨hb, hbs⟩, ?_⟩
    rw [List.append_nil, List.flatMap_cons]

end Brings

/-- Whenever the program succeeds, it has left the bind table alone, the items that wait show no
slots if they did before, and the result has the property. -/
def IsSilent (marks : Marks) (p : Drafting α) (P : α → Prop) : Prop :=
  ∀ d d' a, (∀ i ∈ d.items.toList, i.IsSilent marks) → p d = .ok a d' →
    P a ∧ d'.binds = d.binds ∧ ∀ i ∈ d'.items.toList, i.IsSilent marks

section IsSilent

variable {p : Drafting α} {P : α → Prop} {Q : β → Prop}

theorem isSilent_pure {a : α} (h : P a) : IsSilent marks (pure a) P := by
  intro d d' b hd hrun
  obtain ⟨rfl, rfl⟩ := pure_eq_ok.mp hrun
  exact ⟨h, rfl, hd⟩

theorem isSilent_throw {e : SqlError} : IsSilent marks (throw e : Drafting α) P :=
  fun _ _ _ _ hrun => absurd hrun throw_ne_ok

theorem IsSilent.bind (hp : IsSilent marks p P) {f : α → Drafting β}
    (hf : ∀ a, P a → IsSilent marks (f a) Q) : IsSilent marks (p >>= f) Q := by
  intro d d' b hd hrun
  obtain ⟨a, u, hfirst, hsecond⟩ := bind_eq_ok.mp hrun
  obtain ⟨ha, hu, hitems⟩ := hp d u a hd hfirst
  obtain ⟨hb, hd', hitems'⟩ := hf a ha u d' b hitems hsecond
  exact ⟨hb, hd'.trans hu, hitems'⟩

theorem isSilent_get : IsSilent marks (get : Drafting Draft) fun _ => True := by
  intro d d' a hd hrun
  obtain ⟨rfl, rfl⟩ := EStateM.Result.ok.inj hrun
  exact ⟨trivial, rfl, hd⟩

theorem isSilent_pushItem {item : SelectItem} (h : item.IsSilent marks) :
    IsSilent marks (pushItem item) fun _ => True := by
  intro d d' a hd hrun
  obtain ⟨-, rfl⟩ := EStateM.Result.ok.inj hrun
  refine ⟨trivial, rfl, fun i hi => ?_⟩
  rw [Stack.toList_push] at hi
  obtain hi | hi := List.mem_append.mp hi
  · exact hd i hi
  · exact List.mem_singleton.mp hi ▸ h

theorem isSilent_dropItems : IsSilent marks dropItems fun _ => True := by
  intro d d' a _ hrun
  obtain ⟨-, rfl⟩ := EStateM.Result.ok.inj hrun
  exact ⟨trivial, rfl, nofun⟩

theorem isSilent_takeItems :
    IsSilent marks takeItems fun items => ∀ i ∈ items, i.IsSilent marks := by
  intro d d' a hd hrun
  obtain ⟨rfl, rfl⟩ := EStateM.Result.ok.inj hrun
  exact ⟨hd, rfl, nofun⟩

/-- A silent program on a draft without fragments binds nothing. -/
theorem IsSilent.brings (hp : IsSilent marks p P) (aliasing : Bool) :
    Brings c (do reset; setAliasing aliasing; p) fun a ss => P a ∧ ss = [] := by
  intro d d' a _ hrun
  have hstart : p { d with items := .empty, texts := .empty, aliasing } = .ok a d' := hrun
  obtain ⟨ha, hd', -⟩ := hp _ d' a (List.forall_mem_nil _) hstart
  exact ⟨[], hd', ha, rfl⟩

end IsSilent

end Drafting

open Drafting

/-! ### Select lists and orderings -/

namespace Scope

variable {c : Scope} {marks : Marks}

theorem isSilent_selectItem (hd : IsScannable c.dialect marks)
    (hm : c.map.HasUnmarkedColumns c.dialect) (aliasing : Bool) {e : Expr} {f : MappedField}
    (hf : c.resolve e = .ok f) :
    (c.selectItem aliasing f).IsSilent marks := by
  rw [selectItem]
  split
  · exact ⟨shows_quote hd f.column.name, fun label h => absurd h (Option.not_mem_none label)⟩
  · rename_i hplain
    have hname := isUnmarked_of_resolve hm hf (Bool.eq_false_iff.mpr hplain)
    refine ⟨(passes_of_isUnmarked hd hname).shows, ?_⟩
    intro label hlabel
    split at hlabel
    · obtain rfl := Option.mem_some_iff.mp hlabel
      exact shows_quote hd f.member
    · cases hlabel

theorem isSilent_fieldOf (e : Expr) : IsSilent marks (c.fieldOf e) (c.resolve e = .ok ·) := by
  rw [fieldOf]
  cases hresolve : c.resolve e with
  | ok f => exact isSilent_pure rfl
  | error e => exact isSilent_throw

mutual

theorem isSilent_emitColumns (hd : IsScannable c.dialect marks)
    (hm : c.map.HasUnmarkedColumns c.dialect) (clause : ClauseKind) :
    ∀ e, IsSilent marks (c.emitColumns clause e) fun _ => True
  | .lambda _ body => by
    rw [emitColumns]
    exact isSilent_emitColumns hd hm clause body
  | .convert inner => by
    rw [emitColumns]
    exact isSilent_emitColumns hd hm clause inner
  | .record items => by
    rw [emitColumns]
    exact isSilent_emitAllColumns hd hm clause items
  | .member owner name => by
    rw [emitColumns]
    exact (isSilent_fieldOf _).bind fun f hf => isSilent_get.bind fun d _ =>
      isSilent_pushItem (isSilent_selectItem hd hm d.aliasing hf)
  | .parameter _ | .constant _ | .not _ | .binary _ _ _ | .call _ _ _ | .assign _ _
  | .conditional _ _ _ => by
    rw [emitColumns] <;> first | exact isSilent_throw | (intros; contradiction)

theorem isSilent_emitAllColumns (hd : IsScannable c.dialect marks)
    (hm : c.map.HasUnmarkedColumns c.dialect) (clause : ClauseKind) :
    ∀ es, IsSilent marks (c.emitAllColumns clause es) fun _ => True
  | [] => isSilent_pure trivial
  | e :: es => by
    rw [emitAllColumns]
    exact (isSilent_emitColumns hd hm clause e).bind fun _ _ =>
      isSilent_emitAllColumns hd hm clause es

end

theorem isSilent_orderItem (hd : IsScannable c.dialect marks) (ascending : Bool) {i : SelectItem}
    (hi : i.IsSilent marks) : (c.orderItem ascending i).IsSilent marks := by
  have hexpr : Shows marks i.expr [] := hi.1
  refine ⟨hexpr, ?_⟩
  rw [orderItem]
  dsimp only
  split
  · exact hexpr
  · exact shows_quote hd i.member

theorem isSilent_orderItemsOf (hd : IsScannable c.dialect marks)
    (hm : c.map.HasUnmarkedColumns c.dialect) : ∀ keys : List SortKey,
      IsSilent marks (c.orderItemsOf keys) fun items => ∀ i ∈ items, i.IsSilent marks
  | [] => isSilent_pure nofun
  | k :: ks => by
    rw [orderItemsOf]
    refine isSilent_dropItems.bind fun _ _ => (isSilent_emitColumns hd hm _ k.expr).bind fun _ _ =>
      isSilent_takeItems.bind fun items hitems =>
        (isSilent_orderItemsOf hd hm ks).bind fun rest hrest => isSilent_pure fun i hi => ?_
    obtain hi | hi := List.mem_append.mp hi
    · obtain ⟨j, hj, rfl⟩ := List.mem_map.mp hi
      exact isSilent_orderItem hd k.ascending (hitems j hj)
    · exact hrest i hi

section

variable (hd : IsScannable c.dialect marks) (hm : c.map.HasUnmarkedColumns c.dialect)

include hd hm

theorem brings_selectItems (exprs : List Expr) :
    Brings c (c.selectItems exprs) fun items ss =>
      (∀ i ∈ items, i.IsSilent marks) ∧ ss = [] :=
  ((isSilent_emitAllColumns hd hm .projection exprs).bind fun _ _ => isSilent_takeItems).brings true

theorem brings_orderItems (keys : List SortKey) :
    Brings c (c.orderItems keys) fun items ss =>
      (∀ i ∈ items, i.IsSilent marks) ∧ ss = [] :=
  (isSilent_orderItemsOf hd hm keys).brings false

/-! ### Clauses and cells -/

theorem brings_clauseSql (k : BindingClause) :
    Brings c (c.clauseSql k) (ShowsAny marks) := by
  intro d d' a hsound hrun
  have hresult := c.clauseSql_result k d
  rw [result, hrun] at hresult
  obtain ⟨houtcome, hbinds⟩ := Prod.mk.inj hresult
  refine ⟨(c.clauseTemplate k).pieces, hbinds, ?_⟩
  rw [Template.outcome] at houtcome
  cases hstop : (c.clauseTemplate k).stop? with
  | some e =>
    rw [hstop] at houtcome
    cases houtcome
  | none =>
    rw [hstop] at houtcome
    obtain rfl := Except.ok.inj houtcome
    split
    · rename_i hempty
      rw [clauseTemplate, List.isEmpty_iff.mp hempty]
      exact rfl
    · exact shown_clauseTemplate hd hm k hstop d.binds hsound

theorem brings_filterSql (e : Expr) : Brings c (c.filterSql e) (ShowsAny marks) :=
  brings_clauseSql hd hm (.filter e)

end

section

variable (hd : IsScannable c.dialect marks)

include hd

theorem brings_bindValue (column : String) (value : Value) :
    Brings c (c.bindValue column value) fun slot ss =>
      ss = [slot] ∧ Shows marks slot [slot] := by
  intro d d' a hsound hrun
  obtain ⟨rfl, rfl⟩ := EStateM.Result.ok.inj hrun
  have hshown := shown_slot hd column value rfl d.binds hsound
  have hfill : (c.fill (Template.slot column value).pieces d.binds).1
      = (d.binds.bind c.dialect column value).1.text := String.append_empty
  rw [hfill] at hshown
  exact ⟨[.slot column value], rfl, rfl, hshown⟩

/-- A column and a slot, each of which shows just itself. -/
structure IsCell (marks : Marks) (cell : String × String) : Prop where
  column : Shows marks cell.1 []
  slot : Shows marks cell.2 [cell.2]

theorem brings_cells (entity : Record) :
    Brings c (c.cells entity) fun cells ss =>
      (∀ cell ∈ cells, IsCell marks cell) ∧ ss = cells.flatMap fun cell => [cell.2] := by
  refine brings_mapM fun (column, value) _ => (brings_bindValue hd column value).bind ?_
  rintro slot _ ⟨rfl, hslot⟩
  exact brings_pure ⟨⟨shows_quote hd column, hslot⟩, rfl⟩

theorem brings_entityAssignmentSql (entity : Record) :
    Brings c (c.entityAssignmentSql entity) (Shows marks) := by
  rw [entityAssignmentSql]
  refine brings_reset.bind ?_
  rintro ⟨⟩ _ rfl
  refine (brings_cells hd entity).bind ?_
  rintro cells _ ⟨hcells, rfl⟩
  refine brings_pure ?_
  rw [List.append_nil]
  have hequals : isJoint " = " = true := rfl
  exact shows_intercalate hd _ _ fun cell hcell =>
    ((hcells cell hcell).column.joint hd hequals).append_shows (hcells cell hcell).slot

theorem brings_insertLists (entity : Record) :
    Brings c (c.insertLists entity) fun lists ss => Shows marks lists.toSql ss := by
  rw [insertLists]
  refine brings_reset.bind ?_
  rintro ⟨⟩ _ rfl
  refine (brings_cells hd entity).bind ?_
  rintro cells _ ⟨hcells, rfl⟩
  refine brings_pure ?_
  rw [List.append_nil]
  have hopening : Passes marks "(" [] := passes_of_isUnmarked hd rfl
  have hbetween : isJoint ") VALUES (" = true := rfl
  have hcolumns : Shows marks (String.intercalate ", " (cells.map (·.1))) [] :=
    shows_intercalate_nil hd _ fun cell hcell => (hcells cell hcell).column
  have hvalues : Shows marks (String.intercalate ", " (cells.map (·.2)))
      (cells.flatMap fun cell => [cell.2]) :=
    shows_intercalate hd _ _ fun cell hcell => (hcells cell hcell).slot
  exact ((((hopening.append_shows hcolumns).joint hd hbetween).append_shows hvalues).joint hd
    rfl).shows

end

end Scope

end EntitySql
