import EntitySql.Proofs.Template
import Mathlib.Data.List.Forall2

/-!
# Constants behind slots

What a clause looks at in its constants, apart from handing them to the bind table. A constant is
looked at for its `Place`: every constant for being null, a condition also for which boolean it
is, the argument of a text match for being a text, and the target of list membership for being an
array and for its length. `Expr.masked` blots out everything else.

The main statement is about two clauses that are the same when masked, over the same map and the
same dialect, and whose values are equal to each other in the same places (`SamePattern`). They
have the same text or the same error, and bind tables that differ in the values only
(`clauseSql_of_masked`). There are two steps to it. The template of a clause, up to the values in
it, is the template of the masked clause (`masked_clauseTemplates`); and filling in two templates
that differ in their values keeps the bind tables alike (`fill_twin`).
-/

namespace EntitySql

/-! ### Masks -/

/-- What a constant is looked at for. -/
inductive Place where
  /-- As a condition: for which boolean it is. -/
  | condition
  /-- As the argument of a text match: for being a text. -/
  | argument
  /-- As the target of list membership: for being an array, and for its length. -/
  | list
  | operand
deriving DecidableEq, Repr

/-- The place below a node that is no conversion. -/
def Place.below : Place → Place
  | .condition => .condition
  | _ => .operand

/-- The value with everything blotted out that is not looked at. -/
def Value.masked : Place → Value → Value
  | _, .null => .null
  | .condition, .bool b => .bool b
  | .argument, .text _ => .text ""
  | .list, .array items => .array (items.map fun _ => .null)
  | _, _ => .object []

namespace Expr

/-- The place of the first argument of a call. -/
def argumentPlace (method : Callee) (target : Expr) : Place :=
  match method, target.unconverted with
  | .equals, _ => .operand
  | _, .member _ _ => .argument
  | _, _ => .operand

mutual

/-- The tree with its constants masked. -/
def masked (p : Place) : Expr → Expr
  | .parameter name => .parameter name
  | .member owner name => .member (owner.masked .operand) name
  | .constant value => .constant (value.masked p)
  | .convert inner => .convert (inner.masked p)
  | .not inner => .not (inner.masked p.below)
  | .binary op left right =>
    .binary op (left.masked (if op.isLogical then p.below else .operand))
      (right.masked (if op.isLogical then p.below else .operand))
  | .call method target args =>
    .call method (target.masked (if method = .contains then .list else .operand))
      (maskedAll (argumentPlace method target) args)
  | .record items => .record (maskedAll .operand items)
  | .lambda params body => .lambda params (body.masked p.below)
  | .assign target value => .assign (target.masked .operand) (value.masked .operand)
  | .conditional test whenTrue whenFalse =>
    .conditional (test.masked .operand) (whenTrue.masked .operand) (whenFalse.masked .operand)

/-- The trees with their constants masked, the first of them in a place of its own. -/
def maskedAll (p : Place) : List Expr → List Expr
  | [] => []
  | e :: es => e.masked p :: maskedAll .operand es

end

/-! ### What masks leave -/

theorem kind_masked (p : Place) (e : Expr) : (e.masked p).kind = e.kind := by
  cases e <;> rfl

theorem segments_masked (p : Place) : ∀ e : Expr, (e.masked p).segments = e.segments
  | .member owner name => by
    rw [masked, segments, segments, segments_masked .operand owner]
  | .parameter _ | .constant _ | .convert _ | .not _ | .binary _ _ _ | .call _ _ _ | .record _
  | .lambda _ _ | .assign _ _ | .conditional _ _ _ => rfl

theorem chainText_masked (p : Place) (e : Expr) : (e.masked p).chainText = e.chainText := by
  rw [chainText, chainText, segments_masked, kind_masked]

theorem isNullLiteral_masked (p : Place) (e : Expr) :
    (e.masked p).isNullLiteral = e.isNullLiteral := by
  cases e with
  | constant value => cases p <;> cases value <;> rfl
  | _ => rfl

theorem unconverted_masked (p : Place) : ∀ e : Expr, (e.masked p).unconverted
    = e.unconverted.masked p
  | .convert inner => unconverted_masked p inner
  | .parameter _ | .member _ _ | .constant _ | .not _ | .binary _ _ _ | .call _ _ _ | .record _
  | .lambda _ _ | .assign _ _ | .conditional _ _ _ => rfl

end Expr

namespace Scope

variable (c : Scope)

theorem nearest?_masked (p : Place) : ∀ e : Expr, c.nearest? (e.masked p) = c.nearest? e
  | .member owner name => by
    rw [Expr.masked, nearest?, nearest?, nearest?_masked .operand owner]
  | .parameter _ | .constant _ | .convert _ | .not _ | .binary _ _ _ | .call _ _ _ | .record _
  | .lambda _ _ | .assign _ _ | .conditional _ _ _ => rfl

theorem resolve_masked (p : Place) (e : Expr) : c.resolve (e.masked p) = c.resolve e := by
  rw [resolve, resolve, nearest?_masked, Expr.chainText_masked]

theorem subjectColumn?_masked : ∀ (p : Place) (e : Expr),
    c.subjectColumn? (e.masked p) = c.subjectColumn? e
  | p, .member owner name => by
    have hresolve := c.resolve_masked p (.member owner name)
    rw [Expr.masked] at hresolve ⊢
    rw [subjectColumn?, subjectColumn?, hresolve]
  | p, .convert inner => subjectColumn?_masked p inner
  | p, .binary op left right => by
    rw [Expr.masked, subjectColumn?, subjectColumn?, subjectColumn?_masked _ left,
      subjectColumn?_masked _ right]
  | _, .parameter _ | _, .constant _ | _, .not _ | _, .call _ _ _ | _, .record _ | _, .lambda _ _
  | _, .assign _ _ | _, .conditional _ _ _ => rfl

theorem comparisonColumn_masked (p q : Place) (left right : Expr) :
    c.comparisonColumn (left.masked p) (right.masked q) = c.comparisonColumn left right := by
  rw [comparisonColumn, comparisonColumn, subjectColumn?_masked, subjectColumn?_masked]

end Scope

/-! ### Templates up to values -/

/-- The piece without the value. -/
def Piece.masked : Piece → Piece
  | .words text => .words text
  | .slot column _ => .slot column .null

/-- The template without the values. -/
def Template.masked (t : Template) : Template where
  pieces := t.pieces.map Piece.masked
  stop? := t.stop?

namespace Template

@[simp]
theorem masked_words (text : String) : (words text).masked = words text := rfl

@[simp]
theorem masked_slot (column : String) (value : Value) :
    (slot column value).masked = slot column .null := rfl

@[simp]
theorem masked_fail (e : SqlError) : (fail e).masked = fail e := rfl

@[simp]
theorem masked_append (a b : Template) : (a ++ b).masked = a.masked ++ b.masked := by
  have happend : ∀ a b : Template, a ++ b = a.append b := fun _ _ => rfl
  rw [happend, happend, Template.append, Template.append]
  cases ha : a.stop? <;> simp [masked, ha]

@[simp]
theorem masked_join (separator : String) (ts : List Template) :
    (join separator ts).masked = join separator (ts.map masked) := by
  induction ts with
  | nil => rfl
  | cons t rest ih =>
    cases rest with
    | nil => rfl
    | cons u rest =>
      rw [join, masked_append, masked_append, ih]
      rfl

end Template

namespace Scope

variable (c : Scope)

/-- A template that depends on a field, without the values. -/
theorem masked_onField (p : Place) (e : Expr) {k k' : MappedField → Template}
    (h : ∀ f, (k f).masked = (k' f).masked) :
    (c.onField (e.masked p) k).masked = (c.onField e k').masked := by
  rw [onField, onField, resolve_masked]
  cases c.resolve e with
  | ok f => exact h f
  | error error => rfl

theorem masked_operandTemplate (column : String) (clause : ClauseKind) :
    ∀ (p : Place) (e : Expr), (c.operandTemplate column clause (e.masked p)).masked
      = (c.operandTemplate column clause e).masked
  | p, .member owner name => c.masked_onField p (.member owner name) fun _ => rfl
  | _, .constant _ => rfl
  | p, .convert inner => masked_operandTemplate column clause p inner
  | p, .binary op left right => by
    rw [Expr.masked, operandTemplate, operandTemplate]
    split
    · simp only [Template.masked_append, masked_operandTemplate column clause _ left,
        masked_operandTemplate column clause _ right]
    · rfl
  | _, .parameter _ | _, .not _ | _, .call _ _ _ | _, .record _ | _, .lambda _ _
  | _, .assign _ _ | _, .conditional _ _ _ => rfl

theorem masked_comparisonTemplate (op : Operator) (p q : Place) (left right : Expr) :
    (c.comparisonTemplate op (left.masked p) (right.masked q)).masked
      = (c.comparisonTemplate op left right).masked := by
  rw [comparisonTemplate, comparisonTemplate]
  simp only [comparisonColumn_masked, Expr.isNullLiteral_masked]
  split
  · -- the subject is one of the two operands, whichever is no null
    rw [nullTestTemplate, nullTestTemplate]
    split <;> simp only [Template.masked_append, masked_operandTemplate]
  · simp only [Template.masked_append, masked_operandTemplate]

theorem masked_flagTemplate (p : Place) (member : Expr) (expected : Bool) :
    (c.flagTemplate (member.masked p) expected).masked
      = (c.flagTemplate member expected).masked :=
  c.masked_onField p member fun _ => rfl

theorem masked_membershipTemplate (p : Place) (member : Expr) (values : List Value) :
    (c.membershipTemplate (member.masked p) (values.map fun _ => .null)).masked
      = (c.membershipTemplate member values).masked := by
  refine c.masked_onField p member fun f => ?_
  cases values with
  | nil => rfl
  | cons value rest => simp [Function.comp_def]

theorem masked_matchTemplate (method : Callee) (p : Place) (member : Expr) (text text' : String) :
    (c.matchTemplate method (member.masked p) text').masked
      = (c.matchTemplate method member text).masked :=
  c.masked_onField p member fun f => by simp

/-- The form of a masked call. -/
theorem callForm_masked (method : Callee) (target arg : Expr) :
    CallForm.of method (target.masked (if method = .contains then .list else .operand))
        (arg.masked (Expr.argumentPlace method target))
      = match CallForm.of method target arg with
        | .membership values => .membership (values.map fun _ => .null)
        | .textMatch owner name _ => .textMatch (owner.masked .operand) name ""
        | form => form := by
  unfold CallForm.of Expr.argumentPlace
  simp only [Expr.unconverted_masked]
  generalize target.unconverted = t
  generalize arg.unconverted = a
  -- the method and the target decide, except that a text match also looks at its argument
  cases method with
  | equals => rfl
  | contains =>
    cases t with
    | constant value => cases value <;> rfl
    | member owner name =>
      cases a with
      | constant value => cases value <;> rfl
      | _ => rfl
    | _ => rfl
  | _ =>
    cases t with
    | member owner name =>
      cases a with
      | constant value => cases value <;> rfl
      | _ => rfl
    | _ => rfl

theorem masked_callTemplate_cons (method : Callee) (target arg : Expr) (rest rest' : List Expr) :
    (c.callTemplate method (target.masked (if method = .contains then .list else .operand))
        (arg.masked (Expr.argumentPlace method target) :: rest')).masked
      = (c.callTemplate method target (arg :: rest)).masked := by
  rw [callTemplate, callTemplate, callForm_masked]
  cases CallForm.of method target arg with
  | comparison => exact c.masked_comparisonTemplate .eq _ _ target arg
  | membership values =>
    dsimp only
    rw [Expr.unconverted_masked]
    exact c.masked_membershipTemplate _ arg.unconverted values
  | textMatch owner name text =>
    exact c.masked_matchTemplate method .operand (.member owner name) text ""
  | badArgument =>
    dsimp only
    rw [Expr.kind_masked]
  | refused => rfl

/-- The template of a condition, without the values, is that of the masked condition. -/
theorem masked_conditionTemplate : ∀ e : Expr,
    (c.conditionTemplate (e.masked .condition)).masked = (c.conditionTemplate e).masked
  | .lambda _ body => masked_conditionTemplate body
  | .convert inner => masked_conditionTemplate inner
  | .binary op left right => by
    rw [Expr.masked, conditionTemplate, conditionTemplate]
    split
    · simp only [Place.below, Template.masked_append, masked_conditionTemplate left,
        masked_conditionTemplate right]
    · split
      · exact c.masked_comparisonTemplate op _ _ left right
      · rfl
  | .member owner name => c.masked_flagTemplate .condition (.member owner name) true
  | .not inner => by
    by_cases hmember : inner.kind = .memberAccess
    · cases inner with
      | member owner name => exact c.masked_flagTemplate .condition (.member owner name) false
      | _ => cases hmember
    · have hmasked : (inner.masked .condition).kind ≠ .memberAccess := by
        rwa [Expr.kind_masked]
      rw [Expr.masked, Place.below, conditionTemplate_not c hmember,
        conditionTemplate_not c hmasked]
      simp only [Template.masked_append, masked_conditionTemplate inner]
  | .call method target [] => rfl
  | .call method target (arg :: rest) => c.masked_callTemplate_cons method target arg rest _
  | .constant value => by cases value <;> rfl
  | .parameter _ | .record _ | .assign _ _ | .conditional _ _ _ => rfl

theorem masked_setTemplate (p q : Place) (target value : Expr) :
    (c.setTemplate (target.masked p) (value.masked q)).masked
      = (c.setTemplate target value).masked := by
  refine c.masked_onField p target fun f => ?_
  split
  · simp only [Template.masked_append, masked_operandTemplate]
  · rfl

mutual

/-- The templates of assignments, without the values, are those of the masked assignments. -/
theorem masked_assignmentTemplates : ∀ e : Expr,
    (c.assignmentTemplates (e.masked .operand)).map Template.masked
      = (c.assignmentTemplates e).map Template.masked
  | .lambda _ body => masked_assignmentTemplates body
  | .record items => masked_allAssignmentTemplates items
  | .assign target value => congrArg (fun t => [t]) (c.masked_setTemplate _ _ target value)
  | .parameter _ | .member _ _ | .constant _ | .convert _ | .not _ | .binary _ _ _
  | .call _ _ _ | .conditional _ _ _ => rfl

theorem masked_allAssignmentTemplates : ∀ es : List Expr,
    (c.allAssignmentTemplates (Expr.maskedAll .operand es)).map Template.masked
      = (c.allAssignmentTemplates es).map Template.masked
  | [] => rfl
  | e :: es => by
    rw [Expr.maskedAll, allAssignmentTemplates, allAssignmentTemplates, List.map_append,
      List.map_append, masked_assignmentTemplates e, masked_allAssignmentTemplates es]

end

end Scope

/-- The clause with its constants masked. -/
def BindingClause.masked : BindingClause → BindingClause
  | .filter e => .filter (e.masked .condition)
  | .assignment e => .assignment (e.masked .operand)

/-- **Templates look at no more than what masks leave.** -/
theorem Scope.masked_clauseTemplates (c : Scope) (k : BindingClause) :
    (c.clauseTemplates k.masked).map Template.masked
      = (c.clauseTemplates k).map Template.masked := by
  cases k with
  | filter e => exact congrArg (fun t => [t]) (c.masked_conditionTemplate e)
  | assignment e => exact c.masked_assignmentTemplates e

/-! ### Equal values in equal places -/

/-- Whenever two requests of the first list are for one column, they are for equal values exactly
if those in the same places of the second list are. -/
def SamePattern (requests requests' : List (String × Value)) : Prop :=
  (requests.zip requests').Pairwise fun a b =>
    a.1.1 = b.1.1 → a.1.2.same b.1.2 = a.2.2.same b.2.2

instance (requests requests' : List (String × Value)) :
    Decidable (SamePattern requests requests') :=
  inferInstanceAs (Decidable (List.Pairwise _ _))

/-- A slot without its value. -/
def BindSlot.profile (s : BindSlot) : SlotKey × String × String × Nat :=
  (s.key, s.name, s.text, s.ordinal)

theorem find?_of_forall₂ {α β : Type} {R : α → β → Prop} {p : α → Bool} {q : β → Bool}
    {l : List α} {l' : List β} (h : List.Forall₂ R l l') (hpq : ∀ a b, R a b → p a = q b) :
    (l.find? p = none ∧ l'.find? q = none) ∨
      ∃ a b, R a b ∧ l.find? p = some a ∧ l'.find? q = some b := by
  induction h with
  | nil => exact .inl ⟨rfl, rfl⟩
  | @cons a b l l' hab _ ih =>
    have heq := hpq a b hab
    rw [List.find?_cons, List.find?_cons, ← heq]
    cases p a with
    | true => exact .inr ⟨a, b, hab, rfl, rfl⟩
    | false => exact ih

namespace BindTable

/-- Two slots that differ in their values only, which were asked for in the same place. -/
def TwinSlots (seen : List ((String × Value) × String × Value)) (s s' : BindSlot) : Prop :=
  s.profile = s'.profile ∧ ((s.key.column, s.value), s'.key.column, s'.value) ∈ seen

/-- Two bind tables that differ in their values only, after requests in pairs. -/
structure Twin (seen : List ((String × Value) × String × Value)) (t t' : BindTable) : Prop where
  index : t.index = t'.index
  slots : List.Forall₂ (TwinSlots seen) t.slots t'.slots

variable {seen : List ((String × Value) × String × Value)} {t t' : BindTable}

theorem twin_empty (index : Nat) : Twin [] { index } { index } where
  index := rfl
  slots := .nil

theorem Twin.mono {seen' : List ((String × Value) × String × Value)} (h : Twin seen t t')
    (hsub : seen ⊆ seen') : Twin seen' t t' where
  index := h.index
  slots := h.slots.imp fun _ _ hs => ⟨hs.1, hsub hs.2⟩

theorem Twin.profiles (h : Twin seen t t') :
    t.slots.map BindSlot.profile = t'.slots.map BindSlot.profile := by
  rw [← List.forall₂_eq_eq_eq, List.forall₂_map_left_iff, List.forall₂_map_right_iff]
  exact h.slots.imp fun _ _ hs => hs.1

/-- What a fresh slot looks like depends on what the slots of the table look like. -/
theorem Twin.freshSlot (h : Twin seen t t') (d : Dialect) (column : String)
    (value value' : Value) :
    (t.freshSlot d column value).profile = (t'.freshSlot d column value').profile := by
  have hnames : t.slots.map (·.name) = t'.slots.map (·.name) := by
    have hmap := congrArg (List.map fun p => p.2.1) h.profiles
    simpa [BindSlot.profile, Function.comp_def] using hmap
  have hcount : t.slots.countP (fun s => s.key == ⟨t'.index, column⟩)
      = t'.slots.countP fun s => s.key == ⟨t'.index, column⟩ := by
    have hcountP := congrArg (List.countP fun p => p.1 == (⟨t'.index, column⟩ : SlotKey)) h.profiles
    simpa [BindSlot.profile, Function.comp_def] using hcountP
  have hlength : t.slots.length = t'.slots.length := h.slots.length_eq
  simp only [BindTable.freshSlot, BindSlot.profile, baseName, hnames, hcount, hlength, h.index]

/-- **One request keeps bind tables alike**, if the value is equal to earlier values of its column
in the same places in both. -/
theorem Twin.bind (h : Twin seen t t') (d : Dialect) (column : String) (value value' : Value)
    (hpattern : ∀ p ∈ seen, p.1.1 = column → p.1.2.same value = p.2.2.same value') :
    (t.bind d column value).1.text = (t'.bind d column value').1.text ∧
      Twin (seen ++ [((column, value), column, value')]) (t.bind d column value).2
        (t'.bind d column value').2 := by
  have hfound : ∀ s s', TwinSlots seen s s' →
      (s.key == ⟨t.index, column⟩ && s.value.same value)
        = (s'.key == ⟨t'.index, column⟩ && s'.value.same value') := by
    rintro s s' ⟨hprofile, hseen⟩
    have hkey : s.key = s'.key := congrArg Prod.fst hprofile
    rw [← hkey, ← h.index]
    by_cases hcolumn : s.key.column = column
    · rw [hpattern _ hseen hcolumn]
    · have hne : s.key ≠ ⟨t.index, column⟩ := fun heq => hcolumn (congrArg SlotKey.column heq)
      rw [beq_eq_false_iff_ne.mpr hne, Bool.false_and, Bool.false_and]
  rw [BindTable.bind, BindTable.bind, find?, find?]
  obtain ⟨hnone, hnone'⟩ | ⟨s, s', hs, hsome, hsome'⟩ := find?_of_forall₂ h.slots hfound
  · rw [hnone, hnone']
    have hprofile := h.freshSlot d column value value'
    refine ⟨congrArg (fun p => p.2.2.1) hprofile, h.index, ?_⟩
    refine List.rel_append (h.mono (List.subset_append_left _ _)).slots (.cons ?_ .nil)
    exact ⟨hprofile, List.mem_append_right _ List.mem_cons_self⟩
  · rw [hsome, hsome']
    exact ⟨congrArg (fun p => p.2.2.1) hs.1, h.mono (List.subset_append_left _ _)⟩

end BindTable

open BindTable in
/-- Filling in pieces that differ in their values gives one text and keeps bind tables alike. -/
theorem Scope.fill_twin (c : Scope) {ps ps' : List Piece}
    (hps : ps.map Piece.masked = ps'.map Piece.masked)
    {seen : List ((String × Value) × String × Value)} {t t' : BindTable} (h : Twin seen t t')
    (hpattern : (seen ++ (ps.filterMap Piece.request?).zip (ps'.filterMap Piece.request?)).Pairwise
      fun a b => a.1.1 = b.1.1 → a.1.2.same b.1.2 = a.2.2.same b.2.2) :
    (c.fill ps t).1 = (c.fill ps' t').1 ∧
      (c.fill ps t).2.slots.map BindSlot.profile
        = (c.fill ps' t').2.slots.map BindSlot.profile := by
  induction ps generalizing ps' seen t t' with
  | nil =>
    cases ps' with
    | nil => exact ⟨rfl, h.profiles⟩
    | cons p' ps' => cases hps
  | cons p ps ih =>
    cases ps' with
    | nil => cases hps
    | cons p' ps' =>
      obtain ⟨hhead, htail⟩ := List.cons.inj hps
      cases p with
      | words text =>
        cases p' with
        | slot column value => cases hhead
        | words text' =>
          cases hhead
          obtain ⟨htext, hprofile⟩ := ih htail h hpattern
          exact ⟨congrArg (text ++ ·) htext, hprofile⟩
      | slot column value =>
        cases p' with
        | words text => cases hhead
        | slot column' value' =>
          obtain rfl : column = column' := by
            cases hhead
            rfl
          have hlast : (Piece.slot column value).request? = some (column, value) := rfl
          have hlast' : (Piece.slot column value').request? = some (column, value') := rfl
          rw [List.filterMap_cons_some hlast, List.filterMap_cons_some hlast', List.zip_cons_cons,
            ← List.singleton_append, ← List.append_assoc] at hpattern
          have hnew := (List.pairwise_append.mp (List.pairwise_append.mp hpattern).1).2.2
          obtain ⟨hslot, htwin⟩ := h.bind c.dialect column value value'
            fun p hp => hnew p hp _ List.mem_cons_self
          obtain ⟨htext, hprofile⟩ := ih htail htwin hpattern
          refine ⟨?_, hprofile⟩
          rw [fill, fill]
          dsimp only
          rw [hslot, htext]

/-- **The text of a clause does not depend on the values of its constants.** Two clauses that are
the same when masked, and whose values are equal to each other in the same places, have the same
text or the same error, and bind tables that differ in the values only. -/
theorem Scope.clauseSql_of_masked (c : Scope) (index : Nat) {k k' : BindingClause}
    (hmasked : k.masked = k'.masked)
    (hpattern : SamePattern (c.clauseTemplate k).requests (c.clauseTemplate k').requests) :
    let r := (c.clauseSql k).result (Draft.fresh index)
    let r' := (c.clauseSql k').result (Draft.fresh index)
    r.1 = r'.1 ∧ r.2.slots.map BindSlot.profile = r'.2.slots.map BindSlot.profile := by
  have htemplates : (c.clauseTemplates k).map Template.masked
      = (c.clauseTemplates k').map Template.masked := by
    rw [← masked_clauseTemplates, hmasked, masked_clauseTemplates]
  have hseparator : k.separator = k'.separator := by
    cases k <;> cases k' <;> first | rfl | cases hmasked
  have htemplate : (c.clauseTemplate k).masked = (c.clauseTemplate k').masked := by
    rw [clauseTemplate, clauseTemplate, Template.masked_join, Template.masked_join, htemplates,
      hseparator]
  have hempty : (c.clauseTemplates k).isEmpty = (c.clauseTemplates k').isEmpty := by
    simpa using congrArg List.isEmpty htemplates
  have hstop : (c.clauseTemplate k).stop? = (c.clauseTemplate k').stop? := by
    have hmasks := congrArg Template.stop? htemplate
    exact hmasks
  obtain ⟨htext, hprofile⟩ := c.fill_twin (congrArg Template.pieces htemplate)
    (BindTable.twin_empty index) hpattern
  intro r r'
  simp only [r, r', clauseSql_result, Draft.fresh, Template.outcome]
  rw [hstop, hempty, htext]
  exact ⟨rfl, hprofile⟩

/-- A type with one text, on SQLite. -/
def titled : Scope where
  map := { entity := "Book", table := "books", key := none,
           fields := [⟨"Title", { name := "title", isGenerated := false, isPersisted := true,
                                  kind := .scalar }⟩] }
  dialect := .sqlite

/-- The titles that start with a text, apart from one. -/
def startingWith (start other : String) : BindingClause :=
  .filter (.conj (.call .startsWith (.ofMember "Title") [.constant (.text start)])
    (.binary .ne (.ofMember "Title") (.constant (.text other))))

/-- A text that is full of signs of SQL goes to its slot like any other. -/
theorem clauseSql_of_masked_startingWith :
    ((titled.clauseSql (startingWith "a'; --" "1 = 1")).result (Draft.fresh 0)).1
        = .ok (some "(\"title\" LIKE ?1 ESCAPE '\\' AND \"title\" <> ?2)") ∧
      ((titled.clauseSql (startingWith "a'; --" "1 = 1")).result (Draft.fresh 0)).1
        = ((titled.clauseSql (startingWith "A" "B")).result (Draft.fresh 0)).1 := by
  have hmasked : (startingWith "a'; --" "1 = 1").masked = (startingWith "A" "B").masked := rfl
  exact ⟨rfl, (titled.clauseSql_of_masked 0 hmasked (by decide)).1⟩

end EntitySql
