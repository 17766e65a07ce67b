import EntitySql.Proofs.ClauseAnswer

/-!
# Spelling

Two dialects write the same statements, each in its own spelling. A text is made of `Mark`s: words,
which are the same in every dialect, names, which the dialect puts into its quotes, and slots,
which are known by their positions in the bind table. `spell` writes marks in a dialect.

The main statement is about the calls on a draft, and about all dialects that tell columns from
computed expressions by one rule, as the built-in dialects do. What a call comes to is laid down
before such a dialect is chosen: the error if it is refused, or else the marks of its answer, and
the slots that the bind table holds after it, up to their texts. Templates have an outline, in which
the names are not quoted yet (`HasOutline`), since fields are resolved and values are bound by the
names of the map; and tables that have served the same requests are alike (`BindTable.Alike`), since
slots are found by keys and values and named by columns.
-/

namespace EntitySql

/-! ### Marks -/

/-- A part of a text. -/
inductive Mark where
  /-- Words that are written as they are. -/
  | words (text : String)
  /-- A name that is quoted. -/
  | name (name : String)
  /-- The slot at a position of the bind table. -/
  | slot (ordinal : Nat)

/-- The text of the slot at a position. -/
def BindTable.textAt (t : BindTable) (ordinal : Nat) : String :=
  ((t.slots.find? fun s => s.ordinal == ordinal).map (·.text)).getD ""

/-- The mark in a dialect, with the slots of a bind table. -/
def Mark.spell (d : Dialect) (t : BindTable) : Mark → String
  | .words w => w
  | .name n => d.quote n
  | .slot k => t.textAt k

/-- Marks in a dialect, one after another. -/
def spell (d : Dialect) (t : BindTable) : List Mark → String
  | [] => ""
  | m :: ms => m.spell d t ++ spell d t ms

/-- The answer with every text replaced. -/
def ClauseAnswer.map {T U : Type} (f : T → U) : ClauseAnswer T → ClauseAnswer U
  | .text a => .text (a.map f)
  | .columns is => .columns (is.map fun (expr, label, rest) => (f expr, label.map f, rest))
  | .ordering is => .ordering (is.map fun (expr, output, asc) => (f expr, f output, asc))
  | .setting a => .setting (f a)
  | .lists as bs => .lists (as.map f) (bs.map f)

section Spell

variable (d : Dialect) (t : BindTable)

theorem spell_append (ms ns : List Mark) :
    spell d t (ms ++ ns) = spell d t ms ++ spell d t ns := by
  induction ms with
  | nil => rw [List.nil_append, spell, String.empty_append]
  | cons m ms ih => rw [List.cons_append, spell, spell, ih, String.append_assoc]

theorem spell_singleton (m : Mark) : spell d t [m] = m.spell d t :=
  String.append_empty

/-- Marks with words between them. -/
theorem spell_intercalate (separator : String) (texts : List (List Mark)) :
    spell d t (List.intercalate [.words separator] texts)
      = String.intercalate separator (texts.map (spell d t)) := by
  induction texts with
  | nil => rfl
  | cons a rest ih =>
    cases rest with
    | nil => simp
    | cons b rest =>
      rw [List.map_cons, List.map_cons, String.intercalate_cons_cons, List.intercalate_cons_cons,
        spell_append, spell_append, ih, spell_singleton, Mark.spell, List.map_cons]

end Spell

/-! ### Alike tables -/

/-- What a slot holds apart from its text. -/
def BindSlot.entry (s : BindSlot) : SlotKey × Value × String × Nat :=
  (s.key, s.value, s.name, s.ordinal)

namespace BindTable

variable {d d' : Dialect} {t u : BindTable}

/-- The tables hold the same slots, up to their texts. -/
structure Alike (t u : BindTable) : Prop where
  index : t.index = u.index
  entries : t.slots.map BindSlot.entry = u.slots.map BindSlot.entry

theorem Alike.refl (t : BindTable) : t.Alike t :=
  ⟨rfl, rfl⟩

/-- Both tables find the same slot. -/
theorem Alike.find? (h : t.Alike u) (column : String) (value : Value) :
    (t.find? column value).map BindSlot.entry = (u.find? column value).map BindSlot.entry := by
  have hentry : ∀ w : BindTable, (w.find? column value).map BindSlot.entry
      = (w.slots.map BindSlot.entry).find? fun e =>
          e.1 == ⟨w.index, column⟩ && e.2.1.same value := by
    intro w
    rw [List.find?_map]
    rfl
  rw [hentry, hentry, h.index, h.entries]

/-- A fresh slot is named by the columns and names before it. -/
theorem Alike.freshSlot (h : t.Alike u) (d d' : Dialect) (column : String) (value : Value) :
    (t.freshSlot d column value).entry = (u.freshSlot d' column value).entry := by
  have hkeys : t.slots.map (·.key) = u.slots.map (·.key) := by
    have hfst := congrArg (List.map Prod.fst) h.entries
    rwa [List.map_map, List.map_map] at hfst
  have hnames : t.slots.map (·.name) = u.slots.map (·.name) := by
    have hname := congrArg (List.map fun e => e.2.2.1) h.entries
    rwa [List.map_map, List.map_map] at hname
  have hcount : t.slots.countP (fun s => s.key == ⟨u.index, column⟩)
      = u.slots.countP (fun s => s.key == ⟨u.index, column⟩) := by
    have hkey : ∀ w : BindTable, w.slots.countP (fun s => s.key == ⟨u.index, column⟩)
        = (w.slots.map (·.key)).countP (· == ⟨u.index, column⟩) := by
      intro w
      rw [List.countP_map]
      rfl
    rw [hkey, hkey, hkeys]
  have hlength : t.slots.length = u.slots.length := by
    simpa using congrArg List.length h.entries
  simp only [BindTable.freshSlot, BindSlot.entry, baseName, h.index, hcount, hnames, hlength]

/-- A request keeps tables alike, whatever the dialects. -/
theorem Alike.bind (h : t.Alike u) (d d' : Dialect) (column : String) (value : Value) :
    (t.bind d column value).1.entry = (u.bind d' column value).1.entry ∧
      (t.bind d column value).2.Alike (u.bind d' column value).2 := by
  have hfind := h.find? column value
  rw [BindTable.bind, BindTable.bind]
  cases ht : t.find? column value with
  | some s =>
    rw [ht] at hfind
    obtain ⟨s', hu, hs⟩ := Option.map_eq_some_iff.mp hfind.symm
    rw [hu]
    exact ⟨hs.symm, h⟩
  | none =>
    rw [ht] at hfind
    rw [Option.map_eq_none_iff.mp hfind.symm]
    have hfresh := h.freshSlot d d' column value
    refine ⟨hfresh, h.index, ?_⟩
    rw [List.map_append, List.map_append, h.entries, List.map_singleton, List.map_singleton,
      hfresh]

theorem Alike.bindAll (h : t.Alike u) (d d' : Dialect) (requests : List (String × Value)) :
    (t.bindAll d requests).Alike (u.bindAll d' requests) := by
  induction requests generalizing t u with
  | nil => exact h
  | cons r rest ih => exact ih (h.bind d d' r.1 r.2).2

/-- In a sound table a slot is found by its position. -/
theorem Sound.textAt_ordinal (h : t.Sound d) {s : BindSlot} (hs : s ∈ t.slots) :
    t.textAt s.ordinal = s.text := by
  have hnodup : (t.slots.map (·.ordinal)).Nodup := by
    rw [h.ordinals]
    exact List.nodup_range'
  rw [textAt, find?_of_nodup_map hnodup hs, Option.map_some, Option.getD_some]

/-- A later table still writes the slot of a request, at a position that is the same in every
dialect. -/
theorem exists_ordinal (index : Nat) (requests : List (String × Value)) (r : String × Value) :
    ∃ k, ∀ (d : Dialect) (u : BindTable),
      (bindAll d { index } (requests ++ [r])).Grows d u →
        ((bindAll d { index } requests).bind d r.1 r.2).1.text = u.textAt k := by
  -- any dialect gives the position
  refine ⟨((bindAll .sqlite { index } requests).bind .sqlite r.1 r.2).1.ordinal, fun d u hu => ?_⟩
  have halike : (bindAll d { index } requests).Alike (bindAll .sqlite { index } requests) :=
    (Alike.refl _).bindAll d .sqlite requests
  have hentry := (halike.bind d .sqlite r.1 r.2).1
  have hordinal := congrArg (fun e => e.2.2.2) hentry
  have hsound : u.Sound d := (sound_empty d index).grows (Grows.trans ⟨_, rfl⟩ hu)
  rw [bindAll_concat] at hu
  have hmem := hu.isPrefix.subset (bind_mem (bindAll d { index } requests) d r.1 r.2).1
  rw [← hsound.textAt_ordinal hmem]
  exact congrArg u.textAt hordinal

/-- The slots of requests are written at positions that are the same in every dialect. -/
theorem exists_ordinals (index : Nat) (requests rs : List (String × Value)) :
    ∃ ks : List Nat, ∀ (d : Dialect) (u : BindTable),
      (bindAll d { index } (requests ++ rs)).Grows d u →
        ((bindAll d { index } requests).answers d rs).map (·.text) = ks.map u.textAt := by
  induction rs generalizing requests with
  | nil => exact ⟨[], fun _ _ _ => rfl⟩
  | cons r rest ih =>
    obtain ⟨k, hk⟩ := exists_ordinal index requests r
    obtain ⟨ks, hks⟩ := ih (requests ++ [r])
    refine ⟨k :: ks, fun d u hu => ?_⟩
    rw [List.append_cons] at hu
    have hrest := hks d u hu
    have hfirst := hk d u ((grows_append { index } d (requests ++ [r]) rest).trans hu)
    rw [bindAll_concat] at hrest
    rw [answers, List.map_cons, List.map_cons, ← hfirst, ← hrest]

end BindTable

/-! ### Outlines -/

/-- A piece of a text before a dialect is chosen. -/
inductive Part where
  | words (text : String)
  /-- A name that is quoted. -/
  | name (name : String)
  /-- The slot of a value that is bound for a column. -/
  | slot (column : String) (value : Value)

/-- A template before a dialect is chosen. -/
structure Outline where
  parts : List Part := []
  stop? : Option SqlError := none

/-- The part as a piece in a dialect. -/
def Part.piece (d : Dialect) : Part → Piece
  | .words w => .words w
  | .name n => .words (d.quote n)
  | .slot column value => .slot column value

/-- The template of an outline in a dialect. -/
def Outline.template (o : Outline) (d : Dialect) : Template where
  pieces := o.parts.map (Part.piece d)
  stop? := o.stop?

/-- A dialect that tells columns from computed expressions by a given rule. -/
abbrev Dialect.WithRule (isPlain : String → Bool) :=
  { d : Dialect // d.isPlain = isPlain }

variable {isPlain : String → Bool}

@[simp]
theorem Dialect.WithRule.isPlain_eq (d : Dialect.WithRule isPlain) : d.1.isPlain = isPlain :=
  d.2

/-- The templates are those of one outline in each dialect. -/
def HasOutline (isPlain : String → Bool) (f : Dialect.WithRule isPlain → Template) : Prop :=
  ∃ o : Outline, ∀ d, f d = o.template d

/-- The lists of templates are those of one list of outlines in each dialect. -/
def HasOutlines (isPlain : String → Bool) (f : Dialect.WithRule isPlain → List Template) : Prop :=
  ∃ os : List Outline, ∀ d, f d = os.map (·.template d)

section Outline

variable {f g : Dialect.WithRule isPlain → Template}

theorem hasOutline_words (text : String) : HasOutline isPlain fun _ => .words text :=
  ⟨⟨[.words text], none⟩, fun _ => rfl⟩

theorem hasOutline_quote (name : String) : HasOutline isPlain fun d => .words (d.1.quote name) :=
  ⟨⟨[.name name], none⟩, fun _ => rfl⟩

theorem hasOutline_slot (column : String) (value : Value) :
    HasOutline isPlain fun _ => .slot column value :=
  ⟨⟨[.slot column value], none⟩, fun _ => rfl⟩

theorem hasOutline_fail (e : SqlError) : HasOutline isPlain fun _ => .fail e :=
  ⟨⟨[], some e⟩, fun _ => rfl⟩

theorem HasOutline.append (hf : HasOutline isPlain f) (hg : HasOutline isPlain g) :
    HasOutline isPlain fun d => f d ++ g d := by
  obtain ⟨a, ha⟩ := hf
  obtain ⟨b, hb⟩ := hg
  have happend : ∀ d, f d ++ g d = (a.template d).append (b.template d) := fun d =>
    congrArg₂ Template.append (ha d) (hb d)
  cases hstop : a.stop? with
  | some e =>
    refine ⟨a, fun d => (happend d).trans ?_⟩
    rw [Template.append, Outline.template, hstop]
  | none =>
    refine ⟨⟨a.parts ++ b.parts, b.stop?⟩, fun d => (happend d).trans ?_⟩
    rw [Template.append, Outline.template, hstop, Outline.template, Outline.template,
      List.map_append]

theorem HasOutline.singleton (hf : HasOutline isPlain f) : HasOutlines isPlain fun d => [f d] := by
  obtain ⟨o, ho⟩ := hf
  exact ⟨[o], fun d => congrArg (fun t => [t]) (ho d)⟩

theorem HasOutlines.append {f g : Dialect.WithRule isPlain → List Template}
    (hf : HasOutlines isPlain f) (hg : HasOutlines isPlain g) :
    HasOutlines isPlain fun d => f d ++ g d := by
  obtain ⟨os, hos⟩ := hf
  obtain ⟨os', hos'⟩ := hg
  refine ⟨os ++ os', fun d => (congrArg₂ (· ++ ·) (hos d) (hos' d)).trans ?_⟩
  rw [List.map_append]

theorem HasOutlines.join {f : Dialect.WithRule isPlain → List Template}
    (hf : HasOutlines isPlain f) (separator : String) :
    HasOutline isPlain fun d => .join separator (f d) := by
  obtain ⟨os, hos⟩ := hf
  obtain rfl : f = fun d => os.map (·.template d.1) := funext hos
  induction os with
  | nil => exact ⟨{}, fun _ => rfl⟩
  | cons a rest ih =>
    cases rest with
    | nil => exact ⟨a, fun _ => rfl⟩
    | cons b rest =>
      have ha : HasOutline isPlain fun d => a.template d := ⟨a, fun _ => rfl⟩
      exact (ha.append (hasOutline_words separator)).append (ih fun _ => rfl)

end Outline

/-! ### Fields -/

section Fields

variable (m : EntityMap) (d d' : Dialect)

theorem nearest?_dialect : ∀ e : Expr, (Scope.mk m d).nearest? e = (Scope.mk m d').nearest? e
  | .member owner name => by
    rw [Scope.nearest?, Scope.nearest?, nearest?_dialect owner]
  | .parameter _ | .constant _ | .convert _ | .not _ | .binary _ _ _ | .call _ _ _ | .record _
  | .lambda _ _ | .assign _ _ | .conditional _ _ _ => rfl

theorem resolve_dialect (e : Expr) : (Scope.mk m d).resolve e = (Scope.mk m d').resolve e := by
  rw [Scope.resolve, Scope.resolve, nearest?_dialect m d d']

theorem subjectColumn?_dialect : ∀ e : Expr,
    (Scope.mk m d).subjectColumn? e = (Scope.mk m d').subjectColumn? e
  | .member owner name => by
    rw [Scope.subjectColumn?, Scope.subjectColumn?, resolve_dialect m d d']
  | .convert inner => subjectColumn?_dialect inner
  | .binary op left right => by
    rw [Scope.subjectColumn?, Scope.subjectColumn?, subjectColumn?_dialect left,
      subjectColumn?_dialect right]
  | .parameter _ | .constant _ | .not _ | .call _ _ _ | .record _ | .lambda _ _
  | .assign _ _ | .conditional _ _ _ => rfl

theorem comparisonColumn_dialect (left right : Expr) :
    (Scope.mk m d).comparisonColumn left right = (Scope.mk m d').comparisonColumn left right := by
  rw [Scope.comparisonColumn, Scope.comparisonColumn, subjectColumn?_dialect m d d',
    subjectColumn?_dialect m d d']

mutual

theorem leafFields_dialect (clause : ClauseKind) : ∀ e : Expr,
    (Scope.mk m d).leafFields clause e = (Scope.mk m d').leafFields clause e
  | .lambda _ body => leafFields_dialect clause body
  | .convert inner => leafFields_dialect clause inner
  | .record items => allLeafFields_dialect clause items
  | .member owner name => by
    rw [Scope.leafFields, Scope.leafFields, resolve_dialect m d d']
  | .parameter _ | .constant _ | .not _ | .binary _ _ _ | .call _ _ _ | .assign _ _
  | .conditional _ _ _ => by
    rw [Scope.leafFields, Scope.leafFields] <;> (intros; contradiction)

theorem allLeafFields_dialect (clause : ClauseKind) : ∀ es : List Expr,
    (Scope.mk m d).allLeafFields clause es = (Scope.mk m d').allLeafFields clause es
  | [] => rfl
  | e :: es => by
    rw [Scope.allLeafFields, Scope.allLeafFields, leafFields_dialect clause e,
      allLeafFields_dialect clause es]

end

theorem orderFields_dialect (keys : List SortKey) :
    (Scope.mk m d).orderFields keys = (Scope.mk m d').orderFields keys := by
  induction keys with
  | nil => rfl
  | cons k ks ih => rw [Scope.orderFields, Scope.orderFields, leafFields_dialect m d d', ih]

end Fields

/-! ### Templates -/

section Templates

variable (m : EntityMap)

theorem hasOutline_columnSql (f : MappedField) :
    HasOutline isPlain fun d => .words ((Scope.mk m d).columnSql f) := by
  cases hplain : isPlain f.column.name with
  | true =>
    simp only [Scope.columnSql, Scope.selectItem, Dialect.WithRule.isPlain_eq, hplain, if_true]
    exact hasOutline_quote f.column.name
  | false =>
    simp only [Scope.columnSql, Scope.selectItem, Dialect.WithRule.isPlain_eq, hplain]
    exact hasOutline_words f.column.name

theorem hasOutline_onField (e : Expr) {k : Dialect.WithRule isPlain → MappedField → Template}
    (h : ∀ f, HasOutline isPlain fun d => k d f) :
    HasOutline isPlain fun d => (Scope.mk m d).onField e (k d) := by
  simp only [Scope.onField, resolve_dialect m _ .sqlite]
  cases (Scope.mk m .sqlite).resolve e with
  | ok f => exact h f
  | error error => exact hasOutline_fail error

theorem hasOutline_operandTemplate (column : String) (clause : ClauseKind) : ∀ e : Expr,
    HasOutline isPlain fun d => (Scope.mk m d).operandTemplate column clause e
  | .member owner name => hasOutline_onField m (.member owner name) (hasOutline_columnSql m)
  | .constant value => hasOutline_slot column value
  | .convert inner => hasOutline_operandTemplate column clause inner
  | .binary op left right => by
    simp only [Scope.operandTemplate]
    split
    · exact ((((hasOutline_words "(").append (hasOutline_operandTemplate column clause left)).append
        (hasOutline_words _)).append (hasOutline_operandTemplate column clause right)).append
          (hasOutline_words ")")
    · exact hasOutline_fail _
  | .parameter _ | .not _ | .call _ _ _ | .record _ | .lambda _ _ | .assign _ _
  | .conditional _ _ _ => hasOutline_fail _

theorem hasOutline_comparisonTemplate (op : Operator) (left right : Expr) :
    HasOutline isPlain fun d => (Scope.mk m d).comparisonTemplate op left right := by
  simp only [Scope.comparisonTemplate, comparisonColumn_dialect m _ .sqlite]
  split
  · exact (hasOutline_operandTemplate m _ .predicate _).append (hasOutline_words _)
  · exact ((hasOutline_operandTemplate m _ .predicate left).append (hasOutline_words _)).append
      (hasOutline_operandTemplate m _ .predicate right)

theorem hasOutline_flagTemplate (member : Expr) (expected : Bool) :
    HasOutline isPlain fun d => (Scope.mk m d).flagTemplate member expected :=
  hasOutline_onField m member fun f =>
    ((hasOutline_columnSql m f).append (hasOutline_words _)).append (hasOutline_slot _ _)

theorem hasOutline_membershipTemplate (member : Expr) (values : List Value) :
    HasOutline isPlain fun d => (Scope.mk m d).membershipTemplate member values := by
  refine hasOutline_onField m member fun f => ?_
  cases values with
  | nil => exact hasOutline_words _
  | cons value rest =>
    have hslots : HasOutlines isPlain fun _ => (value :: rest).map (Template.slot f.column.name) :=
      ⟨(value :: rest).map fun v => ⟨[.slot f.column.name v], none⟩, fun d => by
        rw [List.map_map]
        rfl⟩
    exact (((hasOutline_columnSql m f).append (hasOutline_words _)).append
      (hslots.join ", ")).append (hasOutline_words _)

theorem hasOutline_matchTemplate (method : Callee) (member : Expr) (text : String) :
    HasOutline isPlain fun d => (Scope.mk m d).matchTemplate method member text :=
  hasOutline_onField m member fun f =>
    (((hasOutline_columnSql m f).append (hasOutline_words _)).append (hasOutline_slot _ _)).append
      (hasOutline_words _)

theorem hasOutline_callTemplate (method : Callee) (target : Expr) (args : List Expr) :
    HasOutline isPlain fun d => (Scope.mk m d).callTemplate method target args := by
  cases args with
  | nil => exact hasOutline_fail _
  | cons arg rest =>
    simp only [Scope.callTemplate]
    cases CallForm.of method target arg with
    | comparison => exact hasOutline_comparisonTemplate m .eq target arg
    | membership values => exact hasOutline_membershipTemplate m arg.unconverted values
    | textMatch owner name text => exact hasOutline_matchTemplate m method (.member owner name) text
    | badArgument => exact hasOutline_fail _
    | refused => exact hasOutline_fail _

theorem hasOutline_conditionTemplate : ∀ e : Expr,
    HasOutline isPlain fun d => (Scope.mk m d).conditionTemplate e
  | .lambda _ body => hasOutline_conditionTemplate body
  | .convert inner => hasOutline_conditionTemplate inner
  | .binary op left right => by
    simp only [Scope.conditionTemplate]
    split
    · exact ((((hasOutline_words "(").append (hasOutline_conditionTemplate left)).append
        (hasOutline_words _)).append (hasOutline_conditionTemplate right)).append
          (hasOutline_words ")")
    · split
      · exact hasOutline_comparisonTemplate m op left right
      · exact hasOutline_fail _
  | .member owner name => hasOutline_flagTemplate m (.member owner name) true
  | .not inner => by
    by_cases hmember : inner.kind = .memberAccess
    · cases inner with
      | member owner name => exact hasOutline_flagTemplate m (.member owner name) false
      | _ => cases hmember
    · simp only [Scope.conditionTemplate_not _ hmember]
      exact ((hasOutline_words _).append (hasOutline_conditionTemplate inner)).append
        (hasOutline_words _)
  | .call method target args => hasOutline_callTemplate m method target args
  | .constant value => by
    cases value with
    | bool b => cases b <;> exact hasOutline_words _
    | _ => exact hasOutline_fail _
  | .parameter _ | .record _ | .assign _ _ | .conditional _ _ _ => hasOutline_fail _

theorem hasOutline_setTemplate (target value : Expr) :
    HasOutline isPlain fun d => (Scope.mk m d).setTemplate target value := by
  refine hasOutline_onField m target fun f => ?_
  simp only [Scope.isWritable, Dialect.WithRule.isPlain_eq]
  split
  · exact ((hasOutline_quote f.column.name).append (hasOutline_words _)).append
      (hasOutline_operandTemplate m f.column.name .assignment value)
  · exact hasOutline_fail (.notWritable f.column.name m.entity)

mutual

theorem hasOutlines_assignmentTemplates : ∀ e : Expr,
    HasOutlines isPlain fun d => (Scope.mk m d).assignmentTemplates e
  | .lambda _ body => hasOutlines_assignmentTemplates body
  | .record items => hasOutlines_allAssignmentTemplates items
  | .assign target value => (hasOutline_setTemplate m target value).singleton
  | .parameter _ | .member _ _ | .constant _ | .convert _ | .not _ | .binary _ _ _
  | .call _ _ _ | .conditional _ _ _ => (hasOutline_fail _).singleton

theorem hasOutlines_allAssignmentTemplates : ∀ es : List Expr,
    HasOutlines isPlain fun d => (Scope.mk m d).allAssignmentTemplates es
  | [] => ⟨[], fun _ => rfl⟩
  | e :: es => (hasOutlines_assignmentTemplates e).append (hasOutlines_allAssignmentTemplates es)

end

theorem hasOutlines_clauseTemplates (k : BindingClause) :
    HasOutlines isPlain fun d => (Scope.mk m d).clauseTemplates k := by
  cases k with
  | filter e => exact (hasOutline_conditionTemplate m e).singleton
  | assignment e => exact hasOutlines_assignmentTemplates m e

end Templates

/-! ### Marks of columns -/

section Columns

/-- The column of a field. -/
def MappedField.mark (isPlain : String → Bool) (f : MappedField) : Mark :=
  if isPlain f.column.name then .name f.column.name else .words f.column.name

/-- The parts of the item of a field, in marks. -/
def MappedField.itemMarks (isPlain : String → Bool) (f : MappedField) :
    List Mark × Option (List Mark) × String × Bool :=
  ([f.mark isPlain], if isPlain f.column.name then none else some [.name f.member], f.member,
    isPlain f.column.name)

/-- The item of a field in a select list. -/
def MappedField.columnMarks (isPlain : String → Bool) (f : MappedField) : List Mark :=
  if isPlain f.column.name then [f.mark isPlain]
  else [f.mark isPlain, .words " AS ", .name f.member]

/-- The parts of the order item of a field in a direction, in marks. -/
def orderMarks (isPlain : String → Bool) (entry : MappedField × Bool) :
    List Mark × List Mark × Bool :=
  ([entry.1.mark isPlain],
    [if isPlain entry.1.column.name then entry.1.mark isPlain else .name entry.1.member], entry.2)

/-- The item of a field in an ordering. -/
def keyMarks (isPlain : String → Bool) (entry : MappedField × Bool) : List Mark :=
  [entry.1.mark isPlain, .words (if entry.2 then " ASC" else " DESC")]

/-- Marks with commas between them; without texts there is none. -/
def listMarks (texts : List (List Mark)) : Option (List Mark) :=
  if texts.isEmpty then none else some (List.intercalate [.words ", "] texts)

variable (m : EntityMap) (d : Dialect.WithRule isPlain) (t : BindTable)

theorem spell_listMarks (d : Dialect) (texts : List (List Mark)) :
    (listMarks texts).map (spell d t) = listText (texts.map (spell d t)) := by
  rw [listMarks, listText, List.isEmpty_map]
  split
  · rfl
  · rw [Option.map_some, spell_intercalate]

theorem parts_selectItem (f : MappedField) :
    ((Scope.mk m d).selectItem true f).parts
      = (spell d t (f.itemMarks isPlain).1, (f.itemMarks isPlain).2.1.map (spell d t),
          (f.itemMarks isPlain).2.2) := by
  cases hplain : isPlain f.column.name <;>
    simp [Scope.selectItem, SelectItem.parts, MappedField.itemMarks, MappedField.mark, hplain,
      spell, Mark.spell]

theorem toSql_selectItem (f : MappedField) :
    ((Scope.mk m d).selectItem true f).toSql = spell d t (f.columnMarks isPlain) := by
  cases hplain : isPlain f.column.name <;>
    simp [Scope.selectItem, SelectItem.toSql, SelectItem.column, SelectColumn.toSql,
      MappedField.columnMarks, MappedField.mark, hplain, spell, Mark.spell, String.append_assoc]

theorem parts_orderItemOf (entry : MappedField × Bool) :
    ((Scope.mk m d).orderItemOf entry).parts
      = (spell d t (orderMarks isPlain entry).1, spell d t (orderMarks isPlain entry).2.1,
          entry.2) := by
  cases hplain : isPlain entry.1.column.name <;>
    simp [Scope.orderItemOf, Scope.orderItem, Scope.selectItem, OrderItem.parts, orderMarks,
      MappedField.mark, hplain, spell, Mark.spell]

theorem toSql_orderItemOf (entry : MappedField × Bool) :
    ((Scope.mk m d).orderItemOf entry).toSql = spell d t (keyMarks isPlain entry) := by
  cases hplain : isPlain entry.1.column.name <;>
    simp [Scope.orderItemOf, Scope.orderItem, Scope.selectItem, OrderItem.toSql, keyMarks,
      MappedField.mark, hplain, spell, Mark.spell]

end Columns

/-! ### Marks of pieces -/

/-- The value and the column for which it is bound, if the part is a slot. -/
def Part.request? : Part → Option (String × Value)
  | .words _ | .name _ => none
  | .slot column value => some (column, value)

theorem requests_pieces (d : Dialect) (ps : List Part) :
    (ps.map (Part.piece d)).filterMap Piece.request? = ps.filterMap Part.request? := by
  rw [List.filterMap_map]
  refine List.filterMap_congr fun p _ => ?_
  cases p <;> rfl

/-- Parts are filled in with marks that are the same in every dialect. -/
theorem exists_marks (m : EntityMap) (index : Nat) (requests : List (String × Value))
    (ps : List Part) :
    ∃ ms : List Mark, ∀ (d : Dialect) (u : BindTable),
      (BindTable.bindAll d { index } (requests ++ ps.filterMap Part.request?)).Grows d u →
        ((Scope.mk m d).fill (ps.map (Part.piece d)) (.bindAll d { index } requests)).1
          = spell d u ms := by
  induction ps generalizing requests with
  | nil => exact ⟨[], fun _ _ _ => rfl⟩
  | cons p rest ih =>
    cases p with
    | words text =>
      obtain ⟨ms, hms⟩ := ih requests
      exact ⟨.words text :: ms, fun d u hu => congrArg (text ++ ·) (hms d u hu)⟩
    | name name =>
      obtain ⟨ms, hms⟩ := ih requests
      exact ⟨.name name :: ms, fun d u hu => congrArg (d.quote name ++ ·) (hms d u hu)⟩
    | slot column value =>
      obtain ⟨k, hk⟩ := BindTable.exists_ordinal index requests (column, value)
      obtain ⟨ms, hms⟩ := ih (requests ++ [(column, value)])
      refine ⟨.slot k :: ms, fun d u hu => ?_⟩
      have hrequests : requests ++ (Part.slot column value :: rest).filterMap Part.request?
          = requests ++ [(column, value)] ++ rest.filterMap Part.request? := by
        rw [List.append_assoc]
        rfl
      rw [hrequests] at hu
      have hrest := hms d u hu
      have hfirst := hk d u ((BindTable.grows_append { index } d _ _).trans hu)
      rw [BindTable.bindAll_concat] at hrest
      exact congrArg₂ (· ++ ·) hfirst hrest

/-! ### Calls -/

/-- Over the tables that the requests reach, the outcomes are one outcome spelled in each dialect,
and the tables after it hold one list of entries. -/
def HasSpelling (isPlain : String → Bool) (index : Nat) (requests : List (String × Value))
    (f : Dialect.WithRule isPlain → BindTable →
      Except SqlError (ClauseAnswer String) × BindTable) : Prop :=
  ∃ (outcome : Except SqlError (ClauseAnswer (List Mark)))
    (entries : List (SlotKey × Value × String × Nat)), ∀ d,
      let r := f d (.bindAll d { index } requests)
      r.1 = outcome.map (·.map (spell d r.2)) ∧ r.2.slots.map BindSlot.entry = entries

section Calls

variable {index : Nat} {requests : List (String × Value)}

/-- If more requests are made, and the outcome is spelled with the slots of the table after them,
there is one spelling. -/
theorem hasSpelling_of_requests (rs : List (String × Value))
    {f : Dialect.WithRule isPlain → BindTable → Except SqlError (ClauseAnswer String) × BindTable}
    (outcome : Except SqlError (ClauseAnswer (List Mark)))
    (h : ∀ d, f d (.bindAll d { index } requests) =
      (outcome.map (·.map (spell d (.bindAll d { index } (requests ++ rs)))),
        .bindAll d { index } (requests ++ rs))) :
    HasSpelling isPlain index requests f := by
  refine ⟨outcome, (BindTable.bindAll .sqlite { index } (requests ++ rs)).slots.map
    BindSlot.entry, fun d => ?_⟩
  rw [h]
  exact ⟨rfl, ((BindTable.Alike.refl _).bindAll d .sqlite (requests ++ rs)).entries⟩

/-- Fields are written with their marks, and nothing is bound. -/
theorem hasSpelling_of_fields {α : Type} (fields : Except SqlError (List α))
    {f : Dialect.WithRule isPlain → BindTable → Except SqlError (ClauseAnswer String) × BindTable}
    (marks : List α → ClauseAnswer (List Mark))
    (h : ∀ d t, f d t = (fields.map fun fs => (marks fs).map (spell d t), t)) :
    HasSpelling isPlain index requests f := by
  refine hasSpelling_of_requests [] (fields.map marks) fun d => ?_
  rw [h, List.append_nil, map_map_outcome]

variable (m : EntityMap)

theorem hasSpelling_clauseAnswer (k : BindingClause) :
    HasSpelling isPlain index requests fun d t => (Scope.mk m d).clauseAnswer k t := by
  obtain ⟨os, hos⟩ := hasOutlines_clauseTemplates m k
  obtain ⟨o, ho⟩ := (hasOutlines_clauseTemplates m k).join k.separator
  obtain ⟨ms, hms⟩ := exists_marks m index requests o.parts
  refine hasSpelling_of_requests (o.parts.filterMap Part.request?)
    ((o.template .sqlite).outcome (.text (if os.isEmpty then none else some ms))) fun d => ?_
  have htemplate : (Scope.mk m d).clauseTemplate k = o.template d := ho d
  have hempty : ((Scope.mk m d).clauseTemplates k).isEmpty = os.isEmpty :=
    (congrArg List.isEmpty (hos d)).trans List.isEmpty_map
  have hbinds : ((Scope.mk m d).fill (o.parts.map (Part.piece d)) (.bindAll d { index } requests)).2
      = .bindAll d { index } (requests ++ o.parts.filterMap Part.request?) := by
    rw [Scope.fill_snd, requests_pieces, BindTable.bindAll_append]
  have htext := hms d _ (BindTable.Grows.refl _)
  rw [Scope.clauseAnswer, htemplate, hempty, Template.map_outcome]
  simp only [Outline.template, Template.outcome, hbinds, htext, ClauseAnswer.map]
  cases os.isEmpty <;> rfl

/-- The answer of an entity is laid down by its columns and the positions of its slots. -/
theorem hasSpelling_cells (entity : Record)
    (answer : List String → List String → ClauseAnswer String)
    (marks : List (List Mark) → List (List Mark) → ClauseAnswer (List Mark))
    (h : ∀ d t as bs, (marks as bs).map (spell d t)
      = answer (as.map (spell d t)) (bs.map (spell d t))) :
    HasSpelling isPlain index requests fun d t =>
      (.ok (answer ((Scope.mk m d).cellColumns entity) ((Scope.mk m d).cellSlots entity t)),
        t.bindAll d ((Scope.mk m d).writableValues entity)) := by
  let values := (Scope.mk m { Dialect.sqlite with isPlain }).writableValues entity
  have hvalues : ∀ d : Dialect.WithRule isPlain,
      (Scope.mk m d).writableValues entity = values := by
    rintro ⟨d, rfl⟩
    rfl
  obtain ⟨ks, hks⟩ := BindTable.exists_ordinals index requests values
  refine hasSpelling_of_requests values
    (.ok (marks (values.map fun cell => [.name cell.1]) (ks.map fun k => [.slot k]))) fun d => ?_
  have hcolumns : (Scope.mk m d).cellColumns entity
      = (values.map fun cell => [Mark.name cell.1]).map
          (spell d (.bindAll d { index } (requests ++ values))) := by
    rw [Scope.cellColumns, hvalues, List.map_map]
    exact List.map_congr_left fun cell _ => (spell_singleton d _ (.name cell.1)).symm
  have hslots : (Scope.mk m d).cellSlots entity (.bindAll d { index } requests)
      = (ks.map fun k => [Mark.slot k]).map
          (spell d (.bindAll d { index } (requests ++ values))) := by
    rw [Scope.cellSlots, hvalues, List.map_map]
    refine (hks d _ (BindTable.Grows.refl _)).trans ?_
    exact List.map_congr_left fun k _ => (spell_singleton d _ (.slot k)).symm
  rw [hcolumns, hslots, hvalues, Except.map, h, BindTable.bindAll_append]

theorem hasSpelling_answer (call : ClauseCall) :
    HasSpelling isPlain index requests fun d t => (Scope.mk m d).answer call t := by
  cases call with
  | filter e => exact hasSpelling_clauseAnswer m (.filter e)
  | assignment e => exact hasSpelling_clauseAnswer m (.assignment e)
  | select exprs =>
    refine hasSpelling_of_fields ((Scope.mk m .sqlite).allLeafFields .projection exprs)
      (fun fs => .text (listMarks (fs.map (·.columnMarks isPlain)))) fun d t => ?_
    rw [Scope.answer, Scope.selectedItems, map_map_outcome, allLeafFields_dialect m d .sqlite]
    simp only [ClauseAnswer.map, spell_listMarks, List.map_map, Function.comp_def,
      toSql_selectItem m d t]
  | selectItems exprs =>
    refine hasSpelling_of_fields ((Scope.mk m .sqlite).allLeafFields .projection exprs)
      (fun fs => .columns (fs.map (·.itemMarks isPlain))) fun d t => ?_
    rw [Scope.answer, Scope.selectedItems, map_map_outcome, allLeafFields_dialect m d .sqlite]
    simp only [ClauseAnswer.map, List.map_map, Function.comp_def, parts_selectItem m d t]
  | order keys =>
    refine hasSpelling_of_fields ((Scope.mk m .sqlite).orderFields keys)
      (fun fs => .text (listMarks (fs.map (keyMarks isPlain)))) fun d t => ?_
    rw [Scope.answer, Scope.orderedItems, map_map_outcome, orderFields_dialect m d .sqlite]
    simp only [ClauseAnswer.map, spell_listMarks, List.map_map, Function.comp_def,
      toSql_orderItemOf m d t]
  | orderItems keys =>
    refine hasSpelling_of_fields ((Scope.mk m .sqlite).orderFields keys)
      (fun fs => .ordering (fs.map (orderMarks isPlain))) fun d t => ?_
    rw [Scope.answer, Scope.orderedItems, map_map_outcome, orderFields_dialect m d .sqlite]
    simp only [ClauseAnswer.map, List.map_map, Function.comp_def, parts_orderItemOf m d t]
    rfl
  | entityAssignment entity =>
    refine hasSpelling_cells m entity
      (fun columns slots => .setting (String.intercalate ", "
        (List.zipWith (fun column slot => column ++ " = " ++ slot) columns slots)))
      (fun columns slots => .setting (List.intercalate [.words ", "]
        (List.zipWith (fun column slot => column ++ .words " = " :: slot) columns slots)))
      fun d t as bs => ?_
    rw [ClauseAnswer.map, spell_intercalate, List.map_zipWith, List.zipWith_map]
    simp only [spell_append, spell, Mark.spell, String.append_assoc]
  | insert entity => exact hasSpelling_cells m entity .lists .lists fun _ _ _ _ => rfl

end Calls

/-- **Dialects differ in spelling only.** Take the dialects that tell columns from computed
expressions by one rule, as the built-in ones do. Over a bind table that the same requests have
reached in each of them, a call is refused in all of them with one error, or answered in all of them
with the same marks, whatever waits on the stacks. The tables after it hold the same slots, up to
their texts. -/
theorem perform_spelled (isPlain : String → Bool) (m : EntityMap) (index : Nat)
    (requests : List (String × Value)) (call : ClauseCall) :
    ∃ (outcome : Except SqlError (ClauseAnswer (List Mark)))
      (entries : List (SlotKey × Value × String × Nat)),
      ∀ dialect : Dialect, dialect.isPlain = isPlain → ∀ d : Draft,
        let r := ((Scope.mk m dialect).perform call).result
          { d with binds := .bindAll dialect { index } requests }
        r.1 = outcome.map (·.map (spell dialect r.2)) ∧ r.2.slots.map BindSlot.entry = entries := by
  obtain ⟨outcome, entries, h⟩ : HasSpelling isPlain index requests _ := hasSpelling_answer m call
  refine ⟨outcome, entries, fun dialect hplain d => ?_⟩
  rw [Scope.perform_result]
  exact h ⟨dialect, hplain⟩

end EntitySql
