import EntitySql.Proofs.Acceptance
import EntitySql.Proofs.Condition.Filter

/-!
# Partial updates

A partial update is a tree of lambdas and records over assignments. `EntityMap.IsUpdate` says which
of these trees are updates, and `Expr.assignments` lists the assignments of a tree from left to
right.

The text of an update is a list of settings between commas, in every dialect the text of columns
and readings of operands (`setListText`). `Condition.ReadsSettings` is the grammar of such lists
over the tokens of conditions. A list of tokens has at most one reading (`ReadsSettings.unique`),
since a list of settings is also a list of conditions at the loosest level; so the settings are
found again in their text (`isSetList_text`).

The main statement, `assignmentSql_reading`: exactly the updates are written, and what is written
has one setting for each assignment, in order, of the assigned column to a reading with the value
of the assigned operand on every row. As for filters, slots keep their values however many are bound
later, so that items that share a slot do not take each other's values.
-/

namespace EntitySql

open Condition

/-! ### Trees of assignments -/

namespace Expr

mutual

/-- The targets and values of the assignments of a tree, from left to right. -/
def assignments : Expr → List (Expr × Expr)
  | .lambda _ body => body.assignments
  | .record items => allAssignments items
  | .assign target value => [(target, value)]
  | _ => []

/-- The targets and values of the assignments of several trees, tree by tree. -/
def allAssignments : List Expr → List (Expr × Expr)
  | [] => []
  | e :: es => e.assignments ++ allAssignments es

end

end Expr

namespace EntityMap

variable {m : EntityMap} {d : Dialect}

/-- An update: lambdas and records over assignments of operands to columns that may be written,
neither generated nor computed. -/
inductive IsUpdate (m : EntityMap) (d : Dialect) : Expr → Prop where
  | lambda {params : List String} {body : Expr} :
    IsUpdate m d body → IsUpdate m d (.lambda params body)
  | record {items : List Expr} : (∀ e ∈ items, IsUpdate m d e) → IsUpdate m d (.record items)
  | assign {target value : Expr} {f : MappedField} :
    m.Resolves target f → f.column.isGenerated = false → d.isPlain f.column.name = true →
    m.IsOperand value → IsUpdate m d (.assign target value)

theorem isUpdate_lambda {params : List String} {body : Expr} :
    m.IsUpdate d (.lambda params body) ↔ m.IsUpdate d body := by
  refine ⟨fun h => ?_, .lambda⟩
  cases h with
  | lambda h => exact h

theorem isUpdate_record {items : List Expr} :
    m.IsUpdate d (.record items) ↔ ∀ e ∈ items, m.IsUpdate d e := by
  refine ⟨fun h => ?_, .record⟩
  cases h with
  | record h => exact h

theorem isUpdate_assign {target value : Expr} : m.IsUpdate d (.assign target value) ↔
    ∃ f, m.Resolves target f ∧ Scope.isWritable ⟨m, d⟩ f = true ∧ m.IsOperand value := by
  have hwritable (f : MappedField) : Scope.isWritable ⟨m, d⟩ f = true ↔
      f.column.isGenerated = false ∧ d.isPlain f.column.name = true := by
    simp [Scope.isWritable]
  simp only [hwritable]
  constructor
  · intro h
    cases h with
    | assign hf hgenerated hplain hvalue => exact ⟨_, hf, ⟨hgenerated, hplain⟩, hvalue⟩
  · rintro ⟨f, hf, ⟨hgenerated, hplain⟩, hvalue⟩
    exact .assign hf hgenerated hplain hvalue

end EntityMap

/-! ### Lists of settings -/

namespace Condition

/-- The grammar of lists of settings: each sets a column to an operand. -/
inductive ReadsSettings : List Token → List (String × Reading) → Prop where
  | single {name : String} {ts : List Token} {r : Reading} :
    Reads 5 ts r → ReadsSettings (.column name :: .operator .eq :: ts) [(name, r)]
  | more {ls : List Token} {settings : List (String × Reading)} {name : String} {ts : List Token}
    {r : Reading} :
    ReadsSettings ls settings → Reads 5 ts r →
    ReadsSettings (ls ++ .comma :: .column name :: .operator .eq :: ts) (settings ++ [(name, r)])

/-- The setting that an equation of a column is. -/
def Reading.setting? : Reading → Option (String × Reading)
  | .binary .eq (.column name) value => some (name, value)
  | _ => none

/-- The settings that a list of equations is. -/
def Reading.settings? : Reading → Option (List (String × Reading))
  | .list items last => do return (← items.settings?) ++ [← last.setting?]
  | r => do return [← r.setting?]

theorem reads_setting {name : String} {ts : List Token} {r : Reading} (h : Reads 5 ts r) :
    Reads 4 (.column name :: .operator .eq :: ts) (.binary .eq (.column name) r) :=
  .compare rfl ((Reads.column name).loosen (by decide) (by decide)) h

/-- A list of settings is a list of equations. -/
theorem ReadsSettings.reads {ts : List Token} {settings : List (String × Reading)}
    (h : ReadsSettings ts settings) : ∃ r, Reads 0 ts r ∧ r.settings? = some settings := by
  induction h with
  | single h => exact ⟨_, (reads_setting h).loosen (by decide) (by decide), rfl⟩
  | more _ h ih =>
    obtain ⟨items, hitems, hsettings⟩ := ih
    refine ⟨_, .join rfl rfl hitems ((reads_setting h).loosen (by decide) (by decide)), ?_⟩
    rw [Reading.settings?, hsettings]
    rfl

/-- A list of tokens is a list of settings in at most one way. -/
theorem ReadsSettings.unique {ts : List Token} {settings settings' : List (String × Reading)}
    (h : ReadsSettings ts settings) (h' : ReadsSettings ts settings') : settings = settings' := by
  obtain ⟨r, hr, hsettings⟩ := h.reads
  obtain ⟨r', hr', hsettings'⟩ := h'.reads
  obtain rfl := hr.unique hr'
  exact Option.some.inj (hsettings.symm.trans hsettings')

/-- The text is a list of these settings. -/
def IsSetList (k : Marks) (text : String) (settings : List (String × Reading)) : Prop :=
  ∃ tokens, Tokens k text.toList tokens ∧ ReadsSettings tokens settings

theorem isSetList_unique {k : Marks} {text : String}
    {settings settings' : List (String × Reading)} (h : IsSetList k text settings)
    (h' : IsSetList k text settings') : settings = settings' := by
  obtain ⟨ts, hts, hs⟩ := h
  obtain ⟨ts', hts', hs'⟩ := h'
  obtain rfl := tokens_unique hts hts'
  exact hs.unique hs'

variable {d : Dialect} {k : Marks}

/-- The text of a setting. -/
def settingText (d : Dialect) (setting : String × Reading) : String :=
  d.quote setting.1 ++ " = " ++ setting.2.text d

/-- The text of a list of settings. -/
def setListText (d : Dialect) (settings : List (String × Reading)) : String :=
  String.intercalate ", " (settings.map (settingText d))

theorem scans_settingText (hd : IsScannable d k) {setting : String × Reading}
    (h : setting.2.IsOperand d) : ∃ tokens,
      Scans k (settingText d setting) (.column setting.1 :: .operator .eq :: tokens) ∧
        Reads 5 tokens setting.2 := by
  obtain ⟨tokens, hscan, hread⟩ := h.reads hd
  refine ⟨tokens, ?_, hread.loosen (by decide) (by decide)⟩
  have hall := ((scans_column hd setting.1).blank (scans_operator hd .eq)).blank hscan
  have hequals : " = " = " " ++ Operator.eq.text ++ " " := rfl
  rw [settingText, hequals]
  simpa [String.append_assoc] using hall

/-- The settings that remain extend a list that is read already. -/
theorem scans_settings (hd : IsScannable d k) {front : String} {tokens : List Token}
    {done rest : List (String × Reading)} (hfront : Scans k front tokens)
    (hread : ReadsSettings tokens done) (h : ∀ s ∈ rest, s.2.IsOperand d) :
    ∃ tokens', Scans k (String.intercalate ", " (front :: rest.map (settingText d))) tokens' ∧
      ReadsSettings tokens' (done ++ rest) := by
  induction rest generalizing front tokens done with
  | nil =>
    rw [List.map_nil, String.intercalate_singleton, List.append_nil]
    exact ⟨tokens, hfront, hread⟩
  | cons s rest ih =>
    obtain ⟨hs, hrest⟩ := List.forall_mem_cons.mp h
    obtain ⟨ts, hscan, hreads⟩ := scans_settingText hd hs
    obtain ⟨tokens', hall, hsettings⟩ := ih (hfront.comma hscan) (.more hread hreads) hrest
    rw [String.intercalate_cons_append, ← String.intercalate_cons_cons] at hall
    rw [List.append_assoc] at hsettings
    exact ⟨tokens', hall, hsettings⟩

/-- Settings are found again in their text. -/
theorem isSetList_text (hd : IsScannable d k) {settings : List (String × Reading)}
    (hne : settings ≠ []) (h : ∀ s ∈ settings, s.2.IsOperand d) :
    IsSetList k (setListText d settings) settings := by
  cases settings with
  | nil => exact absurd rfl hne
  | cons s rest =>
    obtain ⟨hs, hrest⟩ := List.forall_mem_cons.mp h
    obtain ⟨ts, hscan, hread⟩ := scans_settingText hd hs
    obtain ⟨tokens, hall, hsettings⟩ := scans_settings hd hscan (.single hread) hrest
    exact ⟨tokens, hall.tokens, hsettings⟩

end Condition

namespace Scope

variable {c : Scope} {t u : BindTable}

/-! ### What is accepted -/

theorem stop?_setTemplate {target value : Expr} :
    (c.setTemplate target value).stop? = none ↔
      ∃ f, c.map.Resolves target f ∧ c.isWritable f = true ∧ c.map.IsOperand value := by
  rw [setTemplate, stop?_onField_eq_none]
  refine exists_congr fun f => and_congr_right fun _ => ?_
  split
  · next hwritable => simp [stop?_operandTemplate, hwritable]
  · next hwritable => simp [hwritable]

mutual

/-- The templates of a tree of assignments all go to their ends if the tree is an update. -/
theorem stop?_assignmentTemplates :
    ∀ e : Expr, (∀ s ∈ c.assignmentTemplates e, s.stop? = none) ↔ c.map.IsUpdate c.dialect e
  | .lambda params body => by
    rw [assignmentTemplates, stop?_assignmentTemplates body, EntityMap.isUpdate_lambda]
  | .record items => by
    rw [assignmentTemplates, stop?_allAssignmentTemplates items, EntityMap.isUpdate_record]
  | .assign target value => by
    rw [assignmentTemplates, List.forall_mem_singleton, stop?_setTemplate,
      EntityMap.isUpdate_assign]
  | .parameter _ | .member _ _ | .constant _ | .convert _ | .not _ | .binary _ _ _
  | .call _ _ _ | .conditional _ _ _ => by
    rw [assignmentTemplates, List.forall_mem_singleton]
    · exact iff_of_false (Option.some_ne_none _) fun h => by cases h
    all_goals intros; contradiction

theorem stop?_allAssignmentTemplates : ∀ es : List Expr,
    (∀ s ∈ c.allAssignmentTemplates es, s.stop? = none) ↔ ∀ e ∈ es, c.map.IsUpdate c.dialect e
  | [] => by simp [allAssignmentTemplates]
  | e :: es => by
    rw [allAssignmentTemplates, List.forall_mem_append, List.forall_mem_cons,
      stop?_assignmentTemplates e, stop?_allAssignmentTemplates es]

end

mutual

/-- The templates of an update are those of its assignments. -/
theorem assignmentTemplates_eq : ∀ {e : Expr}, c.map.IsUpdate c.dialect e →
    c.assignmentTemplates e = e.assignments.map fun s => c.setTemplate s.1 s.2
  | .lambda _ _, h => by
    rw [assignmentTemplates, Expr.assignments,
      assignmentTemplates_eq (EntityMap.isUpdate_lambda.mp h)]
  | .record _, h => by
    rw [assignmentTemplates, Expr.assignments,
      allAssignmentTemplates_eq (EntityMap.isUpdate_record.mp h)]
  | .assign _ _, _ => rfl

theorem allAssignmentTemplates_eq : ∀ {es : List Expr}, (∀ e ∈ es, c.map.IsUpdate c.dialect e) →
    c.allAssignmentTemplates es = (Expr.allAssignments es).map fun s => c.setTemplate s.1 s.2
  | [], _ => rfl
  | e :: es, h => by
    obtain ⟨he, hes⟩ := List.forall_mem_cons.mp h
    rw [allAssignmentTemplates, Expr.allAssignments, List.map_append, assignmentTemplates_eq he,
      allAssignmentTemplates_eq hes]

end

/-! ### What is written -/

/-- The setting of an assignment: the column of the target, and a reading with the value of the
assigned operand. -/
structure Sets (c : Scope) (final : BindTable) (s : Expr × Expr) (setting : String × Reading) :
    Prop where
  column : ∃ f, c.map.Resolves s.1 f ∧ setting.1 = f.column.name
  value : HasValue (fun I row => c.operandValue? I row s.2) setting.2 final

/-- One assignment is written as the text of its setting. -/
theorem setTemplate_spelled (hslots : c.dialect.TellsSlotsApart) (ht : t.Sound c.dialect)
    {s : Expr × Expr} {text : String} (hplain : c.HasPlainMembers s.2)
    (h : c.write (c.setTemplate s.1 s.2) t = .ok text u) :
    t.Grows c.dialect u ∧ ∃ setting : String × Reading, setting.2.IsOperand c.dialect ∧
      text = settingText c.dialect setting ∧
      ∀ final, u.Grows c.dialect final → final.Sound c.dialect → c.Sets final s setting := by
  rw [write_setTemplate] at h
  obtain ⟨f, v, hrun, h⟩ := bind_eq_ok.mp h
  obtain ⟨hf, rfl⟩ := resolved_eq_ok.mp hrun
  by_cases hwritable : c.isWritable f
  · rw [if_pos hwritable] at h
    obtain ⟨valueText, hvalue, rfl⟩ := map_eq_ok.mp h
    obtain ⟨hgrows, r, hoperand, rfl, hmean⟩ :=
      operandText_spelled hslots f.column.name .assignment ht hplain hvalue
    exact ⟨hgrows, (f.column.name, r), hoperand, rfl, fun final hfinal hsound =>
      ⟨⟨f, resolve_eq_ok_iff.mp hf, rfl⟩, hmean final hfinal hsound⟩⟩
  · rw [if_neg hwritable] at h
    exact absurd h throw_ne_ok

/-- Assignments are written in turn as the texts of their settings. What the first is written as
means the same in the table that the others leave. -/
theorem setTemplates_spelled (hslots : c.dialect.TellsSlotsApart) (ht : t.Sound c.dialect)
    {ss : List (Expr × Expr)} {texts : List String} (hplain : ∀ s ∈ ss, c.HasPlainMembers s.2)
    (h : (ss.map fun s => c.setTemplate s.1 s.2).mapM c.write t = .ok texts u) :
    t.Grows c.dialect u ∧ ∃ settings : List (String × Reading),
      (∀ setting ∈ settings, setting.2.IsOperand c.dialect) ∧
      texts = settings.map (settingText c.dialect) ∧
      ∀ final, u.Grows c.dialect final → final.Sound c.dialect →
        List.Forall₂ (c.Sets final) ss settings := by
  induction ss generalizing t texts with
  | nil =>
    rw [List.map_nil, List.mapM_nil, pure_eq_ok] at h
    obtain ⟨rfl, rfl⟩ := h
    exact ⟨.refl t, [], List.forall_mem_nil _, rfl, fun _ _ _ => .nil⟩
  | cons s ss ih =>
    rw [List.map_cons, List.mapM_cons] at h
    obtain ⟨text, v, hs, h⟩ := bind_eq_ok.mp h
    obtain ⟨others, ho, rfl⟩ := map_eq_ok.mp h
    obtain ⟨hp, hps⟩ := List.forall_mem_cons.mp hplain
    obtain ⟨hgs, setting, hoperand, rfl, hsets⟩ := setTemplate_spelled hslots ht hp hs
    obtain ⟨hgo, settings, hoperands, rfl, hall⟩ := ih (ht.grows hgs) hps ho
    refine ⟨hgs.trans hgo, setting :: settings, List.forall_mem_cons.mpr ⟨hoperand, hoperands⟩, rfl,
      fun final hfinal hsound => ?_⟩
    exact .cons (hsets final (hgo.trans hfinal) hsound) (hall final hfinal hsound)

/-! ### Updates -/

/-- **A partial update sets its columns to its operands**, in a dialect that tells slots apart. The
draft has any bind table that can be reached. Exactly the updates are written. Without assignments
there is no text; otherwise the text is that of one setting for each assignment, in order, with the
values of the slots in any later table, and by the marks of names and slots it is read as a list of
settings in this way only. -/
theorem assignmentSql_reading (c : Scope) (hslots : c.dialect.TellsSlotsApart) (index : Nat)
    {d : Draft} {e : Expr} (hreached : (Draft.fresh index).binds.Grows c.dialect d.binds)
    (hplain : ∀ s ∈ e.assignments, c.HasPlainMembers s.2) :
    ((∃ sql d', c.assignmentSql e d = .ok sql d') ↔ c.map.IsUpdate c.dialect e) ∧
      ∀ sql d', c.assignmentSql e d = .ok sql d' →
        (e.assignments = [] ∧ sql = none) ∨
          ∃ settings, e.assignments ≠ [] ∧ sql = some (setListText c.dialect settings) ∧
            (∀ final, d'.binds.Grows c.dialect final →
              List.Forall₂ (c.Sets final) e.assignments settings) ∧
            (∀ marks, IsScannable c.dialect marks → ∀ settings',
              IsSetList marks (setListText c.dialect settings) settings' ↔
                settings' = settings) := by
  have haccepts : (∃ sql d', c.assignmentSql e d = .ok sql d') ↔ c.map.IsUpdate c.dialect e :=
    (clauseSql_written_iff (k := .assignment e)).trans (stop?_assignmentTemplates e)
  refine ⟨haccepts, fun sql d' h => ?_⟩
  have hsound : d.binds.Sound c.dialect := (BindTable.sound_empty c.dialect index).grows hreached
  obtain ⟨texts, htexts, rfl⟩ := clauseSql_eq_ok (k := .assignment e) h
  have htemplates : c.clauseTemplates (.assignment e)
      = e.assignments.map fun s => c.setTemplate s.1 s.2 :=
    assignmentTemplates_eq (haccepts.mp ⟨_, d', h⟩)
  rw [htemplates] at htexts
  obtain ⟨hgrows, settings, hoperands, rfl, hsets⟩ :=
    setTemplates_spelled hslots hsound hplain htexts
  have hlater (final : BindTable) (hfinal : d'.binds.Grows c.dialect final) :
      List.Forall₂ (c.Sets final) e.assignments settings :=
    hsets final hfinal (hsound.grows (hgrows.trans hfinal))
  have hlength := (hlater d'.binds (.refl _)).length_eq
  rcases settings with _ | ⟨setting, settings⟩
  · exact .inl ⟨List.eq_nil_of_length_eq_zero hlength, rfl⟩
  · refine .inr ⟨setting :: settings, fun hnil => ?_, rfl, hlater, fun marks hd settings' => ?_⟩
    · rw [hnil] at hlength
      cases hlength
    · have hset := isSetList_text hd (List.cons_ne_nil _ _) hoperands
      exact ⟨fun hs' => isSetList_unique hs' hset, fun heq => heq ▸ hset⟩

end Scope

/-- Names a person, and in a record of its own activates them or not. -/
def renamed (name : String) (active : Bool) : Expr :=
  .lambda ["o"] (.record [.assign (.ofMember "Name") (.constant (.text name)),
    .record [.assign (.ofMember "Active") (.constant (.bool active))]])

/-- The update is written after a filter with one of its values, which shares its slot. -/
theorem assignmentSql_reading_shared :
    ∃ d, Scope.assignmentSql ⟨people, BuiltinDialect.postgres.dialect⟩ (renamed "Ann" false)
        (Scope.draftAfter ⟨people, BuiltinDialect.postgres.dialect⟩ [.filter (namedOrNot "Ann")]
          (Draft.fresh 0)) = .ok (some "\"name\" = $1, \"active\" = $3") d ∧
      d.binds.slots.map (fun s => (s.text, s.value))
        = [("$1", .text "Ann"), ("$2", .bool true), ("$3", .bool false)] ∧
      (∀ s ∈ (renamed "Ann" false).assignments,
        Scope.HasPlainMembers ⟨people, BuiltinDialect.postgres.dialect⟩ s.2) ∧
      people.IsUpdate BuiltinDialect.postgres.dialect (renamed "Ann" false) ∧
      ∃ settings,
        IsSetList BuiltinDialect.postgres.marks "\"name\" = $1, \"active\" = $3" settings ∧
        List.Forall₂ (Scope.Sets ⟨people, BuiltinDialect.postgres.dialect⟩ d.binds)
          (renamed "Ann" false).assignments settings := by
  have hplain : ∀ s ∈ (renamed "Ann" false).assignments,
      Scope.HasPlainMembers ⟨people, BuiltinDialect.postgres.dialect⟩ s.2 := by
    simp [renamed, Expr.assignments, Expr.allAssignments, Scope.HasPlainMembers]
  obtain ⟨haccepts, hreading⟩ := Scope.assignmentSql_reading
    ⟨people, BuiltinDialect.postgres.dialect⟩ BuiltinDialect.postgres.tellsSlotsApart 0
    (Scope.grows_draftAfter _ [.filter (namedOrNot "Ann")] (Draft.fresh 0)) hplain
  refine ⟨_, rfl, rfl, hplain, haccepts.mp ⟨_, _, rfl⟩, ?_⟩
  obtain ⟨-, hnone⟩ | ⟨settings, -, htext, hsets, hset⟩ :=
    hreading (some "\"name\" = $1, \"active\" = $3") _ rfl
  · cases hnone
  · rw [Option.some.inj htext]
    exact ⟨settings, (hset _ (isScannable_builtin .postgres) settings).mpr rfl, hsets _ (.refl _)⟩

end EntitySql
