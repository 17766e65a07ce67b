import EntitySql.Proofs.BindTable
import EntitySql.Proofs.FilterText
import Mathlib.Data.List.Infix

/-!
# What text matches match

A text match hands its text over as a pattern, in which the database sees more than characters:
`%` stands for any run of them, `_` for any one, and the escape character takes the next one
literally. Databases differ in the opening bracket, which opens a set of characters in some and is
a character like others elsewhere. `isLike` is this matching, for either kind of database.

The main statement, `emitCall_matches`, says that none of it is left to chance: the pattern that a
call binds matches a subject exactly when the text is found there, at the start, at the end or
anywhere. It rests on `likeItems_escapePattern`, by which an escaped text is read back as its own
characters, whatever they are and whatever follows them.
-/

namespace EntitySql

/-! ### Matching -/

/-- What an opening bracket does in a pattern: if it opens a set, which characters the text
between the brackets admits. -/
abbrev BracketRule := Option (List Char → Char → Bool)

/-- One item of a pattern. -/
inductive LikeItem where
  /-- Any run of characters, also an empty one. -/
  | run
  /-- Any one character. -/
  | any
  | exactly (c : Char)
  /-- One character of a set. -/
  | oneOf (admits : Char → Bool)

/-- The items of a pattern with a backslash for escape, if it is one. The first argument is what
was read of a set that is not closed yet. -/
def likeItems (brackets : BracketRule) : Option (List Char) → List Char → Option (List LikeItem)
  | none, [] => some []
  | none, ['\\'] => none
  | none, '\\' :: c :: p => (likeItems brackets none p).map (.exactly c :: ·)
  | none, '%' :: p => (likeItems brackets none p).map (.run :: ·)
  | none, '_' :: p => (likeItems brackets none p).map (.any :: ·)
  | none, c :: p =>
    if c = '[' ∧ brackets.isSome then likeItems brackets (some []) p
    else (likeItems brackets none p).map (.exactly c :: ·)
  | some _, [] => none
  | some set, c :: p =>
    if c = ']' then
      (likeItems brackets none p).map (.oneOf (fun ch => brackets.any (· set ch)) :: ·)
    else likeItems brackets (some (set ++ [c])) p

/-- The items match the characters. A run is tried with every end. -/
def matchesItems : List LikeItem → List Char → Bool
  | [], s => s.isEmpty
  | .run :: items, s => s.tails.any fun rest => matchesItems items rest
  | .any :: items, _ :: s => matchesItems items s
  | .exactly c :: items, ch :: s => c == ch && matchesItems items s
  | .oneOf admits :: items, ch :: s => admits ch && matchesItems items s
  | _ :: _, [] => false

/-- The subject is like the pattern. -/
def isLike (brackets : BracketRule) (pattern subject : String) : Bool :=
  (likeItems brackets none pattern.toList).any (matchesItems · subject.toList)

/-- Where a method looks for its text in a subject. -/
def Callee.Finds (method : Callee) (text subject : String) : Prop :=
  match method with
  | .startsWith => text.toList <+: subject.toList
  | .endsWith => text.toList <:+ subject.toList
  | .contains => text.toList <:+: subject.toList
  | .equals => text = subject

/-! ### Escaped texts -/

/-- An escaped text is read as its own characters. -/
theorem likeItems_escapePattern (brackets : BracketRule) (cs p : List Char) :
    likeItems brackets none (Scope.escapePattern cs ++ p)
      = (likeItems brackets none p).map (cs.map .exactly ++ ·) := by
  induction cs with
  | nil => simp [Scope.escapePattern]
  | cons c cs ih =>
    rw [Scope.escapePattern]
    by_cases hc : c = '\\' ∨ c = '%' ∨ c = '_' ∨ c = '['
    · rw [if_pos hc, List.cons_append, List.cons_append, likeItems, ih, Option.map_map]
      rfl
    -- any other character is none of those that patterns know
    · obtain ⟨hescape, hrun, hany, hset⟩ : c ≠ '\\' ∧ c ≠ '%' ∧ c ≠ '_' ∧ c ≠ '[' := by
        simpa only [not_or] using hc
      rw [if_neg hc, List.cons_append, likeItems, if_neg (fun h => hset h.1), ih, Option.map_map]
      · rfl
      · exact fun h _ => hescape h
      · exact fun _ _ h _ => hescape h
      · exact fun h => hrun h
      · exact fun h => hany h

/-- A text is matched character by character. -/
theorem matchesItems_exactly (cs : List Char) (items : List LikeItem) (s : List Char) :
    matchesItems (cs.map .exactly ++ items) s = true ↔
      ∃ rest, s = cs ++ rest ∧ matchesItems items rest = true := by
  induction cs generalizing s with
  | nil => simp
  | cons c cs ih =>
    cases s with
    | nil => simp [matchesItems]
    | cons ch s =>
      rw [List.map_cons, List.cons_append, matchesItems, Bool.and_eq_true, beq_iff_eq, ih]
      constructor
      · rintro ⟨rfl, rest, rfl, h⟩
        exact ⟨rest, rfl, h⟩
      · rintro ⟨rest, hs, h⟩
        obtain ⟨rfl, rfl⟩ := List.cons.inj hs
        exact ⟨rfl, rest, rfl, h⟩

theorem matchesItems_run (items : List LikeItem) (s : List Char) :
    matchesItems (.run :: items) s = true ↔
      ∃ skipped rest, s = skipped ++ rest ∧ matchesItems items rest = true := by
  rw [matchesItems, List.any_eq_true]
  constructor
  · rintro ⟨rest, hrest, h⟩
    obtain ⟨skipped, rfl⟩ := (List.mem_tails _ _).mp hrest
    exact ⟨skipped, rest, rfl, h⟩
  · rintro ⟨skipped, rest, rfl, h⟩
    exact ⟨rest, (List.mem_tails _ _).mpr (List.suffix_append skipped rest), h⟩

/-- A run at the end matches whatever is left. -/
theorem matchesItems_lastRun (s : List Char) : matchesItems [.run] s = true :=
  (matchesItems_run [] s).mpr ⟨s, [], (List.append_nil s).symm, rfl⟩

/-- The pattern of a text match matches where its text is found. -/
theorem isLike_matchPattern {method : Callee} (hmethod : method ≠ .equals) (text : String)
    (brackets : BracketRule) (subject : String) :
    isLike brackets (Scope.matchPattern method text) subject = true ↔
      method.Finds text subject := by
  have hitems := fun p => likeItems_escapePattern brackets text.toList p
  have hlast : likeItems brackets none ['%'] = some [.run] := rfl
  have hfirst : ∀ p, likeItems brackets none ('%' :: p)
      = (likeItems brackets none p).map (.run :: ·) := fun _ => rfl
  cases method with
  | equals => exact absurd rfl hmethod
  | startsWith =>
    rw [isLike, Scope.matchPattern, Callee.Finds, String.toList_ofList, hitems, hlast,
      Option.map_some, Option.any_some, matchesItems_exactly]
    constructor
    · rintro ⟨rest, hs, -⟩
      exact ⟨rest, hs.symm⟩
    · rintro ⟨rest, hs⟩
      exact ⟨rest, hs.symm, matchesItems_lastRun rest⟩
  | endsWith =>
    have hend := hitems []
    rw [List.append_nil] at hend
    rw [isLike, Scope.matchPattern, Callee.Finds, String.toList_ofList, hfirst, hend,
      Option.map_map, likeItems, Option.map_some, Option.any_some, Function.comp_apply,
      matchesItems_run]
    constructor
    · rintro ⟨skipped, rest, hs, h⟩
      obtain ⟨tail, rfl, htail⟩ := (matchesItems_exactly _ _ _).mp h
      obtain rfl : tail = [] := by simpa [matchesItems] using htail
      exact ⟨skipped, by rw [hs, List.append_nil]⟩
    · rintro ⟨skipped, hs⟩
      refine ⟨skipped, text.toList, hs.symm, (matchesItems_exactly _ _ _).mpr ⟨[], ?_, rfl⟩⟩
      exact (List.append_nil _).symm
  | contains =>
    have hpattern : Scope.matchPattern .contains text
        = String.ofList ('%' :: (Scope.escapePattern text.toList ++ ['%'])) := rfl
    rw [isLike, hpattern, Callee.Finds, String.toList_ofList, hfirst, hitems, hlast,
      Option.map_some, Option.map_some, Option.any_some, matchesItems_run]
    constructor
    · rintro ⟨before, rest, hs, h⟩
      obtain ⟨after, rfl, -⟩ := (matchesItems_exactly _ _ _).mp h
      exact ⟨before, after, by rw [hs, List.append_assoc]⟩
    · rintro ⟨before, after, hs⟩
      refine ⟨before, text.toList ++ after, by rw [← hs, List.append_assoc], ?_⟩
      exact (matchesItems_exactly _ _ _).mpr ⟨after, rfl, matchesItems_lastRun after⟩

/-- A set that is escaped is no set, and one that is not escaped may be one. -/
example :
    let vowels : BracketRule := some fun set c => set.contains c
    isLike vowels "%[aeiou]%" "x[a" = true ∧ isLike vowels "%[aeiou]%" "[x]" = false ∧
      isLike none "%[aeiou]%" "x[aeiou]" = true ∧
      isLike vowels (Scope.matchPattern .contains "[a]\\") "b[a]\\%" = true := by
  decide

/-! ### Calls -/

/-- A call on a member with a text is a text match, through any conversions. -/
theorem callForm_textMatch {method : Callee} (hmethod : method ≠ .equals) {target arg owner : Expr}
    {name text : String} (htarget : target.unconverted = .member owner name)
    (harg : arg.unconverted = .constant (.text text)) :
    CallForm.of method target arg = .textMatch owner name text :=
  CallForm.of_eq_textMatch.mpr ⟨hmethod, htarget, harg⟩

/-- The slot of a text holds this text and no other value, in every table that grows from here. -/
theorem BindTable.Sound.valueOf?_bind_text {d : Dialect} {t : BindTable} (h : t.Sound d)
    (hd : d.TellsSlotsApart) (column text : String) {final : BindTable}
    (hfinal : (t.bind d column (.text text)).2.Grows d final) :
    final.valueOf? (t.bind d column (.text text)).1.text = some (.text text) := by
  obtain ⟨hmem, hsame⟩ := t.bind_mem d column (.text text)
  have hvalue : (t.bind d column (.text text)).1.value = .text text := by
    cases hv : (t.bind d column (.text text)).1.value with
    | text s =>
      rw [hv, Value.same, beq_iff_eq] at hsame
      rw [hsame]
    | _ =>
      rw [hv] at hsame
      cases hsame
  have hsound := (h.bind column (.text text)).grows hfinal
  rw [hsound.valueOf?_text hd (hfinal.isPrefix.subset hmem), hvalue]

/-- **Text matches are literal.** A call on a resolving member with a text writes a text match
with one slot. The pattern in this slot matches a subject exactly when the text is found in it,
character by character, at the place that the method names, in a database of either kind. -/
theorem emitCall_matches (c : Scope) (hslots : c.dialect.TellsSlotsApart) {d : Draft}
    (hd : d.binds.Sound c.dialect) {method : Callee} (hmethod : method ≠ .equals)
    {target arg owner : Expr} {name text : String}
    (htarget : target.unconverted = .member owner name)
    (harg : arg.unconverted = .constant (.text text)) {f : MappedField}
    (hf : c.resolve (.member owner name) = .ok f) (rest : List Expr) :
    ∃ (slot pattern : String) (binds : BindTable),
      c.emitCall method target (arg :: rest) d = .ok ()
        { d with
          binds
          texts := d.texts.push (c.columnSql f ++ " LIKE " ++ slot ++ " ESCAPE '\\'") } ∧
      (∀ final, binds.Grows c.dialect final → final.valueOf? slot = some (.text pattern)) ∧
      ∀ brackets subject, isLike brackets pattern subject = true ↔ method.Finds text subject := by
  let pattern := Scope.matchPattern method text
  let bound := d.binds.bind c.dialect f.column.name (.text pattern)
  refine ⟨bound.1.text, pattern, bound.2, ?_, ?_, isLike_matchPattern hmethod text⟩
  · have htext : c.matchText method (.member owner name) text d.binds
        = .ok (c.columnSql f ++ " LIKE " ++ bound.1.text ++ " ESCAPE '\\'") bound.2 :=
      bind_eq_ok.mpr ⟨f, d.binds, resolved_eq_ok.mpr ⟨hf, rfl⟩,
        map_eq_ok.mpr ⟨bound.1.text, slotOf_eq_ok.mpr ⟨rfl, rfl⟩, rfl⟩⟩
    have hwrites := c.emitMatch_writes method (.member owner name) text d
    rw [htext] at hwrites
    rw [Scope.emitCall_cons, callForm_textMatch hmethod htarget harg]
    exact hwrites
  · intro final hfinal
    exact hd.valueOf?_bind_text hslots f.column.name pattern hfinal

/-- A type with a text of any characters. -/
def snippets : EntityMap where
  entity := "Snippet"
  table := "snippets"
  fields := [⟨"Body", ⟨"body", false, true, .scalar⟩⟩]
  key := none

/-- All characters that patterns know, with a backslash at the end, and a conversion on each
side. -/
theorem emitCall_matches_wildcards :
    ∃ (slot pattern : String) (binds : BindTable),
      Scope.emitCall ⟨snippets, .sqlServer⟩ .contains (.convert (.ofMember "Body"))
          [.convert (.constant (.text "[%_]\\"))] (Draft.fresh 0)
        = .ok () { binds, texts := ⟨["[body] LIKE " ++ slot ++ " ESCAPE '\\'"]⟩ } ∧
      binds.valueOf? slot = some (.text pattern) ∧
      ∀ brackets, isLike brackets pattern "a[%_]\\b" = true ∧
        isLike brackets pattern "a[xy]\\b" = false := by
  have hslots := BuiltinDialect.sqlServer.tellsSlotsApart
  have hsound : (Draft.fresh 0).binds.Sound Dialect.sqlServer := BindTable.sound_empty _ 0
  have hmethod : Callee.contains ≠ .equals := by decide
  have htarget : (Expr.convert (.ofMember "Body")).unconverted = .member .root "Body" := rfl
  have harg : (Expr.convert (.constant (.text "[%_]\\"))).unconverted
      = .constant (.text "[%_]\\") := rfl
  obtain ⟨slot, pattern, binds, hrun, hvalue, hlike⟩ :=
    emitCall_matches ⟨snippets, .sqlServer⟩ hslots hsound hmethod htarget harg rfl []
  refine ⟨slot, pattern, binds, hrun, hvalue binds (.refl binds), fun brackets => ⟨?_, ?_⟩⟩
  · rw [hlike]
    exact ⟨['a'], ['b'], rfl⟩
  · rw [← Bool.not_eq_true, hlike, Callee.Finds]
    decide

end EntitySql
