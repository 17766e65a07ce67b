import EntitySql.Proofs.Condition.Scan

/-!
# Reading slots

Which slots stand in the text of a statement, read from left to right outside quoted names
(`slotsIn`). A quoted name ends at a closing quote that is not doubled, and a slot is its mark
with all letters, digits and underscores after it.

Fragments of a statement are put together in two ways. `Shows k text slots` is for a fragment
that has to be followed by a blank, a comma, a closing parenthesis or the end, as names and slots
have to be; `Passes k text slots` is for a fragment that anything may follow. Texts without marks
and quotes (`isUnmarked`) pass without slots.
-/

namespace EntitySql

namespace Slots

open Condition

/-! ### Slots of a text -/

/-- Where a reader of a statement is. -/
inductive ReadMode where
  | outside
  | quoted
  /-- After a closing quote, which may be the first of two. -/
  | closing
deriving DecidableEq, Repr

/-- The slots from a place on. -/
def slotsFrom (k : Marks) : ReadMode → List Char → List String
  | _, [] => []
  | mode, c :: rest =>
    if mode = .quoted then slotsFrom k (if c = k.closeQuote then .closing else .quoted) rest
    else if mode = .closing ∧ c = k.closeQuote then slotsFrom k .quoted rest
    else if c = k.openQuote then slotsFrom k .quoted rest
    else if c = k.slot then
      -- the run after the mark holds neither marks nor quotes, so it may be read again
      String.ofList (c :: rest.takeWhile isNameRest) :: slotsFrom k .outside rest
    else slotsFrom k .outside rest

/-- The slots in a text, from left to right. -/
def slotsIn (k : Marks) (text : String) : List String :=
  slotsFrom k .outside text.toList

/-- The text holds no marks of slots, no quotes of names and no brackets. -/
def isUnmarked (text : String) : Bool :=
  text.toList.all fun c => !(['?', '$', '@', '"', '[', ']'].contains c)

variable {d : Dialect} {k : Marks} {a b : String} {ss ss' : List String}

theorem isUnmarked_append : isUnmarked (a ++ b) = (isUnmarked a && isUnmarked b) := by
  rw [isUnmarked, String.toList_append, List.all_append]
  rfl

theorem isUnmarked_of_isSpelled (h : IsSpelled a) : isUnmarked a = true := by
  refine List.all_eq_true.mpr fun c hc => ?_
  have hname := h c hc
  -- none of the characters continues a name
  simp only [Bool.not_eq_true', List.contains_eq_mem, decide_eq_false_iff_not, List.mem_cons,
    List.not_mem_nil, or_false, not_or]
  refine ⟨?_, ?_, ?_, ?_, ?_, ?_⟩ <;> rintro rfl <;> revert hname <;> decide

theorem isUnmarked_toString (n : Nat) : isUnmarked (toString n) = true :=
  isUnmarked_of_isSpelled (isSpelled_toString n)

/-- An unmarked text is passed over. -/
theorem slotsFrom_unmarked (hd : IsScannable d k) (h : isUnmarked a = true) (rest : List Char) :
    slotsFrom k .outside (a.toList ++ rest) = slotsFrom k .outside rest := by
  rw [isUnmarked] at h
  generalize a.toList = cs at h ⊢
  induction cs with
  | nil => rfl
  | cons c cs ih =>
    rw [List.all_cons, Bool.and_eq_true] at h
    obtain ⟨hc, hcs⟩ := h
    simp only [Bool.not_eq_true', List.contains_eq_mem, decide_eq_false_iff_not, List.mem_cons,
      List.not_mem_nil, or_false, not_or] at hc
    obtain ⟨hquestion, hdollar, hat, hquote, hopening, hclosing⟩ := hc
    have hopen : c ≠ k.openQuote := by
      rcases hd.openQuote with h | h <;> rw [h] <;> assumption
    have hmark : c ≠ k.slot := by
      rcases hd.slot with h | h | h <;> rw [h] <;> assumption
    rw [List.cons_append, slotsFrom, if_neg (by decide), if_neg (by simp), if_neg hopen,
      if_neg hmark, ih hcs]

/-! ### Fragments -/

/-- The fragment shows the slots, whatever follows it. -/
def Passes (k : Marks) (text : String) (ss : List String) : Prop :=
  ∀ rest, slotsFrom k .outside (text.toList ++ rest) = ss ++ slotsFrom k .outside rest

/-- The fragment shows the slots, if what follows it ends a name. -/
def Shows (k : Marks) (text : String) (ss : List String) : Prop :=
  ∀ rest, Ends rest →
    slotsFrom k .outside (text.toList ++ rest) = ss ++ slotsFrom k .outside rest

theorem passes_of_isUnmarked (hd : IsScannable d k) (h : isUnmarked a = true) : Passes k a [] :=
  slotsFrom_unmarked hd h

theorem Passes.shows (h : Passes k a ss) : Shows k a ss :=
  fun rest _ => h rest

theorem Shows.slotsIn (h : Shows k a ss) : slotsIn k a = ss := by
  have hall := h [] ends_nil
  rwa [List.append_nil, slotsFrom, List.append_nil] at hall

theorem Passes.append_shows (ha : Passes k a ss) (hb : Shows k b ss') :
    Shows k (a ++ b) (ss ++ ss') :=
  fun rest hends => by
    rw [String.toList_append, List.append_assoc, ha, hb rest hends, List.append_assoc]

/-- A fragment goes on with a blank, a comma or a parenthesis, after which anything may follow. -/
theorem Shows.append_passes (ha : Shows k a ss) (hb : Passes k b ss') (hends : Ends b.toList)
    (hne : b ≠ "") : Passes k (a ++ b) (ss ++ ss') := by
  intro rest
  have hrest : Ends (b.toList ++ rest) := by
    cases hlist : b.toList with
    | nil => exact absurd (String.toList_inj.mp hlist) hne
    | cons c cs => exact ends_cons (hends c cs hlist) _
  rw [String.toList_append, List.append_assoc, ha _ hrest, hb, List.append_assoc]

/-! ### Joints -/

/-- An unmarked text that may stand after a name. -/
def isJoint (text : String) : Bool :=
  isUnmarked text && match text.toList with
    | [] => false
    | c :: _ => c == ' ' || c == ',' || c == ')'

theorem ends_of_isJoint (h : isJoint a = true) : Ends a.toList ∧ a ≠ "" := by
  rw [isJoint, Bool.and_eq_true] at h
  obtain ⟨-, h⟩ := h
  cases hlist : a.toList with
  | nil => simp [hlist] at h
  | cons c rest =>
    rw [hlist] at h
    refine ⟨ends_cons (by simpa [or_assoc] using h) rest, ?_⟩
    rintro rfl
    cases hlist

theorem isUnmarked_of_isJoint (h : isJoint a = true) : isUnmarked a = true := by
  rw [isJoint, Bool.and_eq_true] at h
  exact h.1

theorem isJoint_append (ha : isJoint a = true) (hb : isUnmarked b = true) :
    isJoint (a ++ b) = true := by
  have hunmarked : isUnmarked (a ++ b) = true := by
    rw [isUnmarked_append, isUnmarked_of_isJoint ha, hb, Bool.true_and]
  rw [isJoint, Bool.and_eq_true] at ha ⊢
  refine ⟨hunmarked, ?_⟩
  obtain ⟨-, ha⟩ := ha
  cases hlist : a.toList with
  | nil => simp [hlist] at ha
  | cons c rest =>
    rw [hlist] at ha
    rw [String.toList_append, hlist]
    exact ha

theorem Shows.joint (ha : Shows k a ss) (hd : IsScannable d k) (hb : isJoint b = true) :
    Passes k (a ++ b) ss := by
  obtain ⟨hends, hne⟩ := ends_of_isJoint hb
  have hall := ha.append_passes (passes_of_isUnmarked hd (isUnmarked_of_isJoint hb)) hends hne
  rwa [List.append_nil] at hall

/-- A fragment may end with a text that stands after a name, or with nothing. -/
theorem Shows.close (ha : Shows k a ss) (hd : IsScannable d k) (hb : b = "" ∨ isJoint b = true) :
    Shows k (a ++ b) ss := by
  obtain rfl | hb := hb
  · rwa [String.append_empty]
  · exact (ha.joint hd hb).shows

/-! ### Names and slots -/

/-- A quoted name shows no slots, whatever it holds. -/
theorem shows_quote (hd : IsScannable d k) (name : String) : Shows k (d.quote name) [] := by
  intro rest hends
  have hname : ∀ cs : List Char, slotsFrom k .quoted
      (doubleQuotes k.closeQuote cs ++ k.closeQuote :: rest) = slotsFrom k .closing rest := by
    intro cs
    induction cs with
    | nil => simp [doubleQuotes, slotsFrom]
    | cons c cs ih =>
      by_cases hc : c = k.closeQuote
      · -- the first of two quotes could be the last one, and the second one says that it is not
        simp [doubleQuotes, hc, slotsFrom, ih]
      · simp [doubleQuotes, hc, slotsFrom, ih]
  have hclosing : slotsFrom k .closing rest = slotsFrom k .outside rest := by
    cases rest with
    | nil => rfl
    | cons c tail =>
      have hc : c ≠ k.closeQuote := by
        rcases hends c tail rfl with rfl | rfl | rfl <;> rcases hd.closeQuote with h | h <;>
          rw [h] <;> decide
      rw [slotsFrom, slotsFrom]
      simp [hc]
  rw [hd.quotes.toList_append, slotsFrom, if_neg (by decide), if_neg (by simp), if_pos rfl, hname,
    hclosing, List.nil_append]

/-- A slot shows itself. -/
theorem shows_slotText (hd : IsScannable d k) {name : String} (hname : IsSpelled name)
    (ordinal : Nat) : Shows k (d.slotText name ordinal) [d.slotText name ordinal] := by
  obtain ⟨run, hrun, htext⟩ := hd.slots name ordinal hname
  intro rest hends
  obtain ⟨htake, -⟩ := takeWhile_run (f := isNameRest) hrun (by decide) hends
  have hslot : d.slotText name ordinal = String.ofList (k.slot :: run.toList) := by
    rw [← htext, String.ofList_toList]
  rw [htext, List.cons_append, slotsFrom, if_neg (by decide), if_neg (by simp),
    if_neg hd.slot_ne_openQuote, if_pos rfl, htake,
    slotsFrom_unmarked hd (isUnmarked_of_isSpelled hrun), ← hslot]
  rfl

end Slots

end EntitySql
