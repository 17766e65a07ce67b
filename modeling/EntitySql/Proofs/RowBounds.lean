import EntitySql.Proofs.BindTable
import EntitySql.Select

/-!
# Row bounds

The bounds of a select are written in two styles, in different words and places: before the select
list, or after the ordering, with an offset or without. `RowBounds.ofClauses?` reads them back from
the words of both places, in the grammar of the style. The main statement,
`SelectBody.isBounded_toSql`, says that the text of a select is that of the select without bounds,
with clauses put in that are read as its bounds.
-/

namespace EntitySql

/-! ### Words of a clause -/

/-- A word of a clause. -/
inductive ClauseWord where
  | name (text : String)
  | number (n : Nat)
deriving DecidableEq, Repr

namespace ClauseWord

/-- A numeral is a number, and any other word is a name. -/
def ofChars (word : List Char) : ClauseWord :=
  if word.all Char.isDigit then .number (Nat.ofDigitChars 10 word 0)
  else .name (String.ofList word)

/-- The word as it is written. -/
def text : ClauseWord → String
  | .name text => text
  | .number n => toString n

/-- The word is not taken for another one. -/
def isLegible : ClauseWord → Bool
  | .name text => !text.toList.all Char.isDigit && !text.toList.contains ' '
  | .number _ => true

/-- A legible word is read back from its text. -/
theorem ofChars_text {w : ClauseWord} (h : w.isLegible = true) : ofChars w.text.toList = w := by
  cases w with
  | name text =>
    have hdigits : ¬ text.toList.all Char.isDigit = true := by
      rw [isLegible, Bool.and_eq_true, Bool.not_eq_true'] at h
      exact Bool.eq_false_iff.mp h.1
    rw [ClauseWord.text, ofChars, if_neg hdigits, String.ofList_toList]
  | number n =>
    have hall : (toString n).toList.all Char.isDigit = true :=
      List.all_eq_true.mpr fun _ => isDigit_of_mem_toString
    rw [ClauseWord.text, ofChars, if_pos hall, Nat.toString_eq_repr, Nat.toList_repr,
      Nat.ofDigitChars_ten_toDigits]

/-- A legible word has a character, and no blank. -/
theorem chars_of_isLegible {w : ClauseWord} (h : w.isLegible = true) :
    w.text.toList ≠ [] ∧ ' ' ∉ w.text.toList := by
  cases w with
  | name text =>
    rw [isLegible, Bool.and_eq_true, Bool.not_eq_true', Bool.not_eq_true'] at h
    refine ⟨fun hempty => ?_, by simpa [ClauseWord.text] using h.2⟩
    have hnil : text.toList = [] := hempty
    rw [hnil] at h
    cases h.1
  | number n =>
    refine ⟨?_, fun hblank => ?_⟩
    · rw [ClauseWord.text, Nat.toString_eq_repr, Nat.toList_repr]
      exact Nat.toDigits_ne_nil
    · have hdigit := isDigit_of_mem_toString hblank
      revert hdigit
      decide

end ClauseWord

/-- The words of a text that goes on after the start of a word. Blanks separate them. -/
def clauseWords (start : List Char) : List Char → List ClauseWord
  | [] => if start = [] then [] else [.ofChars start]
  | c :: rest =>
    if c = ' ' then (if start = [] then [] else [.ofChars start]) ++ clauseWords [] rest
    else clauseWords (start ++ [c]) rest

/-- The rest of a word is added to its start. -/
theorem clauseWords_append {word : List Char} (hword : ' ' ∉ word) (start rest : List Char) :
    clauseWords start (word ++ rest) = clauseWords (start ++ word) rest := by
  induction word generalizing start with
  | nil => rw [List.nil_append, List.append_nil]
  | cons c cs ih =>
    obtain ⟨hc, hcs⟩ := not_or.mp (List.mem_cons.not.mp hword)
    rw [List.cons_append, clauseWords, if_neg (Ne.symm hc), ih hcs, List.append_assoc,
      List.singleton_append]

/-- Legible words are read back from their texts, with a blank before each of them. -/
theorem clauseWords_flatMap {ws : List ClauseWord} (hws : ws.all (·.isLegible) = true)
    (start : List Char) :
    clauseWords start (ws.flatMap fun w => ' ' :: w.text.toList)
      = (if start = [] then [] else [.ofChars start]) ++ ws := by
  induction ws generalizing start with
  | nil => rw [List.flatMap_nil, clauseWords, List.append_nil]
  | cons w ws ih =>
    obtain ⟨hw, hrest⟩ := Bool.and_eq_true_iff.mp hws
    obtain ⟨hne, hblank⟩ := ClauseWord.chars_of_isLegible hw
    rw [List.flatMap_cons, List.cons_append, clauseWords, if_pos rfl, clauseWords_append hblank,
      List.nil_append, ih hrest, if_neg hne, ClauseWord.ofChars_text hw, List.singleton_append]

/-- The words of a text that is written in such words. -/
theorem clauseWords_of_toList {text : String} (ws : List ClauseWord)
    (htext : text.toList = ws.flatMap fun w => ' ' :: w.text.toList)
    (hws : ws.all (·.isLegible) = true) : clauseWords [] text.toList = ws := by
  rw [htext, clauseWords_flatMap hws, if_pos rfl, List.nil_append]

/-- A blank at the end separates nothing. -/
theorem clauseWords_concat_blank (start text : List Char) :
    clauseWords start (text ++ [' ']) = clauseWords start text := by
  induction text generalizing start with
  | nil => simp [clauseWords]
  | cons c cs ih =>
    rw [List.cons_append, clauseWords, clauseWords, ih, ih]

/-! ### Row bounds -/

/-- How many rows are skipped, and how many of the rest are kept at most. -/
structure RowBounds where
  skipped : Nat := 0
  kept : Option Nat := none
deriving DecidableEq, Repr

namespace RowBounds

/-- What the words before the select list and after the ordering say, in the grammar of a style. -/
def ofWords? : BoundStyle → List ClauseWord → List ClauseWord → Option RowBounds
  | _, [], [] => some {}
  | .top, [.name "TOP", .number n], [] => some { kept := some n }
  | .top, [], [.name "OFFSET", .number m, .name "ROWS"] => some { skipped := m }
  | .top, [], [.name "OFFSET", .number m, .name "ROWS", .name "FETCH", .name "NEXT", .number n,
      .name "ROWS", .name "ONLY"] => some { skipped := m, kept := some n }
  | .atEnd, [], [.name "LIMIT", .number n] => some { kept := some n }
  | .atEnd, [], [.name "OFFSET", .number m] => some { skipped := m }
  | .atEnd, [], [.name "LIMIT", .number n, .name "OFFSET", .number m] =>
    some { skipped := m, kept := some n }
  | _, _, _ => none

/-- What the clauses in both places say. -/
def ofClauses? (style : BoundStyle) (before after : String) : Option RowBounds :=
  ofWords? style (clauseWords [] before.toList) (clauseWords [] after.toList)

/-- The numbers of the bounds fit a word. -/
def Fits (bounds : RowBounds) : Prop :=
  bounds.skipped < wordCount ∧ ∀ n ∈ bounds.kept, n < wordCount

/-- What the bounds leave of some rows. -/
def cut {α : Type} (bounds : RowBounds) (rows : List α) : List α :=
  match bounds.kept with
  | some n => (rows.drop bounds.skipped).take n
  | none => rows.drop bounds.skipped

end RowBounds

namespace SelectBody

variable (style : BoundStyle) (b : SelectBody)

/-- The row bounds of a body. -/
def bounds : RowBounds where
  skipped := b.offset.getD 0
  kept := b.limit

/-- The words before the select list. -/
def topWords : List ClauseWord :=
  match style, b.limit, b.offset with
  | .top, some n, none => [.name "TOP", .number n]
  | _, _, _ => []

/-- The words after the ordering. -/
def boundsWords : List ClauseWord :=
  match style, b.limit, b.offset with
  | .top, _, none => []
  | .top, none, some m => [.name "OFFSET", .number m, .name "ROWS"]
  | .top, some n, some m =>
    [.name "OFFSET", .number m, .name "ROWS", .name "FETCH", .name "NEXT", .number n,
      .name "ROWS", .name "ONLY"]
  | .atEnd, none, none => []
  | .atEnd, some n, none => [.name "LIMIT", .number n]
  | .atEnd, none, some m => [.name "OFFSET", .number m]
  | .atEnd, some n, some m => [.name "LIMIT", .number n, .name "OFFSET", .number m]

/-- The blank that separates a bound from the select list is not read. -/
theorem clauseWords_top (n : Nat) :
    clauseWords [] ("TOP " ++ toString n ++ " ").toList = [.name "TOP", .number n] := by
  have hblank : ("TOP " ++ toString n ++ " ").toList = ("TOP " ++ toString n).toList ++ [' '] := by
    simp
  have hwords : clauseWords [] (" TOP " ++ toString n).toList = _ :=
    clauseWords_of_toList [.name "TOP", .number n] (by simp [ClauseWord.text]) rfl
  have hfirst : (" TOP " ++ toString n).toList = ' ' :: ("TOP " ++ toString n).toList := by
    simp
  rw [hfirst] at hwords
  rw [hblank, clauseWords_concat_blank]
  exact hwords

theorem clauseWords_topText : clauseWords [] (b.topText style).toList = b.topWords style := by
  obtain ⟨distinct, columns, filter, order, limit, offset⟩ := b
  rcases style with _ | _ <;> rcases limit with _ | n <;> rcases offset with _ | m <;>
    first | rfl | exact clauseWords_top n

theorem isLegible_topWords : (b.topWords style).all (·.isLegible) = true := by
  obtain ⟨distinct, columns, filter, order, limit, offset⟩ := b
  rcases style with _ | _ <;> rcases limit with _ | n <;> rcases offset with _ | m <;> rfl

theorem isLegible_boundsWords : (b.boundsWords style).all (·.isLegible) = true := by
  obtain ⟨distinct, columns, filter, order, limit, offset⟩ := b
  rcases style with _ | _ <;> rcases limit with _ | n <;> rcases offset with _ | m <;> rfl

theorem toList_boundsText :
    (b.boundsText style).toList = (b.boundsWords style).flatMap fun w => ' ' :: w.text.toList := by
  obtain ⟨distinct, columns, filter, order, limit, offset⟩ := b
  rcases style with _ | _ <;> rcases limit with _ | n <;> rcases offset with _ | m <;>
    simp [boundsText, boundsWords, ClauseWord.text]

theorem clauseWords_boundsText :
    clauseWords [] (b.boundsText style).toList = b.boundsWords style :=
  clauseWords_of_toList _ (b.toList_boundsText style) (b.isLegible_boundsWords style)

/-- The words that are written say the bounds. -/
theorem ofWords?_written :
    RowBounds.ofWords? style (b.topWords style) (b.boundsWords style) = some b.bounds := by
  obtain ⟨distinct, columns, filter, order, limit, offset⟩ := b
  rcases style with _ | _ <;> rcases limit with _ | n <;> rcases offset with _ | m <;> rfl

/-- The bounds that are written are read back. -/
theorem ofClauses?_written :
    RowBounds.ofClauses? style (b.topText style) (b.boundsText style) = some b.bounds := by
  rw [RowBounds.ofClauses?, clauseWords_topText, clauseWords_boundsText, ofWords?_written]

end SelectBody

/-- The row bounds of a select, those of inner selects first. -/
def Select.bounds : Select → List RowBounds
  | .table _ body => [body.bounds]
  | .derived inner _ body => inner.bounds ++ [body.bounds]

/-- One text is another one with row bounds put in, after the words that it begins with and at its
end. -/
def IsBounded (style : BoundStyle) (whole page : String) (bounds : RowBounds) : Prop :=
  ∃ front rest before after, (front = "SELECT " ∨ front = "SELECT DISTINCT ") ∧
    whole = front ++ rest ∧ page = front ++ before ++ rest ++ after ∧
    RowBounds.ofClauses? style before after = some bounds

/-- The text of a select is that of the select without bounds, with its bounds put in. -/
theorem SelectBody.isBounded_toSql (b : SelectBody) (style : BoundStyle) (source : String) :
    IsBounded style (({ b with limit := none, offset := none } : SelectBody).toSql style source)
      (b.toSql style source) b.bounds := by
  refine ⟨"SELECT " ++ (if b.distinct then "DISTINCT " else ""),
    b.columnsText ++ " FROM " ++ source ++ b.filterText ++ b.orderText, b.topText style,
    b.boundsText style, ?_, ?_, ?_, b.ofClauses?_written style⟩
  · cases b.distinct
    · exact .inl rfl
    · exact .inr rfl
  · have htop : ({ b with limit := none, offset := none } : SelectBody).topText style = "" := by
      cases style <;> rfl
    have hbounds : ({ b with limit := none, offset := none } : SelectBody).boundsText style = "" := by
      cases style <;> rfl
    unfold toSql
    simp only [htop, hbounds, String.append_empty, String.append_assoc]
    rfl
  · unfold toSql
    simp only [String.append_assoc]

end EntitySql
