import EntitySql.Proofs.Condition.Grammar
import EntitySql.Proofs.Marks
import Mathlib.Data.List.TakeWhile

/-!
# Scanning conditions

The text of a condition is cut into tokens from left to right, each as long as possible. A quoted
name is read up to the first closing quote that is not doubled, and a slot is its mark with all
letters, digits and underscores after it. `Tokens k text tokens` is the relation, `tokens_unique`
says that a text is cut in one way.

`Scans k text tokens` is what a fragment of a text contributes, whatever follows it, as long as
this is the end, a blank, a comma or a closing parenthesis. Names, slots, words and signs scan as
one token each, and fragments are put together with blanks, commas and parentheses.
-/

namespace EntitySql

namespace Condition

/-! ### Tokens of a text -/

/-- The token of a word. -/
def wordToken? : String → Option Token
  | "AND" => some (.operator .and)
  | "OR" => some (.operator .or)
  | "NOT" => some (.word .not)
  | "IS" => some (.word .is)
  | "NULL" => some (.word .null)
  | "IN" => some (.word .among)
  | "LIKE" => some (.word .like)
  | "ESCAPE" => some (.word .escape)
  | _ => none

/-- The operator that is written with signs, and what follows it. -/
def scanSign : List Char → Option (Token × List Char)
  | '<' :: '>' :: rest => some (.operator .ne, rest)
  | '<' :: '=' :: rest => some (.operator .le, rest)
  | '<' :: rest => some (.operator .lt, rest)
  | '>' :: '=' :: rest => some (.operator .ge, rest)
  | '>' :: rest => some (.operator .gt, rest)
  | '=' :: rest => some (.operator .eq, rest)
  | '+' :: rest => some (.operator .add, rest)
  | '-' :: rest => some (.operator .sub, rest)
  | '*' :: rest => some (.operator .mul, rest)
  | '/' :: rest => some (.operator .div, rest)
  | _ => none

/-- The token at the start of a text, and what follows it. No token starts with a blank. -/
def next? (k : Marks) : List Char → Option (Token × List Char)
  | [] => none
  | c :: rest =>
    if c = ' ' then none
    else if c = '(' then some (.opening, rest)
    else if c = ')' then some (.closing, rest)
    else if c = ',' then some (.comma, rest)
    else if c = '\'' then
      (scanQuoted '\'' rest).map fun scanned => (.literal (String.ofList scanned.1), scanned.2)
    else if c = k.openQuote then
      (scanQuoted k.closeQuote rest).map fun scanned =>
        (.column (String.ofList scanned.1), scanned.2)
    else if c = k.slot then
      -- what follows the mark, a name or a number, is spelled in these characters only
      some (.slot (String.ofList (c :: rest.takeWhile isNameRest)), rest.dropWhile isNameRest)
    else if c.isAlpha then
      (wordToken? (String.ofList ((c :: rest).takeWhile Char.isAlpha))).map fun token =>
        (token, (c :: rest).dropWhile Char.isAlpha)
    else if c.isDigit then
      some (.numeral (String.ofList ((c :: rest).takeWhile Char.isDigit)),
        (c :: rest).dropWhile Char.isDigit)
    else scanSign (c :: rest)

/-- The tokens of a text. -/
inductive Tokens (k : Marks) : List Char → List Token → Prop where
  | nil : Tokens k [] []
  | blank {rest : List Char} {ts : List Token} : Tokens k rest ts → Tokens k (' ' :: rest) ts
  | token {text rest : List Char} {t : Token} {ts : List Token} :
    next? k text = some (t, rest) → Tokens k rest ts → Tokens k text (t :: ts)

/-- A text is cut into tokens in one way. -/
theorem tokens_unique {k : Marks} {text : List Char} {ts ts' : List Token}
    (h : Tokens k text ts) (h' : Tokens k text ts') : ts = ts' := by
  induction h generalizing ts' with
  | nil =>
    cases h' with
    | nil => rfl
    | token hnext => cases hnext
  | blank h ih =>
    cases h' with
    | blank h' => exact ih h'
    | token hnext => simp [next?] at hnext
  | token hnext h ih =>
    cases h' with
    | nil => cases hnext
    | blank h' => simp [next?] at hnext
    | token hnext' h' =>
      obtain ⟨rfl, rfl⟩ := Prod.mk.inj (Option.some.inj (hnext.symm.trans hnext'))
      rw [ih h']

/-- What the text of a condition says. -/
def IsReading (k : Marks) (text : String) (r : Reading) : Prop :=
  ∃ tokens, Tokens k text.toList tokens ∧ Reads 1 tokens r

theorem isReading_unique {k : Marks} {text : String} {r r' : Reading}
    (h : IsReading k text r) (h' : IsReading k text r') : r = r' := by
  obtain ⟨ts, hts, hr⟩ := h
  obtain ⟨ts', hts', hr'⟩ := h'
  obtain rfl := tokens_unique hts hts'
  exact hr.unique hr'

/-! ### Fragments -/

/-- A text that ends the token before it. -/
def Ends (text : List Char) : Prop :=
  ∀ c rest, text = c :: rest → c = ' ' ∨ c = ',' ∨ c = ')'

/-- The fragment contributes the tokens, whatever follows it. -/
def Scans (k : Marks) (text : String) (tokens : List Token) : Prop :=
  ∀ rest ts, Ends rest → Tokens k rest ts → Tokens k (text.toList ++ rest) (tokens ++ ts)

variable {d : Dialect} {k : Marks} {a b : String} {ts us : List Token}

theorem ends_nil : Ends [] :=
  nofun

theorem ends_cons {c : Char} (h : c = ' ' ∨ c = ',' ∨ c = ')') (rest : List Char) :
    Ends (c :: rest) := by
  rintro _ _ ⟨⟩
  exact h

theorem Scans.tokens (h : Scans k a ts) : Tokens k a.toList ts := by
  simpa using h [] [] ends_nil .nil

theorem scans_of_next {t : Token}
    (h : ∀ rest, Ends rest → next? k (a.toList ++ rest) = some (t, rest)) : Scans k a [t] :=
  fun rest _ hends hrest => .token (h rest hends) hrest

/-- Fragments with a blank between them. -/
theorem Scans.blank (ha : Scans k a ts) (hb : Scans k b us) :
    Scans k (a ++ " " ++ b) (ts ++ us) := by
  intro rest vs hends hrest
  have hb' := (hb rest vs hends hrest).blank
  have ha' := ha _ _ (ends_cons (.inl rfl) _) hb'
  simpa using ha'

/-- Fragments with a comma and a blank between them. -/
theorem Scans.comma (ha : Scans k a ts) (hb : Scans k b us) :
    Scans k (a ++ ", " ++ b) (ts ++ .comma :: us) := by
  intro rest vs hends hrest
  have hb' := (hb rest vs hends hrest).blank
  have hcomma : Tokens k (',' :: ' ' :: (b.toList ++ rest)) (.comma :: (us ++ vs)) := .token rfl hb'
  have ha' := ha _ _ (ends_cons (.inr (.inl rfl)) _) hcomma
  simpa using ha'

/-- A fragment in parentheses. -/
theorem Scans.paren (ha : Scans k a ts) :
    Scans k ("(" ++ a ++ ")") (.opening :: (ts ++ [.closing])) := by
  intro rest vs hends hrest
  have hclose : Tokens k (')' :: rest) (.closing :: vs) := .token rfl hrest
  have ha' := ha _ _ (ends_cons (.inr (.inr rfl)) _) hclose
  have hopen : Tokens k ('(' :: (a.toList ++ ')' :: rest)) (.opening :: (ts ++ .closing :: vs)) :=
    .token rfl ha'
  simpa using hopen

/-! ### Single tokens -/

/-- The dialect keeps to the marks and tells slots apart, and the marks are none of the other
characters that start a token. -/
structure IsScannable (d : Dialect) (k : Marks) : Prop where
  quotes : d.QuotesBy k
  slots : d.SlotsBy k
  slotsApart : d.TellsSlotsApart
  openQuote : k.openQuote = '[' ∨ k.openQuote = '"'
  closeQuote : k.closeQuote = ']' ∨ k.closeQuote = '"'
  slot : k.slot = '@' ∨ k.slot = '?' ∨ k.slot = '$'

theorem isScannable_builtin (b : BuiltinDialect) : IsScannable b.dialect b.marks where
  quotes := b.quotesBy
  slots := b.slotsBy
  slotsApart := b.tellsSlotsApart
  openQuote := by cases b <;> decide
  closeQuote := by cases b <;> decide
  slot := by cases b <;> decide

/-- A run of characters of one kind ends where the fragment ends. -/
theorem takeWhile_run {f : Char → Bool} {run rest : List Char} (hrun : ∀ c ∈ run, f c = true)
    (hf : f ' ' = false ∧ f ',' = false ∧ f ')' = false) (hends : Ends rest) :
    (run ++ rest).takeWhile f = run ∧ (run ++ rest).dropWhile f = rest := by
  have hstop : rest.takeWhile f = [] ∧ rest.dropWhile f = rest := by
    cases rest with
    | nil => exact ⟨rfl, rfl⟩
    | cons c tail => rcases hends c tail rfl with rfl | rfl | rfl <;> simp [hf]
  rw [List.takeWhile_append_of_pos hrun, List.dropWhile_append_of_pos hrun, hstop.1, hstop.2,
    List.append_nil]
  exact ⟨rfl, rfl⟩

theorem scans_column (hd : IsScannable d k) (name : String) :
    Scans k (d.quote name) [.column name] := by
  refine scans_of_next fun rest hends => ?_
  have hclose : ∀ tail, rest ≠ k.closeQuote :: tail := by
    intro tail htail
    have hc := hends _ _ htail
    rcases hd.closeQuote with h | h <;> rw [h] at hc <;> revert hc <;> decide
  have hscan := scanQuoted_doubleQuotes name.toList hclose
  rw [hd.quotes.toList_append, next?, hscan]
  rcases hd.openQuote with h | h <;> simp [h]

/-- A slot is not taken for a name, which is looked for first. -/
theorem IsScannable.slot_ne_openQuote (hd : IsScannable d k) : k.slot ≠ k.openQuote := by
  rcases hd.slot with hm | hm | hm <;> rcases hd.openQuote with ho | ho <;> rw [hm, ho] <;> decide

theorem scans_slot (hd : IsScannable d k) {name : String} (hname : IsSpelled name)
    (ordinal : Nat) : Scans k (d.slotText name ordinal) [.slot (d.slotText name ordinal)] := by
  obtain ⟨run, hrun, htext⟩ := hd.slots name ordinal hname
  refine scans_of_next fun rest hends => ?_
  obtain ⟨htake, hdrop⟩ := takeWhile_run (f := isNameRest) hrun (by decide) hends
  have hslot : d.slotText name ordinal = String.ofList (k.slot :: run.toList) := by
    rw [← htext, String.ofList_toList]
  rw [htext, List.cons_append, next?, htake, hdrop, hslot,
    if_neg (c := k.slot = k.openQuote) hd.slot_ne_openQuote]
  rcases hd.slot with h | h | h <;> simp [h]

theorem scans_word (hd : IsScannable d k) {word : String} {t : Token}
    (hword : word.toList.all Char.isAlpha = true) (ht : wordToken? word = some t) :
    Scans k word [t] := by
  have hword : ∀ c ∈ word.toList, c.isAlpha = true := List.all_eq_true.mp hword
  refine scans_of_next fun rest hends => ?_
  obtain ⟨htake, hdrop⟩ := takeWhile_run (f := Char.isAlpha) hword (by decide) hends
  cases hlist : word.toList with
  | nil =>
    have hempty : word = "" := by rw [← String.toList_inj, hlist]; rfl
    rw [hempty] at ht
    cases ht
  | cons c cs =>
    have hc : c.isAlpha = true := hword c (by simp [hlist])
    -- a word starts with a letter, which starts none of the tokens that are looked for first
    have hne : ∀ x : Char, x.isAlpha = false → c ≠ x := by
      rintro x hx rfl
      rw [hc] at hx
      cases hx
    have hopen : c ≠ k.openQuote := by
      rcases hd.openQuote with h | h <;> exact h ▸ hne _ (by decide)
    have hmark : c ≠ k.slot := by
      rcases hd.slot with h | h | h <;> exact h ▸ hne _ (by decide)
    rw [hlist] at htake hdrop
    have hword' : String.ofList (c :: cs) = word := by rw [← hlist, String.ofList_toList]
    rw [List.cons_append] at htake hdrop ⊢
    rw [next?, htake, hdrop, hword', ht, if_neg (hne ' ' (by decide)), if_neg (hne '(' (by decide)),
      if_neg (hne ')' (by decide)), if_neg (hne ',' (by decide)), if_neg (hne '\'' (by decide)),
      if_neg hopen, if_neg hmark, if_pos hc]
    rfl

theorem scans_keyword (hd : IsScannable d k) (word : String) {w : Keyword}
    (hword : word.toList.all Char.isAlpha = true) (ht : wordToken? word = some (.word w)) :
    Scans k word [.word w] :=
  scans_word hd hword ht

theorem scans_operator (hd : IsScannable d k) (op : Operator) :
    Scans k op.text [.operator op] := by
  cases op with
  | and => exact scans_word hd rfl rfl
  | or => exact scans_word hd rfl rfl
  | _ =>
    refine scans_of_next fun rest hends => ?_
    -- a sign could be the first of two, so the character after it matters
    have hrest : rest = [] ∨ ∃ c tail, rest = c :: tail ∧ (c = ' ' ∨ c = ',' ∨ c = ')') := by
      cases rest with
      | nil => exact .inl rfl
      | cons c tail => exact .inr ⟨c, tail, rfl, hends c tail rfl⟩
    rcases hd.openQuote with ho | ho <;> rcases hd.slot with hm | hm | hm <;>
      rcases hrest with rfl | ⟨c, tail, rfl, rfl | rfl | rfl⟩ <;>
      simp [next?, scanSign, Operator.text, ho, hm]

theorem scans_digit (hd : IsScannable d k) (b : Bool) :
    Scans k (if b then "1" else "0") [digit b] := by
  refine scans_of_next fun rest hends => ?_
  have hrun : ∀ c : Char, c.isDigit = true →
      (c :: rest).takeWhile Char.isDigit = [c] ∧ (c :: rest).dropWhile Char.isDigit = rest :=
    fun c hc => by
      have hrun : ∀ x ∈ [c], x.isDigit = true := by simpa using hc
      exact takeWhile_run hrun (by decide) hends
  cases b with
  | true =>
    obtain ⟨htake, hdrop⟩ := hrun '1' rfl
    rcases hd.openQuote with ho | ho <;> rcases hd.slot with hm | hm | hm <;>
      simp [next?, ho, hm, htake, hdrop, digit]
  | false =>
    obtain ⟨htake, hdrop⟩ := hrun '0' rfl
    rcases hd.openQuote with ho | ho <;> rcases hd.slot with hm | hm | hm <;>
      simp [next?, ho, hm, htake, hdrop, digit]

/-- The text that holds the escape character. -/
theorem scans_escapeCharacter (k : Marks) : Scans k "'\\'" [.literal "\\"] := by
  refine scans_of_next fun rest hends => ?_
  have hquote : ∀ tail, rest ≠ '\'' :: tail := by
    intro tail htail
    rcases hends _ _ htail with h | h | h <;> cases h
  have hscan : scanQuoted '\'' ('\\' :: '\'' :: rest) = some (['\\'], rest) :=
    scanQuoted_doubleQuotes ['\\'] hquote
  simp [next?, hscan]

end Condition

end EntitySql
