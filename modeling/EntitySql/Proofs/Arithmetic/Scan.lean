import EntitySql.Proofs.Condition.Scan

/-!
# Scanning arithmetic

The texts of operands are cut into the tokens of conditions, with one difference: a bare name or a
numeral is an operand too. It counts as a column of that name, so that a row gives the numerals
their values as well. Computed columns are written with bare names, and what is written around
them has quoted names and slots.

A token never depends on what follows a blank or a parenthesis, so the tokens of two fragments
are the tokens of both (`Tokens.append`).
-/

namespace EntitySql

namespace Arithmetic

open Condition

/-! ### Tokens of a text -/

/-- A character of a bare name, which may be qualified, or of a numeral. -/
def isBare (c : Char) : Bool :=
  isNameRest c || c == '.'

/-- The token that is a single sign. -/
def signToken? : Char → Option Token
  | '(' => some .opening
  | ')' => some .closing
  | '+' => some (.operator .add)
  | '-' => some (.operator .sub)
  | '*' => some (.operator .mul)
  | '/' => some (.operator .div)
  | _ => none

/-- The token at the start of a text, and what follows it. No token starts with a blank. -/
def next? (k : Marks) : List Char → Option (Token × List Char)
  | [] => none
  | c :: rest =>
    if c = ' ' then none
    else if c = k.openQuote then
      (scanQuoted k.closeQuote rest).map fun scanned =>
        (.column (String.ofList scanned.1), scanned.2)
    else if c = k.slot then
      some (.slot (String.ofList (c :: rest.takeWhile isNameRest)), rest.dropWhile isNameRest)
    else if isBare c then
      some (.column (String.ofList (c :: rest.takeWhile isBare)), rest.dropWhile isBare)
    else (signToken? c).map fun token => (token, rest)

/-- The tokens of a text. -/
inductive Tokens (k : Marks) : List Char → List Token → Prop where
  | nil : Tokens k [] []
  | blank {rest : List Char} {ts : List Token} : Tokens k rest ts → Tokens k (' ' :: rest) ts
  | token {text rest : List Char} {t : Token} {ts : List Token} :
    next? k text = some (t, rest) → Tokens k rest ts → Tokens k text (t :: ts)

variable {d : Dialect} {k : Marks} {a b : List Char} {ts us : List Token}

/-- A text is cut into tokens in one way. -/
theorem tokens_unique (h : Tokens k a ts) (h' : Tokens k a us) : ts = us := by
  induction h generalizing us with
  | nil =>
    cases h' with
    | nil => rfl
    | token hnext => cases hnext
  | blank h ih =>
    cases h' with
    | blank h' => exact ih h'
    | token hnext => simp [next?] at hnext
  | token hnext h ih =>
    cases h' with
    | nil => cases hnext
    | blank h' => simp [next?] at hnext
    | token hnext' h' =>
      obtain ⟨rfl, rfl⟩ := Prod.mk.inj (Option.some.inj (hnext.symm.trans hnext'))
      rw [ih h']

/-- What the text of an operand says. -/
def IsReading (k : Marks) (text : String) (r : Reading) : Prop :=
  ∃ tokens, Tokens k text.toList tokens ∧ Reads 5 tokens r

theorem isReading_unique {text : String} {r r' : Reading} (h : IsReading k text r)
    (h' : IsReading k text r') : r = r' := by
  obtain ⟨ts, hts, hr⟩ := h
  obtain ⟨ts', hts', hr'⟩ := h'
  obtain rfl := tokens_unique hts hts'
  exact hr.unique hr'

/-! ### Fragments -/

theorem takeWhile_append_ends {f : Char → Bool} (hf : f ' ' = false ∧ f ',' = false ∧ f ')' = false)
    (hends : Ends b) (a : List Char) :
    (a ++ b).takeWhile f = a.takeWhile f ∧ (a ++ b).dropWhile f = a.dropWhile f ++ b := by
  induction a with
  | nil =>
    have hrun : ∀ c ∈ ([] : List Char), f c = true := nofun
    exact takeWhile_run hrun hf hends
  | cons c a ih =>
    cases hc : f c with
    | true => simpa [hc] using ih
    | false => simp [hc]

theorem scanQuoted_append {q : Char} (hb : ∀ tail, b ≠ q :: tail) {name rest : List Char}
    (h : scanQuoted q a = some (name, rest)) : scanQuoted q (a ++ b) = some (name, rest ++ b) := by
  fun_induction scanQuoted q a generalizing name rest with
  | case1 => cases h
  | case2 =>
    obtain ⟨rfl, rfl⟩ := Prod.mk.inj (Option.some.inj h)
    -- the quote ends the first text, and the second does not double it
    cases b with
    | nil => simp [scanQuoted]
    | cons e tail =>
      have he : e ≠ q := fun heq => hb tail (by rw [heq])
      simp [scanQuoted, he]
  | case3 tail ih =>
    obtain ⟨⟨inner, after⟩, hscan, heq⟩ := Option.map_eq_some_iff.mp h
    obtain ⟨rfl, rfl⟩ := Prod.mk.inj heq
    simp [scanQuoted, ih hscan]
  | case4 e tail he =>
    obtain ⟨rfl, rfl⟩ := Prod.mk.inj (Option.some.inj h)
    simp [scanQuoted, he]
  | case5 c tail hc ih =>
    obtain ⟨⟨inner, after⟩, hscan, heq⟩ := Option.map_eq_some_iff.mp h
    obtain ⟨rfl, rfl⟩ := Prod.mk.inj heq
    rw [List.cons_append, scanQuoted.eq_def]
    simp [hc, ih hscan]

/-- The first token of a fragment does not depend on what follows the fragment. -/
theorem next?_append (hd : IsScannable d k) (hends : Ends b) {t : Token} {rest : List Char}
    (h : next? k a = some (t, rest)) : next? k (a ++ b) = some (t, rest ++ b) := by
  have hclose : ∀ tail, b ≠ k.closeQuote :: tail := by
    intro tail htail
    have hc := hends _ _ htail
    rcases hd.closeQuote with h | h <;> rw [h] at hc <;> revert hc <;> decide
  cases a with
  | nil => cases h
  | cons c a =>
    rw [next?] at h
    rw [List.cons_append, next?]
    obtain ⟨htake, hdrop⟩ := takeWhile_append_ends (f := isNameRest) (by decide) hends a
    obtain ⟨hbare, hafter⟩ := takeWhile_append_ends (f := isBare) (by decide) hends a
    split_ifs at h ⊢ with hblank hopen hmark hc
    · obtain ⟨⟨name, rem⟩, hscan, heq⟩ := Option.map_eq_some_iff.mp h
      obtain ⟨rfl, rfl⟩ := Prod.mk.inj heq
      rw [scanQuoted_append hclose hscan]
      rfl
    · obtain ⟨rfl, rfl⟩ := Prod.mk.inj (Option.some.inj h)
      rw [htake, hdrop]
    · obtain ⟨rfl, rfl⟩ := Prod.mk.inj (Option.some.inj h)
      rw [hbare, hafter]
    · obtain ⟨token, hsign, heq⟩ := Option.map_eq_some_iff.mp h
      obtain ⟨rfl, rfl⟩ := Prod.mk.inj heq
      rw [hsign]
      rfl

/-- The tokens of two fragments, of which the second ends the last token of the first. -/
theorem Tokens.append (hd : IsScannable d k) (ha : Tokens k a ts) (hends : Ends b)
    (hb : Tokens k b us) : Tokens k (a ++ b) (ts ++ us) := by
  induction ha with
  | nil => exact hb
  | blank h ih => exact .blank ih
  | token hnext h ih => exact .token (next?_append hd hends hnext) ih

/-! ### Operands -/

theorem tokens_quote (hd : IsScannable d k) (name : String) :
    Tokens k (d.quote name).toList [.column name] := by
  have hscan : scanQuoted k.closeQuote (doubleQuotes k.closeQuote name.toList ++ [k.closeQuote])
      = some (name.toList, []) := scanQuoted_doubleQuotes name.toList nofun
  have htext : (d.quote name).toList
      = k.openQuote :: (doubleQuotes k.closeQuote name.toList ++ [k.closeQuote]) := by
    simpa using hd.quotes.toList_append name []
  have hblank : k.openQuote ≠ ' ' := by rcases hd.openQuote with h | h <;> rw [h] <;> decide
  have hnext : next? k (d.quote name).toList = some (.column name, []) := by
    rw [htext, next?, if_neg hblank, if_pos rfl, hscan, Option.map_some, String.ofList_toList]
  exact .token hnext .nil

theorem tokens_slot (hd : IsScannable d k) {name : String} (hname : IsSpelled name)
    (ordinal : Nat) :
    Tokens k (d.slotText name ordinal).toList [.slot (d.slotText name ordinal)] := by
  obtain ⟨run, hrun, htext⟩ := hd.slots name ordinal hname
  obtain ⟨htake, hdrop⟩ := takeWhile_run (f := isNameRest) hrun (by decide) ends_nil
  have hslot : d.slotText name ordinal = String.ofList (k.slot :: run.toList) := by
    rw [← htext, String.ofList_toList]
  rw [List.append_nil] at htake hdrop
  have hblank : k.slot ≠ ' ' := by rcases hd.slot with h | h | h <;> rw [h] <;> decide
  have hnext : next? k (d.slotText name ordinal).toList
      = some (.slot (d.slotText name ordinal), []) := by
    rw [htext, next?, if_neg hblank, if_neg hd.slot_ne_openQuote, if_pos rfl, htake, hdrop, hslot]
  exact .token hnext .nil

/-- None of the signs opens a quoted name, marks a slot or belongs to a bare name. -/
theorem next?_sign (hd : IsScannable d k) {c : Char} {t : Token} (h : signToken? c = some t)
    (rest : List Char) : next? k (c :: rest) = some (t, rest) := by
  have hc : c = '(' ∨ c = ')' ∨ c = '+' ∨ c = '-' ∨ c = '*' ∨ c = '/' := by
    unfold signToken? at h
    split at h <;> first | decide | cases h
  have hne : c ≠ ' ' ∧ c ≠ k.openQuote ∧ c ≠ k.slot ∧ isBare c = false := by
    rcases hd.openQuote with ho | ho <;> rcases hd.slot with hm | hm | hm <;> rw [ho, hm] <;>
      obtain rfl | rfl | rfl | rfl | rfl | rfl := hc <;> decide
  rw [next?, if_neg hne.1, if_neg hne.2.1, if_neg hne.2.2.1, hne.2.2.2, h]
  rfl

theorem tokens_operator (hd : IsScannable d k) {op : Operator} (hop : op.isArithmetic = true) :
    Tokens k op.text.toList [.operator op] := by
  cases op with
  | add => exact .token (next?_sign hd rfl []) .nil
  | sub => exact .token (next?_sign hd rfl []) .nil
  | mul => exact .token (next?_sign hd rfl []) .nil
  | div => exact .token (next?_sign hd rfl []) .nil
  | _ => cases hop

/-- Two operands in parentheses, with an operator between them. -/
theorem Tokens.operation (hd : IsScannable d k) {op : Operator} (hop : op.isArithmetic = true)
    (ha : Tokens k a ts) (hb : Tokens k b us) :
    Tokens k ('(' :: (a ++ ' ' :: (op.text.toList ++ ' ' :: (b ++ [')']))))
      (.opening :: (ts ++ .operator op :: us ++ [.closing])) := by
  have hclose : Tokens k [')'] [.closing] := .token (next?_sign hd rfl []) .nil
  have hright := hb.append hd (ends_cons (.inr (.inr rfl)) []) hclose
  have hmiddle := (tokens_operator hd hop).append hd (ends_cons (.inl rfl) _) hright.blank
  have hall := ha.append hd (ends_cons (.inl rfl) _) hmiddle.blank
  have hopen := Tokens.token (next?_sign hd (c := '(') rfl _) hall
  simpa using hopen

end Arithmetic

end EntitySql
