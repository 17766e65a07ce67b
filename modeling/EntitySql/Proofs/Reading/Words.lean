import EntitySql.Proofs.Slots.Scan

/-!
# Words of a statement

A statement is made of words, with a blank before each of them, and of commas. A blank or a comma
inside quotes or parentheses is a part of a word: a quoted name is one word whatever it holds, and
so is a derived table in its parentheses.

`HasWords k text ws` says that a text is made of these words. Such texts are put together by
appending them, and a text is made of words in one way (`HasWords.unique`), because a reader who is
at the end of a word can tell: neither a blank nor a comma goes on with it (`WordPlace.step?_ends`).
-/

namespace EntitySql

open Condition Slots

/-- The quotes of names are none of the characters with which words are put together. -/
def Marks.QuotesWords (k : Marks) : Prop :=
  (k.openQuote = '[' ∨ k.openQuote = '"') ∧ (k.closeQuote = ']' ∨ k.closeQuote = '"')

theorem Condition.IsScannable.quotesWords {d : Dialect} {k : Marks} (hd : IsScannable d k) :
    k.QuotesWords :=
  ⟨hd.openQuote, hd.closeQuote⟩

/-! ### Places in a word -/

/-- Where a reader of a word is: inside or outside quotes, in a number of parentheses. -/
structure WordPlace where
  mode : ReadMode
  depth : Nat
deriving DecidableEq

namespace WordPlace

/-- The place where words start. -/
def start : WordPlace := ⟨.outside, 0⟩

/-- A word may end here. -/
def CanEnd (p : WordPlace) : Prop :=
  p.mode ≠ .quoted ∧ p.depth = 0

instance : DecidablePred CanEnd :=
  fun p => inferInstanceAs (Decidable (p.mode ≠ .quoted ∧ p.depth = 0))

theorem canEnd_start : start.CanEnd :=
  ⟨by decide, rfl⟩

/-- The place after one more character of a word. Outside quotes and parentheses a word has no
blanks, no commas and no closing parentheses. -/
def step? (k : Marks) (p : WordPlace) (c : Char) : Option WordPlace :=
  if p.mode = .quoted then some ⟨if c = k.closeQuote then .closing else .quoted, p.depth⟩
  else if p.mode = .closing ∧ c = k.closeQuote then some ⟨.quoted, p.depth⟩
  else if c = k.openQuote then some ⟨.quoted, p.depth⟩
  else if c = '(' then some ⟨.outside, p.depth + 1⟩
  else if p.depth = 0 ∧ (c = ' ' ∨ c = ',' ∨ c = ')') then none
  else some ⟨.outside, if c = ')' then p.depth - 1 else p.depth⟩

/-- The place after the characters, if all of them belong to one word. -/
def track? (k : Marks) (p : WordPlace) (text : List Char) : Option WordPlace :=
  text.foldlM (step? k) p

/-- The same place in one more pair of parentheses. -/
def inParens (p : WordPlace) : WordPlace :=
  ⟨p.mode, p.depth + 1⟩

variable {k : Marks} {p q r : WordPlace} {c : Char} {a b : List Char}

theorem track?_cons : track? k p (c :: a) = (p.step? k c).bind fun q => track? k q a := rfl

theorem track?_append : track? k p (a ++ b) = (track? k p a).bind fun q => track? k q b :=
  List.foldlM_append

theorem track?_append_of (ha : track? k p a = some q) (hb : track? k q b = some r) :
    track? k p (a ++ b) = some r := by
  rw [track?_append, ha, Option.bind_some, hb]

/-- What is a part of a word outside parentheses is one inside. -/
theorem step?_inParens (h : p.step? k c = some q) : p.inParens.step? k c = some q.inParens := by
  have hdepth : ¬ p.depth + 1 = 0 := Nat.succ_ne_zero _
  simp only [step?, inParens, hdepth, false_and, if_false] at h ⊢
  split_ifs at h ⊢ <;> cases h <;> try rfl
  -- the closing parenthesis of an inner pair
  next hclosing hend =>
    have hpos : p.depth ≠ 0 := fun hzero => hend ⟨hzero, .inr (.inr hclosing)⟩
    rw [Nat.add_sub_cancel, Nat.sub_add_cancel (Nat.pos_of_ne_zero hpos)]

theorem track?_inParens (h : track? k p a = some q) : track? k p.inParens a = some q.inParens := by
  induction a generalizing p with
  | nil =>
    obtain rfl := Option.some.inj h
    rfl
  | cons c rest ih =>
    rw [track?_cons] at h ⊢
    obtain ⟨r, hstep, hrest⟩ := Option.bind_eq_some_iff.mp h
    rw [step?_inParens hstep, Option.bind_some, ih hrest]

section Quotes

variable (hk : k.QuotesWords)

include hk

/-- A blank, a comma or a closing parenthesis ends a word where one may end. -/
theorem step?_ends (hp : p.CanEnd) (hc : c = ' ' ∨ c = ',' ∨ c = ')') : p.step? k c = none := by
  obtain ⟨hmode, hdepth⟩ := hp
  rcases hk with ⟨ho | ho, hq | hq⟩ <;> rcases hc with rfl | rfl | rfl <;>
    simp [step?, hmode, hdepth, ho, hq]

/-- Inside parentheses words are separated too, but this does not end the word around them. -/
theorem step?_separator (hp : p.CanEnd) (hc : c = ' ' ∨ c = ',') :
    p.inParens.step? k c = some start.inParens := by
  obtain ⟨hmode, hdepth⟩ := hp
  rcases hk with ⟨ho | ho, hq | hq⟩ <;> rcases hc with rfl | rfl <;>
    simp [step?, inParens, start, hmode, hdepth, ho, hq]

theorem step?_opening : start.step? k '(' = some start.inParens := by
  rcases hk with ⟨ho | ho, -⟩ <;> simp [step?, inParens, start, ho]

theorem step?_closing (hp : p.CanEnd) : p.inParens.step? k ')' = some start := by
  obtain ⟨hmode, hdepth⟩ := hp
  rcases hk with ⟨ho | ho, hq | hq⟩ <;> simp [step?, inParens, start, hmode, hdepth, ho, hq]

/-- Of two texts that begin with a word of their own, each with an end after it, the words are the
same if the texts are. -/
theorem eq_of_append_eq {rest rest' : List Char} (ha : start.track? k a = some p) (hp : p.CanEnd)
    (hb : start.track? k b = some q) (hq : q.CanEnd) (hrest : Ends rest) (hrest' : Ends rest')
    (h : a ++ rest = b ++ rest') : a = b := by
  -- the longer word would go on with what ends the shorter one
  have hlonger : ∀ {w v tail : List Char} {u : WordPlace},
      start.track? k w = some u → u.CanEnd → Ends (v ++ tail) →
        start.track? k (w ++ v) ≠ none → v = [] := by
    intro w v tail u hw hu hends hv
    cases v with
    | nil => rfl
    | cons c cs =>
      rw [track?_append, hw, Option.bind_some, track?_cons,
        step?_ends hk hu (hends c _ rfl)] at hv
      exact absurd rfl hv
  obtain ⟨as, rfl, rfl⟩ | ⟨bs, rfl, rfl⟩ := List.append_eq_append_iff.mp h
  · rw [hlonger ha hp hrest (by simp [hb]), List.append_nil]
  · rw [hlonger hb hq hrest' (by simp [ha]), List.append_nil]

end Quotes

end WordPlace

/-! ### Words -/

/-- The text is one word: a blank or a comma that it has is in quotes or in parentheses. -/
def IsWord (k : Marks) (word : String) : Prop :=
  ∃ p, WordPlace.start.track? k word.toList = some p ∧ p.CanEnd

instance (k : Marks) (word : String) : Decidable (IsWord k word) :=
  decidable_of_iff ((WordPlace.start.track? k word.toList).any fun p => decide p.CanEnd) <| by
    simp [IsWord, Option.any_eq_true]

/-- A word as it stands in a text, with a blank before it; commas have none. -/
def spaced (word : String) : List Char :=
  if word = "," then [','] else ' ' :: word.toList

/-- The text is made of the words, some of which may be commas. -/
structure HasWords (k : Marks) (text : String) (ws : List String) : Prop where
  text : text.toList = ws.flatMap spaced
  words : ∀ w ∈ ws, w = "," ∨ IsWord k w

instance (k : Marks) (text : String) (ws : List String) : Decidable (HasWords k text ws) :=
  decidable_of_iff (text.toList = ws.flatMap spaced ∧ ∀ w ∈ ws, w = "," ∨ IsWord k w)
    ⟨fun h => ⟨h.1, h.2⟩, fun h => ⟨h.text, h.words⟩⟩

/-- Words as one text. -/
def joined (ws : List String) : String :=
  String.ofList (ws.flatMap spaced).tail

section Words

variable {d : Dialect} {k : Marks} {a b w : String} {as bs : List String}

theorem IsWord.ne_comma (hk : k.QuotesWords) (h : IsWord k w) : w ≠ "," := by
  rintro rfl
  obtain ⟨p, htrack, -⟩ := h
  have hcomma : WordPlace.start.track? k [','] = none := by
    rw [WordPlace.track?_cons, WordPlace.step?_ends hk WordPlace.canEnd_start (.inr (.inl rfl))]
    rfl
  exact absurd (hcomma.symm.trans htrack) nofun

theorem spaced_of_isWord (hk : k.QuotesWords) (h : IsWord k w) : spaced w = ' ' :: w.toList := by
  rw [spaced, if_neg (h.ne_comma hk)]

theorem ends_flatMap_spaced (ws : List String) : Ends (ws.flatMap spaced) := by
  cases ws with
  | nil => exact ends_nil
  | cons w rest =>
    rw [List.flatMap_cons, spaced]
    split
    · exact ends_cons (.inr (.inl rfl)) _
    · exact ends_cons (.inl rfl) _

/-! ### Texts of words -/

namespace HasWords

theorem nil : HasWords k "" [] :=
  ⟨rfl, nofun⟩

/-- The same text, put together in another way. -/
theorem of_toList (h : HasWords k a as) (htext : b.toList = a.toList) : HasWords k b as :=
  ⟨htext.trans h.text, h.words⟩

theorem append (ha : HasWords k a as) (hb : HasWords k b bs) : HasWords k (a ++ b) (as ++ bs) where
  text := by rw [String.toList_append, ha.text, hb.text, List.flatMap_append]
  words := List.forall_mem_append.mpr ⟨ha.words, hb.words⟩

theorem comma : HasWords k "," [","] :=
  ⟨rfl, List.forall_mem_singleton.mpr (.inl rfl)⟩

theorem word (hk : k.QuotesWords) (h : IsWord k w) : HasWords k (" " ++ w) [w] where
  text := by simp [spaced_of_isWord hk h]
  words := List.forall_mem_singleton.mpr (.inr h)

/-- The words as one text are the text. -/
theorem joined_eq (h : HasWords k (" " ++ a) as) : joined as = a := by
  rw [joined, ← h.text, String.toList_append]
  exact String.ofList_toList

/-- Texts with commas between them. -/
theorem intercalate {α : Type} {text : α → String} {words : α → List String} {xs : List α}
    (hne : xs ≠ []) (h : ∀ x ∈ xs, HasWords k (" " ++ text x) (words x)) :
    HasWords k (" " ++ String.intercalate ", " (xs.map text))
      ([","].intercalate (xs.map words)) := by
  induction xs with
  | nil => exact absurd rfl hne
  | cons x rest ih =>
    obtain ⟨hx, hrest⟩ := List.forall_mem_cons.mp h
    cases rest with
    | nil => simpa using hx
    | cons y rest =>
      have hall := (hx.append comma).append (ih (List.cons_ne_nil y rest) hrest)
      rw [List.map_cons, List.map_cons, String.intercalate_cons_cons, List.map_cons, List.map_cons,
        List.intercalate_cons_cons]
      exact hall.of_toList (by simp)

/-- **A text is made of words in one way.** -/
theorem unique (hk : k.QuotesWords) (h : HasWords k a as) (h' : HasWords k a bs) : as = bs := by
  have htext : as.flatMap spaced = bs.flatMap spaced := h.text.symm.trans h'.text
  have has := h.words
  have hbs := h'.words
  clear h h'
  have hspaced : ∀ w, spaced w ≠ [] := fun w => by
    rw [spaced]
    split <;> exact List.cons_ne_nil _ _
  induction as generalizing bs with
  | nil =>
    cases bs with
    | nil => rfl
    | cons w rest => exact absurd (List.append_eq_nil_iff.mp htext.symm).1 (hspaced w)
  | cons v as ih =>
    cases bs with
    | nil => exact absurd (List.append_eq_nil_iff.mp htext).1 (hspaced v)
    | cons w bs =>
      obtain ⟨hv, hrest⟩ := List.forall_mem_cons.mp has
      obtain ⟨hw, hrest'⟩ := List.forall_mem_cons.mp hbs
      rw [List.flatMap_cons, List.flatMap_cons] at htext
      have hfirst : v = w := by
        obtain rfl | hv := hv <;> obtain rfl | hw := hw
        · rfl
        · rw [spaced_of_isWord hk hw] at htext
          exact absurd (List.cons.inj htext).1 (by decide)
        · rw [spaced_of_isWord hk hv] at htext
          exact absurd (List.cons.inj htext).1 (by decide)
        · rw [spaced_of_isWord hk hv, spaced_of_isWord hk hw] at htext
          obtain ⟨p, hp, hpend⟩ := hv
          obtain ⟨q, hq, hqend⟩ := hw
          exact String.toList_injective (WordPlace.eq_of_append_eq hk hp hpend hq hqend
            (ends_flatMap_spaced as) (ends_flatMap_spaced bs) (List.cons.inj htext).2)
      subst hfirst
      rw [ih (List.append_cancel_left htext) hrest hrest']

end HasWords

/-! ### Single words -/

/-- The text has no quotes, no parentheses, no blanks and no commas. -/
def isOrdinary (text : String) : Bool :=
  text.toList.all fun c => !(['[', '"', '(', ')', ' ', ','].contains c)

/-- Ordinary characters leave a reader outside quotes and parentheses. -/
theorem track?_of_isOrdinary (hk : k.QuotesWords) (h : isOrdinary w = true) :
    WordPlace.start.track? k w.toList = some .start := by
  rw [isOrdinary] at h
  generalize w.toList = cs at h
  induction cs with
  | nil => rfl
  | cons c cs ih =>
    rw [List.all_cons, Bool.and_eq_true] at h
    obtain ⟨hc, hcs⟩ := h
    have hstep : WordPlace.start.step? k c = some .start := by
      rcases hk with ⟨ho | ho, -⟩ <;>
        simp_all [WordPlace.step?, WordPlace.start]
    rw [WordPlace.track?_cons, hstep, Option.bind_some, ih hcs]

theorem isWord_of_isOrdinary (hk : k.QuotesWords) (h : isOrdinary w = true) : IsWord k w :=
  ⟨.start, track?_of_isOrdinary hk h, WordPlace.canEnd_start⟩

/-- Ordinary words are the words of a text that has them after blanks. -/
theorem HasWords.of_isOrdinary (hk : k.QuotesWords) (htext : a.toList = as.flatMap spaced)
    (h : as.all isOrdinary = true) : HasWords k a as :=
  ⟨htext, fun w hw => .inr (isWord_of_isOrdinary hk (List.all_eq_true.mp h w hw))⟩

theorem isOrdinary_of_isSpelled (h : IsSpelled w) : isOrdinary w = true := by
  refine List.all_eq_true.mpr fun c hc => ?_
  have hname := h c hc
  -- none of the characters continues a name
  simp only [Bool.not_eq_true', List.contains_eq_mem, decide_eq_false_iff_not, List.mem_cons,
    List.not_mem_nil, or_false, not_or]
  refine ⟨?_, ?_, ?_, ?_, ?_, ?_⟩ <;> rintro rfl <;> revert hname <;> decide

/-- A quoted name is one word, whatever it holds. -/
theorem isWord_quote (hd : d.QuotesBy k) (name : String) : IsWord k (d.quote name) := by
  have hname : ∀ cs : List Char,
      WordPlace.track? k ⟨.quoted, 0⟩ (doubleQuotes k.closeQuote cs) = some ⟨.quoted, 0⟩ := by
    intro cs
    induction cs with
    | nil => rfl
    | cons c cs ih =>
      by_cases hc : c = k.closeQuote <;>
        simp [doubleQuotes, hc, WordPlace.track?_cons, WordPlace.step?, ih]
  have hopening : WordPlace.start.step? k k.openQuote = some ⟨.quoted, 0⟩ := by
    simp [WordPlace.step?, WordPlace.start]
  have hclosing : WordPlace.step? k ⟨.quoted, 0⟩ k.closeQuote = some ⟨.closing, 0⟩ := by
    simp [WordPlace.step?]
  refine ⟨⟨.closing, 0⟩, ?_, by decide⟩
  have htext := hd.toList_append name []
  rw [List.append_nil] at htext
  rw [htext, WordPlace.track?_cons, hopening, Option.bind_some, WordPlace.track?_append, hname,
    Option.bind_some, WordPlace.track?_cons, hclosing]
  rfl

/-- A slot is one word. -/
theorem isWord_slotText (hd : IsScannable d k) {name : String} (hname : IsSpelled name)
    (ordinal : Nat) : IsWord k (d.slotText name ordinal) := by
  obtain ⟨run, hrun, htext⟩ := hd.slots name ordinal hname
  refine isWord_of_isOrdinary hd.quotesWords ?_
  rw [isOrdinary, htext, List.all_cons, Bool.and_eq_true]
  refine ⟨?_, isOrdinary_of_isSpelled hrun⟩
  rcases hd.slot with h | h | h <;> rw [h] <;> decide

/-- Inside parentheses any number of words is a part of one. -/
theorem track?_flatMap_spaced (hk : k.QuotesWords) (h : ∀ w ∈ as, w = "," ∨ IsWord k w)
    {p : WordPlace} (hp : p.CanEnd) :
    ∃ q : WordPlace, p.inParens.track? k (as.flatMap spaced) = some q.inParens ∧ q.CanEnd := by
  induction as generalizing p with
  | nil => exact ⟨p, rfl, hp⟩
  | cons w rest ih =>
    obtain ⟨hw, hrest⟩ := List.forall_mem_cons.mp h
    obtain ⟨q, hq, hqend⟩ : ∃ q : WordPlace,
        p.inParens.track? k (spaced w) = some q.inParens ∧ q.CanEnd := by
      obtain rfl | hw := hw
      · refine ⟨.start, ?_, WordPlace.canEnd_start⟩
        rw [spaced, if_pos rfl, WordPlace.track?_cons, WordPlace.step?_separator hk hp (.inr rfl)]
        rfl
      · obtain ⟨q, htrack, hqend⟩ := id hw
        refine ⟨q, ?_, hqend⟩
        rw [spaced_of_isWord hk hw, WordPlace.track?_cons,
          WordPlace.step?_separator hk hp (.inl rfl), Option.bind_some,
          WordPlace.track?_inParens htrack]
    obtain ⟨r, hr, hrend⟩ := ih hrest hqend
    exact ⟨r, WordPlace.track?_append_of hq hr, hrend⟩

/-- Words in parentheses are one word. -/
theorem HasWords.isWord_paren (hk : k.QuotesWords) (h : HasWords k (" " ++ a) as) :
    IsWord k ("(" ++ a ++ ")") := by
  obtain ⟨q, hq, hqend⟩ := track?_flatMap_spaced hk h.words WordPlace.canEnd_start
  -- the blank before the first word leaves the reader where it is
  have hinner : WordPlace.start.inParens.track? k a.toList = some q.inParens := by
    rw [← h.text, String.toList_append] at hq
    have hblank : WordPlace.start.inParens.step? k ' ' = some WordPlace.start.inParens :=
      WordPlace.step?_separator hk WordPlace.canEnd_start (.inl rfl)
    have hcons : WordPlace.start.inParens.track? k (" ".toList ++ a.toList)
        = (WordPlace.start.inParens.step? k ' ').bind fun p => p.track? k a.toList := rfl
    rwa [hcons, hblank, Option.bind_some] at hq
  refine ⟨.start, ?_, WordPlace.canEnd_start⟩
  have htext : ("(" ++ a ++ ")").toList = '(' :: (a.toList ++ [')']) := by simp
  rw [htext, WordPlace.track?_cons, WordPlace.step?_opening hk, Option.bind_some,
    WordPlace.track?_append, hinner, Option.bind_some, WordPlace.track?_cons,
    WordPlace.step?_closing hk hqend]
  rfl

/-- A function applied to words in parentheses is one word. -/
theorem HasWords.isWord_call (hk : k.QuotesWords) {f : String} (hf : isOrdinary f = true)
    (h : HasWords k (" " ++ a) as) : IsWord k (f ++ ("(" ++ a ++ ")")) := by
  obtain ⟨p, htrack, hp⟩ := h.isWord_paren hk
  refine ⟨p, ?_, hp⟩
  rw [String.toList_append]
  exact WordPlace.track?_append_of (track?_of_isOrdinary hk hf) htrack

end Words

end EntitySql
