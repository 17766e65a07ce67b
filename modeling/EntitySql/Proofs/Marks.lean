import EntitySql.Proofs.BindTable

/-!
# Marks of names and slots

A dialect may write names and slots in any way. To read them back in a text, a reader has to know
the quotes around names and the character with which a slot begins (`Marks`), and the dialect has to
keep to them: names are put between the quotes (`Dialect.QuotesBy`), and a slot is its mark with
letters, digits and underscores after it (`Dialect.SlotsBy`). The built-in dialects do.

Between quotes nothing is lost: `scanQuoted` reads up to the first closing quote that is not
doubled, and finds what was doubled (`scanQuoted_doubleQuotes`). So different names are quoted
differently (`quoteWith_injective`).
-/

namespace EntitySql

/-! ### Quotes -/

/-- The characters up to a closing quote that is not doubled, and what follows it. -/
def scanQuoted (closeQuote : Char) : List Char → Option (List Char × List Char)
  | [] => none
  | c :: rest =>
    if c = closeQuote then
      match rest with
      | [] => some ([], [])
      | e :: rest =>
        -- a doubled quote stands for one quote of the name, any other closing quote ends it
        if e = closeQuote then
          (scanQuoted closeQuote rest).map fun scanned => (c :: scanned.1, scanned.2)
        else some ([], e :: rest)
    else (scanQuoted closeQuote rest).map fun scanned => (c :: scanned.1, scanned.2)

theorem scanQuoted_doubleQuotes {q : Char} (cs : List Char) {rest : List Char}
    (hrest : ∀ tail, rest ≠ q :: tail) :
    scanQuoted q (doubleQuotes q cs ++ q :: rest) = some (cs, rest) := by
  induction cs with
  | nil =>
    cases rest with
    | nil => simp [doubleQuotes, scanQuoted]
    | cons e tail =>
      have he : e ≠ q := fun h => hrest tail (by rw [h])
      simp [doubleQuotes, scanQuoted, he]
  | cons c cs ih =>
    by_cases hc : c = q
    · subst hc
      simp [doubleQuotes, scanQuoted, ih]
    · rw [doubleQuotes, if_neg hc, List.cons_append, scanQuoted.eq_def]
      simp [hc, ih]

theorem toList_quoteWith_append (openQuote closeQuote : Char) (name : String) (rest : List Char) :
    (quoteWith openQuote closeQuote name).toList ++ rest
      = openQuote :: (doubleQuotes closeQuote name.toList ++ closeQuote :: rest) := by
  simp [quoteWith]

/-- Different names are quoted differently. -/
theorem quoteWith_injective (openQuote closeQuote : Char) :
    Function.Injective (quoteWith openQuote closeQuote) := by
  intro a b h
  have hquoted : doubleQuotes closeQuote a.toList ++ [closeQuote]
      = doubleQuotes closeQuote b.toList ++ [closeQuote] :=
    (List.cons.inj (String.ofList_injective h)).2
  have hscan : ∀ name : String,
      scanQuoted closeQuote (doubleQuotes closeQuote name.toList ++ [closeQuote])
        = some (name.toList, []) :=
    fun name => scanQuoted_doubleQuotes name.toList nofun
  have ha := hscan a
  rw [hquoted, hscan b] at ha
  exact String.toList_injective (Prod.mk.inj (Option.some.inj ha)).1.symm

/-! ### Marks of a dialect -/

/-- The characters by which names and slots are known in a text. -/
structure Marks where
  openQuote : Char
  closeQuote : Char
  slot : Char

namespace Dialect

/-- The dialect puts names between the quotes. -/
def QuotesBy (d : Dialect) (k : Marks) : Prop :=
  ∀ name, d.quote name = quoteWith k.openQuote k.closeQuote name

/-- The slots of the dialect are the mark with what is spelled after it, such as a name or a
number. -/
def SlotsBy (d : Dialect) (k : Marks) : Prop :=
  ∀ name ordinal, IsSpelled name →
    ∃ run : String, IsSpelled run ∧ (d.slotText name ordinal).toList = k.slot :: run.toList

variable {d : Dialect} {k : Marks}

theorem QuotesBy.injective (h : d.QuotesBy k) : Function.Injective d.quote := by
  have hquote : d.quote = quoteWith k.openQuote k.closeQuote := funext h
  rw [hquote]
  exact quoteWith_injective _ _

theorem QuotesBy.toList_append (h : d.QuotesBy k) (name : String) (rest : List Char) :
    (d.quote name).toList ++ rest
      = k.openQuote :: (doubleQuotes k.closeQuote name.toList ++ k.closeQuote :: rest) := by
  rw [h, toList_quoteWith_append]

end Dialect

theorem exists_namedSlot (mark : Char) {name : String} (hname : IsSpelled name) (ordinal : Nat) :
    ∃ run : String, IsSpelled run ∧ (namedSlot mark name ordinal).toList = mark :: run.toList :=
  ⟨name, hname, by simp [namedSlot]⟩

theorem exists_numberedSlot (mark : Char) (name : String) (ordinal : Nat) :
    ∃ run : String, IsSpelled run ∧ (numberedSlot mark name ordinal).toList = mark :: run.toList :=
  ⟨toString ordinal, isSpelled_toString ordinal, by simp [numberedSlot]⟩

namespace BuiltinDialect

/-- The marks of a built-in dialect. -/
def marks : BuiltinDialect → Marks
  | sqlServer => ⟨'[', ']', '@'⟩
  | sqlServer2000 => ⟨'[', ']', '@'⟩
  | sqlite => ⟨'"', '"', '?'⟩
  | postgres => ⟨'"', '"', '$'⟩

theorem quotesBy (b : BuiltinDialect) : b.dialect.QuotesBy b.marks := by
  cases b <;> exact fun _ => rfl

theorem slotsBy (b : BuiltinDialect) : b.dialect.SlotsBy b.marks := by
  intro name ordinal hname
  cases b with
  | sqlServer => exact exists_namedSlot '@' hname ordinal
  | sqlServer2000 => exact exists_namedSlot '@' hname ordinal
  | sqlite => exact exists_numberedSlot '?' name ordinal
  | postgres => exact exists_numberedSlot '$' name ordinal

theorem quote_injective (b : BuiltinDialect) : Function.Injective b.dialect.quote :=
  b.quotesBy.injective

end BuiltinDialect

end EntitySql
