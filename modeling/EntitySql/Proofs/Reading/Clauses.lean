import EntitySql.Proofs.Reading.Words
import EntitySql.Proofs.RowBounds

/-!
# Clauses of a select

The words of a select are cut into clauses (`SelectWords.ofWords`), and the clauses say a body
(`SelectWords.body?`). The main statement, `SelectBody.IsLegible.exists_clauses`, says that a body
is read back from the words of its select as far as it is written (`SelectBody.shown`), if the texts
of which it is made are fragments of a statement (`IsFragment`).

Everything rests on the words that start clauses. A fragment has none of them, so a clause ends
where the next one starts (`takeClause_clauseOf`), and the commas of a list are between its items.
-/

namespace EntitySql

open Condition

/-! ### Clauses -/

/-- The word starts a clause after the select list. -/
def startsClause (word : String) : Bool :=
  ["FROM", "WHERE", "ORDER", "OFFSET", "LIMIT"].contains word

/-- The words of a clause that begins with some words, if the next clause is that one, and the
words after it. -/
def takeClause (start ws : List String) : Option (List String) × List String :=
  if start.isPrefixOf ws then
    let rest := ws.drop start.length
    (some (rest.takeWhile (!startsClause ·)), rest.dropWhile (!startsClause ·))
  else (none, ws)

/-- The words that have to stand first in a select list, or else none. -/
def takeWords (word : String) (n : Nat) (ws : List String) : List String × List String :=
  if ws.head? = some word then ws.splitAt n else ([], ws)

/-- A clause that begins with some words, if there is one. -/
def clauseOf (start : List String) : Option (List String) → List String
  | none => []
  | some body => start ++ body

theorem head?_clauseOf (s : String) (ss : List String) (clause : Option (List String))
    {rest starts : List String} (hrest : ∀ w ∈ rest.head?, w ∈ starts) :
    ∀ w ∈ (clauseOf (s :: ss) clause ++ rest).head?, w ∈ s :: starts := by
  intro w hw
  cases clause with
  | none => exact List.mem_cons_of_mem s (hrest w hw)
  | some body =>
    obtain rfl := Option.some.inj hw
    exact List.mem_cons_self

/-- A clause ends where another one starts, and one that is missing is not found. -/
theorem takeClause_clauseOf {s : String} {ss rest starts : List String}
    {clause : Option (List String)}
    (hclause : ∀ body ∈ clause, ∀ w ∈ body, startsClause w = false)
    (hrest : ∀ w ∈ rest.head?, w ∈ starts) (hstarts : starts.all startsClause = true)
    (hs : s ∉ starts) :
    takeClause (s :: ss) (clauseOf (s :: ss) clause ++ rest) = (clause, rest) := by
  cases clause with
  | none =>
    have hmissing : ¬ (s :: ss).isPrefixOf rest = true := by
      rw [List.isPrefixOf_iff_prefix]
      rintro ⟨tail, rfl⟩
      exact hs (hrest s rfl)
    rw [clauseOf, List.nil_append, takeClause, if_neg hmissing]
  | some body =>
    have hfound : (s :: ss).isPrefixOf (s :: ss ++ body ++ rest) = true := by
      rw [List.isPrefixOf_iff_prefix, List.append_assoc]
      exact List.prefix_append _ _
    have hbody : ∀ w ∈ body, (!startsClause w) = true := fun w hw => by
      rw [hclause body rfl w hw]
      rfl
    have hstop : rest.takeWhile (!startsClause ·) = [] ∧
        rest.dropWhile (!startsClause ·) = rest := by
      cases rest with
      | nil => exact ⟨rfl, rfl⟩
      | cons w tail =>
        have hw : startsClause w = true := List.all_eq_true.mp hstarts w (hrest w rfl)
        simp [hw]
    rw [clauseOf, takeClause, if_pos hfound, List.append_assoc, List.drop_left]
    dsimp only
    rw [List.takeWhile_append_of_pos hbody, List.dropWhile_append_of_pos hbody, hstop.1, hstop.2,
      List.append_nil]

theorem takeWords_append {word : String} {n : Nat} {front rest : List String}
    (hfront : front = [] ∨ front.head? = some word ∧ front.length = n)
    (hrest : rest.head? ≠ some word) :
    takeWords word n (front ++ rest) = (front, rest) := by
  obtain rfl | ⟨hhead, rfl⟩ := hfront
  · rw [List.nil_append, takeWords, if_neg hrest]
  · have hword : (front ++ rest).head? = some word := by
      rw [List.head?_append, hhead, Option.some_or]
    rw [takeWords, if_pos hword, List.splitAt_eq, List.take_left, List.drop_left]

/-- The words of a select by their clauses. -/
structure SelectWords where
  list : Option (List String)
  source : Option (List String)
  filter : Option (List String)
  order : Option (List String)
  bounds : List String

namespace SelectWords

/-- The clauses of a text that has some words. -/
def ofWords (ws : List String) : SelectWords :=
  let (list, ws) := takeClause ["SELECT"] ws
  let (source, ws) := takeClause ["FROM"] ws
  let (filter, ws) := takeClause ["WHERE"] ws
  let (order, ws) := takeClause ["ORDER", "BY"] ws
  ⟨list, source, filter, order, ws⟩

/-- The words of the clauses in order. -/
def words (c : SelectWords) : List String :=
  clauseOf ["SELECT"] c.list ++ (clauseOf ["FROM"] c.source ++ (clauseOf ["WHERE"] c.filter
    ++ (clauseOf ["ORDER", "BY"] c.order ++ c.bounds)))

/-- No clause has a word that starts another one. -/
structure IsLegible (c : SelectWords) : Prop where
  list : ∀ ws ∈ c.list, ∀ w ∈ ws, startsClause w = false
  source : ∀ ws ∈ c.source, ∀ w ∈ ws, startsClause w = false
  filter : ∀ ws ∈ c.filter, ∀ w ∈ ws, startsClause w = false
  order : ∀ ws ∈ c.order, ∀ w ∈ ws, startsClause w = false
  bounds : ∀ w ∈ c.bounds.head?, w ∈ ["OFFSET", "LIMIT"]

/-- Legible clauses are read back from their words. -/
theorem ofWords_words {c : SelectWords} (h : c.IsLegible) : ofWords c.words = c := by
  have horder := head?_clauseOf "ORDER" ["BY"] c.order h.bounds
  have hfilter := head?_clauseOf "WHERE" [] c.filter horder
  have hsource := head?_clauseOf "FROM" [] c.source hfilter
  rw [ofWords, words, takeClause_clauseOf h.list hsource rfl (by decide)]
  dsimp only
  rw [takeClause_clauseOf h.source hfilter rfl (by decide)]
  dsimp only
  rw [takeClause_clauseOf h.filter horder rfl (by decide)]
  dsimp only
  rw [takeClause_clauseOf h.order h.bounds rfl (by decide)]

end SelectWords

/-! ### Reading clauses -/

/-- The column of a select list that the words say. -/
def SelectColumn.ofWords (ws : List String) : SelectColumn :=
  if ws = ["*"] then .every
  else if ws.dropLast.getLast? = some "AS" then .expr (joined ws.dropLast.dropLast) ws.getLast?
  else .expr (joined ws) none

/-- The item as far as it is written. -/
def OrderItem.shown (i : OrderItem) : OrderItem :=
  { i with output := i.expr }

/-- The item of an ordering that the words say. -/
def OrderItem.ofWords? (ws : List String) : Option OrderItem :=
  let expr := joined ws.dropLast
  if ws.getLast? = some "ASC" then some ⟨expr, expr, true⟩
  else if ws.getLast? = some "DESC" then some ⟨expr, expr, false⟩
  else none

/-- The rows that are skipped, if there are any. -/
def RowBounds.offset? (bounds : RowBounds) : Option Nat :=
  if bounds.skipped = 0 then none else some bounds.skipped

/-- The body that the clauses say, in the grammar of a style. -/
def SelectWords.body? (style : BoundStyle) (c : SelectWords) : Option SelectBody := do
  let list ← c.list
  let (distinct, list) := takeWords "DISTINCT" 1 list
  let (top, columns) := takeWords "TOP" 2 list
  let order ← ((c.order.map (·.splitOn ",")).getD []).mapM OrderItem.ofWords?
  let bounds ← RowBounds.ofWords? style (top.map fun w => .ofChars w.toList)
    (c.bounds.map fun w => .ofChars w.toList)
  return {
    distinct := !distinct.isEmpty
    columns := (columns.splitOn ",").map SelectColumn.ofWords
    filter := c.filter.map joined
    order
    limit := bounds.kept
    offset := bounds.offset? }

/-- The body as far as it is written. -/
def SelectBody.shown (b : SelectBody) : SelectBody :=
  { b with
    columns := if b.columns.isEmpty then [.every] else b.columns
    order := b.order.map (·.shown)
    offset := b.bounds.offset? }

/-! ### Fragments -/

/-- The words of which the frame of a select is made, apart from the items of its lists. -/
def frameWords : List String :=
  ["DISTINCT", "TOP", "FROM", "WHERE", "ORDER", "OFFSET", "LIMIT"]

/-- The word has a meaning of its own in a select. -/
def isReserved (word : String) : Bool :=
  ("," :: "AS" :: frameWords).contains word

/-- The text is made of words that have no meaning of their own in a select. -/
def IsFragment (k : Marks) (text : String) : Prop :=
  ∃ ws, HasWords k (" " ++ text) ws ∧ ∀ w ∈ ws, isReserved w = false

/-- The text is a fragment of one word, which does not stand for every column. -/
structure IsName (k : Marks) (text : String) : Prop where
  word : IsWord k text
  free : isReserved text = false
  single : text ≠ "*"

theorem IsName.isFragment {k : Marks} {text : String} (hk : k.QuotesWords) (h : IsName k text) :
    IsFragment k text :=
  ⟨[text], .word hk h.word, List.forall_mem_singleton.mpr h.free⟩

theorem startsClause_of_not_mem {w : String} (h : w ∉ frameWords) : startsClause w = false := by
  simp_all [startsClause, frameWords]

theorem of_isReserved {w : String} (h : isReserved w = false) :
    w ≠ "AS" ∧ w ≠ "," ∧ w ∉ frameWords := by
  simpa [isReserved, not_or, and_left_comm] using h

/-- A word that starts with a quote, a parenthesis or the mark of a slot is a name. -/
theorem isName_of_toList {k : Marks} {w : String} (hw : IsWord k w) {c : Char} {rest : List Char}
    (h : w.toList = c :: rest) (hc : c ∈ ['[', '"', '(', '@', '?', '$']) : IsName k w := by
  have hstarts : ("*" :: "," :: "AS" :: frameWords).all (fun word =>
      word.toList.head?.all fun c => !(['[', '"', '(', '@', '?', '$'].contains c)) = true := rfl
  have hother : w ∉ "*" :: "," :: "AS" :: frameWords := fun hmem => by
    have hfirst := List.all_eq_true.mp hstarts w hmem
    rw [h, List.head?_cons, Option.all_some, List.contains_iff_mem.mpr hc] at hfirst
    cases hfirst
  obtain ⟨hstar, hfree⟩ := not_or.mp (List.mem_cons.not.mp hother)
  exact ⟨hw, by rwa [isReserved, List.contains_eq_mem, decide_eq_false_iff_not], hstar⟩

/-- So is a word of ordinary characters, if it has no meaning of its own. -/
theorem isName_of_isOrdinary {k : Marks} {w : String} (hk : k.QuotesWords)
    (h : isOrdinary w = true) (hfree : isReserved w = false) (hsingle : w ≠ "*") : IsName k w :=
  ⟨isWord_of_isOrdinary hk h, hfree, hsingle⟩

/-- The texts of the column are fragments. -/
def SelectColumn.IsLegible (k : Marks) : SelectColumn → Prop
  | .every => True
  | .expr text label => IsFragment k text ∧ text ≠ "*" ∧ ∀ l ∈ label, IsName k l

/-- The texts of the body are fragments. -/
structure SelectBody.IsLegible (k : Marks) (b : SelectBody) : Prop where
  columns : ∀ column ∈ b.columns, column.IsLegible k
  filter : ∀ text ∈ b.filter, IsFragment k text
  order : ∀ i ∈ b.order, IsFragment k i.expr

/-! ### Items of a list -/

theorem mem_intercalate {w separator : String} {wss : List (List String)}
    (h : w ∈ [separator].intercalate wss) : w = separator ∨ ∃ ws ∈ wss, w ∈ ws := by
  induction wss with
  | nil => cases h
  | cons ws rest ih =>
    cases rest with
    | nil => exact .inr ⟨ws, List.mem_cons_self, by simpa using h⟩
    | cons vs rest =>
      rw [List.intercalate_cons_cons, List.append_assoc, List.mem_append, List.singleton_append,
        List.mem_cons] at h
      obtain hw | hw | hw := h
      · exact .inr ⟨ws, List.mem_cons_self, hw⟩
      · exact .inl hw
      · exact (ih hw).imp_right fun ⟨us, hus, hmem⟩ => ⟨us, List.mem_cons_of_mem _ hus, hmem⟩

section Items

variable {k : Marks}

/-- Texts without commas are read back one by one. -/
theorem exists_items {α : Type} {text : α → String} {xs : List α} (hne : xs ≠ [])
    {P : α → List String → Prop}
    (h : ∀ x ∈ xs, ∃ ws, HasWords k (" " ++ text x) ws ∧ (∀ w ∈ ws, w ≠ "," ∧ w ∉ frameWords) ∧
      P x ws) :
    ∃ (ws : List String) (words : α → List String),
      HasWords k (" " ++ String.intercalate ", " (xs.map text)) ws ∧ (∀ w ∈ ws, w ∉ frameWords) ∧
      ws.splitOn "," = xs.map words ∧ ∀ x ∈ xs, P x (words x) := by
  choose! words hwords hfree hP using h
  refine ⟨_, words, HasWords.intercalate hne hwords, fun w hw => ?_, ?_, hP⟩
  · obtain rfl | ⟨ws, hws, hmem⟩ := mem_intercalate hw
    · decide
    · obtain ⟨x, hx, rfl⟩ := List.mem_map.mp hws
      exact (hfree x hx w hmem).2
  · refine List.splitOn_intercalate "," (fun ws hws hcomma => ?_) (by simpa using hne)
    obtain ⟨x, hx, rfl⟩ := List.mem_map.mp hws
    exact (hfree x hx _ hcomma).1 rfl

/-- Items that are read one by one are read as a list. -/
theorem OrderItem.mapM_ofWords? {words : OrderItem → List String} {items : List OrderItem}
    (h : ∀ i ∈ items, ofWords? (words i) = some i.shown) :
    (items.map words).mapM ofWords? = some (items.map (·.shown)) := by
  induction items with
  | nil => rfl
  | cons i is ih =>
    obtain ⟨hi, his⟩ := List.forall_mem_cons.mp h
    rw [List.map_cons, List.mapM_cons, hi, ih his]
    rfl

variable (hk : k.QuotesWords)

include hk

/-- A column is read back from its words. -/
theorem SelectColumn.IsLegible.exists_words {column : SelectColumn} (h : column.IsLegible k) :
    ∃ ws, HasWords k (" " ++ column.toSql) ws ∧ (∀ w ∈ ws, w ≠ "," ∧ w ∉ frameWords) ∧
      ofWords ws = column := by
  cases column with
  | every =>
    exact ⟨["*"], .word hk (isWord_of_isOrdinary hk rfl), by decide, rfl⟩
  | expr text label =>
    obtain ⟨⟨ws, hws, hfree⟩, hstar, hlabel⟩ := h
    have hwords : ∀ w ∈ ws, w ≠ "," ∧ w ∉ frameWords := fun w hw =>
      (of_isReserved (hfree w hw)).2
    cases label with
    | none =>
      have hsingle : ws ≠ ["*"] := by
        rintro rfl
        exact hstar hws.joined_eq.symm
      have hlabeled : ¬ ws.dropLast.getLast? = some "AS" := fun hlast =>
        have hmem := (List.dropLast_sublist ws).subset (List.mem_of_getLast? hlast)
        (of_isReserved (hfree _ hmem)).1 rfl
      refine ⟨ws, hws, hwords, ?_⟩
      rw [ofWords, if_neg hsingle, if_neg hlabeled, hws.joined_eq]
    | some label =>
      obtain ⟨hword, hname, -⟩ := hlabel label rfl
      have has : HasWords k " AS" ["AS"] := .of_isOrdinary hk rfl rfl
      have hall := (hws.append has).append (.word hk hword)
      have hallWords : ∀ w ∈ ws ++ ["AS"] ++ [label], w ≠ "," ∧ w ∉ frameWords :=
        List.forall_mem_append.mpr ⟨List.forall_mem_append.mpr ⟨hwords, by decide⟩,
          List.forall_mem_singleton.mpr (of_isReserved hname).2⟩
      have hlong : ws ++ ["AS"] ++ [label] ≠ ["*"] := fun heq => by
        have hlength := congrArg List.length heq
        simp at hlength
      refine ⟨_, hall.of_toList (by simp [toSql]), hallWords, ?_⟩
      rw [ofWords, if_neg hlong, List.dropLast_concat, if_pos List.getLast?_concat,
        List.dropLast_concat, hws.joined_eq, List.getLast?_concat]

/-- An item of an ordering is read back from its words. -/
theorem OrderItem.exists_words {i : OrderItem} (h : IsFragment k i.expr) :
    ∃ ws, HasWords k (" " ++ i.toSql) ws ∧ (∀ w ∈ ws, w ≠ "," ∧ w ∉ frameWords) ∧
      ofWords? ws = some i.shown := by
  obtain ⟨ws, hws, hfree⟩ := h
  have hwords : ∀ w ∈ ws, w ≠ "," ∧ w ∉ frameWords := fun w hw =>
    (of_isReserved (hfree w hw)).2
  obtain ⟨expr, output, ascending⟩ := i
  cases ascending with
  | true =>
    have hdirection : HasWords k " ASC" ["ASC"] := .of_isOrdinary hk rfl rfl
    refine ⟨ws ++ ["ASC"], ?_, List.forall_mem_append.mpr ⟨hwords, by decide⟩, ?_⟩
    · rw [toSql, if_pos rfl, ← String.append_assoc]
      exact hws.append hdirection
    · rw [ofWords?, List.dropLast_concat, hws.joined_eq, if_pos List.getLast?_concat, shown]
  | false =>
    have hdirection : HasWords k " DESC" ["DESC"] := .of_isOrdinary hk rfl rfl
    refine ⟨ws ++ ["DESC"], ?_, List.forall_mem_append.mpr ⟨hwords, by decide⟩, ?_⟩
    · rw [toSql, if_neg Bool.false_ne_true, ← String.append_assoc]
      exact hws.append hdirection
    · have hother : ¬ (ws ++ ["DESC"]).getLast? = some "ASC" := by
        rw [List.getLast?_concat]
        decide
      rw [ofWords?, List.dropLast_concat, hws.joined_eq, if_neg hother,
        if_pos List.getLast?_concat, shown]

end Items

/-! ### Bodies -/

namespace SelectBody

variable {k : Marks} (hk : k.QuotesWords) (b : SelectBody) (style : BoundStyle)

/-- The words that make a select distinct. -/
def distinctWords (b : SelectBody) : List String :=
  if b.distinct then ["DISTINCT"] else []

theorem isEmpty_distinctWords : b.distinctWords.isEmpty = !b.distinct := by
  rw [distinctWords]
  cases b.distinct <;> rfl

theorem distinctWords_cases :
    b.distinctWords = [] ∨
      b.distinctWords.head? = some "DISTINCT" ∧ b.distinctWords.length = 1 := by
  rw [distinctWords]
  cases b.distinct with
  | false => exact .inl rfl
  | true => exact .inr ⟨rfl, rfl⟩

theorem top_cases :
    b.topText style = "" ∧ b.topWords style = [] ∨
      ∃ n, b.topText style = "TOP " ++ toString n ++ " " ∧
        b.topWords style = [.name "TOP", .number n] := by
  obtain ⟨distinct, columns, filter, order, limit, offset⟩ := b
  rcases style with _ | _ <;> rcases limit with _ | n <;> rcases offset with _ | m <;>
    first | exact .inl ⟨rfl, rfl⟩ | exact .inr ⟨n, rfl, rfl⟩

/-- No number starts a clause. -/
theorem startsClause_toString (n : Nat) : startsClause (toString n) = false := by
  have hletters : ["FROM", "WHERE", "ORDER", "OFFSET", "LIMIT"].all
      (·.toList.any (!·.isDigit)) = true := rfl
  rw [startsClause, List.contains_eq_mem, decide_eq_false_iff_not]
  intro hmem
  obtain ⟨c, hc, hdigit⟩ := List.any_eq_true.mp (List.all_eq_true.mp hletters _ hmem)
  rw [isDigit_of_mem_toString hc] at hdigit
  cases hdigit

/-- What stands before a select list starts no clause. -/
theorem startsClause_front :
    ∀ w ∈ b.distinctWords ++ (b.topWords style).map (·.text), startsClause w = false := by
  refine List.forall_mem_append.mpr ⟨fun w hw => ?_, ?_⟩
  · rw [distinctWords] at hw
    split at hw
    · exact List.mem_singleton.mp hw ▸ rfl
    · cases hw
  · obtain ⟨-, htop⟩ | ⟨n, -, htop⟩ := b.top_cases style
    · rw [htop]
      nofun
    · rw [htop]
      exact List.forall_mem_cons.mpr
        ⟨rfl, List.forall_mem_singleton.mpr (startsClause_toString n)⟩

theorem head?_boundsWords :
    ∀ w ∈ ((b.boundsWords style).map (·.text)).head?, w ∈ ["OFFSET", "LIMIT"] := by
  obtain ⟨distinct, columns, filter, order, limit, offset⟩ := b
  rcases style with _ | _ <;> rcases limit with _ | n <;> rcases offset with _ | m <;>
    simp [boundsWords, ClauseWord.text]

theorem isOrdinary_boundsWords :
    ((b.boundsWords style).map (·.text)).all isOrdinary = true := by
  have hnumber : ∀ n : Nat, isOrdinary n.repr = true := fun n =>
    isOrdinary_of_isSpelled (isSpelled_toString n)
  have hword : isOrdinary "OFFSET" = true ∧ isOrdinary "ROWS" = true ∧
      isOrdinary "FETCH" = true ∧ isOrdinary "NEXT" = true ∧ isOrdinary "ONLY" = true ∧
      isOrdinary "LIMIT" = true := by decide
  obtain ⟨distinct, columns, filter, order, limit, offset⟩ := b
  rcases style with _ | _ <;> rcases limit with _ | n <;> rcases offset with _ | m <;>
    simp [boundsWords, ClauseWord.text, hnumber, hword]

/-- Words of bounds are read as what they are. -/
theorem map_ofChars {ws : List ClauseWord} (h : ws.all (·.isLegible) = true) :
    (ws.map (·.text)).map (fun w => ClauseWord.ofChars w.toList) = ws := by
  rw [List.map_map]
  refine (List.map_congr_left fun w hw => ?_).trans (List.map_id ws)
  exact ClauseWord.ofChars_text (List.all_eq_true.mp h w hw)

include hk

theorem hasWords_boundsText :
    HasWords k (b.boundsText style) ((b.boundsWords style).map (·.text)) := by
  refine .of_isOrdinary hk ?_ (b.isOrdinary_boundsWords style)
  rw [b.toList_boundsText, List.flatMap_map]
  refine List.flatMap_congr fun w hw => ?_
  have hordinary := List.all_eq_true.mp (b.isOrdinary_boundsWords style) _
    (List.mem_map_of_mem hw)
  exact (spaced_of_isWord hk (isWord_of_isOrdinary hk hordinary)).symm

variable {b}

/-- The condition is read back from its words. -/
theorem IsLegible.exists_filter (h : b.IsLegible k) :
    ∃ clause, HasWords k b.filterText (clauseOf ["WHERE"] clause) ∧
      (∀ ws ∈ clause, ∀ w ∈ ws, startsClause w = false) ∧ clause.map joined = b.filter := by
  rw [filterText]
  cases hfilter : b.filter with
  | none => exact ⟨none, .nil, nofun, rfl⟩
  | some text =>
    obtain ⟨ws, hws, hfree⟩ := h.filter text hfilter
    have hwhere : HasWords k " WHERE" ["WHERE"] := .of_isOrdinary hk rfl rfl
    refine ⟨some ws, (hwhere.append hws).of_toList (by simp), ?_, congrArg some hws.joined_eq⟩
    rintro _ ⟨⟩ w hw
    exact startsClause_of_not_mem (of_isReserved (hfree w hw)).2.2

/-- The ordering is read back from its words. -/
theorem IsLegible.exists_order (h : b.IsLegible k) :
    ∃ clause, HasWords k b.orderText (clauseOf ["ORDER", "BY"] clause) ∧
      (∀ ws ∈ clause, ∀ w ∈ ws, startsClause w = false) ∧
      ((clause.map (·.splitOn ",")).getD []).mapM OrderItem.ofWords?
        = some (b.order.map (·.shown)) := by
  rw [orderText]
  cases horder : b.order with
  | nil => exact ⟨none, .nil, nofun, rfl⟩
  | cons i is =>
    obtain ⟨ws, words, hws, hfree, hsplit, hread⟩ := exists_items (List.cons_ne_nil i is)
      fun j hj => OrderItem.exists_words hk (h.order j (horder ▸ hj))
    have hby : HasWords k " ORDER BY" ["ORDER", "BY"] := .of_isOrdinary hk rfl rfl
    refine ⟨some ws, ?_, ?_, ?_⟩
    · rw [if_neg (by simp)]
      exact (hby.append hws).of_toList (by simp)
    · rintro _ ⟨⟩ w hw
      exact startsClause_of_not_mem (hfree w hw)
    · rw [Option.map_some, Option.getD_some, hsplit, OrderItem.mapM_ofWords? hread]

omit hk in
/-- What stands before the words of a select list is told apart from them. -/
theorem takeWords_list {ws : List String} (hws : ∀ w ∈ ws, w ∉ frameWords) :
    takeWords "DISTINCT" 1
        (b.distinctWords ++ ((b.topWords style).map (·.text) ++ ws))
      = (b.distinctWords, (b.topWords style).map (·.text) ++ ws) ∧
    takeWords "TOP" 2 ((b.topWords style).map (·.text) ++ ws)
      = ((b.topWords style).map (·.text), ws) := by
  have hhead : ∀ word ∈ frameWords, ws.head? ≠ some word := fun word hword heq =>
    hws word (List.mem_of_head? heq) hword
  obtain ⟨-, htop⟩ | ⟨n, -, htop⟩ := b.top_cases style
  · rw [htop]
    exact ⟨takeWords_append b.distinctWords_cases (hhead _ (by decide)),
      takeWords_append (.inl rfl) (hhead _ (by decide))⟩
  · rw [htop]
    exact ⟨takeWords_append b.distinctWords_cases (by simp [ClauseWord.text]),
      takeWords_append (.inr ⟨rfl, rfl⟩) (hhead _ (by decide))⟩

/-- The words of a select list with what stands before it. -/
theorem hasWords_list {text : String} {ws : List String} (hws : HasWords k (" " ++ text) ws) :
    HasWords k (" " ++ ((if b.distinct then "DISTINCT " else "") ++ b.topText style ++ text))
      (b.distinctWords ++ ((b.topWords style).map (·.text) ++ ws)) := by
  have htop : HasWords k (" " ++ (b.topText style ++ text))
      ((b.topWords style).map (·.text) ++ ws) := by
    obtain ⟨htext, htop⟩ | ⟨n, htext, htop⟩ := b.top_cases style
    · rwa [htext, htop, String.empty_append, List.map_nil, List.nil_append]
    · have hbound : HasWords k " TOP" ["TOP"] := .of_isOrdinary hk rfl rfl
      have hnumber : HasWords k (" " ++ toString n) [toString n] :=
        .word hk (isWord_of_isOrdinary hk (isOrdinary_of_isSpelled (isSpelled_toString n)))
      rw [htext, htop]
      exact ((hbound.append hnumber).append hws).of_toList (by simp)
  rw [distinctWords, String.append_assoc]
  cases b.distinct with
  | false => exact htop
  | true =>
    have hdistinct : HasWords k " DISTINCT" ["DISTINCT"] := .of_isOrdinary hk rfl rfl
    rw [if_pos rfl, if_pos rfl]
    exact (hdistinct.append htop).of_toList (by simp)

/-- The select list is read back from its words. -/
theorem IsLegible.exists_columns (h : b.IsLegible k) :
    ∃ ws, HasWords k (" " ++ b.columnsText) ws ∧ (∀ w ∈ ws, w ∉ frameWords) ∧
      (ws.splitOn ",").map SelectColumn.ofWords = b.shown.columns := by
  have hshown : b.shown.columns = if b.columns.isEmpty then [.every] else b.columns := rfl
  -- an empty list is written like that of every column
  obtain ⟨hne, htext, hlegible⟩ : b.shown.columns ≠ [] ∧
      b.columnsText = String.intercalate ", " (b.shown.columns.map (·.toSql)) ∧
      ∀ column ∈ b.shown.columns, column.IsLegible k := by
    rw [hshown, columnsText]
    cases hcolumns : b.columns with
    | nil => exact ⟨List.cons_ne_nil _ _, rfl, List.forall_mem_singleton.mpr trivial⟩
    | cons column rest =>
      have hcolumnsLegible := h.columns
      rw [hcolumns] at hcolumnsLegible
      exact ⟨List.cons_ne_nil _ _, rfl, hcolumnsLegible⟩
  obtain ⟨ws, words, hws, hfree, hsplit, hread⟩ := exists_items hne fun column hcolumn =>
    (hlegible column hcolumn).exists_words hk
  refine ⟨ws, htext ▸ hws, hfree, ?_⟩
  rw [hsplit, List.map_map]
  exact (List.map_congr_left hread).trans (List.map_id _)

/-- **A body is read back from the words of its select.** -/
theorem IsLegible.exists_clauses (h : b.IsLegible k) {source : String} {ws : List String}
    (hsource : HasWords k (" " ++ source) ws) (hws : ∀ w ∈ ws, startsClause w = false) :
    ∃ clauses : SelectWords, clauses.IsLegible ∧ clauses.source = some ws ∧
      HasWords k (" " ++ b.toSql style source) clauses.words ∧
      clauses.body? style = some b.shown := by
  obtain ⟨columns, hcolumns, hcolumnsFree, hcolumnsRead⟩ := h.exists_columns hk
  obtain ⟨filter, hfilter, hfilterFree, hfilterRead⟩ := h.exists_filter hk
  obtain ⟨order, horder, horderFree, horderRead⟩ := h.exists_order hk
  have hlist := hasWords_list hk (b := b) style hcolumns
  obtain ⟨hdistinct, htop⟩ := takeWords_list (b := b) style hcolumnsFree
  have hbounds := b.hasWords_boundsText hk style
  have hselect : HasWords k " SELECT" ["SELECT"] := .of_isOrdinary hk rfl rfl
  have hfrom : HasWords k " FROM" ["FROM"] := .of_isOrdinary hk rfl rfl
  set list := b.distinctWords ++ ((b.topWords style).map (·.text) ++ columns) with hlistWords
  refine ⟨⟨some list, some ws, filter, order, (b.boundsWords style).map (·.text)⟩,
    ⟨?_, ?_, hfilterFree, horderFree, b.head?_boundsWords style⟩, rfl, ?_, ?_⟩
  · rintro _ ⟨⟩ w hw
    rw [hlistWords, ← List.append_assoc] at hw
    obtain hw | hw := List.mem_append.mp hw
    · exact b.startsClause_front style w hw
    · exact startsClause_of_not_mem (hcolumnsFree w hw)
  · rintro _ ⟨⟩
    exact hws
  · have hall := (hselect.append hlist).append
      ((hfrom.append hsource).append (hfilter.append (horder.append hbounds)))
    refine hall.of_toList ?_
    unfold toSql
    simp
  · rw [SelectWords.body?]
    dsimp only
    rw [Option.bind_eq_bind, Option.bind_some, hdistinct]
    dsimp only
    rw [htop]
    dsimp only
    rw [horderRead, Option.bind_eq_bind, Option.bind_some, map_ofChars (b.isLegible_topWords style),
      map_ofChars (b.isLegible_boundsWords style), b.ofWords?_written style, Option.bind_eq_bind,
      Option.bind_some, hcolumnsRead, hfilterRead, b.isEmpty_distinctWords, Bool.not_not]
    rfl

/-- The words of a page of distinct names. -/
example : (SelectWords.ofWords ["SELECT", "DISTINCT", "[name]", "AS", "[Name]", ",", "[id]", "FROM",
      "[users]", "WHERE", "[age]", ">", "@p0_age", "ORDER", "BY", "[id]", "ASC",
      "LIMIT", "2", "OFFSET", "4"]).body? .atEnd
    = some {
        distinct := true
        columns := [.expr "[name]" (some "[Name]"), .expr "[id]" none]
        filter := some "[age] > @p0_age"
        order := [⟨"[id]", "[id]", true⟩]
        limit := some 2
        offset := some 4 } := by
  decide

end SelectBody

end EntitySql
