import EntitySql.Proofs.ConnectionPool

/-!
# Bind values that come back

A bind value is stored in the storage class that `Stored.ofValue` chooses for it, and what is stored
is read without knowing which value it was: the types of `ReadType` are tried in turn, and the first
that fits the storage class decides (`Stored.toValue?_eq_decoded`). So a value comes back only if
the class in which it is stored leads to a type of its own kind.

The main statement, `PoolEngine.query_comesBack_iff`, is about an engine over any pool. One
statement binds values, and a query, of the same statement or of a later one, gives a row in which
the database hands them back (`StoredRow.HandsBack`). The statement says which of them are read as
they were bound (`Value.isKept`): null, all texts, all doubles, and the integers that fit a signed
word. An unsigned word above these is stored as the nearest double, and no double is equal to an
integer (`query_lastUnsigned`). The embedded database hands back the slots that it is asked to
select (`Statement.SelectsSlots.handsBack`).
-/

namespace EntitySql

/-! ### Types that are tried -/

/-- The types as which a stored value may be read. -/
inductive ReadType where
  | text
  | integer
  | real
  | bool
  | bytes

namespace ReadType

/-- The types in the order in which they are tried. -/
def order : List ReadType :=
  [text, integer, real, bool, bytes]

/-- Reads a stored value as a type, if its storage class allows it. An infinite real is read, but
has no value. -/
def read? : ReadType → Stored → Option (Option Value)
  | text, .text data => (String.fromUTF8? data).map fun s => some (.text s)
  | integer, .integer i => some (some (.number (.ofInt64 i)))
  | real, .real x => some ((Number.ofDouble? x).map .number)
  | bool, .integer i => some (some (.bool (i != 0)))
  | bytes, .text data => some (some (.text (Base64.encode data)))
  | bytes, .blob data => some (some (.text (Base64.encode data)))
  | _, _ => none

end ReadType

namespace Stored

/-- A stored value by the first type that it can be read as, and null if there is none. -/
def decoded (s : Stored) : Option Value :=
  (ReadType.order.findSome? (·.read? s)).getD (some .null)

theorem toValue?_eq_decoded (s : Stored) : s.toValue? = s.decoded := by
  cases s with
  | null => rfl
  | integer i => rfl
  | real x => rfl
  | blob bytes => rfl
  | text bytes =>
    -- a text that is not valid UTF-8 passes all types up to the bytes
    cases h : String.fromUTF8? bytes <;>
      simp [toValue?, decoded, ReadType.order, ReadType.read?, h]

/-! ### Values that are kept -/

theorem toValue?_ofText (s : String) : (ofText s).toValue? = some (.text s) := by
  have hutf8 : String.fromUTF8? s.toUTF8 = some s := by
    rw [String.fromUTF8?, String.toUTF8_eq_toByteArray, dif_pos s.isValidUTF8]
    rfl
  rw [ofText, toValue?, hutf8, Option.getD_some]

theorem ofInt64_ofInt {i : Int} (inRange : fitsWord i = true) (h : fitsSigned i = true) :
    Number.ofInt64 (Int64.ofInt i) = .int i inRange := by
  obtain ⟨hlow, hhigh⟩ := fitsSigned_iff.mp h
  rw [leastSigned] at hlow
  rw [greatestSigned] at hhigh
  have htoInt : (Int64.ofInt i).toInt = i := Int64.toInt_ofInt_of_le (by omega) (by omega)
  simp only [Number.ofInt64, htoInt]

end Stored

namespace Value

/-- The kinds of values that come back. An integer does if it fits a signed word. -/
def isKept : Value → Bool
  | null => true
  | text _ => true
  | number (.float _ _) => true
  | number (.int i _) => decide (i ≤ greatestSigned)
  | bool _ => false
  | array _ => false
  | object _ => false

/-- Integers in the joint range of the words are never too small for a signed word. -/
theorem isKept_int {i : Int} (inRange : fitsWord i = true) :
    (number (.int i inRange)).isKept = fitsSigned i := by
  have hlow : leastSigned ≤ i := (fitsWord_iff.mp inRange).1
  simp [isKept, fitsSigned, hlow]

end Value

namespace Stored

/-- A value that is kept comes back as it is. -/
theorem toValue?_ofValue {v : Value} (h : v.isKept = true) : (ofValue v).toValue? = some v := by
  cases v with
  | null => rfl
  | text s => exact toValue?_ofText s
  | number n =>
    cases n with
    | float x finite =>
      simp only [ofValue, ofNumber, toValue?, Number.ofDouble?, dif_pos finite, Option.map_some]
    | int i inRange =>
      have hfits : fitsSigned i = true := Value.isKept_int inRange ▸ h
      simp only [ofValue, ofNumber, if_pos hfits, toValue?, ofInt64_ofInt inRange hfits]
  | bool b => cases h
  | array items => cases h
  | object entries => cases h

/-- Any other value is read as a value of another kind. -/
theorem same_eq_false_of_toValue? {v w : Value} (h : v.isKept = false)
    (hw : (ofValue v).toValue? = some w) : w.same v = false := by
  cases v with
  | null => cases h
  | text s => cases h
  | bool b =>
    obtain rfl : Value.number (.ofInt64 (if b then 1 else 0)) = w := Option.some.inj hw
    rfl
  | array items =>
    rw [ofValue, toValue?_ofText] at hw
    obtain rfl := Option.some.inj hw
    rfl
  | object entries =>
    rw [ofValue, toValue?_ofText] at hw
    obtain rfl := Option.some.inj hw
    rfl
  | number n =>
    cases n with
    | float x finite => cases h
    | int i inRange =>
      have hlarge : ¬ fitsSigned i = true := by
        rw [← Value.isKept_int inRange, h]
        exact Bool.false_ne_true
      simp only [ofValue, ofNumber, if_neg hlarge, toValue?] at hw
      obtain ⟨n, hn, rfl⟩ := Option.map_eq_some_iff.mp hw
      obtain ⟨finite, rfl⟩ : ∃ finite, .float _ finite = n := by
        simpa [Number.ofDouble?, Option.dite_none_right_eq_some] using hn
      rfl

theorem exists_same_iff (v : Value) :
    (∃ w, (ofValue v).toValue? = some w ∧ w.same v = true) ↔ v.isKept = true := by
  constructor
  · rintro ⟨w, hw, hsame⟩
    cases hkept : v.isKept with
    | true => rfl
    | false =>
      rw [same_eq_false_of_toValue? hkept hw] at hsame
      cases hsame
  · exact fun h => ⟨v, toValue?_ofValue h, v.same_refl⟩

end Stored

/-! ### Rows of stored columns -/

namespace Row

theorem value?_erase (r : Row) (column other : String) :
    (r.erase column).value? other = if other = column then none else r.value? other := by
  obtain ⟨entries⟩ := r
  change (entries.filter fun entry => entry.1 != column).lookup other = _
  induction entries with
  | nil => simp [value?, Record.find?]
  | cons entry rest ih =>
    obtain ⟨k, v⟩ := entry
    simp only [value?, Record.find?] at ih ⊢
    rw [List.filter_cons, List.lookup_cons]
    grind

/-- Puts a stored column into a row, without its value if it has none. -/
def withStored (r : Row) (column : String × Stored) : Row :=
  match column.2.toValue? with
  | some v => r.insert column.1 v
  | none => r.erase column.1

theorem ofStored_eq_foldl (columns : List (String × Stored)) :
    ofStored columns = columns.foldl withStored {} :=
  rfl

theorem value?_withStored (r : Row) (column : String × Stored) (name : String) :
    (r.withStored column).value? name =
      if name = column.1 then column.2.toValue? else r.value? name := by
  rw [withStored]
  split
  · next v hv =>
    split
    · next hname => rw [hname, value?_insert_self, hv]
    · next hname => exact value?_insert_of_ne r v hname
  · next hv => rw [value?_erase, hv]

/-- Columns of other names leave a value as it is. -/
theorem value?_foldl_of_notMem {columns : List (String × Stored)} {name : String}
    (h : name ∉ columns.map Prod.fst) (r : Row) :
    (columns.foldl withStored r).value? name = r.value? name := by
  induction columns generalizing r with
  | nil => rfl
  | cons column rest ih =>
    rw [List.map_cons, List.mem_cons, not_or] at h
    rw [List.foldl_cons, ih h.2, value?_withStored, if_neg h.1]

/-- A row of columns with different names has each of them as it is read. -/
theorem value?_ofStored {columns : List (String × Stored)} (h : (columns.map Prod.fst).Nodup)
    {column : String × Stored} (hmem : column ∈ columns) :
    (ofStored columns).value? column.1 = column.2.toValue? := by
  rw [ofStored_eq_foldl]
  generalize ({} : Row) = r
  induction columns generalizing r with
  | nil => cases hmem
  | cons first rest ih =>
    rw [List.map_cons, List.nodup_cons] at h
    rw [List.foldl_cons]
    cases hmem with
    | head => rw [value?_foldl_of_notMem h.1, value?_withStored, if_pos rfl]
    | tail _ hrest => exact ih h.2 hrest _

end Row

/-! ### Values that are handed back -/

/-- The value that a statement binds to the slot of a number. -/
def Statement.bound? (s : Statement) (number : Nat) : Option Value :=
  s.binds[number - 1]?.map (·.value)

theorem Statement.toStored_bound? {s : Statement} {number : Nat} {v : Value}
    (h : s.bound? number = some v) :
    s.toStored.binds[number - 1]? = some (Stored.ofValue v) := by
  obtain ⟨slot, hslot, rfl⟩ := Option.map_eq_some_iff.mp h
  exact List.getElem?_map.trans (by rw [hslot, Option.map_some])

/-- A row hands back what a statement bound. Its columns have different names, and each item names
one of them, in which the value of a slot has the storage class and the content that it was bound
with. -/
structure StoredRow.HandsBack (row : StoredRow) (bound : StoredStatement)
    (items : List (String × Nat)) : Prop where
  names : (row.map Prod.fst).Nodup
  mem : ∀ i ∈ items, ∀ x, bound.binds[i.2 - 1]? = some x → (i.1, x) ∈ row

/-- A query reads a value that is handed back by the first type that its storage class allows. It is
equal to the value that was bound exactly if that is of a kind that is kept. -/
theorem PoolEngine.query_comesBack_iff {κ σ δ : Type} {P : Pool κ σ δ} {e : PoolEngine P}
    {bound read : Statement} {result : StatementResult} {state : σ}
    (hrun : P.run e.connection read.toStored e.state = (.ok result, state))
    {columns : StoredRow} (hmem : columns ∈ result.rows) {items : List (String × Nat)}
    (hback : columns.HandsBack bound.toStored items) :
    Engine.query read e = (.ok result.toRows, { e with state }) ∧
    ∃ row ∈ result.toRows, ∀ i ∈ items, ∀ v, bound.bound? i.2 = some v →
      row.value? i.1 = (Stored.ofValue v).decoded ∧
      ((∃ w, row.value? i.1 = some w ∧ w.same v = true) ↔ v.isKept = true) := by
  refine ⟨?_, Row.ofStored columns, List.mem_map_of_mem hmem, fun i hi v hv => ?_⟩
  · simp only [Engine.query, PoolEngine.run, hrun]
    rfl
  · have hcolumn := hback.mem i hi _ (Statement.toStored_bound? hv)
    rw [Row.value?_ofStored hback.names hcolumn]
    exact ⟨Stored.toValue?_eq_decoded _, Stored.exists_same_iff v⟩

/-! ### Slots that are selected -/

namespace Connection

variable {s : StoredStatement}

/-- A statement of one command succeeds as the command does. -/
theorem run_eq_ok {c c' : Connection} {command : Command} {result : StatementResult}
    (hs : Command.ofText s.sql = [some command]) :
    c.run s = (.ok result, c') ↔ ∃ r, c.runCommand s.binds command = .ok r ∧
      result = { rows := r.rows, affected := (c.afterCommand r).changed } ∧
      c' = c.afterCommand r := by
  simp only [run, hs, runAll]
  cases c.runCommand s.binds command with
  | error fault => simp
  | ok r => simp [eq_comm]

/-- A command that reads is carried out by every connection, and changes nothing. -/
theorem run_of_reads (c : Connection) {command : Command} {rows : List StoredRow}
    (hs : Command.ofText s.sql = [some command]) (h : Database.changes command = false)
    (hrun : c.data.run s.binds command = .ok { rows, database := c.data }) :
    c.run s = (.ok { rows, affected := c.changed }, c) := by
  have hcommand : c.runCommand s.binds command = .ok { rows, database := c.data } := by
    rw [runCommand, h, Bool.and_false]
    exact hrun
  exact (run_eq_ok hs).mpr ⟨_, hcommand, rfl, rfl⟩

end Connection

namespace Statement

/-- The statement selects slots of its own under names. -/
def SelectsSlots (s : Statement) (items : List (String × Nat)) : Prop :=
  Command.ofText s.sql = [some (.select (items.map fun i => (i.1, .slot i.2)))]

instance (s : Statement) (items : List (String × Nat)) : Decidable (s.SelectsSlots items) :=
  inferInstanceAs (Decidable (_ = _))

/-- The columns of slots that are selected. -/
def slotColumns (s : Statement) (items : List (String × Nat)) : StoredRow :=
  items.map fun i => (i.1, Database.slotValue s.toStored.binds i.2)

variable {s : Statement} {items : List (String × Nat)}

/-- A select of slots gives one row. -/
theorem SelectsSlots.run (hs : s.SelectsSlots items) (c : Connection) :
    c.run s.toStored = (.ok { rows := [s.slotColumns items], affected := c.changed }, c) := by
  refine c.run_of_reads hs rfl ?_
  simp only [Database.run, List.map_map, Function.comp_def, Database.itemValue, slotColumns]

theorem handsBack_slotColumns (hnames : (items.map Prod.fst).Nodup) :
    (s.slotColumns items).HandsBack s.toStored items where
  names := by rwa [slotColumns, List.map_map]
  mem i hi x hx := by
    have hvalue : Database.slotValue s.toStored.binds i.2 = x := by
      rw [Database.slotValue, hx, Option.getD_some]
    exact hvalue ▸ List.mem_map_of_mem hi

end Statement

/-- A slot of a statement for the embedded database. -/
def storedSlot (column : String) (ordinal : Nat) (value : Value) : BindSlot :=
  { key := ⟨0, column⟩, value, name := "p0_" ++ column, text := "?" ++ toString ordinal, ordinal }

/-- Selects two slots. -/
def twoSlots (v w : Value) : Statement where
  sql := "SELECT ?1 AS a, ?2 AS b"
  binds := [storedSlot "a" 1 v, storedSlot "b" 2 w]

theorem selectsSlots_twoSlots (v w : Value) : (twoSlots v w).SelectsSlots [("a", 1), ("b", 2)] :=
  (by decide +kernel : (twoSlots .null .null).SelectsSlots [("a", 1), ("b", 2)])

theorem handsBack_twoSlots (v w : Value) :
    ((twoSlots v w).slotColumns [("a", 1), ("b", 2)]).HandsBack (twoSlots v w).toStored
      [("a", 1), ("b", 2)] :=
  Statement.handsBack_slotColumns (show ["a", "b"].Nodup by decide)

/-- The greatest signed word. -/
def lastSigned : Value :=
  .number (.int 9223372036854775807 rfl)

/-- The least unsigned word that is no signed one. -/
def firstUnsigned : Value :=
  .number (.int 9223372036854775808 rfl)

/-- The greatest unsigned word. -/
def lastUnsigned : Value :=
  .number (.int 18446744073709551615 rfl)

/-- The embedded database hands both slots back. -/
theorem query_comesBack_lastSigned :
    let s := twoSlots lastSigned firstUnsigned
    let columns := s.slotColumns [("a", 1), ("b", 2)]
    Connection.pool.run () s.toStored {} = (.ok { rows := [columns] }, {}) ∧
    columns.HandsBack s.toStored [("a", 1), ("b", 2)] ∧
    ∃ row, Engine.query s ({} : Connection).pooled = (.ok [row], ({} : Connection).pooled) ∧
      (∃ w, row.value? "a" = some w ∧ w.same lastSigned = true) ∧
      ¬ ∃ w, row.value? "b" = some w ∧ w.same firstUnsigned = true := by
  intro s columns
  have hrun : Connection.pool.run () s.toStored {} = (.ok { rows := [columns] }, {}) :=
    (selectsSlots_twoSlots lastSigned firstUnsigned).run {}
  have hback := handsBack_twoSlots lastSigned firstUnsigned
  obtain ⟨hquery, row, hmem, hrow⟩ := PoolEngine.query_comesBack_iff (e := ({} : Connection).pooled)
    hrun List.mem_cons_self hback
  obtain rfl := List.mem_singleton.mp hmem
  have ha := hrow ("a", 1) List.mem_cons_self _ rfl
  have hb := hrow ("b", 2) (List.mem_cons_of_mem _ List.mem_cons_self) _ rfl
  exact ⟨hrun, hback, _, hquery, ha.2.mpr rfl, fun h => nomatch hb.2.mp h⟩

/-- The greatest unsigned word comes back as two to the power of 64, a double. -/
theorem query_lastUnsigned :
    ∃ row, Engine.query (twoSlots .null lastUnsigned) ({} : Connection) = (.ok [row], {}) ∧
      row.value? "b" = some (.number (.float ⟨0x43F0000000000000⟩ rfl)) ∧
      ¬ ∃ w, row.value? "b" = some w ∧ w.same lastUnsigned = true := by
  let s := twoSlots .null lastUnsigned
  let columns := s.slotColumns [("a", 1), ("b", 2)]
  have hquery : Engine.query s ({} : Connection) = (.ok [Row.ofStored columns], {}) := by
    simp only [Engine.query, (selectsSlots_twoSlots .null lastUnsigned).run {}, s]
    rfl
  have hrounded : Double.ofInt 18446744073709551615 = ⟨0x43F0000000000000⟩ := rfl
  have hstored : Stored.ofValue lastUnsigned = .real ⟨0x43F0000000000000⟩ :=
    congrArg Stored.real hrounded
  have hback := handsBack_twoSlots .null lastUnsigned
  have hcolumn : ("b", .real ⟨0x43F0000000000000⟩) ∈ columns :=
    hback.mem ("b", 2) (List.mem_cons_of_mem _ List.mem_cons_self) _ (congrArg some hstored)
  have hb : (Row.ofStored columns).value? "b"
      = some (.number (.float ⟨0x43F0000000000000⟩ rfl)) :=
    Row.value?_ofStored hback.names hcolumn
  refine ⟨_, hquery, hb, ?_⟩
  rintro ⟨w, hw, hsame⟩
  obtain rfl := Option.some.inj (hb.symm.trans hw)
  cases hsame

end EntitySql
