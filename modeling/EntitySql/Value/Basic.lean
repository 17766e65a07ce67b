import EntitySql.Double.Basic
import EntitySql.Word

/-!
# Bind values

A `Value` is what a bind slot takes, an entity member holds and a result row carries: null, a
boolean, a number, a text, an array, or an object. An object is a `Record`, a list of entries
strictly sorted by key, so that objects written in different orders are the same value.

Numbers are integers or finite doubles, and an integer is never equal to a double: `5` and
`5.0` are different values, while the two zeros among the doubles are one number.
`Value.same` is this equality; it is coarser than equality of the data in that one point only.
-/

namespace EntitySql

/-! ### Numbers -/

/-- A number is an integer in the joint range of the signed and the unsigned 64-bit integers,
or a finite double. -/
inductive Number where
  | int (i : Int) (inRange : fitsWord i = true)
  | float (x : Double) (finite : x.isFinite = true)
deriving DecidableEq, Repr

namespace Number

/-- The integer as a number, when it is in range. -/
def ofInt? (i : Int) : Option Number :=
  if h : fitsWord i = true then some (.int i h) else none

/-- The double as a number, when it is finite. -/
def ofDouble? (x : Double) : Option Number :=
  if h : x.isFinite = true then some (.float x h) else none

/-- Integers agree as integers and doubles as numbers; an integer and a double never agree. -/
def same : Number → Number → Bool
  | .int i _, .int j _ => i == j
  | .float x _, .float y _ => x.sameNumber y
  | _, _ => false

/-- The number as a double: an integer is rounded to the nearest one. -/
def toDouble : Number → Double
  | .int i _ => Double.ofInt i
  | .float x _ => x

end Number

/-! ### Values -/

/-- A bind value. The entries of an object are kept strictly sorted by key. -/
inductive Value where
  | null
  | bool (b : Bool)
  | number (n : Number)
  | text (s : String)
  | array (items : List Value)
  | object (entries : List (String × Value))
deriving Repr, Inhabited

/-- Members or columns with their values, strictly sorted by key. -/
abbrev Record := List (String × Value)

/-- A key is found exactly if some entry has it. -/
theorem isSome_lookup_iff {α β : Type} [DecidableEq α] {entries : List (α × β)} {key : α} :
    (entries.lookup key).isSome = true ↔ key ∈ entries.map Prod.fst := by
  rw [List.lookup_isSome_iff, List.mem_map]
  exact ⟨fun ⟨entry, hmem, hkey⟩ => ⟨entry, hmem, (beq_iff_eq.mp hkey).symm⟩,
    fun ⟨entry, hmem, hkey⟩ => ⟨entry, hmem, beq_iff_eq.mpr hkey.symm⟩⟩

namespace Record

/-- The value stored under a key. -/
def find? (r : Record) (key : String) : Option Value :=
  List.lookup key r

/-- Stores a value under a key, in the place of an earlier one if there is one. -/
def insert (key : String) (value : Value) : Record → Record
  | [] => [(key, value)]
  | (k, v) :: rest =>
    if key < k then (key, value) :: (k, v) :: rest
    else if key = k then (key, value) :: rest
    else (k, v) :: insert key value rest

/-- Removes the entry of a key. -/
def erase (key : String) (r : Record) : Record :=
  r.filter fun entry => entry.1 != key

/-- The record of a list of entries, of which a later one replaces an earlier one. -/
def ofEntries (entries : List (String × Value)) : Record :=
  entries.foldl (fun r entry => insert entry.1 entry.2 r) []

/-- The keys increase strictly. -/
def Sorted (r : Record) : Prop :=
  r.Pairwise fun a b => a.1 < b.1

theorem mem_insert {r : Record} {key : String} {value : Value} {entry : String × Value}
    (h : entry ∈ insert key value r) : entry = (key, value) ∨ entry ∈ r := by
  induction r with
  | nil => simpa [insert] using h
  | cons first rest ih =>
    simp only [insert] at h
    split at h
    · simpa using h
    · split at h
      · rcases List.mem_cons.1 h with rfl | h
        · exact .inl rfl
        · exact .inr (List.mem_cons_of_mem _ h)
      · rcases List.mem_cons.1 h with rfl | h
        · exact .inr List.mem_cons_self
        · exact (ih h).imp_right (List.mem_cons_of_mem _)

theorem Sorted.insert {r : Record} (hr : r.Sorted) (key : String) (value : Value) :
    (Record.insert key value r).Sorted := by
  induction r with
  | nil => simp [Record.insert, Sorted]
  | cons first rest ih =>
    obtain ⟨k, v⟩ := first
    obtain ⟨hfirst, hrest⟩ := List.pairwise_cons.1 hr
    simp only [Record.insert]
    split
    · next hlt =>
      refine List.pairwise_cons.2 ⟨fun entry he => ?_, hr⟩
      rcases List.mem_cons.1 he with rfl | he
      · exact hlt
      · exact String.lt_trans hlt (hfirst entry he)
    · next hnot =>
      split
      · next heq =>
        subst heq
        exact List.pairwise_cons.2 ⟨hfirst, hrest⟩
      · next hne =>
        refine List.pairwise_cons.2 ⟨fun entry he => ?_, ih hrest⟩
        rcases mem_insert he with rfl | he
        · exact Decidable.byContradiction fun h =>
            hne (String.le_antisymm (String.not_lt.1 h) (String.not_lt.1 hnot))
        · exact hfirst entry he

theorem Sorted.erase {r : Record} (hr : r.Sorted) (key : String) : (Record.erase key r).Sorted :=
  List.Pairwise.filter _ hr

theorem sorted_ofEntries (entries : List (String × Value)) : (ofEntries entries).Sorted := by
  suffices ∀ r : Record, r.Sorted →
      (entries.foldl (fun r entry => Record.insert entry.1 entry.2 r) r).Sorted from
    this [] List.Pairwise.nil
  induction entries with
  | nil => exact fun _ h => h
  | cons entry rest ih => exact fun r h => ih _ (h.insert entry.1 entry.2)

theorem find?_insert_self (r : Record) (key : String) (value : Value) :
    (insert key value r).find? key = some value := by
  induction r with
  | nil => simp [insert, find?]
  | cons entry rest ih =>
    obtain ⟨k, v⟩ := entry
    simp only [insert]
    split
    · simp [find?]
    · split
      · simp [find?]
      · next h =>
        have hne : (key == k) = false := by simpa using h
        simpa [find?, List.lookup_cons, hne] using ih

theorem find?_insert_of_ne (r : Record) {key other : String} (value : Value) (h : other ≠ key) :
    (insert key value r).find? other = r.find? other := by
  have hk : (other == key) = false := by simpa using h
  induction r with
  | nil => simp [insert, find?, List.lookup_cons, hk]
  | cons entry rest ih =>
    obtain ⟨k, v⟩ := entry
    simp only [insert]
    split
    · simp [find?, List.lookup_cons, hk]
    · split
      · next e => simp [find?, List.lookup_cons, ← e, hk]
      · simp only [find?, List.lookup_cons] at ih ⊢
        split <;> simp_all

end Record

namespace Value

/-- The object with the given entries, of which a later one replaces an earlier one. -/
def ofEntries (entries : List (String × Value)) : Value :=
  .object (Record.ofEntries entries)

mutual

/-- Equality of values: structural, with numbers compared as numbers. -/
def same : Value → Value → Bool
  | .null, .null => true
  | .bool a, .bool b => a == b
  | .number m, .number n => m.same n
  | .text s, .text t => s == t
  | .array xs, .array ys => sameItems xs ys
  | .object xs, .object ys => sameEntries xs ys
  | _, _ => false

/-- Arrays are equal item by item. -/
def sameItems : List Value → List Value → Bool
  | [], [] => true
  | x :: xs, y :: ys => same x y && sameItems xs ys
  | _, _ => false

/-- Sorted entries are equal entry by entry. -/
def sameEntries : List (String × Value) → List (String × Value) → Bool
  | [], [] => true
  | (k, x) :: xs, (l, y) :: ys => k == l && same x y && sameEntries xs ys
  | _, _ => false

end

/-- The null value. -/
def isNull : Value → Bool
  | .null => true
  | _ => false

/-- The integer as a value, when it is in range. -/
def ofInt? (i : Int) : Option Value :=
  (Number.ofInt? i).map .number

end Value

/-! ### Laws of the equality -/

theorem Double.sameNumber_refl (x : Double) : x.sameNumber x = true := by
  simp [Double.sameNumber]

theorem Double.sameNumber_comm (x y : Double) : x.sameNumber y = y.sameNumber x := by
  simp only [Double.sameNumber, Bool.and_comm x.isZero, BEq.comm (a := x)]

theorem Number.same_refl (n : Number) : n.same n = true := by
  cases n <;> simp [Number.same, Double.sameNumber_refl]

theorem Number.same_comm (m n : Number) : m.same n = n.same m := by
  cases m <;> cases n <;> simp only [Number.same, BEq.comm (α := Int), Double.sameNumber_comm]

mutual

theorem Value.same_refl : ∀ v : Value, v.same v = true
  | .null => rfl
  | .bool b => by simp [Value.same]
  | .number n => by simp [Value.same, Number.same_refl]
  | .text s => by simp [Value.same]
  | .array xs => by simpa [Value.same] using Value.sameItems_refl xs
  | .object xs => by simpa [Value.same] using Value.sameEntries_refl xs

theorem Value.sameItems_refl : ∀ xs : List Value, Value.sameItems xs xs = true
  | [] => rfl
  | x :: xs => by simp [Value.sameItems, Value.same_refl x, Value.sameItems_refl xs]

theorem Value.sameEntries_refl : ∀ xs : List (String × Value), Value.sameEntries xs xs = true
  | [] => rfl
  | (k, x) :: xs => by
    simp [Value.sameEntries, Value.same_refl x, Value.sameEntries_refl xs]

end

theorem Double.sameNumber_trans {x y z : Double} (hxy : x.sameNumber y = true)
    (hyz : y.sameNumber z = true) : x.sameNumber z = true := by
  simp only [Double.sameNumber, Bool.or_eq_true, beq_iff_eq, Bool.and_eq_true] at *
  obtain rfl | ⟨hx, hy⟩ := hxy
  · exact hyz
  · obtain rfl | ⟨-, hz⟩ := hyz
    · exact .inr ⟨hx, hy⟩
    · exact .inr ⟨hx, hz⟩

theorem Number.same_trans {m n k : Number} (hmn : m.same n = true) (hnk : n.same k = true) :
    m.same k = true := by
  cases m <;> cases n <;> cases k <;> simp only [Number.same, beq_iff_eq, Bool.false_eq_true] at *
  · exact hmn.trans hnk
  · exact Double.sameNumber_trans hmn hnk

mutual

theorem Value.same_trans : ∀ u v w : Value, u.same v = true → v.same w = true → u.same w = true
  | .null, v, w, h, h' => by
    cases v with
    | null => exact h'
    | _ => cases h
  | .bool b, v, w, h, h' => by
    cases v with
    | bool b' =>
      obtain rfl : b = b' := eq_of_beq h
      exact h'
    | _ => cases h
  | .number n, v, w, h, h' => by
    cases v <;> cases w <;> simp only [Value.same, Bool.false_eq_true] at *
    exact Number.same_trans h h'
  | .text s, v, w, h, h' => by
    cases v with
    | text s' =>
      obtain rfl : s = s' := eq_of_beq h
      exact h'
    | _ => cases h
  | .array xs, v, w, h, h' => by
    cases v <;> cases w <;> simp only [Value.same, Bool.false_eq_true] at *
    exact Value.sameItems_trans xs _ _ h h'
  | .object xs, v, w, h, h' => by
    cases v <;> cases w <;> simp only [Value.same, Bool.false_eq_true] at *
    exact Value.sameEntries_trans xs _ _ h h'

theorem Value.sameItems_trans : ∀ xs ys zs : List Value, Value.sameItems xs ys = true →
    Value.sameItems ys zs = true → Value.sameItems xs zs = true
  | [], [], zs, _, h' => h'
  | x :: xs, y :: ys, z :: zs, h, h' => by
    simp only [Value.sameItems, Bool.and_eq_true] at *
    exact ⟨Value.same_trans x y z h.1 h'.1, Value.sameItems_trans xs ys zs h.2 h'.2⟩

theorem Value.sameEntries_trans : ∀ xs ys zs : List (String × Value),
    Value.sameEntries xs ys = true → Value.sameEntries ys zs = true →
    Value.sameEntries xs zs = true
  | [], [], zs, _, h' => h'
  | (k, x) :: xs, (l, y) :: ys, (m, z) :: zs, h, h' => by
    simp only [Value.sameEntries, Bool.and_eq_true, beq_iff_eq] at *
    exact ⟨⟨h.1.1.trans h'.1.1, Value.same_trans x y z h.1.2 h'.1.2⟩,
      Value.sameEntries_trans xs ys zs h.2 h'.2⟩

end

/-- Equal values are both null or both not null. -/
theorem Value.isNull_eq_of_same {v w : Value} (h : v.same w = true) : v.isNull = w.isNull := by
  cases v <;> cases w <;> simp_all [Value.same, Value.isNull]

end EntitySql
