import EntitySql.BindTable
import Mathlib.Data.List.Nodup
import Mathlib.Data.List.Perm.Subperm

/-!
# Bind tables that are reached by binding

A bind table grows by requests alone: `BindTable.bindAll` makes a list of them in turn, and
`BindTable.Grows` is its reachability relation. Growing keeps the index and the earlier slots
(`Grows.isPrefix`), so a slot that stands in a text already keeps its place and its value.

`BindTable.Sound` is what growing preserves. The names of the slots are pairwise different,
because `freshNumber` looks at one number more than there are names (`numberedName_not_mem`), and
so are their positions. Hence their texts are, in a dialect that tells slots apart by name or by
position (`Sound.nodup_texts`). That is why the text of a slot determines the value that it stands
for (`Sound.valueOf?_text`).
-/

namespace EntitySql

/-! ### Fresh names -/

/-- Numbers are read back from their digits. -/
theorem toString_nat_injective : Function.Injective (toString : Nat → String) := by
  intro m n h
  have hdigits : Nat.toDigits 10 m = Nat.toDigits 10 n := by
    simpa [Nat.toString_eq_repr] using congrArg String.toList h
  rw [← Nat.ofDigitChars_ten_toDigits (n := m), hdigits, Nat.ofDigitChars_ten_toDigits]

/-- The dialect tells slots apart that differ in name and position. -/
def Dialect.TellsSlotsApart (d : Dialect) : Prop :=
  ∀ name other ordinal position, name ≠ other → ordinal ≠ position →
    d.slotText name ordinal ≠ d.slotText other position

theorem namedSlot_ne (mark : Char) {name other : String} (h : name ≠ other)
    (ordinal position : Nat) : namedSlot mark name ordinal ≠ namedSlot mark other position :=
  fun heq => h (by simpa [namedSlot] using heq)

theorem numberedSlot_ne (mark : Char) (name other : String) {ordinal position : Nat}
    (h : ordinal ≠ position) : numberedSlot mark name ordinal ≠ numberedSlot mark other position :=
  fun heq => h (toString_nat_injective (by simpa [numberedSlot] using heq))

theorem BuiltinDialect.tellsSlotsApart (b : BuiltinDialect) : b.dialect.TellsSlotsApart := by
  intro name other ordinal position hname hordinal
  cases b with
  | sqlServer => exact namedSlot_ne '@' hname ordinal position
  | sqlServer2000 => exact namedSlot_ne '@' hname ordinal position
  | sqlite => exact numberedSlot_ne '?' name other hordinal
  | postgres => exact numberedSlot_ne '$' name other hordinal

/-- Different numbers give different names. -/
theorem numberedName_injective (base : String) : Function.Injective (numberedName base) := by
  intro m n h
  have hlist := congrArg String.toList h
  by_cases hm : m = 0 <;> by_cases hn : n = 0
  · rw [hm, hn]
  · simp [numberedName, hm, hn] at hlist
  · simp [numberedName, hm, hn] at hlist
  · exact toString_nat_injective (by simpa [numberedName, hm, hn] using h)

/-- Among one more numbers than there are names taken, one has a free name. -/
theorem exists_free_number (base : String) (taken : List String) (start : Nat) :
    ∃ n ∈ List.range' start (taken.length + 1), numberedName base n ∉ taken := by
  by_contra hall
  push Not at hall
  -- otherwise `taken` would hold more names than it has entries
  have hsub : (List.range' start (taken.length + 1)).map (numberedName base) ⊆ taken := by
    intro name hname
    obtain ⟨n, hn, rfl⟩ := List.mem_map.mp hname
    exact hall n hn
  have hnodup : ((List.range' start (taken.length + 1)).map (numberedName base)).Nodup :=
    List.Nodup.map (numberedName_injective base) List.nodup_range'
  have hlength := (hnodup.subperm hsub).length_le
  rw [List.length_map, List.length_range'] at hlength
  omega

/-- The name of a fresh number is not taken. -/
theorem numberedName_not_mem (base : String) (taken : List String) (start : Nat) :
    numberedName base (freshNumber base taken start) ∉ taken := by
  obtain ⟨m, hm, hfree⟩ := exists_free_number base taken start
  rw [freshNumber]
  cases hfind : (List.range' start (taken.length + 1)).find? fun n =>
      !taken.contains (numberedName base n) with
  | none =>
    rw [List.find?_eq_none] at hfind
    exact absurd (hfind m hm) (by simpa using hfree)
  | some n =>
    have hn := List.find?_some hfind
    simpa using hn

/-! ### Spelling -/

/-- The text is made of ASCII letters, digits and underscores. -/
def IsSpelled (text : String) : Prop :=
  ∀ c ∈ text.toList, isNameRest c = true

theorem isSpelled_of_all {s : String} (h : s.toList.all isNameRest = true) : IsSpelled s :=
  List.all_eq_true.mp h

theorem IsSpelled.append {s t : String} (hs : IsSpelled s) (ht : IsSpelled t) :
    IsSpelled (s ++ t) := by
  intro c hc
  rw [String.toList_append, List.mem_append] at hc
  exact hc.elim (hs c) (ht c)

theorem isNameRest_of_isDigit {c : Char} (h : c.isDigit = true) : isNameRest c = true := by
  simp [isNameRest, Char.isAlphanum, h]

theorem isDigit_of_mem_toString {n : Nat} {c : Char} (h : c ∈ (toString n).toList) :
    c.isDigit = true := by
  rw [Nat.toString_eq_repr, Nat.toList_repr] at h
  exact Nat.isDigit_of_mem_toDigits (by decide) (by decide) h

theorem isSpelled_toString (n : Nat) : IsSpelled (toString n) :=
  fun _ hc => isNameRest_of_isDigit (isDigit_of_mem_toString hc)

theorem isSpelled_asName (column : String) : IsSpelled (asName column) := by
  intro c hc
  simp only [asName, String.toList_ofList, List.mem_map] at hc
  obtain ⟨ch, -, rfl⟩ := hc
  split
  · assumption
  · rfl

theorem isSpelled_numberedName {base : String} (hbase : IsSpelled base) (n : Nat) :
    IsSpelled (numberedName base n) := by
  rw [numberedName]
  split
  · exact hbase
  · exact (hbase.append (isSpelled_of_all rfl)).append (isSpelled_toString n)

namespace BindTable

theorem isSpelled_baseName (t : BindTable) (column : String) :
    IsSpelled (t.baseName column) := by
  have hmark : IsSpelled "p" := isSpelled_of_all rfl
  have hbar : IsSpelled "_" := isSpelled_of_all rfl
  exact ((hmark.append (isSpelled_toString t.index)).append hbar).append
    (isSpelled_asName column)

/-! ### Growing -/

/-- Either the table holds the value under the column, or a fresh slot is appended. -/
theorem bind_cases (t : BindTable) (d : Dialect) (column : String) (value : Value) :
    (∃ s ∈ t.slots, s.value.same value = true ∧ t.bind d column value = (s, t)) ∨
      t.bind d column value = (t.freshSlot d column value,
        { t with slots := t.slots ++ [t.freshSlot d column value] }) := by
  rw [bind]
  cases hfind : t.find? column value with
  | none => exact .inr rfl
  | some s =>
    have hmem : s ∈ t.slots := List.mem_of_find?_eq_some hfind
    have hsame := List.find?_some hfind
    rw [Bool.and_eq_true] at hsame
    exact .inl ⟨s, hmem, hsame.2, rfl⟩

/-- The table after a list of requests, each for a column and a value. -/
def bindAll (d : Dialect) (t : BindTable) (requests : List (String × Value)) : BindTable :=
  requests.foldl (fun t request => (t.bind d request.1 request.2).2) t

theorem bindAll_append (t : BindTable) (d : Dialect) (first second : List (String × Value)) :
    t.bindAll d (first ++ second) = (t.bindAll d first).bindAll d second :=
  List.foldl_append ..

/-- The second table is reached from the first by requests. -/
def Grows (d : Dialect) (t u : BindTable) : Prop :=
  ∃ requests, u = t.bindAll d requests

variable {d : Dialect} {t u v : BindTable}

theorem Grows.refl (t : BindTable) : t.Grows d t :=
  ⟨[], rfl⟩

theorem Grows.trans (htu : t.Grows d u) (huv : u.Grows d v) : t.Grows d v := by
  obtain ⟨first, rfl⟩ := htu
  obtain ⟨second, rfl⟩ := huv
  exact ⟨first ++ second, (bindAll_append ..).symm⟩

/-- More requests are made after the first ones. -/
theorem grows_append (t : BindTable) (d : Dialect) (first second : List (String × Value)) :
    (t.bindAll d first).Grows d (t.bindAll d (first ++ second)) :=
  ⟨second, bindAll_append t d first second⟩

theorem grows_bind (t : BindTable) (d : Dialect) (column : String) (value : Value) :
    t.Grows d (t.bind d column value).2 :=
  ⟨[(column, value)], rfl⟩

/-- What one request preserves is preserved by growing. -/
theorem Grows.induction {motive : BindTable → Prop} (h : t.Grows d u) (base : motive t)
    (step : ∀ t column value, motive t → motive (t.bind d column value).2) : motive u := by
  obtain ⟨requests, rfl⟩ := h
  induction requests generalizing t with
  | nil => exact base
  | cons request rest ih => exact ih (step t request.1 request.2 base)

/-- Earlier slots stay where they are. -/
theorem Grows.isPrefix (h : t.Grows d u) : t.slots <+: u.slots := by
  refine h.induction (motive := fun w => t.slots <+: w.slots) (List.prefix_refl _) ?_
  intro w column value hw
  obtain ⟨s, -, -, hbind⟩ | hbind := bind_cases w d column value
  · rw [hbind]
    exact hw
  · rw [hbind]
    exact hw.trans (List.prefix_append _ _)

/-- A request gives a slot of the new table with an equal value. -/
theorem bind_mem (t : BindTable) (d : Dialect) (column : String) (value : Value) :
    (t.bind d column value).1 ∈ (t.bind d column value).2.slots ∧
      (t.bind d column value).1.value.same value = true := by
  obtain ⟨s, hs, hsame, hbind⟩ | hbind := bind_cases t d column value
  · rw [hbind]
    exact ⟨hs, hsame⟩
  · rw [hbind]
    exact ⟨List.mem_append_right _ (List.mem_singleton_self _), Value.same_refl value⟩

/-! ### Soundness -/

/-- What holds of every bind table that is reached from an empty one. -/
structure Sound (d : Dialect) (t : BindTable) : Prop where
  names : (t.slots.map (·.name)).Nodup
  ordinals : t.slots.map (·.ordinal) = List.range' 1 t.slots.length
  texts : ∀ s ∈ t.slots, s.text = d.slotText s.name s.ordinal
  spelled : ∀ s ∈ t.slots, IsSpelled s.name ∧ s.name ≠ ""

theorem sound_empty (d : Dialect) (index : Nat) : Sound d { index } where
  names := List.nodup_nil
  ordinals := rfl
  texts := by simp
  spelled := by simp

theorem numberedName_ne_empty {base : String} (hbase : base ≠ "") (n : Nat) :
    numberedName base n ≠ "" := by
  rw [numberedName]
  split
  · exact hbase
  · simp

theorem baseName_ne_empty (t : BindTable) (column : String) : t.baseName column ≠ "" := by
  simp [baseName]

/-- Appending a fresh slot keeps a table sound. -/
theorem Sound.append_freshSlot (h : t.Sound d) (column : String) (value : Value) :
    Sound d { t with slots := t.slots ++ [t.freshSlot d column value] } where
  names := by
    have hfresh : (t.freshSlot d column value).name ∉ t.slots.map (·.name) :=
      numberedName_not_mem _ _ _
    rw [List.map_append, List.map_singleton]
    exact List.nodup_append.mpr ⟨h.names, List.nodup_singleton _, fun a ha b hb heq =>
      hfresh (by rw [List.mem_singleton.mp hb] at heq; exact heq ▸ ha)⟩
  ordinals := by
    have hone : (t.freshSlot d column value).ordinal = t.slots.length + 1 := rfl
    rw [List.map_append, List.map_singleton, h.ordinals, hone, List.length_append,
      List.length_singleton, List.range'_concat, Nat.one_mul, Nat.add_comm 1]
  texts := by
    intro s hs
    obtain hs | hs := List.mem_append.mp hs
    · exact h.texts s hs
    · rw [List.mem_singleton.mp hs]
      rfl
  spelled := by
    intro s hs
    obtain hs | hs := List.mem_append.mp hs
    · exact h.spelled s hs
    · rw [List.mem_singleton.mp hs]
      exact ⟨isSpelled_numberedName (t.isSpelled_baseName column) _,
        numberedName_ne_empty (t.baseName_ne_empty column) _⟩

/-- One request keeps a table sound. -/
theorem Sound.bind (h : t.Sound d) (column : String) (value : Value) :
    Sound d (t.bind d column value).2 := by
  obtain ⟨s, -, -, hbind⟩ | hbind := bind_cases t d column value
  · rw [hbind]
    exact h
  · rw [hbind]
    exact h.append_freshSlot column value

/-- Growing keeps a table sound. -/
theorem Sound.grows (h : t.Sound d) (hg : t.Grows d u) : u.Sound d :=
  hg.induction h fun _ column value hw => hw.bind column value

/-! ### Values of slots -/

/-- The slots of a sound table have pairwise different texts. -/
theorem Sound.nodup_texts (h : t.Sound d) (hd : d.TellsSlotsApart) :
    (t.slots.map (·.text)).Nodup := by
  have hordinals : (t.slots.map (·.ordinal)).Nodup := by
    rw [h.ordinals]
    exact List.nodup_range'
  have htexts : t.slots.map (·.text) = t.slots.map fun s => d.slotText s.name s.ordinal :=
    List.map_congr_left h.texts
  rw [htexts]
  refine List.pairwise_map.mpr ?_
  have hapart := (List.pairwise_map.mp h.names).and (List.pairwise_map.mp hordinals)
  exact hapart.imp fun hne => hd _ _ _ _ hne.1 hne.2

/-- Where no two items have the same key, an item is found by its key. -/
theorem find?_of_nodup_map {α κ : Type} [BEq κ] [LawfulBEq κ] {f : α → κ} {l : List α}
    (h : (l.map f).Nodup) {a : α} (ha : a ∈ l) : l.find? (fun b => f b == f a) = some a := by
  have hsome : (l.find? fun b => f b == f a).isSome = true := by
    rw [List.find?_isSome]
    exact ⟨a, ha, by simp⟩
  obtain ⟨b, hb⟩ := Option.isSome_iff_exists.mp hsome
  have hkey : f b = f a := by simpa using List.find?_some hb
  rw [hb, List.inj_on_of_nodup_map h (List.mem_of_find?_eq_some hb) ha hkey]

/-- The value of the slot that a text stands for. -/
def valueOf? (t : BindTable) (text : String) : Option Value :=
  (t.slots.find? fun s => s.text == text).map (·.value)

/-- In a sound table the text of a slot stands for the value of this slot. -/
theorem Sound.valueOf?_text (h : t.Sound d) (hd : d.TellsSlotsApart) {s : BindSlot}
    (hs : s ∈ t.slots) : t.valueOf? s.text = some s.value := by
  rw [valueOf?, find?_of_nodup_map (f := BindSlot.text) (h.nodup_texts hd) hs, Option.map_some]

end BindTable

end EntitySql
