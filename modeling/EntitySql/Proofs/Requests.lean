import EntitySql.Proofs.BindTable
import Mathlib.Data.List.Find
import Mathlib.Data.List.Induction

/-!
# The requests of a bind table

What a bind table holds is determined by the requests that were made to it. Its slots stand for
the different ones among them, in the order in which they were first made (`firstRequests`), and a
request is answered with the slot of the first one that is the same: for the same column, and for
an equal value. The main statement is `BindTable.bindAll_lists_requests`.

The table compares a request with the slots that it holds, which is fewer comparisons than with
all requests before; that it comes to the same rests on `Value.same_trans`.

The number in the name of a slot is found by trying one number after another. `SearchEnds` is this
search, and a search always ends (`searchEnds_freshNumber`), since only finitely many names are
taken.
-/

namespace EntitySql

/-! ### Searching a number -/

/-- Trying the numbers from `start` on, one after another, ends with the number `n`, the first
whose name is not taken. -/
inductive SearchEnds (base : String) (taken : List String) : Nat → Nat → Prop where
  | free {n : Nat} : numberedName base n ∉ taken → SearchEnds base taken n n
  | next {start n : Nat} : numberedName base start ∈ taken → SearchEnds base taken (start + 1) n →
    SearchEnds base taken start n

variable {base : String} {taken : List String}

theorem searchEnds_of_free {start n : Nat} (hle : start ≤ n)
    (hfree : numberedName base n ∉ taken)
    (htaken : ∀ m, start ≤ m → m < n → numberedName base m ∈ taken) :
    SearchEnds base taken start n := by
  obtain ⟨k, rfl⟩ := Nat.exists_eq_add_of_le hle
  induction k generalizing start with
  | zero => exact .free hfree
  | succ k ih =>
    have hshift : start + (k + 1) = start + 1 + k := by omega
    rw [hshift] at hfree htaken ⊢
    exact .next (htaken start (by omega) (by omega))
      (ih (by omega) hfree fun m hm hlt => htaken m (by omega) hlt)

/-- Every search ends, and it ends with the fresh number. -/
theorem searchEnds_freshNumber (base : String) (taken : List String) (start : Nat) :
    SearchEnds base taken start (freshNumber base taken start) := by
  obtain ⟨m, hm, hfree⟩ := exists_free_number base taken start
  have hsome : ((List.range' start (taken.length + 1)).find? fun n =>
      !taken.contains (numberedName base n)).isSome = true := by
    rw [List.find?_isSome]
    exact ⟨m, hm, by simpa using hfree⟩
  obtain ⟨n, hn⟩ := Option.isSome_iff_exists.mp hsome
  rw [freshNumber, hn, Option.getD_some]
  obtain ⟨hfree, hmem, hbefore⟩ := List.find?_range'_eq_some.mp hn
  refine searchEnds_of_free (List.mem_range'_1.mp hmem).1 (by simpa using hfree) ?_
  exact fun m hm hlt => by simpa using hbefore m hm hlt

/-! ### First requests -/

/-- The requests are for one column and for equal values. -/
def sameRequest (r s : String × Value) : Bool :=
  r.1 == s.1 && r.2.same s.2

theorem sameRequest_refl (r : String × Value) : sameRequest r r = true := by
  simp [sameRequest, Value.same_refl]

theorem sameRequest_trans {r s u : String × Value} (hrs : sameRequest r s = true)
    (hsu : sameRequest s u = true) : sameRequest r u = true := by
  simp only [sameRequest, Bool.and_eq_true, beq_iff_eq] at *
  exact ⟨hrs.1.trans hsu.1, Value.same_trans _ _ _ hrs.2 hsu.2⟩

/-- The different requests of a list, in the order in which they are first made. -/
def firstRequests : List (String × Value) → List (String × Value)
  | [] => []
  | r :: rest => r :: (firstRequests rest).filter fun s => !sameRequest r s

/-- One more request is a first one unless a first one is the same. -/
theorem firstRequests_concat (requests : List (String × Value)) (r : String × Value) :
    firstRequests (requests ++ [r]) =
      if (firstRequests requests).any (sameRequest · r) then firstRequests requests
      else firstRequests requests ++ [r] := by
  induction requests with
  | nil => rfl
  | cons a rest ih =>
    rw [List.cons_append, firstRequests, firstRequests, ih, List.any_cons, List.any_filter]
    cases ha : sameRequest a r with
    | true =>
      -- whatever the rest keeps, it does not keep what is the same as `a`
      rw [Bool.true_or, if_pos rfl]
      split
      · rfl
      · rw [List.filter_append, List.filter_singleton, ha]
        simp
    | false =>
      have hany : ((firstRequests rest).any fun s => !sameRequest a s && sameRequest s r)
          = (firstRequests rest).any (sameRequest · r) := by
        refine List.any_congr rfl fun s => ?_
        cases hs : sameRequest s r with
        | false => rw [Bool.and_false]
        | true =>
          have hne : sameRequest a s = false := Bool.eq_false_iff.mpr fun has =>
            Bool.eq_false_iff.mp ha (sameRequest_trans has hs)
          rw [hne]
          rfl
      rw [Bool.false_or, hany]
      split
      · rfl
      · rw [List.filter_append, List.filter_singleton, ha, List.cons_append]
        rfl

/-- The first requests are pairwise different. -/
theorem pairwise_firstRequests (requests : List (String × Value)) :
    (firstRequests requests).Pairwise fun r s => sameRequest r s = false := by
  induction requests with
  | nil => exact .nil
  | cons r rest ih =>
    refine .cons (fun s hs => ?_) (ih.sublist List.filter_sublist)
    simpa using (List.mem_filter.mp hs).2

/-- The request that a slot was made for. -/
def BindSlot.request (s : BindSlot) : String × Value :=
  (s.key.column, s.value)

namespace BindTable

variable {d : Dialect} {t : BindTable}

/-! ### Requests in turn -/

/-- The slots that requests are answered with, one after another. -/
def answers (d : Dialect) : BindTable → List (String × Value) → List BindSlot
  | _, [] => []
  | t, (column, value) :: rest =>
    let (slot, u) := t.bind d column value
    slot :: answers d u rest

theorem bindAll_concat (t : BindTable) (requests : List (String × Value)) (r : String × Value) :
    t.bindAll d (requests ++ [r]) = ((t.bindAll d requests).bind d r.1 r.2).2 :=
  List.foldl_concat ..

theorem answers_concat (t : BindTable) (requests : List (String × Value)) (r : String × Value) :
    t.answers d (requests ++ [r])
      = t.answers d requests ++ [((t.bindAll d requests).bind d r.1 r.2).1] := by
  induction requests generalizing t with
  | nil => rfl
  | cons request rest ih => exact congrArg (_ :: ·) (ih _)

/-! ### What a table holds -/

/-- The table has served the requests with the answers, under the index of a statement: its slots
and the answers are given by the requests alone. -/
structure Serves (i : Nat) (rs : List (String × Value)) (ss : List BindSlot) (t : BindTable) :
    Prop where
  index : t.index = i
  keys : ∀ s ∈ t.slots, s.key.index = i
  /-- There is one slot for each of the different requests, in the order of the first ones. -/
  requests : t.slots.map BindSlot.request = firstRequests rs
  /-- A request is answered with the first slot of a request that is the same. -/
  answers : List.Forall₂ (fun r s => s.key = ⟨i, r.1⟩ ∧ s.value.same r.2 = true ∧
    t.slots.find? (fun slot => sameRequest slot.request r) = some s) rs ss
  /-- A name is numbered by a search that starts at the number of earlier slots of its key, and
  that ends. -/
  search : ∀ before s after, t.slots = before ++ s :: after →
    ∃ n, s.name = numberedName (t.baseName s.key.column) n ∧
      SearchEnds (t.baseName s.key.column) (before.map (·.name))
        (before.countP fun slot => slot.key == s.key) n
  spelled : ∀ s ∈ t.slots, IsSpelled s.name ∧ ∃ rest, s.name = "p" ++ toString i ++ "_" ++ rest

/-- With one index throughout, a request finds the first slot of a request that is the same. -/
theorem find?_eq (hkeys : ∀ s ∈ t.slots, s.key.index = t.index) (r : String × Value) :
    t.find? r.1 r.2 = t.slots.find? fun s => sameRequest s.request r := by
  refine List.find?_congr fun s hs => ?_
  have hkey : (s.key == ⟨t.index, r.1⟩) = (s.key.column == r.1) := by
    rw [← hkeys s hs, Bool.eq_iff_iff, beq_iff_eq, beq_iff_eq]
    exact ⟨fun h => congrArg SlotKey.column h, fun h => by rw [← h]⟩
  rw [hkey]
  rfl

theorem serves_empty (index : Nat) : Serves index [] [] { index } where
  index := rfl
  keys := nofun
  requests := rfl
  answers := .nil
  search := by
    intro before s after h
    cases before <;> cases h
  spelled := nofun

/-- A number does not change how a name begins. -/
theorem exists_rest_numberedName {start name : String} (h : ∃ rest, name = start ++ rest) (n : Nat) :
    ∃ rest, numberedName name n = start ++ rest := by
  obtain ⟨rest, rfl⟩ := h
  rw [numberedName]
  split
  · exact ⟨rest, rfl⟩
  · exact ⟨rest ++ "_" ++ toString n, by simp only [String.append_assoc]⟩

variable {index : Nat} {requests : List (String × Value)} {slots : List BindSlot}

/-- One more request, for which the table has a slot. -/
theorem Serves.found (h : t.Serves index requests slots) {r : String × Value} {s : BindSlot}
    (hfind : t.slots.find? (fun slot => sameRequest slot.request r) = some s) :
    t.Serves index (requests ++ [r]) (slots ++ [s]) := by
  have hmem := List.mem_of_find?_eq_some hfind
  have hsame : sameRequest s.request r = true := by simpa using List.find?_some hfind
  obtain ⟨hcolumn, hvalue⟩ := Bool.and_eq_true_iff.mp hsame
  have hkey : s.key = ⟨index, r.1⟩ := by
    rw [← h.keys s hmem, ← eq_of_beq hcolumn]
    rfl
  refine { h with requests := ?_, answers := ?_ }
  · have hany : (firstRequests requests).any (sameRequest · r) = true := by
      rw [← h.requests, List.any_map, List.any_eq_true]
      exact ⟨s, hmem, hsame⟩
    rw [firstRequests_concat, if_pos hany, h.requests]
  · exact List.rel_append h.answers (.cons ⟨hkey, hvalue, hfind⟩ .nil)

/-- One more request, for which the table gets a slot. -/
theorem Serves.appended (h : t.Serves index requests slots) {r : String × Value}
    (hnone : t.slots.find? (fun slot => sameRequest slot.request r) = none) :
    Serves index (requests ++ [r]) (slots ++ [t.freshSlot d r.1 r.2])
      { t with slots := t.slots ++ [t.freshSlot d r.1 r.2] } where
  index := h.index
  keys := by
    intro s hs
    obtain hs | hs := List.mem_append.mp hs
    · exact h.keys s hs
    · rw [List.mem_singleton.mp hs]
      exact h.index
  requests := by
    have hany : ¬ (firstRequests requests).any (sameRequest · r) = true := by
      rw [← h.requests, List.any_map, List.any_eq_true]
      rintro ⟨s, hs, hsame⟩
      exact List.find?_eq_none.mp hnone s hs hsame
    rw [firstRequests_concat, if_neg hany, List.map_append, h.requests]
    rfl
  answers := by
    refine List.rel_append (h.answers.imp fun request s hs => ?_) (.cons ⟨?_, ?_, ?_⟩ .nil)
    · exact ⟨hs.1, hs.2.1, by rw [List.find?_append, hs.2.2]; rfl⟩
    · rw [← h.index]
      rfl
    · exact Value.same_refl r.2
    · have hsame : sameRequest (t.freshSlot d r.1 r.2).request r = true := sameRequest_refl r
      rw [List.find?_append, hnone, List.find?_singleton, hsame]
      rfl
  search := by
    intro before s after hslots
    obtain rfl | ⟨rest, last, rfl⟩ := after.eq_nil_or_concat
    -- the last slot is the new one, and all others are earlier
    · obtain ⟨rfl, hs⟩ := List.append_inj' hslots rfl
      obtain rfl := List.singleton_inj.mp hs
      exact ⟨_, rfl, searchEnds_freshNumber _ _ _⟩
    · rw [List.concat_eq_append, ← List.cons_append, ← List.append_assoc] at hslots
      obtain ⟨hslots, -⟩ := List.append_inj' hslots rfl
      exact h.search before s rest hslots
  spelled := by
    intro s hs
    obtain hs | hs := List.mem_append.mp hs
    · exact h.spelled s hs
    · rw [List.mem_singleton.mp hs, ← h.index]
      exact ⟨isSpelled_numberedName (t.isSpelled_baseName r.1) _,
        exists_rest_numberedName ⟨asName r.1, rfl⟩ _⟩

/-- One more request is served. -/
theorem Serves.bind (h : t.Serves index requests slots) (d : Dialect) (r : String × Value) :
    (t.bind d r.1 r.2).2.Serves index (requests ++ [r]) (slots ++ [(t.bind d r.1 r.2).1]) := by
  have hkeys : ∀ s ∈ t.slots, s.key.index = t.index := by
    rw [h.index]
    exact h.keys
  rw [BindTable.bind, find?_eq hkeys]
  cases hfind : t.slots.find? fun slot => sameRequest slot.request r with
  | some s => exact h.found hfind
  | none => exact h.appended hfind

/-- All requests are served. -/
theorem serves_bindAll (d : Dialect) (index : Nat) (requests : List (String × Value)) :
    Serves index requests (answers d { index } requests) (bindAll d { index } requests) := by
  induction requests using List.reverseRecOn with
  | nil => exact serves_empty index
  | append_singleton requests r ih =>
    rw [bindAll_concat, answers_concat]
    exact ih.bind d r

/-- **A bind table lists the different requests.** Whatever is requested, under whatever columns,
each request is answered with the slot of the first one that is the same, and earlier slots stay
as they are. The names begin with the index of the statement, are spelled with letters, digits
and underscores, and differ from each other, as do the texts of the slots. -/
theorem bindAll_lists_requests (b : BuiltinDialect) (index : Nat)
    (requests : List (String × Value)) :
    let table := bindAll b.dialect { index }
    let t := table requests
    t.Serves index requests (answers b.dialect { index } requests) ∧
      (t.slots.map BindSlot.request).Pairwise (fun r s => sameRequest r s = false) ∧
      (∀ earlier later, requests = earlier ++ later → (table earlier).slots <+: t.slots) ∧
      t.slots.map (·.ordinal) = List.range' 1 t.slots.length ∧
      (t.slots.map (·.name)).Nodup ∧ (t.slots.map (·.text)).Nodup := by
  intro table t
  have hserves : t.Serves index requests (answers b.dialect { index } requests) :=
    serves_bindAll b.dialect index requests
  have hsound : t.Sound b.dialect := (sound_empty b.dialect index).grows ⟨requests, rfl⟩
  refine ⟨hserves, ?_, ?_, hsound.ordinals, hsound.names,
    hsound.nodup_texts b.tellsSlotsApart⟩
  · rw [hserves.requests]
    exact pairwise_firstRequests requests
  · rintro earlier later rfl
    exact (grows_append { index } b.dialect earlier later).isPrefix

/-- Columns that are spelled alike, and a column that looks like a numbered name. -/
example :
    let value := fun n : Fin 10 => Value.text (toString n)
    let requests := [("ID", value 5), ("ID", value 6), ("ID_1", value 7), ("a b", value 8),
      ("a_b", value 9), ("ID", value 6), ("", value 5)]
    (bindAll .sqlServer { index := 0 } requests).slots.map (·.text)
      = ["@p0_ID", "@p0_ID_1", "@p0_ID_1_1", "@p0_a_b", "@p0_a_b_1", "@p0_"] := by
  decide

end BindTable

end EntitySql
