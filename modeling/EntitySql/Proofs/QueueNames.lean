import EntitySql.Proofs.ClauseCall
import EntitySql.Proofs.Drafts
import EntitySql.Proofs.Requests
import EntitySql.Proofs.SharedWork

/-!
# Names in a queue

The bind slots of the statements that wait in a queue have pairwise different names, so that all of
them can be bound side by side. Within one statement the bind table sees to that. Between statements
it is the index: a name begins with the index of its statement between a `p` and an underscore, and
no digit stands after that index, whatever the column is called (`eq_of_beginsWith`).

It remains that no index is given twice. A queue is changed in three sections only (`Pending.add`,
`Pending.takeAll?`, `Pending.settle`), and `Pending.Reached` is what these three lead to. Each of
them keeps every statement under the index that is its place in the queue (`Pending.IsNumbered`): a
mutation that has no statement uses up no index, and the index starts again just when the queue is
emptied. The main statement, `names_differ`, is for every queue that operations one after another or
clients in any order can lead to.
-/

namespace EntitySql

/-! ### The index in a name -/

/-- The text begins with an index, as the names of the slots of a statement do. -/
def BeginsWith (index : Nat) (name : String) : Prop :=
  ∃ rest, name = "p" ++ toString index ++ "_" ++ rest

/-- The digits of a number end where an underscore stands. -/
theorem takeWhile_isDigit_toString (n : Nat) (rest : List Char) :
    ((toString n).toList ++ '_' :: rest).takeWhile Char.isDigit = (toString n).toList := by
  have hdigits : ∀ c ∈ (toString n).toList, c.isDigit = true := fun _ => isDigit_of_mem_toString
  have hbar : ('_' :: rest).takeWhile Char.isDigit = [] := List.takeWhile_cons_of_neg (by decide)
  rw [List.takeWhile_append_of_pos hdigits, hbar, List.append_nil]

/-- A text begins with one index at most. -/
theorem eq_of_beginsWith {i j : Nat} {name : String} (hi : BeginsWith i name)
    (hj : BeginsWith j name) : i = j := by
  obtain ⟨a, rfl⟩ := hi
  obtain ⟨b, hb⟩ := hj
  have hlist := congrArg String.toList hb
  simp only [String.toList_append, List.append_assoc] at hlist
  have htail : (toString i).toList ++ '_' :: a.toList = (toString j).toList ++ '_' :: b.toList :=
    List.append_cancel_left hlist
  have hdigits := congrArg (List.takeWhile Char.isDigit) htail
  rw [takeWhile_isDigit_toString, takeWhile_isDigit_toString] at hdigits
  exact toString_nat_injective (String.toList_inj.mp hdigits)

/-! ### Names of one statement -/

/-- The names of the slots of a statement. -/
def Statement.names (s : Statement) : List String :=
  s.binds.map (·.name)

/-- The names of the slots differ, and each begins with the index. -/
structure Statement.IsNamedUnder (s : Statement) (index : Nat) : Prop where
  nodup : s.names.Nodup
  begins : ∀ name ∈ s.names, BeginsWith index name

namespace Query

open Drafting

variable {q : Query} {s : Statement}

/-- A statement whose program only makes requests is named under the index of the query. -/
theorem isNamedUnder_of_growing {body : Scope → Drafting String}
    (hbody : ∀ m, Growing q.dialect (body ⟨m, q.dialect⟩)) (hs : q.statement body = .ok s) :
    s.IsNamedUnder q.index := by
  obtain ⟨m, d, -, hrun, hslots⟩ := statement_eq_ok.mp hs
  have hgrowing := hbody m (Draft.fresh q.index)
  rw [after, hrun] at hgrowing
  obtain ⟨requests, hbinds⟩ := hgrowing
  -- the table of a fresh draft has the index of the query, and has served nothing yet
  have hserves := BindTable.serves_bindAll q.dialect q.index requests
  have hsound := (BindTable.sound_empty q.dialect q.index).grows ⟨requests, rfl⟩
  have htable : d.binds = BindTable.bindAll q.dialect { index := q.index } requests := hbinds
  rw [← htable] at hserves hsound
  constructor
  · have hnames : (d.binds.slots.map (·.name)).Nodup := hsound.names
    rwa [hslots] at hnames
  · intro name hname
    rw [Statement.names, ← hslots] at hname
    obtain ⟨slot, hslot, rfl⟩ := List.mem_map.mp hname
    exact (hserves.spelled slot hslot).2

theorem growing_filterText (q : Query) (c : Scope) : Growing c.dialect (q.filterText c) := by
  rw [filterText]
  split
  · exact c.growing_filterSql _
  · exact growing_pure none

theorem growing_updateFilter (q : Query) (entity : Record) (c : Scope) :
    Growing c.dialect (q.updateFilter entity c) := by
  rw [updateFilter]
  split
  · exact c.growing_filterSql _
  · split
    · exact c.growing_filterSql _
    · exact growing_throw _

theorem isNamedUnder_insert {entity : Record} (hs : q.insert entity = .ok s) :
    s.IsNamedUnder q.index := by
  refine isNamedUnder_of_growing (fun m => ?_) hs
  refine (Scope.growing_insertLists ⟨m, q.dialect⟩ entity).bind fun lists => ?_
  split
  · exact growing_throw _
  · exact growing_pure _

theorem isNamedUnder_update {entity : Record} (hs : q.update entity = .ok s) :
    s.IsNamedUnder q.index := by
  refine isNamedUnder_of_growing (fun m => ?_) hs
  refine (Scope.growing_entityAssignmentSql ⟨m, q.dialect⟩ entity).bind fun assignments => ?_
  split
  · exact growing_throw _
  · exact (q.growing_updateFilter entity ⟨m, q.dialect⟩).bind fun _ => growing_pure _

theorem isNamedUnder_updateBy {assignment : Expr} (hs : q.updateBy assignment = .ok s) :
    s.IsNamedUnder q.index := by
  refine isNamedUnder_of_growing (fun m => ?_) hs
  refine (Scope.growing_assignmentSql ⟨m, q.dialect⟩ assignment).bind fun assignments => ?_
  split
  · exact growing_throw _
  · exact (q.growing_filterText ⟨m, q.dialect⟩).bind fun _ => growing_pure _

theorem isNamedUnder_delete (hs : q.delete = .ok s) : s.IsNamedUnder q.index :=
  isNamedUnder_of_growing
    (fun m => (q.growing_filterText ⟨m, q.dialect⟩).bind fun _ => growing_pure _) hs

end Query

/-- A mutation is named under the index that it is given, whichever index its query has. -/
theorem Mutation.isNamedUnder {dialect : Dialect} {index : Nat} {m : Mutation} {s : Statement}
    (hs : m.statement dialect index = .ok s) : s.IsNamedUnder index := by
  cases m with
  | insert entity values => exact Query.isNamedUnder_insert hs
  | update entity values => exact Query.isNamedUnder_update hs
  | updateBy query assignment => exact Query.isNamedUnder_updateBy hs
  | delete query => exact Query.isNamedUnder_delete hs

/-! ### Queues -/

namespace Pending

/-- The names of the slots of all queued statements. -/
def names (p : Pending) : List String :=
  p.queued.flatMap fun q => q.statement.names

/-- Every statement is named under its place in the queue, and the next one will be. -/
structure IsNumbered (p : Pending) : Prop where
  nextIndex : p.nextIndex = p.queued.length
  named : ∀ (i : Nat) (q : Queued), p.queued[i]? = some q → q.statement.IsNamedUnder i

/-- In a numbered queue all names differ. -/
theorem IsNumbered.nodup_names {p : Pending} (h : p.IsNumbered) : p.names.Nodup := by
  rw [names, List.nodup_flatMap]
  constructor
  · intro q hq
    obtain ⟨i, hi⟩ := List.mem_iff_getElem?.mp hq
    exact (h.named i q hi).nodup
  · rw [List.pairwise_iff_getElem]
    intro i j hi hj hij name hname hname'
    -- a name that two statements share would begin with both their places
    have hplace := eq_of_beginsWith
      ((h.named i _ (List.getElem?_eq_getElem hi)).begins name hname)
      ((h.named j _ (List.getElem?_eq_getElem hj)).begins name hname')
    omega

theorem isNumbered_empty (phase : Phase) : IsNumbered { phase } where
  nextIndex := rfl
  named := by simp

/-- A mutation that is queued gets the next place, and one without a statement gets none. -/
theorem IsNumbered.add {p p' : Pending} (h : p.IsNumbered) {dialect : Dialect} {m : Mutation}
    (hadd : p.add dialect m = .ok p') : p'.IsNumbered := by
  rw [add_eq, Mutation.compile, h.nextIndex] at hadd
  rcases hstatement : m.statement dialect p.queued.length with e | s
  · rw [hstatement] at hadd
    cases hadd
  · rcases htable : mappedTable m.entity with e | table
    · rw [hstatement, htable] at hadd
      cases hadd
    · rw [hstatement, htable] at hadd
      obtain rfl := Except.ok.inj hadd
      constructor
      · have hsize := congrArg (· + 1) h.nextIndex
        simpa [append] using hsize
      · intro i q hq
        rw [queued_append] at hq
        obtain ⟨hlt, -⟩ := List.getElem?_eq_some_iff.mp hq
        rw [List.length_append, List.length_singleton] at hlt
        obtain hi | rfl : i < p.queued.length ∨ i = p.queued.length := by omega
        · rw [List.getElem?_append_left hi] at hq
          exact h.named i q hq
        · rw [List.getElem?_concat_length] at hq
          obtain rfl := Option.some.inj hq
          exact Mutation.isNamedUnder hstatement

theorem IsNumbered.takeAll? {p p' : Pending} {statements : List Statement}
    (htake : p.takeAll? = some (statements, p')) : p'.IsNumbered := by
  rw [Pending.takeAll?] at htake
  split at htake
  · cases htake
  · obtain ⟨-, rfl⟩ := Prod.mk.inj (Option.some.inj htake)
    exact isNumbered_empty .flushing

theorem IsNumbered.settle {p : Pending} (h : p.IsNumbered) : p.settle.IsNumbered :=
  ⟨h.nextIndex, h.named⟩

/-- The queues that the sections of a unit of work lead to. -/
inductive Reached (dialect : Dialect) : Pending → Prop where
  | empty : Reached dialect {}
  | add {p p' : Pending} {m : Mutation} :
    Reached dialect p → p.add dialect m = .ok p' → Reached dialect p'
  | takeAll {p p' : Pending} {statements : List Statement} :
    Reached dialect p → p.takeAll? = some (statements, p') → Reached dialect p'
  | settle {p : Pending} : Reached dialect p → Reached dialect p.settle

/-- Every queue that is reached is numbered. -/
theorem Reached.isNumbered {dialect : Dialect} {p : Pending} (h : Reached dialect p) :
    p.IsNumbered := by
  induction h with
  | empty => exact isNumbered_empty .idle
  | add _ hadd ih => exact ih.add hadd
  | takeAll _ htake _ => exact IsNumbered.takeAll? htake
  | settle _ ih => exact ih.settle

end Pending

/-! ### Operations one after another -/

namespace UnitOfWork

variable {u : UnitOfWork}

theorem reached_arrive {p : Pending} (h : p.Reached u.dialect) (a : Arrival) :
    (u.arrive p a).1.Reached u.dialect := by
  cases a with
  | look => exact h
  | queue m =>
    rw [arrive]
    rcases hadd : p.add u.dialect m with e | p'
    · exact h
    · exact h.add hadd

theorem reached_arriveAll {p : Pending} (h : p.Reached u.dialect) (arrivals : List Arrival) :
    (u.arriveAll p arrivals).1.Reached u.dialect := by
  induction arrivals generalizing p with
  | nil => exact h
  | cons a rest ih => exact ih (reached_arrive h a)

/-- What other clients queue while statements are sent leads to queues that are reached. -/
theorem reached_absorb {p : Pending} (h : p.Reached u.dialect) (calls : List Call) :
    (u.absorb p calls).1.Reached u.dialect := by
  induction calls generalizing p with
  | nil => exact h
  | cons call rest ih => exact ih (reached_arriveAll h (arrivals call))

variable {β : Type} [Engine β] {w : WorkState β}

theorem reached_save (h : w.pending.Reached u.dialect) :
    (u.save w).2.pending.Reached u.dialect := by
  by_cases hempty : w.pending.queued = []
  · rw [u.save_of_empty w hempty]
    exact h
  · obtain ⟨calls, b, -, hsave⟩ := u.save_eq w hempty
    rw [hsave]
    have htaken : taken.Reached u.dialect := h.takeAll (takeAll?_of_ne hempty)
    exact (reached_absorb htaken calls).settle

theorem reached_perform (h : w.pending.Reached u.dialect) (op : Operation) :
    (u.perform op w).2.pending.Reached u.dialect := by
  cases op with
  | save => exact reached_save h
  | mutate m =>
    rw [perform, mutate]
    rcases hadd : w.pending.add u.dialect m with e | pending
    · exact h
    · have hpending : pending.Reached u.dialect := h.add hadd
      dsimp only
      split
      · exact hpending
      · exact reached_save hpending

theorem reached_after (ops : List Operation) (h : w.pending.Reached u.dialect) :
    (u.after ops w).pending.Reached u.dialect := by
  induction ops generalizing w with
  | nil => exact h
  | cons op rest ih => exact ih (reached_perform h op)

end UnitOfWork

/-! ### Clients in any order -/

namespace SharedWork

variable {κ β : Type} [DecidableEq κ] [Engine β] {u : UnitOfWork} {w w' : SharedWork κ β} {c : κ}

/-- A mutation that is compiled under the next index is one that is added. -/
theorem add_of_compile {p : Pending} {m : Mutation} {q : Queued}
    (h : m.compile u.dialect p.nextIndex = .ok q) : p.add u.dialect m = .ok (p.append q) := by
  rw [Pending.add_eq, h]
  rfl

theorem Does.reached (hdoes : Does u w c w') (h : w.pending.Reached u.dialect) :
    w'.pending.Reached u.dialect := by
  cases hdoes with
  | refused _ _ => exact h
  | queued _ _ hcompile => exact h.add (add_of_compile hcompile)
  | entered _ _ hcompile => exact h.add (add_of_compile hcompile)
  | idle _ _ => exact h
  | taken _ hqueued => exact h.takeAll (UnitOfWork.takeAll?_of_ne hqueued)
  | sent _ _ _ => exact h
  | settled _ => exact h.settle

end SharedWork

/-- **All names in a queue differ**, those of one statement and those of different statements. This
holds after any operations, whatever other clients queue while statements are sent, and between any
two sections of clients that share a unit of work. -/
theorem names_differ (u : UnitOfWork) {β : Type} [Engine β] (b : β) :
    (∀ ops, (u.after ops { engine := b }).pending.names.Nodup) ∧
      ∀ {κ : Type} [DecidableEq κ] {moves : List (κ × Section)} {w : SharedWork κ β},
        SharedWork.run u moves { engine := b } = some w → w.pending.names.Nodup := by
  constructor
  · intro ops
    have hreached : (u.after ops { engine := b }).pending.Reached u.dialect :=
      UnitOfWork.reached_after ops .empty
    exact hreached.isNumbered.nodup_names
  · intro κ _ moves w hrun
    have hreached : w.pending.Reached u.dialect :=
      SharedWork.run_induction (motive := fun w => w.pending.Reached u.dialect)
        SharedWork.Does.reached hrun .empty
    exact hreached.isNumbered.nodup_names

/-- A delete whose columns look like numbers and numbered names, of a query with another index. -/
def deleteReadings : Mutation :=
  let equals := fun member n h =>
    Expr.binary .eq (.ofMember member) (.constant (.number (.int n h)))
  .delete
    { dialect := .sqlite
      entity :=
        { typeName := "Reading", table := "readings"
          members := [.key "Id", .column "First" "1", .column "Second" "1_1"] }
      index := 10
      filter := some ((equals "First" 4 (by decide)).conj ((equals "First" 5 (by decide)).conj
        (equals "Second" 5 (by decide)))) }

/-- Two clients queue it, and no name comes twice. -/
theorem names_differ_deleteReadings :
    ∃ w : SharedWork Bool Script,
      SharedWork.run defaultUnit [(true, .queue deleteReadings), (false, .queue deleteReadings)]
        { engine := {} } = some w ∧
      w.pending.names = ["p0_1", "p0_1_1", "p0_1_1_1", "p1_1", "p1_1_1", "p1_1_1_1"] ∧
      w.pending.names.Nodup := by
  have hnames : (SharedWork.run defaultUnit
      [(true, .queue deleteReadings), (false, .queue deleteReadings)]
      ({ engine := {} } : SharedWork Bool Script)).map (·.pending.names)
        = some ["p0_1", "p0_1_1", "p0_1_1_1", "p1_1", "p1_1_1", "p1_1_1_1"] := by
    decide +kernel
  obtain ⟨w, hrun, hnames⟩ := Option.map_eq_some_iff.mp hnames
  exact ⟨w, hrun, hnames, (names_differ defaultUnit ({} : Script)).2 hrun⟩

end EntitySql
