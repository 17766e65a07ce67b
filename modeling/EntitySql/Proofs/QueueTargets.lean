import EntitySql.Proofs.QueueNames
import EntitySql.Proofs.Saving
import EntitySql.Proofs.TableNames

/-!
# Targets of queued mutations

A queued mutation carries its target beside its statement: a table, and what is done there. The
target is not read off the statement, it is made from the mutation, so the two may differ.
`MutationTarget.ofSql?` reads the target of a SQL text: the words at its start say what is done,
and the name in quotes after them is the table.

The verb of a target is always the one of the text. The table of a target is the one that the entity
is mapped to, and that of the text is the one that the query is over, so the target is right exactly
if the query has no other table than the mapped one. The main statement, `queued_isOf`, is for every
mutation in every queue that operations one after another or clients in any order can lead to.
-/

namespace EntitySql

/-! ### Targets of texts -/

namespace Verb

/-- The words before the table of a statement. -/
def head : Verb → String
  | insert => "INSERT INTO "
  | update => "UPDATE "
  | delete => "DELETE FROM "

/-- The verb with whose words a SQL text begins. -/
def ofSql? (sql : String) : Option Verb :=
  [insert, update, delete].find? fun v => v.head.toList.isPrefixOf sql.toList

theorem ofSql?_head (v : Verb) (rest : String) : ofSql? (v.head ++ rest) = some v := by
  rw [ofSql?, String.toList_append]
  cases v <;> rfl

end Verb

/-- What a SQL text does, and to which table. -/
def MutationTarget.ofSql? (k : Marks) (sql : String) : Option MutationTarget := do
  let verb ← Verb.ofSql? sql
  let (table, _) ← scanIdentifier k (sql.toList.drop verb.head.length)
  return ⟨table, verb⟩

/-- The text is empty, or begins with a blank. -/
def StopsName (text : String) : Prop :=
  ∀ c rest, text.toList = c :: rest → c = ' '

theorem stopsName_blank {a : String} {rest : List Char} (h : a.toList = ' ' :: rest) (b : String) :
    StopsName (a ++ b) := by
  intro c tail htail
  rw [String.toList_append, h, List.cons_append] at htail
  exact (List.cons.inj htail).1.symm

/-- The target is read back from a text that is made of its words and its table in quotes. -/
theorem MutationTarget.ofSql?_head {d : Dialect} {k : Marks} (hd : d.QuotesBy k)
    (hclose : k.closeQuote ≠ ' ') (v : Verb) (table : String) {rest : String}
    (hrest : StopsName rest) :
    ofSql? k (v.head ++ (d.quote table ++ rest)) = some ⟨table, v⟩ := by
  have hstops : ∀ tail, rest.toList ≠ k.closeQuote :: tail :=
    fun tail htail => hclose (hrest _ _ htail)
  have hdrop : (v.head ++ (d.quote table ++ rest)).toList.drop v.head.length =
      (d.quote table).toList ++ rest.toList := by
    rw [String.toList_append, String.toList_append, ← String.length_toList, List.drop_left]
  rw [ofSql?, Verb.ofSql?_head, Option.bind_eq_bind, Option.bind_some, hdrop,
    scanIdentifier_quote hd table hstops]
  rfl

/-! ### Texts of mutations -/

/-- The text of a statement is the words of a target and its table in quotes, before a blank or the
end. -/
def Statement.IsAimedAt (s : Statement) (d : Dialect) (target : MutationTarget) : Prop :=
  ∃ rest, StopsName rest ∧ s.sql = target.verb.head ++ (d.quote target.table ++ rest)

theorem Statement.IsAimedAt.verb {s : Statement} {d : Dialect} {target : MutationTarget}
    (h : s.IsAimedAt d target) : Verb.ofSql? s.sql = some target.verb := by
  obtain ⟨rest, -, hsql⟩ := h
  rw [hsql, Verb.ofSql?_head]

theorem Statement.IsAimedAt.target {s : Statement} {d : Dialect} {k : Marks}
    {target : MutationTarget} (h : s.IsAimedAt d target) (hd : d.QuotesBy k)
    (hclose : k.closeQuote ≠ ' ') : MutationTarget.ofSql? k s.sql = some target := by
  obtain ⟨rest, hrest, hsql⟩ := h
  rw [hsql, MutationTarget.ofSql?_head hd hclose _ _ hrest]

namespace Query

open Drafting

variable {q : Query} {s : Statement}

theorem source_of_ofDecl {m : EntityMap} (h : EntityMap.ofDecl q.entity = .ok m) :
    q.source ⟨m, q.dialect⟩ = q.dialect.quote q.tableName := by
  rw [EntityMap.eq_of_ofDecl h]
  rfl

theorem stopsName_whereText (filter : Option String) : StopsName (whereText filter) := by
  cases filter with
  | none => exact fun _ _ h => nomatch h
  | some text => exact stopsName_blank rfl text

theorem stopsName_settingText (assignments : String) (filter : Option String) :
    StopsName (settingText assignments filter) := by
  rw [settingText, String.append_assoc]
  exact stopsName_blank rfl _

theorem isAimedAt_insert {entity : Record} (hs : q.insert entity = .ok s) :
    s.IsAimedAt q.dialect ⟨q.tableName, .insert⟩ := by
  obtain ⟨m, d, hmap, hrun, -⟩ := statement_eq_ok.mp hs
  obtain ⟨lists, v, -, hrun⟩ := bind_eq_ok.mp hrun
  split at hrun
  · cases hrun
  · obtain ⟨hsql, -⟩ := pure_eq_ok.mp hrun
    rw [source_of_ofDecl hmap, String.append_assoc, String.append_assoc] at hsql
    exact ⟨_, stopsName_blank rfl _, hsql.symm⟩

/-- The text of an update, whatever it sets. -/
theorem isAimedAt_of_updateText {m : EntityMap} (hmap : EntityMap.ofDecl q.entity = .ok m)
    {assignments : String} {filter : Option String}
    (hsql : "UPDATE " ++ q.source ⟨m, q.dialect⟩ ++ " SET " ++ assignments ++ whereText filter =
      s.sql) : s.IsAimedAt q.dialect ⟨q.tableName, .update⟩ := by
  rw [updateText_eq, source_of_ofDecl hmap, String.append_assoc] at hsql
  exact ⟨_, stopsName_settingText assignments filter, hsql.symm⟩

theorem isAimedAt_update {entity : Record} (hs : q.update entity = .ok s) :
    s.IsAimedAt q.dialect ⟨q.tableName, .update⟩ := by
  obtain ⟨m, d, hmap, hrun, -⟩ := statement_eq_ok.mp hs
  obtain ⟨assignments, v, -, hrun⟩ := bind_eq_ok.mp hrun
  split at hrun
  · cases hrun
  · obtain ⟨filter, w, -, hrun⟩ := bind_eq_ok.mp hrun
    exact isAimedAt_of_updateText hmap (pure_eq_ok.mp hrun).1

theorem isAimedAt_updateBy {assignment : Expr} (hs : q.updateBy assignment = .ok s) :
    s.IsAimedAt q.dialect ⟨q.tableName, .update⟩ := by
  obtain ⟨m, d, hmap, hrun, -⟩ := statement_eq_ok.mp hs
  obtain ⟨assignments, v, -, hrun⟩ := bind_eq_ok.mp hrun
  cases assignments with
  | none => cases hrun
  | some assignments =>
    obtain ⟨filter, w, -, hrun⟩ := bind_eq_ok.mp hrun
    exact isAimedAt_of_updateText hmap (pure_eq_ok.mp hrun).1

theorem isAimedAt_delete (hs : q.delete = .ok s) :
    s.IsAimedAt q.dialect ⟨q.tableName, .delete⟩ := by
  obtain ⟨m, d, hmap, hrun, -⟩ := statement_eq_ok.mp hs
  obtain ⟨filter, v, -, hrun⟩ := bind_eq_ok.mp hrun
  obtain ⟨hsql, -⟩ := pure_eq_ok.mp hrun
  rw [source_of_ofDecl hmap, String.append_assoc] at hsql
  exact ⟨_, stopsName_whereText filter, hsql.symm⟩

end Query

theorem mappedTable_eq_ok {entity : EntityDecl} {table : String}
    (h : mappedTable entity = .ok table) : table = entity.table := by
  rw [mappedTable] at h
  rcases hmap : EntityMap.ofDecl entity with e | m
  · rw [hmap] at h
    cases h
  · rw [hmap] at h
    obtain rfl := Except.ok.inj h
    rw [EntityMap.eq_of_ofDecl hmap]

namespace Mutation

variable {dialect : Dialect} {index : Nat} {m : Mutation}

/-- The dialect of the statement of a mutation. A query has one of its own. -/
def dialectIn (dialect : Dialect) : Mutation → Dialect
  | .insert _ _ | .update _ _ => dialect
  | .updateBy query _ | .delete query => query.dialect

/-- The table that a mutation is over. A query may have one of its own. -/
def tableName : Mutation → String
  | .insert entity _ | .update entity _ => entity.table
  | .updateBy query _ | .delete query => query.tableName

theorem isAimedAt {s : Statement} (hs : m.statement dialect index = .ok s) :
    s.IsAimedAt (m.dialectIn dialect) ⟨m.tableName, m.verb⟩ := by
  cases m with
  | insert entity values =>
    have haimed := Query.isAimedAt_insert (q := { dialect, entity, index }) hs
    exact haimed
  | update entity values =>
    have haimed := Query.isAimedAt_update (q := { dialect, entity, index }) hs
    exact haimed
  | updateBy query assignment =>
    have haimed := Query.isAimedAt_updateBy (q := { query with index }) hs
    exact haimed
  | delete query =>
    have haimed := Query.isAimedAt_delete (q := { query with index }) hs
    exact haimed

/-- A queued mutation is its statement with the mapped table of its entity. -/
theorem compile_eq_ok {x : Queued} (h : m.compile dialect index = .ok x) :
    m.statement dialect index = .ok x.statement ∧ x.target = ⟨m.entity.table, m.verb⟩ := by
  rw [compile] at h
  rcases hstatement : m.statement dialect index with e | s
  · rw [hstatement] at h
    cases h
  · rcases htable : mappedTable m.entity with e | table
    · rw [hstatement, htable] at h
      cases h
    · rw [hstatement, htable] at h
      obtain rfl := Except.ok.inj h
      exact ⟨rfl, congrArg (MutationTarget.mk · m.verb) (mappedTable_eq_ok htable)⟩

end Mutation

/-! ### Queues -/

namespace Queued

/-- The target is the one that the text of the statement has. -/
def TellsTruth (k : Marks) (x : Queued) : Prop :=
  MutationTarget.ofSql? k x.statement.sql = some x.target

instance (k : Marks) (x : Queued) : Decidable (x.TellsTruth k) :=
  inferInstanceAs (Decidable (_ = _))

/-- What a queued mutation tells of itself. The verb of its target is the one of its text, and the
whole target is right exactly if the mutation is over the table that its entity is mapped to, by
whatever marks the dialect of the mutation quotes names. -/
structure IsOf (dialect : Dialect) (x : Queued) (m : Mutation) : Prop where
  compiled : ∃ index, m.compile dialect index = .ok x
  verb : Verb.ofSql? x.statement.sql = some x.target.verb
  /-- A name that is closed with a blank cannot be read back before another blank. -/
  tellsTruth_iff : ∀ k, (m.dialectIn dialect).QuotesBy k → k.closeQuote ≠ ' ' →
    (x.TellsTruth k ↔ m.tableName = m.entity.table)

theorem isOf_of_compile {dialect : Dialect} {x : Queued} {m : Mutation} {index : Nat}
    (h : m.compile dialect index = .ok x) : x.IsOf dialect m := by
  obtain ⟨hstatement, htarget⟩ := Mutation.compile_eq_ok h
  have haimed := Mutation.isAimedAt hstatement
  refine ⟨⟨index, h⟩, htarget ▸ haimed.verb, fun k hd hclose => ?_⟩
  -- the text has the table of the query, and the target the one of the entity
  rw [TellsTruth, haimed.target hd hclose, htarget, Option.some.injEq, MutationTarget.mk.injEq]
  exact and_iff_left rfl

end Queued

/-- Everything in a queue that is reached is a mutation that was queued. -/
theorem Pending.Reached.exists_isOf {dialect : Dialect} {p : Pending} (h : Reached dialect p)
    {x : Queued} (hx : x ∈ p.queued) : ∃ m, x.IsOf dialect m := by
  induction h with
  | empty => cases hx
  | @add p p' m _ hadd ih =>
    rw [add_eq] at hadd
    rcases hcompile : m.compile dialect p.nextIndex with e | q
    · rw [hcompile] at hadd
      cases hadd
    · rw [hcompile] at hadd
      obtain rfl := Except.ok.inj hadd
      rw [queued_append] at hx
      rcases List.mem_append.mp hx with hold | hnew
      · exact ih hold
      · rw [List.mem_singleton.mp hnew]
        exact ⟨m, Queued.isOf_of_compile hcompile⟩
  | takeAll _ htake _ =>
    rw [Pending.takeAll?] at htake
    split at htake
    · cases htake
    · obtain ⟨-, rfl⟩ := Prod.mk.inj (Option.some.inj htake)
      cases hx
  | settle _ ih => exact ih hx

/-- **A target in a queue has the verb of its text, and it has the table of its text exactly if the
mutation is over the mapped table.** This holds after any operations, whatever other clients queue
while statements are sent, and between any two sections of clients that share a unit of work. -/
theorem queued_isOf (u : UnitOfWork) {β : Type} [Engine β] (b : β) :
    (∀ ops, ∀ x ∈ (u.after ops { engine := b }).pending.queued, ∃ m, x.IsOf u.dialect m) ∧
      ∀ {κ : Type} [DecidableEq κ] {moves : List (κ × Section)} {w : SharedWork κ β},
        SharedWork.run u moves { engine := b } = some w →
          ∀ x ∈ w.pending.queued, ∃ m, x.IsOf u.dialect m := by
  constructor
  · intro ops x hx
    have hreached : (u.after ops { engine := b }).pending.Reached u.dialect :=
      UnitOfWork.reached_after ops .empty
    exact hreached.exists_isOf hx
  · intro κ _ moves w hrun x hx
    have hreached : w.pending.Reached u.dialect :=
      SharedWork.run_induction (motive := fun w => w.pending.Reached u.dialect)
        SharedWork.Does.reached hrun .empty
    exact hreached.exists_isOf hx

/-- A delete of all users in a table other than the mapped one. -/
def deleteArchived : Mutation :=
  .delete { dialect := .sqlServer, entity := users, table := some "archive" }

/-- One of two queued deletes tells the truth. -/
theorem queued_isOf_deleteArchived :
    ∃ w : SharedWork Bool Script,
      SharedWork.run defaultUnit [(true, .queue deleteUser), (false, .queue deleteArchived)]
        { engine := {} } = some w ∧
      w.pending.queued.map (fun x => decide (x.TellsTruth BuiltinDialect.sqlServer.marks))
        = [true, false] ∧
      ∀ x ∈ w.pending.queued, ∃ m, x.IsOf .sqlServer m := by
  have htruth : (SharedWork.run defaultUnit
      [(true, .queue deleteUser), (false, .queue deleteArchived)]
      ({ engine := {} } : SharedWork Bool Script)).map
        (·.pending.queued.map fun x => decide (x.TellsTruth BuiltinDialect.sqlServer.marks))
          = some [true, false] := by
    decide +kernel
  obtain ⟨w, hrun, htruth⟩ := Option.map_eq_some_iff.mp htruth
  exact ⟨w, hrun, htruth, (queued_isOf defaultUnit ({} : Script)).2 hrun⟩

/-- The text is aimed at the other table, and the target has the mapped one. -/
theorem queued_deleteArchived :
    ∃ x ∈ (defaultUnit.after [.mutate deleteArchived] { engine := ({} : Script) }).pending.queued,
      MutationTarget.ofSql? BuiltinDialect.sqlServer.marks x.statement.sql
        = some ⟨"archive", .delete⟩ ∧
      x.target = ⟨"Members_User", .delete⟩ ∧ ¬ x.TellsTruth BuiltinDialect.sqlServer.marks := by
  decide +kernel

end EntitySql
