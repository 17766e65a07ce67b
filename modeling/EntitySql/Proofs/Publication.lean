import EntitySql.Entity.Catalog
import EntitySql.Proofs.Declarations
import Mathlib.Data.List.Dedup
import Mathlib.Data.List.Induction

/-!
# Published maps

What a catalog holds after types were asked for, one after another. A map that is published is
given to everyone who asks from then on, whatever its type would declare by then
(`find?_after_of_published`). If every type keeps to one declaration, the published types are those
among the ones asked for that have a valid declaration (`Publishes`), each of them once. This is
kept by one more type that is asked for (`Publishes.fetch`).

The main statement, `publishes_declared`, is about declarations and catalogs together: which
declarations have a map, that one pass over the members makes the same map, what the map knows, and
what a catalog answers at each moment of a sequence.
-/

namespace EntitySql

namespace Catalog

variable {τ : Type} [DecidableEq τ] {c : Catalog τ} {t : τ} {d : EntityDecl} {m : EntityMap}

/-! ### One type -/

/-- What asking for a type can come to. -/
theorem fetch_cases (c : Catalog τ) (t : τ) (d : EntityDecl) :
    (∃ m, c.find? t = some m ∧ c.fetch t d = (.ok m, c)) ∨
    (c.find? t = none ∧ ∃ m, EntityMap.ofDecl d = .ok m ∧
      c.fetch t d = (.ok m, ⟨c.maps ++ [(t, m)]⟩)) ∨
    (c.find? t = none ∧ ∃ e, EntityMap.ofDecl d = .error e ∧ c.fetch t d = (.error e, c)) := by
  rw [fetch]
  cases c.find? t with
  | some m => exact .inl ⟨m, rfl, rfl⟩
  | none =>
    cases EntityMap.ofDecl d with
    | ok m => exact .inr (.inl ⟨rfl, m, rfl, rfl⟩)
    | error e => exact .inr (.inr ⟨rfl, e, rfl, rfl⟩)

theorem fetch_of_published (h : c.find? t = some m) (d : EntityDecl) :
    c.fetch t d = (.ok m, c) := by
  rw [fetch, h]

/-- A new map is found under its type and under no other one. -/
theorem find?_publish (c : Catalog τ) (t s : τ) (m : EntityMap) :
    (⟨c.maps ++ [(t, m)]⟩ : Catalog τ).find? s =
      (c.find? s).or (if s = t then some m else none) := by
  rw [find?, List.lookup_append, ← find?]
  by_cases hs : s = t
  · simp [hs]
  · have hne : (s == t) = false := beq_eq_false_iff_ne.mpr hs
    simp [List.lookup_cons, hne, hs]

/-- The map that is given is published from then on. -/
theorem find?_fetch_self (h : (c.fetch t d).1 = .ok m) : (c.fetch t d).2.find? t = some m := by
  obtain ⟨n, hfind, hfetch⟩ | ⟨hfind, n, -, hfetch⟩ | ⟨-, e, -, hfetch⟩ := c.fetch_cases t d <;>
    rw [hfetch] at h ⊢
  · exact hfind.trans (congrArg some (Except.ok.inj h))
  · rw [find?_publish, hfind, if_pos rfl]
    exact congrArg some (Except.ok.inj h)
  · cases h

theorem find?_fetch_of_published (h : c.find? t = some m) (s : τ) (d : EntityDecl) :
    (c.fetch s d).2.find? t = some m := by
  obtain ⟨n, -, hfetch⟩ | ⟨-, n, -, hfetch⟩ | ⟨-, e, -, hfetch⟩ := c.fetch_cases s d <;>
    rw [hfetch]
  · exact h
  · rw [find?_publish, h, Option.some_or]
  · exact h

/-! ### Sequences -/

/-- The catalog after types were asked for in turn, each with what it declared at the time. -/
def after (c : Catalog τ) (asked : List (τ × EntityDecl)) : Catalog τ :=
  asked.foldl (fun c call => (c.fetch call.1 call.2).2) c

/-- A published map stays published. -/
theorem find?_after_of_published (h : c.find? t = some m) (asked : List (τ × EntityDecl)) :
    (c.after asked).find? t = some m := by
  induction asked generalizing c with
  | nil => exact h
  | cons call rest ih => exact ih (find?_fetch_of_published h call.1 call.2)

/-- The published types are those with a valid declaration among the ones asked for, and each has
the map of its declaration. -/
structure Publishes (c : Catalog τ) (describe : τ → EntityDecl) (asked : List τ) : Prop where
  find? : ∀ t, c.find? t = if t ∈ asked then (EntityMap.ofDecl (describe t)).toOption else none
  nodup : (c.maps.map Prod.fst).Nodup

variable {describe : τ → EntityDecl} {asked : List τ}

theorem publishes_empty (describe : τ → EntityDecl) :
    ({} : Catalog τ).Publishes describe [] where
  find? _ := rfl
  nodup := List.nodup_nil

theorem mem_types_iff : t ∈ c.maps.map Prod.fst ↔ (c.find? t).isSome = true :=
  isSome_lookup_iff.symm

/-- A type that is asked for once more, or that has no map, adds nothing to the published ones. -/
theorem Publishes.append (h : c.Publishes describe asked)
    (ht : c.find? t = (EntityMap.ofDecl (describe t)).toOption) :
    c.Publishes describe (asked ++ [t]) where
  find? s := by
    by_cases hs : s = t
    · rw [hs, ht, if_pos (by simp)]
    · simp [h.find? s, hs]
  nodup := h.nodup

/-- One more type is asked for. -/
theorem Publishes.fetch (h : c.Publishes describe asked) (t : τ) :
    (c.fetch t (describe t)).2.Publishes describe (asked ++ [t]) := by
  obtain ⟨m, hfind, hfetch⟩ | ⟨hfind, m, hm, hfetch⟩ | ⟨hfind, e, he, hfetch⟩ :=
      c.fetch_cases t (describe t) <;>
    rw [hfetch]
  · have hasked : t ∈ asked := by
      by_contra hasked
      rw [h.find? t, if_neg hasked] at hfind
      cases hfind
    exact h.append (by rw [h.find? t, if_pos hasked])
  · refine ⟨fun s => ?_, ?_⟩
    · rw [find?_publish]
      by_cases hs : s = t
      · rw [hs, hfind, if_pos rfl, hm, if_pos (by simp)]
        rfl
      · simp [h.find? s, hs]
    · have hnew : t ∉ c.maps.map Prod.fst := by
        rw [mem_types_iff, hfind]
        exact Bool.false_ne_true
      rw [List.map_append, List.nodup_append_comm]
      exact List.nodup_cons.mpr ⟨hnew, h.nodup⟩
  · exact h.append (by rw [hfind, he]; rfl)

theorem publishes_after (describe : τ → EntityDecl) (asked : List τ) :
    (({} : Catalog τ).after (asked.map fun t => (t, describe t))).Publishes describe asked := by
  induction asked using List.reverseRecOn with
  | nil => exact publishes_empty describe
  | append_singleton asked t ih =>
    rw [List.map_append, after, List.foldl_append]
    exact ih.fetch t

theorem isSome_toOption_ofDecl :
    (EntityMap.ofDecl d).toOption.isSome = true ↔ d.IsValid := by
  rw [← EntityMap.exists_ofDecl_iff]
  cases EntityMap.ofDecl d <;> simp [Except.toOption]

/-- Each type counts once, and only if it can have a map. -/
theorem Publishes.size_eq (h : c.Publishes describe asked) :
    c.size = (asked.filter fun t => (describe t).IsValid).dedup.length := by
  have htypes : (c.maps.map Prod.fst).Perm
      (asked.filter fun t => (describe t).IsValid).dedup := by
    refine (List.perm_ext_iff_of_nodup h.nodup (List.nodup_dedup _)).mpr fun t => ?_
    rw [mem_types_iff, h.find? t, List.mem_dedup, List.mem_filter, decide_eq_true_iff]
    by_cases ht : t ∈ asked
    · simp [ht, isSome_toOption_ofDecl]
    · simp [ht]
  rw [size, ← htypes.length_eq, List.length_map]

/-- What was published before is what the declaration would give now. -/
theorem Publishes.fetch_fst (h : c.Publishes describe asked) (t : τ) :
    (c.fetch t (describe t)).1 = EntityMap.ofDecl (describe t) := by
  obtain ⟨m, hfind, hfetch⟩ | ⟨-, m, hm, hfetch⟩ | ⟨-, e, he, hfetch⟩ :=
      c.fetch_cases t (describe t) <;>
    rw [hfetch]
  · have hm : (EntityMap.ofDecl (describe t)).toOption = some m := by
      rw [h.find? t] at hfind
      exact (Option.ite_none_right_eq_some.mp hfind).2
    cases hdecl : EntityMap.ofDecl (describe t) with
    | ok n =>
      rw [hdecl] at hm
      exact congrArg Except.ok (Option.some.inj hm).symm
    | error e =>
      rw [hdecl] at hm
      cases hm
  · exact hm.symm
  · exact he.symm

end Catalog

/-- Which declarations have a map, how it can be made and what it knows, and what a catalog answers
after any sequence of types was asked for. -/
theorem publishes_declared {τ : Type} [DecidableEq τ] (describe : τ → EntityDecl)
    (asked : List τ) :
    (∀ d : EntityDecl, ((∃ m, EntityMap.ofDecl d = .ok m) ↔ d.IsValid) ∧
      EntityMap.inOnePass d = EntityMap.ofDecl d ∧
      ∀ m, EntityMap.ofDecl d = .ok m → m.Declares d) ∧
    let c := ({} : Catalog τ).after (asked.map fun t => (t, describe t))
    c.size = (asked.filter fun t => (describe t).IsValid).dedup.length ∧
    ∀ t, ((∃ e, (c.fetch t (describe t)).1 = .error e) ↔ ¬ (describe t).IsValid) ∧
      (¬ (describe t).IsValid → (c.fetch t (describe t)).2 = c) ∧
      ∀ m, (c.fetch t (describe t)).1 = .ok m → m.Declares (describe t) ∧
        ∀ more d, let later := (c.fetch t (describe t)).2.after more
          later.fetch t d = (.ok m, later) := by
  refine ⟨fun d => ⟨EntityMap.exists_ofDecl_iff, EntityMap.inOnePass_eq_ofDecl d,
    fun m => EntityMap.declares_of_ofDecl⟩, ?_⟩
  intro c
  have hpublishes : c.Publishes describe asked := Catalog.publishes_after describe asked
  refine ⟨hpublishes.size_eq, fun t => ?_⟩
  have hfst := hpublishes.fetch_fst t
  refine ⟨?_, fun hinvalid => ?_, fun m hm => ⟨?_, fun more d => ?_⟩⟩
  · rw [hfst, ← EntityMap.exists_ofDecl_iff]
    cases EntityMap.ofDecl (describe t) <;> simp
  · obtain ⟨m, -, hfetch⟩ | ⟨-, m, hm, -⟩ | ⟨-, e, -, hfetch⟩ := c.fetch_cases t (describe t)
    · rw [hfetch]
    · exact absurd (EntityMap.isValid_of_ofDecl hm) hinvalid
    · rw [hfetch]
  · exact EntityMap.declares_of_ofDecl (hfst ▸ hm)
  · exact Catalog.fetch_of_published
      (Catalog.find?_after_of_published (Catalog.find?_fetch_self hm) more) d

end EntitySql
