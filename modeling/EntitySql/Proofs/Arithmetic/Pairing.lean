import EntitySql.Proofs.Arithmetic.Precedence
import EntitySql.Proofs.BindTable
import EntitySql.Proofs.Condition.Meaning

/-!
# Keeping operands apart

Under `Interpretation.pairing` an operation gives the pair of its operands, with a mark that no
slot has on its values. So the value of a reading shows where its operations are: readings with one
value have one shape (`Reading.sameShape_of_value?`), and readings of different shapes have
different values under some interpretation.
-/

namespace EntitySql

open Condition

/-! ### Pairs -/

/-- The mark of a value that is a marked pair. -/
def Value.mark? : Value → Option String
  | .array (.text mark :: _) => some mark
  | _ => none

/-- The interpretation under which an operation gives its two operands, marked as a pair. -/
def Interpretation.pairing (mark : String) : Interpretation where
  compare _ _ _ := .unknown
  compute _ v w := .array [.text mark, v, w]
  like _ _ := .unknown
  compare_same _ _ _ _ _ _ _ := rfl
  compute_same _ _ _ _ _ hv hw := by simp [Value.same, Value.sameItems, hv, hw]
  like_same _ _ := rfl

theorem Value.eq_array_of_same_pair {m v w x : Value}
    (h : (Value.array [m, v, w]).same x = true) :
    ∃ m' v' w', x = .array [m', v', w'] ∧ v.same v' = true ∧ w.same w' = true := by
  cases x with
  | array items =>
    obtain _ | ⟨m', _ | ⟨v', _ | ⟨w', _ | ⟨last, items⟩⟩⟩⟩ := items
    case cons.cons.cons.nil =>
      simp only [Value.same, Value.sameItems, Bool.and_eq_true] at h
      exact ⟨m', v', w', rfl, h.2.1, h.2.2.1⟩
    all_goals simp [Value.same, Value.sameItems] at h
  | _ => cases h

theorem Value.mark?_eq_of_same {v w : Value} (h : v.same w = true) : v.mark? = w.mark? := by
  cases v with
  | array items =>
    cases w with
    | array items' =>
      cases items with
      | nil =>
        cases items' with
        | nil => rfl
        | cons y ys => cases h
      | cons x xs =>
        cases items' with
        | nil => cases h
        | cons y ys =>
          rw [Value.same, Value.sameItems, Bool.and_eq_true] at h
          have hhead := h.1
          cases x <;> cases y <;> simp_all [Value.same, Value.mark?]
    | _ => cases h
  | _ => cases w <;> first | rfl | cases h

namespace Condition.Reading

/-- The value of an operation is the pair of the values of its operands. -/
theorem value?_pairing {mark : String} {slots : String → Option Value} {op : Operator}
    {l r : Reading} {row : ColumnValues} {w : Value}
    (h : (binary op l r).value? (.pairing mark) row slots = some w) :
    ∃ x y, l.value? (.pairing mark) row slots = some x ∧
      r.value? (.pairing mark) row slots = some y ∧ w = .array [.text mark, x, y] := by
  rw [value?] at h
  split at h
  · obtain ⟨x, hx, h⟩ := Option.bind_eq_some_iff.mp h
    obtain ⟨y, hy, h⟩ := Option.bind_eq_some_iff.mp h
    exact ⟨x, y, hx, hy, (Option.some.inj h).symm⟩
  · cases h

/-- The value of a reading is a pair exactly if the reading is an operation. -/
theorem mark?_iff {mark : String} {slots : String → Option Value}
    (hslots : ∀ text v, slots text = some v → v.mark? ≠ some mark) {r : Reading} {w : Value}
    (h : r.value? (.pairing mark) (fun _ => .null) slots = some w) :
    w.mark? = some mark ↔ ∃ op x y, r = .binary op x y := by
  cases r with
  | binary op l r =>
    obtain ⟨x, y, -, -, rfl⟩ := value?_pairing h
    exact iff_of_true rfl ⟨op, l, r, rfl⟩
  | column name =>
    obtain rfl := Option.some.inj h
    exact iff_of_false nofun nofun
  | slot text => exact iff_of_false (hslots text w h) nofun
  | _ => cases h

variable {mark : String} {slots : String → Option Value} {r r' : Reading} {v w w' : Value}

theorem binary_iff_of_value? (hslots : ∀ text v, slots text = some v → v.mark? ≠ some mark)
    (hr : r.value? (.pairing mark) (fun _ => .null) slots = some w)
    (hr' : r'.value? (.pairing mark) (fun _ => .null) slots = some w')
    (h : w.same v = true) (h' : w'.same v = true) :
    (∃ op x y, r = .binary op x y) ↔ ∃ op x y, r' = .binary op x y := by
  rw [← mark?_iff hslots hr, ← mark?_iff hslots hr', Value.mark?_eq_of_same h,
    Value.mark?_eq_of_same h']

/-- Readings that have one value as pairs have one shape, if no slot holds such a pair. -/
theorem sameShape_of_value? (hslots : ∀ text v, slots text = some v → v.mark? ≠ some mark)
    (hr : r.value? (.pairing mark) (fun _ => .null) slots = some w)
    (hr' : r'.value? (.pairing mark) (fun _ => .null) slots = some w')
    (h : w.same v = true) (h' : w'.same v = true) : r.SameShape r' := by
  fun_induction SameShape r r' generalizing v w w' with
  | case1 op x y op' x' y' ihl ihr =>
    obtain ⟨a, b, ha, hb, rfl⟩ := value?_pairing hr
    obtain ⟨a', b', ha', hb', rfl⟩ := value?_pairing hr'
    -- both pairs are equal to one value, part by part
    obtain ⟨m, p, q, rfl, hap, hbq⟩ := Value.eq_array_of_same_pair h
    obtain ⟨m', p', q', heq, hap', hbq'⟩ := Value.eq_array_of_same_pair h'
    cases heq
    exact ⟨ihl ha ha' hap hap', ihr hb hb' hbq hbq'⟩
  | case2 op x y s hs =>
    obtain ⟨op', x', y', heq⟩ := (binary_iff_of_value? hslots hr hr' h h').mp ⟨op, x, y, rfl⟩
    exact hs op' x' y' heq
  | case3 s op x y hs =>
    obtain ⟨op', x', y', heq⟩ := (binary_iff_of_value? hslots hr hr' h h').mpr ⟨op, x, y, rfl⟩
    exact hs op' x' y' heq
  | case4 => trivial

end Condition.Reading

/-- Some mark is on no value of the table. -/
theorem BindTable.exists_mark (t : BindTable) :
    ∃ mark, ∀ text v, t.valueOf? text = some v → v.mark? ≠ some mark := by
  let marks := t.slots.filterMap fun s => s.value.mark?
  refine ⟨numberedName "" (freshNumber "" marks 0), fun text v hv hmark => ?_⟩
  obtain ⟨s, hs, rfl⟩ := Option.map_eq_some_iff.mp hv
  have hmem : numberedName "" (freshNumber "" marks 0) ∈ marks :=
    List.mem_filterMap.mpr ⟨s, List.mem_of_find?_eq_some hs, hmark⟩
  exact numberedName_not_mem "" marks 0 hmem

end EntitySql
