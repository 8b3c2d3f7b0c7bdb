import Mathlib.Algebra.Order.Field.Rat
import Yang.Interval

/-!
# Magnitudes

A decimal number denotes a rational number, and its order is the order of the numbers
denoted. Values are compared through their magnitudes, so between numbers of any types
`atMost` is the order of rational numbers, and an interval contains the values whose
magnitude lies between those of its bounds. What a text or a truth value does in an
interval is excluded here: the bounds of an interval are numbers.
-/

namespace Yang

namespace Decimal

def toRat (d : Decimal) : ℚ := d.mantissa / tenTo d.scale

private theorem tenTo_cast_pos (n : Nat) : (0 : ℚ) < tenTo n := by
  exact_mod_cast tenTo_pos n

/-- Comparing at a common scale does not change the order. -/
theorem toRat_le_toRat_iff {a b : Decimal} :
    a.toRat ≤ b.toRat ↔ a.mantissa * tenTo b.scale ≤ b.mantissa * tenTo a.scale := by
  unfold toRat
  rw [div_le_div_iff₀ (tenTo_cast_pos _) (tenTo_cast_pos _)]
  exact_mod_cast Iff.rfl

theorem compare_ne_gt_iff {a b : Decimal} : a.compare b ≠ .gt ↔ a.toRat ≤ b.toRat := by
  rw [toRat_le_toRat_iff]
  unfold compare
  rw [Ne, Int.compare_eq_gt]
  exact Int.not_lt

end Decimal

namespace Value

theorem isNumeric_iff {v : Value} : v.isNumeric = true ↔ ∃ d, v.magnitude? = some d :=
  Option.isSome_iff_exists

/-- Above a number there are only numbers, in the order of their magnitudes. So
what an interval contains is a number. -/
theorem atMost_iff_of_left {a b : Value} {x : Decimal} (ha : a.magnitude? = some x) :
    a.atMost b = true ↔ ∃ y, b.magnitude? = some y ∧ x.toRat ≤ y.toRat := by
  cases hb : b.magnitude? with
  | none => simp [atMost, compare?, ha, hb]
  | some y =>
      simp only [Option.some.injEq, exists_eq_left', ← Decimal.compare_ne_gt_iff]
      simp only [atMost, compare?, ha, hb]
      cases x.compare y <;> simp

theorem atMost_iff_of_right {a b : Value} {y : Decimal} (hb : b.magnitude? = some y) :
    a.atMost b = true ↔ ∃ x, a.magnitude? = some x ∧ x.toRat ≤ y.toRat := by
  cases ha : a.magnitude? with
  | none => simp [atMost, compare?, ha, hb]
  | some x =>
      rw [atMost_iff_of_left ha]
      simp [hb]

/-- The order of values is transitive where its middle is a number. Ranges need
no more, as their bounds are numbers. -/
theorem atMost_trans {a b c : Value} (numeric : b.isNumeric = true) (hab : a.atMost b = true)
    (hbc : b.atMost c = true) : a.atMost c = true := by
  obtain ⟨y, hb⟩ := isNumeric_iff.mp numeric
  obtain ⟨x, ha, hxy⟩ := (atMost_iff_of_right hb).mp hab
  obtain ⟨z, hc, hyz⟩ := (atMost_iff_of_left hb).mp hbc
  exact (atMost_iff_of_left ha).mpr ⟨z, hc, hxy.trans hyz⟩

end Value

namespace Interval

theorem contains_iff {i : Interval} {v : Value} :
    i.contains v = true ↔ i.start.atMost v = true ∧ v.atMost i.stop = true := by
  simp [contains]

theorem start_isNumeric (i : Interval) : i.start.isNumeric = true := i.ordered.1

theorem stop_isNumeric (i : Interval) : i.stop.isNumeric = true := by
  obtain ⟨x, hx⟩ := Value.isNumeric_iff.mp i.ordered.1
  obtain ⟨y, hy, _⟩ := (Value.atMost_iff_of_left hx).mp i.ordered.2
  exact Value.isNumeric_iff.mpr ⟨y, hy⟩

theorem contains_of_covers {i j : Interval} {v : Value} (covers : i.covers j = true)
    (hv : j.contains v = true) : i.contains v = true := by
  obtain ⟨hstart, hstop⟩ : i.contains j.start = true ∧ i.contains j.stop = true := by
    simpa [Interval.covers] using covers
  rw [contains_iff] at hstart hstop hv ⊢
  exact ⟨Value.atMost_trans j.start_isNumeric hstart.1 hv.1,
    Value.atMost_trans j.stop_isNumeric hv.2 hstop.2⟩

end Interval

end Yang
