import Mathlib.Order.Compare
import Yang.Proofs.Ascending

/-!
# Equality, order and hash of values

Numbers of every type are compared as the rational numbers that they denote. All other
values are equal to themselves only, and of these texts and truth values are ordered. A
number is hashed at its least scale, which is the same for all decimal numbers that denote
it. So equality, order and hash agree on all values, whatever types they come from.
-/

namespace Yang

namespace Decimal

theorem toRat_lt_toRat_iff {a b : Decimal} :
    a.toRat < b.toRat ↔ a.mantissa * tenTo b.scale < b.mantissa * tenTo a.scale := by
  rw [← not_le, ← not_le, toRat_le_toRat_iff]

theorem toRat_eq_toRat_iff {a b : Decimal} : a.toRat = b.toRat ↔ a.same b = true := by
  rw [le_antisymm_iff, toRat_le_toRat_iff, toRat_le_toRat_iff, ← le_antisymm_iff, same, beq_iff_eq]

/-- Comparing at a common scale compares the numbers denoted. No digit is lost,
because the scale is only ever made greater. -/
theorem compare_eq_cmp (a b : Decimal) : a.compare b = cmp a.toRat b.toRat := by
  rw [compare]
  rcases lt_trichotomy (a.mantissa * tenTo b.scale) (b.mantissa * tenTo a.scale) with h | h | h
  · rw [Int.compare_eq_lt.mpr h, cmp_eq_lt_iff _ _ |>.mpr (toRat_lt_toRat_iff.mpr h)]
  · have hsame : a.toRat = b.toRat := toRat_eq_toRat_iff.mpr (beq_iff_eq.mpr h)
    rw [Int.compare_eq_eq.mpr h, cmp_eq_eq_iff _ _ |>.mpr hsame]
  · rw [Int.compare_eq_gt.mpr h, cmp_eq_gt_iff _ _ |>.mpr (toRat_lt_toRat_iff.mpr h)]

theorem normalAt_mul_tenTo (m : Int) (scale n : Nat) :
    normalAt (m * tenTo n) (scale + n) = normalAt m scale := by
  induction n with
  | zero => simp
  | succ n ih =>
      have hmul : m * (tenTo (n + 1) : Int) = 10 * (m * tenTo n) := by
        rw [tenTo_succ, Nat.cast_mul]
        exact Int.mul_left_comm m 10 (tenTo n)
      rw [← Nat.add_assoc, normalAt, hmul, if_pos (Int.mul_emod_right 10 _),
        Int.mul_ediv_cancel_left _ (by decide), ih]

/-- The least scale does not change the number denoted. Only zeros at the end
are taken away. -/
theorem toRat_normalAt (m : Int) (scale : Nat) : (normalAt m scale).toRat = toRat ⟨m, scale⟩ := by
  induction scale generalizing m with
  | zero => rfl
  | succ scale ih =>
      rw [normalAt]
      split
      · rename_i hzero
        rw [ih, toRat_eq_toRat_iff, same, beq_iff_eq, tenTo_succ, Nat.cast_mul, ← Int.mul_assoc]
        have hcancel := Int.ediv_mul_cancel (Int.dvd_of_emod_eq_zero hzero)
        exact congrArg (· * (tenTo scale : Int)) hcancel
      · rfl

/-- Decimal numbers have the same least form exactly if they denote the same
number. -/
theorem normal_eq_normal_iff {a b : Decimal} : a.normal = b.normal ↔ a.same b = true := by
  constructor
  · intro h
    have hrat := congrArg toRat h
    rw [normal, normal, toRat_normalAt, toRat_normalAt] at hrat
    exact toRat_eq_toRat_iff.mp hrat
  · intro h
    have hscaled : a.mantissa * tenTo b.scale = b.mantissa * tenTo a.scale := beq_iff_eq.mp h
    calc a.normal = normalAt (a.mantissa * tenTo b.scale) (a.scale + b.scale) :=
          (normalAt_mul_tenTo _ _ _).symm
      _ = normalAt (b.mantissa * tenTo a.scale) (b.scale + a.scale) := by
          rw [hscaled, Nat.add_comm]
      _ = b.normal := normalAt_mul_tenTo _ _ _

end Decimal

namespace Value

variable {a b c : Value} {x y : ℚ}

theorem number?_eq_none_iff : a.number? = none ↔ a.isNumeric = false := by
  rw [number?, Option.map_eq_none_iff, isNumeric, Option.isSome_eq_false_iff,
    Option.isNone_iff_eq_none]

/-- Numbers of all types compare as what they denote. -/
theorem compare?_eq_cmp (ha : a.number? = some x) (hb : b.number? = some y) :
    a.compare? b = some (cmp x y) := by
  obtain ⟨d, hd, rfl⟩ := Option.map_eq_some_iff.mp ha
  obtain ⟨e, he, rfl⟩ := Option.map_eq_some_iff.mp hb
  have hcompare : a.compare? b = some (d.compare e) := by
    simp [compare?, hd, he]
  rw [hcompare, Decimal.compare_eq_cmp]

theorem same_iff_number_eq (ha : a.number? = some x) (hb : b.number? = some y) :
    a.same b = true ↔ x = y := by
  obtain ⟨d, hd, rfl⟩ := Option.map_eq_some_iff.mp ha
  obtain ⟨e, he, rfl⟩ := Option.map_eq_some_iff.mp hb
  simp [same, hd, he, Decimal.toRat_eq_toRat_iff]

/-- A number and another value are neither equal nor ordered, from whichever
side they are compared. -/
theorem apart_of_number (ha : a.number? = some x) (hb : b.number? = none) :
    a.same b = false ∧ b.same a = false ∧ a.compare? b = none ∧ b.compare? a = none := by
  obtain ⟨d, hd, -⟩ := Option.map_eq_some_iff.mp ha
  have he := Option.map_eq_none_iff.mp hb
  simp [same, compare?, hd, he]

section Others

theorem same_iff_eq (ha : a.number? = none) (hb : b.number? = none) : a.same b = true ↔ a = b := by
  have hd := Option.map_eq_none_iff.mp ha
  have he := Option.map_eq_none_iff.mp hb
  simp [same, hd, he]

/-- Of the values that are no numbers texts and truth values are ordered, and
all others compare with themselves only. So the order is partial. -/
theorem compare?_eq_some_iff (ha : a.number? = none) (hb : b.number? = none) {o : Ordering} :
    a.compare? b = some o ↔
      (∃ s t, a = .text s ∧ b = .text t ∧ compare s t = o) ∨
        (∃ p q, a = .flag p ∧ b = .flag q ∧ compare p q = o) ∨ a = b ∧ o = .eq := by
  cases a with
  | integer | decimal => cases ha
  | text s =>
      cases b with
      | text t =>
          have heq : s = t ∧ o = .eq → compare s t = o := by
            rintro ⟨rfl, rfl⟩
            exact Std.ReflOrd.compare_self
          simpa [compare?, magnitude?] using heq
      | _ => simp [compare?, magnitude?]
  | flag p =>
      cases b with
      | flag q =>
          have heq : p = q ∧ o = .eq → compare p q = o := by
            rintro ⟨rfl, rfl⟩
            exact Std.ReflOrd.compare_self
          simpa [compare?, magnitude?] using heq
      | _ => simp [compare?, magnitude?]
  | _ => cases b <;> simp [compare?, magnitude?, eq_comm]

theorem compare?_eq_eq_iff_eq (ha : a.number? = none) (hb : b.number? = none) :
    a.compare? b = some .eq ↔ a = b := by
  rw [compare?_eq_some_iff ha hb]
  constructor
  · rintro (⟨s, t, rfl, rfl, h⟩ | ⟨p, q, rfl, rfl, h⟩ | ⟨rfl, -⟩)
    · rw [Std.LawfulEqOrd.eq_of_compare h]
    · rw [Std.LawfulEqOrd.eq_of_compare h]
    · rfl
  · exact fun h => .inr (.inr ⟨h, rfl⟩)

theorem compare?_swap_of_some (ha : a.number? = none) (hb : b.number? = none) {o : Ordering}
    (h : a.compare? b = some o) : b.compare? a = some o.swap := by
  rw [compare?_eq_some_iff hb ha]
  rcases (compare?_eq_some_iff ha hb).mp h with
    ⟨s, t, rfl, rfl, rfl⟩ | ⟨p, q, rfl, rfl, rfl⟩ | ⟨rfl, rfl⟩
  · exact .inl ⟨t, s, rfl, rfl, Std.OrientedOrd.eq_swap⟩
  · exact .inr (.inl ⟨q, p, rfl, rfl, Std.OrientedOrd.eq_swap⟩)
  · exact .inr (.inr ⟨rfl, rfl⟩)

end Others

theorem atMost_iff : a.atMost b = true ↔ ∃ o, a.compare? b = some o ∧ o.isLE = true := by
  rw [atMost]
  cases a.compare? b with
  | none => simp
  | some o => cases o <;> simp

section Laws

variable (a b c)

/-- Two values are numbers, or none of them is, or just one. All laws of
comparison are proved for these cases. -/
theorem number?_cases :
    (∃ x y, a.number? = some x ∧ b.number? = some y) ∨
      (a.number? = none ∧ b.number? = none) ∨
      (∃ x, a.number? = some x ∧ b.number? = none) ∨
      ∃ y, a.number? = none ∧ b.number? = some y := by
  cases a.number? <;> cases b.number? <;> simp

theorem compare?_eq_eq_iff : a.compare? b = some .eq ↔ a.same b = true := by
  rcases number?_cases a b with ⟨x, y, ha, hb⟩ | ⟨ha, hb⟩ | ⟨x, ha, hb⟩ | ⟨y, ha, hb⟩
  · rw [compare?_eq_cmp ha hb, same_iff_number_eq ha hb, Option.some.injEq, cmp_eq_eq_iff]
  · rw [compare?_eq_eq_iff_eq ha hb, same_iff_eq ha hb]
  · obtain ⟨hsame, -, hcompare, -⟩ := apart_of_number ha hb
    simp [hsame, hcompare]
  · obtain ⟨-, hsame, -, hcompare⟩ := apart_of_number hb ha
    simp [hsame, hcompare]

/-- Comparing the other way round reverses the order. Numbers and other values
are treated apart; between the two there is no order to reverse. -/
theorem compare?_swap : b.compare? a = (a.compare? b).map Ordering.swap := by
  rcases number?_cases a b with ⟨x, y, ha, hb⟩ | ⟨ha, hb⟩ | ⟨x, ha, hb⟩ | ⟨y, ha, hb⟩
  · rw [compare?_eq_cmp ha hb, compare?_eq_cmp hb ha, Option.map_some, cmp_swap]
  · cases h : a.compare? b with
    | some o => exact compare?_swap_of_some ha hb h
    | none =>
        cases h' : b.compare? a with
        | some o =>
            rw [compare?_swap_of_some hb ha h'] at h
            cases h
        | none => rfl
  · obtain ⟨-, -, hcompare, hreverse⟩ := apart_of_number ha hb
    rw [hcompare, hreverse]
    rfl
  · obtain ⟨-, -, hcompare, hreverse⟩ := apart_of_number hb ha
    rw [hcompare, hreverse]
    rfl

variable {a b c}

theorem number?_eq_none_of_compare? {o : Ordering} (h : a.compare? b = some o) :
    a.number? = none ↔ b.number? = none := by
  rcases number?_cases a b with ⟨x, y, ha, hb⟩ | ⟨ha, hb⟩ | ⟨x, ha, hb⟩ | ⟨y, ha, hb⟩
  · simp [ha, hb]
  · simp [ha, hb]
  · rw [(apart_of_number ha hb).2.2.1] at h
    cases h
  · rw [(apart_of_number hb ha).2.2.2] at h
    cases h

/-- Values that are no numbers are ordered transitively. With numbers in the
middle it is the transitivity of rational numbers. -/
theorem atMost_trans_of_not_number (hb : b.number? = none) (hab : a.atMost b = true)
    (hbc : b.atMost c = true) : a.atMost c = true := by
  obtain ⟨o, ho, hle⟩ := atMost_iff.mp hab
  obtain ⟨o', ho', hle'⟩ := atMost_iff.mp hbc
  have ha := (number?_eq_none_of_compare? ho).mpr hb
  have hc := (number?_eq_none_of_compare? ho').mp hb
  rcases (compare?_eq_some_iff ha hb).mp ho with
    ⟨s, t, rfl, rfl, rfl⟩ | ⟨p, q, rfl, rfl, rfl⟩ | ⟨rfl, -⟩
  · rcases (compare?_eq_some_iff hb hc).mp ho' with ⟨t', u, ht, rfl, rfl⟩ | ⟨_, _, ht, -⟩ | ⟨rfl, -⟩
    · obtain rfl := text.inj ht
      exact atMost_iff.mpr ⟨compare s u, rfl, Std.TransOrd.isLE_trans hle hle'⟩
    · cases ht
    · exact hab
  · rcases (compare?_eq_some_iff hb hc).mp ho' with ⟨_, _, hq, -⟩ | ⟨q', r, hq, rfl, rfl⟩ | ⟨rfl, -⟩
    · cases hq
    · obtain rfl := flag.inj hq
      exact atMost_iff.mpr ⟨compare p r, rfl, Std.TransOrd.isLE_trans hle hle'⟩
    · exact hab
  · exact hbc

theorem trans_of_atMost (hab : a.atMost b = true) (hbc : b.atMost c = true) :
    a.atMost c = true := by
  cases hb : b.number? with
  | none => exact atMost_trans_of_not_number hb hab hbc
  | some y =>
      obtain ⟨d, hd, -⟩ := Option.map_eq_some_iff.mp hb
      exact atMost_trans (isNumeric_of_magnitude? hd) hab hbc

/-- A value is hashed like the values that it equals, and like no others. -/
theorem hashKey_eq_iff : a.hashKey = b.hashKey ↔ a.same b = true := by
  cases ha : a.magnitude? with
  | none =>
      cases hb : b.magnitude? with
      | none => simp [hashKey, same, ha, hb]
      | some e =>
          have hne : a ≠ .decimal e.normal := by
            rintro rfl
            cases ha
          simp [hashKey, same, ha, hb, hne]
  | some d =>
      cases hb : b.magnitude? with
      | none =>
          have hne : .decimal d.normal ≠ b := by
            rintro rfl
            cases hb
          simp [hashKey, same, ha, hb, hne]
      | some e => simp [hashKey, same, ha, hb, Decimal.normal_eq_normal_iff]

theorem same_equivalence : Equivalence fun a b : Value => a.same b = true where
  refl _ := hashKey_eq_iff.mp rfl
  symm hab := hashKey_eq_iff.mp (hashKey_eq_iff.mpr hab).symm
  trans hab hbc := hashKey_eq_iff.mp ((hashKey_eq_iff.mpr hab).trans (hashKey_eq_iff.mpr hbc))

end Laws

/-- Equality of values is an equivalence. The order is equality where it says
so, is reversed by comparing the other way round, and is transitive. Numbers of
any two types compare as the rational numbers that they denote, and no other
value is comparable with a number. Values are hashed alike exactly if they are
equal. -/
theorem comparison_laws :
    (Equivalence fun a b : Value => a.same b = true) ∧
      (∀ a b : Value, a.compare? b = some .eq ↔ a.same b = true) ∧
      (∀ a b : Value, b.compare? a = (a.compare? b).map Ordering.swap) ∧
      (∀ a b c : Value, a.atMost b = true → b.atMost c = true → a.atMost c = true) ∧
      (∀ (a b : Value) (ha : a.isNumeric = true) (hb : b.isNumeric = true),
        a.compare? b = some (cmp (a.number ha) (b.number hb))) ∧
      (∀ a b : Value, a.isNumeric = true → b.isNumeric = false →
        a.same b = false ∧ b.same a = false ∧ a.compare? b = none ∧ b.compare? a = none) ∧
      ∀ a b : Value, a.hashKey = b.hashKey ↔ a.same b = true := by
  refine ⟨same_equivalence, compare?_eq_eq_iff, compare?_swap, fun _ _ _ => trans_of_atMost, ?_, ?_,
    fun _ _ => hashKey_eq_iff⟩
  · intro a b ha hb
    exact compare?_eq_cmp (a.number?_eq_some ha) (b.number?_eq_some hb)
  · intro a b ha hb
    exact apart_of_number (a.number?_eq_some ha) (number?_eq_none_iff.mpr hb)

/-- Five is a number of one byte, a decimal number with two digits after the
point, and at most seven; it is not the text of its digit. -/
theorem comparison_laws_five :
    (integer .uint8 5 (by decide)).atMost (decimal ⟨500, 2⟩) = true ∧
      (decimal ⟨500, 2⟩).atMost (integer .int64 7 (by decide)) = true ∧
      (integer .uint8 5 (by decide)).atMost (integer .int64 7 (by decide)) = true ∧
      (integer .uint8 5 (by decide)).hashKey = (decimal ⟨500, 2⟩).hashKey ∧
      (decimal ⟨500, 2⟩).compare? (text "5") = none := by
  obtain ⟨-, -, -, trans, -, apart, hash⟩ := comparison_laws
  have hle : (integer .uint8 5 (by decide)).atMost (decimal ⟨500, 2⟩) = true := by decide
  have hle' : (decimal ⟨500, 2⟩).atMost (integer .int64 7 (by decide)) = true := by decide
  obtain ⟨-, -, hcompare, -⟩ := apart (decimal ⟨500, 2⟩) (text "5") rfl rfl
  exact ⟨hle, hle', trans _ _ _ hle hle', (hash _ _).mpr (by decide), hcompare⟩

end Value

end Yang
