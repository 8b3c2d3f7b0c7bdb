import Mathlib.Algebra.Order.Field.Basic
import Mathlib.Data.List.TakeWhile
import Mathlib.Tactic.FieldSimp
import Mathlib.Tactic.NormNum
import Mathlib.Tactic.Positivity
import Yang.Proofs.Literal.Spelling
import Yang.Proofs.Magnitude

/-!
# What decimal literals denote

A literal without exponent denotes the number that its sign, its digits and its point write, and
one with an exponent that number with its point moved. The reader rounds what it cannot hold.
Such a result has a scale or a mantissa past the bounds of decimal64, so no rounded number is
accepted, unless an exponent makes the scale small again.
-/

namespace Yang

open Json Literal

namespace Decimal

/-- The decimal number that a text writes by its sign, its digits and its point. -/
def written (cs : List Char) : Decimal where
  mantissa :=
    if cs.head? = some '-' then -(digitsValue (digitsOf cs) : Int)
    else digitsValue (digitsOf cs)
  scale := (fractionOf cs).length

/-- A literal without exponent: a sign or none, and digits with a point and
underscores. -/
def IsPlain (cs : List Char) : Prop :=
  ∃ sign ∈ [[], ['-'], ['+']], ∃ body, cs = sign ++ body ∧ Continues false false body

/-- A reading of the literal gives the number, or rounds it: to a smaller scale,
less than a unit off, and only at the greatest scale or with a mantissa of more
than sixty-four bits. -/
def RoundedTo (w d : Decimal) : Prop :=
  d = w ∨ d.scale < w.scale ∧ (scaleBound ≤ d.scale ∨ 0x10000000000000000 < d.mantissa.natAbs) ∧
    |d.toRat - w.toRat| < 1 / tenTo d.scale

section Signs

variable {cs : List Char} {d : Decimal}

theorem toRat_neg (m : Int) (s : Nat) : toRat ⟨-m, s⟩ = -toRat ⟨m, s⟩ := by
  simp [toRat, neg_div]

theorem tenTo_cast_add (m n : Nat) : (tenTo (m + n) : ℚ) = tenTo m * 10 ^ n := by
  simp [tenTo, pow_add]

theorem roundedTo_of_rounded (negative : Bool) {p q : Nat × Nat} (h : Rounded p q) :
    RoundedTo ⟨if negative then -(p.1 : Int) else p.1, p.2⟩
      ⟨if negative then -(q.1 : Int) else q.1, q.2⟩ := by
  obtain ⟨n, scale⟩ := p
  obtain ⟨m, s⟩ := q
  obtain heq | ⟨hscale, hlong, hlow, hhigh⟩ := h
  · rw [heq]
    exact .inl rfl
  · obtain ⟨k, rfl⟩ := Nat.exists_eq_add_of_le hscale.le
    simp only [Nat.add_sub_cancel_left] at hlow hhigh
    have hunit : (0 : ℚ) < tenTo s := by exact_mod_cast tenTo_pos s
    have hpower : (0 : ℚ) < 10 ^ k := by positivity
    have hnear : |(m : ℚ) * 10 ^ k - n| < 10 ^ k := by
      rw [abs_lt, neg_lt_sub_iff_lt_add, sub_lt_iff_lt_add]
      constructor
      · rw [add_comm]
        exact_mod_cast hhigh
      · rw [add_comm]
        exact_mod_cast hlow
    have hdiff : |toRat ⟨m, s⟩ - toRat ⟨n, s + k⟩| < 1 / tenTo s := by
      have heq : toRat ⟨m, s⟩ - toRat ⟨n, s + k⟩ =
          ((m : ℚ) * 10 ^ k - n) / (tenTo s * 10 ^ k) := by
        simp only [toRat, tenTo_cast_add, Int.cast_natCast]
        field_simp
      rw [heq, abs_div, abs_of_pos (mul_pos hunit hpower),
        div_lt_div_iff₀ (mul_pos hunit hpower) hunit, one_mul, mul_comm]
      exact mul_lt_mul_of_pos_left hnear hunit
    refine .inr ⟨hscale, ?_, ?_⟩
    · cases negative <;> simpa using hlong
    · cases negative with
      | false => exact hdiff
      | true =>
          simp only [if_true, toRat_neg, neg_sub_neg]
          rwa [abs_sub_comm]

def Reading.start : Reading := ⟨false, false, 0, 0⟩

open Literal

theorem unsign_cases (cs : List Char) :
    (∃ r, cs = '-' :: r ∧ unsign cs = (true, r)) ∨ (∃ r, cs = '+' :: r ∧ unsign cs = (false, r)) ∨
      (∀ r, cs ≠ '-' :: r) ∧ (∀ r, cs ≠ '+' :: r) ∧ unsign cs = (false, cs) := by
  rw [unsign.eq_def]
  split
  · exact .inl ⟨_, rfl, rfl⟩
  · exact .inr (.inl ⟨_, rfl, rfl⟩)
  · rename_i hminus hplus
    exact .inr (.inr ⟨hminus, hplus, rfl⟩)

theorem unsign_of_continues (h : Continues false false cs) : unsign cs = (false, cs) := by
  rw [unsign.eq_def]
  split
  · obtain hdigit | heq | heq := h.chars '-' (List.mem_cons_self ..) <;> cases ‹_›
  · obtain hdigit | heq | heq := h.chars '+' (List.mem_cons_self ..) <;> cases ‹_›
  · rfl

theorem isPlain_iff : IsPlain cs ↔ Continues false false (unsign cs).2 := by
  constructor
  · rintro ⟨sign, hsign, body, rfl, hbody⟩
    simp only [List.mem_cons, List.not_mem_nil, or_false] at hsign
    rcases hsign with rfl | rfl | rfl
    · rwa [List.nil_append, unsign_of_continues hbody]
    · exact hbody
    · exact hbody
  · intro h
    obtain ⟨r, rfl, hr⟩ | ⟨r, rfl, hr⟩ | ⟨-, -, hr⟩ := unsign_cases cs
    · exact ⟨['-'], by simp, r, rfl, h⟩
    · exact ⟨['+'], by simp, r, rfl, h⟩
    · rw [hr] at h
      exact ⟨[], by simp, cs, rfl, h⟩

theorem written_eq (cs : List Char) :
    written cs = ⟨if (unsign cs).1 then -((Reading.start.written (unsign cs).2).1 : Int)
      else (Reading.start.written (unsign cs).2).1, (Reading.start.written (unsign cs).2).2⟩ := by
  obtain ⟨r, rfl, hr⟩ | ⟨r, rfl, hr⟩ | ⟨hminus, -, hr⟩ := unsign_cases cs
  · simp [written, hr, Reading.written, Reading.start, digitsOf_cons_of_not_isDigit,
      fractionOf_cons_of_ne]
  · simp [written, hr, Reading.written, Reading.start, digitsOf_cons_of_not_isDigit,
      fractionOf_cons_of_ne]
  · have hhead : cs.head? ≠ some '-' := by
      intro hhead
      obtain ⟨r, rfl⟩ := List.head?_eq_some_iff.mp hhead
      exact hminus r rfl
    simp [written, hr, Reading.written, Reading.start, hhead]

theorem plain?_eq (cs : List Char) :
    plain? cs = (unsigned? (unsign cs).2).map fun p =>
      ⟨if (unsign cs).1 then -(p.1 : Int) else p.1, p.2⟩ := by
  obtain ⟨r, rfl, -⟩ | ⟨r, rfl, -⟩ | ⟨hminus, hplus, hr⟩ := unsign_cases cs
  · rfl
  · rfl
  · rw [plain?.eq_def]
    split
    · exact absurd rfl (hminus _)
    · exact absurd rfl (hplus _)
    · rw [hr]
      rfl

/-- What is read without exponent has the form of such a literal, and the number
is the one written or a rounded one. All of the text is read: there is no rest. -/
theorem plain?_eq_some (h : plain? cs = some d) : IsPlain cs ∧ RoundedTo (written cs) d := by
  rw [plain?_eq, Option.map_eq_some_iff] at h
  obtain ⟨q, hq, rfl⟩ := h
  obtain ⟨hform, hrounded⟩ := finish?_eq_some (r := Reading.start) (.inr rfl) hq
  rw [isPlain_iff, written_eq]
  exact ⟨hform, roundedTo_of_rounded _ hrounded⟩

/-- A literal without exponent is read, and exactly, if a reading can hold it. -/
theorem plain?_of_isPlain (h : IsPlain cs) (hm : (written cs).mantissa.natAbs < mantissaBound)
    (hs : (written cs).scale ≤ scaleBound) : plain? cs = some (written cs) := by
  rw [written_eq] at hm hs
  have hread : unsigned? (unsign cs).2 = some (Reading.start.written (unsign cs).2) := by
    refine finish?_of_continues (r := Reading.start) (isPlain_iff.mp h) ?_ hs
    revert hm
    cases (unsign cs).1 <;> simp
  rw [plain?_eq, hread, written_eq]
  rfl

end Signs

section Exponents

variable {cs : List Char} {d e : Decimal} {n : Nat}

/-- An exponent and the integer that it writes: decimal digits with a plus or
none, and a minus in front or none. -/
def IsExponent (cs : List Char) (x : Int) : Prop :=
  ∃ digits, digits ≠ [] ∧ (∀ c ∈ digits, c.isDigit = true) ∧
    ((cs = digits ∨ cs = '+' :: digits) ∧ x = digitsValue digits ∨
      (cs = '-' :: digits ∨ cs = '-' :: '+' :: digits) ∧ x = -(digitsValue digits : Int))

/-- A literal whose first mark of an exponent stands behind `base` and before an
exponent that writes `x`. -/
def IsScientific (cs base : List Char) (x : Int) : Prop :=
  (∀ c ∈ base, isExponentMark c = false) ∧
    ∃ mark tail, cs = base ++ mark :: tail ∧ isExponentMark mark = true ∧ IsExponent tail x

theorem number?_ten_eq_some_iff :
    Text.number? 10 cs = some n ↔ (∀ c ∈ cs, c.isDigit = true) ∧ n = digitsValue cs := by
  constructor
  · intro h
    have hdigits : ∀ c ∈ cs, c.isDigit = true := by
      have hwrites := (number?_eq_some_iff (by decide)).mp h
      clear h
      induction hwrites with
      | nil => exact List.forall_mem_nil _
      | cons first _ ih =>
          have hc := (digit?_eq_some_iff (by decide)).mpr first
          exact List.forall_mem_cons.mpr ⟨(Text.digit?_ten_eq_some_iff.mp hc).1, ih⟩
    exact ⟨hdigits, Option.some.inj (h.symm.trans (number?_of_isDigit hdigits))⟩
  · rintro ⟨digits, rfl⟩
    exact number?_of_isDigit digits

theorem exponentSize?_eq_some (h : exponentSize? cs = some n) :
    ∃ digits, digits ≠ [] ∧ (∀ c ∈ digits, c.isDigit = true) ∧ (cs = digits ∨ cs = '+' :: digits) ∧
      n = digitsValue digits := by
  have hsize : ∀ digits : List Char, (if digits.isEmpty then none
      else (Text.number? 10 digits).filter (· < 0x100000000)) = some n →
      digits ≠ [] ∧ (∀ c ∈ digits, c.isDigit = true) ∧ n = digitsValue digits := by
    intro digits hn
    split at hn
    · cases hn
    · rename_i hne
      rw [Option.filter_eq_some_iff] at hn
      obtain ⟨hdigits, hvalue⟩ := number?_ten_eq_some_iff.mp hn.1
      exact ⟨by simpa using hne, hdigits, hvalue⟩
  simp only [exponentSize?] at h
  split at h
  · rename_i r
    obtain ⟨hne, hdigits, hn⟩ := hsize r h
    exact ⟨r, hne, hdigits, .inr rfl, hn⟩
  · obtain ⟨hne, hdigits, hn⟩ := hsize cs h
    exact ⟨cs, hne, hdigits, .inl rfl, hn⟩

/-- Moving the point to the left only lowers the unit, up to the greatest scale.
Past it digits would be rounded away. -/
theorem shiftLeft?_eq_some (h : d.shiftLeft? n = some e) (hs : e.scale < scaleBound) :
    e = ⟨d.mantissa, d.scale + n⟩ := by
  rw [shiftLeft?] at h
  split at h
  · cases h
  · split at h
    · exact (Option.some.inj h).symm
    · obtain rfl := Option.some.inj h
      exact absurd hs (Nat.lt_irrefl _)

/-- Moving the point to the right is exact, and the mantissa does not get
smaller. -/
theorem shiftRight?_eq_some (h : d.shiftRight? n = some e) :
    e.toRat = d.toRat * 10 ^ n ∧ d.mantissa.natAbs ≤ e.mantissa.natAbs := by
  have hunit : ∀ k, (tenTo k : ℚ) ≠ 0 := fun k => by exact_mod_cast (tenTo_pos k).ne'
  rw [shiftRight?] at h
  split at h
  · rename_i hle
    obtain rfl := Option.some.inj h
    obtain ⟨k, hk⟩ := Nat.exists_eq_add_of_le hle
    have hpower : (tenTo d.scale : ℚ) = tenTo (d.scale - n) * 10 ^ n := by
      rw [← tenTo_cast_add, Nat.sub_add_cancel hle]
    refine ⟨?_, Nat.le_refl _⟩
    have := hunit (d.scale - n)
    rw [toRat, toRat, hpower]
    field_simp
  · rename_i hlt
    split at h
    · cases h
    · simp only at h
      split at h
      · obtain rfl := Option.some.inj h
        have hpower : (10 : ℚ) ^ n = tenTo d.scale * tenTo (n - d.scale) := by
          simp only [tenTo, Nat.pow_eq, Nat.cast_pow, Nat.cast_ofNat, ← pow_add]
          rw [Nat.add_sub_cancel' (Nat.le_of_not_le hlt)]
        constructor
        · have := hunit d.scale
          rw [toRat, toRat, hpower]
          simp only [tenTo_zero, Int.cast_mul, Int.cast_natCast, Nat.cast_one, div_one]
          field_simp
        · rw [Int.natAbs_mul, Int.natAbs_natCast]
          exact Nat.le_mul_of_pos_right _ (tenTo_pos _)
      · cases h

/-- What is read with an exponent has a mark, a literal without exponent in
front of its first one and an exponent behind. -/
theorem scientific?_eq_some (h : scientific? cs = some e) :
    ∃ base d x, IsScientific cs base x ∧ plain? base = some d ∧
      ((∃ n : Nat, x = n ∧ d.shiftRight? n = some e) ∨
        ∃ n : Nat, x = -(n : Int) ∧ d.shiftLeft? n = some e) := by
  have hsplit : cs.takeWhile (fun c => !isExponentMark c) ++
      cs.dropWhile (fun c => !isExponentMark c) = cs := List.takeWhile_append_dropWhile
  have hbase : ∀ c ∈ cs.takeWhile (fun c => !isExponentMark c), isExponentMark c = false := by
    intro c hc
    simpa using List.mem_takeWhile_imp hc
  have hmark : ∀ c r, cs.dropWhile (fun c => !isExponentMark c) = c :: r →
      isExponentMark c = true := by
    intro c r hdrop
    have := List.head?_dropWhile_not (fun c => !isExponentMark c) cs
    rw [hdrop] at this
    simpa using this
  rw [scientific?] at h
  split at h
  · rename_i d mark r hplain hdrop
    obtain ⟨n, hn, hshift⟩ := Option.bind_eq_some_iff.mp h
    obtain ⟨digits, hne, hdigits, hform, hvalue⟩ := exponentSize?_eq_some hn
    refine ⟨_, d, -(n : Int), ⟨hbase, mark, _, (hdrop ▸ hsplit).symm, hmark _ _ hdrop, ?_⟩, hplain,
      .inr ⟨n, rfl, hshift⟩⟩
    refine ⟨digits, hne, hdigits, .inr ⟨?_, by rw [hvalue]⟩⟩
    exact hform.imp (congrArg _) (congrArg _)
  · rename_i d mark r _ hplain hdrop
    obtain ⟨n, hn, hshift⟩ := Option.bind_eq_some_iff.mp h
    obtain ⟨digits, hne, hdigits, hform, hvalue⟩ := exponentSize?_eq_some hn
    exact ⟨_, d, n, ⟨hbase, mark, _, (hdrop ▸ hsplit).symm, hmark _ _ hdrop,
      digits, hne, hdigits, .inl ⟨hform, by rw [hvalue]⟩⟩, hplain, .inl ⟨n, rfl, hshift⟩⟩
  · cases h

end Exponents

section Bounds

variable {cs base : List Char} {w d e : Decimal} {x : Int}

theorem natAbs_mantissa_le (h : IsDecimal64 d) : d.mantissa.natAbs ≤ 0x10000000000000000 :=
  IntegerType.natAbs_le h.2

theorem scale_lt (h : IsDecimal64 d) : d.scale < scaleBound := Nat.lt_of_le_of_lt h.1 (by decide)

/-- A rounded number is no number of type decimal64, as its scale or its
mantissa is too large. So rounding is never accepted by itself. -/
theorem RoundedTo.eq (h : RoundedTo w d) (hd : IsDecimal64 d) : d = w := by
  obtain rfl | ⟨-, hscale | hlong, -⟩ := h
  · rfl
  · exact absurd (scale_lt hd) (Nat.not_lt.mpr hscale)
  · exact absurd (natAbs_mantissa_le hd) (Nat.not_le.mpr hlong)

theorem toRat_shiftLeft (m : Int) (s n : Nat) :
    toRat ⟨m, s + n⟩ = toRat ⟨m, s⟩ * 10 ^ (-(n : Int)) := by
  have hunit : (tenTo s : ℚ) ≠ 0 := by exact_mod_cast (tenTo_pos s).ne'
  rw [toRat, toRat, tenTo_cast_add, zpow_neg, zpow_natCast]
  field_simp

/-- An exponent lets a number of type decimal64 be rounded only where more than
twenty-eight digits stand behind the point. Then the number has been rounded
before the point is moved. -/
theorem RoundedTo.toRat_shifted (h : RoundedTo w d) (he : IsDecimal64 e)
    (hshift : (∃ n : Nat, x = n ∧ d.shiftRight? n = some e) ∨
      ∃ n : Nat, x = -(n : Int) ∧ d.shiftLeft? n = some e) :
    e.toRat = w.toRat * 10 ^ x ∨
      28 < w.scale ∧ |e.toRat - w.toRat * 10 ^ x| < 10 ^ (x - 28) := by
  obtain ⟨n, rfl, hright⟩ | ⟨n, rfl, hleft⟩ := hshift
  · obtain ⟨hvalue, hle⟩ := shiftRight?_eq_some hright
    rw [hvalue, zpow_natCast]
    obtain rfl | ⟨hscale, hfull | hlong, hnear⟩ := h
    · exact .inl rfl
    · refine .inr ⟨Nat.lt_of_le_of_lt hfull hscale, ?_⟩
      have hpower : (0 : ℚ) < 10 ^ n := by positivity
      have hunit : (1 : ℚ) / tenTo d.scale ≤ 1 / 10 ^ 28 := by
        refine one_div_le_one_div_of_le (by positivity) ?_
        exact_mod_cast Nat.pow_le_pow_right (by decide : 0 < 10) hfull
      calc |d.toRat * 10 ^ n - w.toRat * 10 ^ n|
          = |d.toRat - w.toRat| * 10 ^ n := by rw [← sub_mul, abs_mul, abs_of_pos hpower]
        _ < 1 / 10 ^ 28 * 10 ^ n := mul_lt_mul_of_pos_right (hnear.trans_le hunit) hpower
        _ = 10 ^ ((n : Int) - 28) := by
            rw [zpow_sub₀ (by decide), zpow_natCast]
            field_simp
    · exact absurd (hle.trans (natAbs_mantissa_le he)) (Nat.not_le.mpr hlong)
  · obtain rfl := shiftLeft?_eq_some hleft (scale_lt he)
    have hd : IsDecimal64 d := ⟨Nat.le_trans (Nat.le_add_right _ _) he.1, he.2⟩
    rw [← h.eq hd]
    exact .inl (toRat_shiftLeft _ _ _)

theorem IsPlain.isExponentMark (h : IsPlain cs) : ∀ c ∈ cs, isExponentMark c = false := by
  obtain ⟨sign, hsign, body, rfl, hbody⟩ := h
  have hdigit : ∀ c : Char, c.isDigit = true → Decimal.isExponentMark c = false := by
    intro c hc
    have hne : ∀ x, x.isDigit = false → c ≠ x := by
      rintro x hx rfl
      rw [hc] at hx
      cases hx
    simp [Decimal.isExponentMark, hne 'e' rfl, hne 'E' rfl]
  intro c hc
  rcases List.mem_append.mp hc with hc | hc
  · simp only [List.mem_cons, List.not_mem_nil, or_false] at hsign
    rcases hsign with rfl | rfl | rfl
    · cases hc
    · rw [List.mem_singleton.mp hc]
      rfl
    · rw [List.mem_singleton.mp hc]
      rfl
  · obtain hc | rfl | rfl := hbody.chars c hc
    · exact hdigit c hc
    · rfl
    · rfl

theorem IsScientific.isExponentMark (h : IsScientific cs base x) :
    ∃ c ∈ cs, Decimal.isExponentMark c = true := by
  obtain ⟨-, mark, tail, rfl, hmark, -⟩ := h
  exact ⟨mark, by simp, hmark⟩

end Bounds

end Decimal

namespace Literal

/-- A literal of type decimal64: a sign or none, digits, and optionally a point
and more digits. -/
def IsDecimalLiteral (cs : List Char) : Prop :=
  ∃ sign ∈ [[], ['-'], ['+']], ∃ whole fraction,
    cs = sign ++ (whole ++ if fraction = [] then [] else '.' :: fraction) ∧ whole ≠ [] ∧
      ∀ c ∈ whole ++ fraction, c.isDigit = true

section

variable {raw : String} {d : Decimal}

theorem decimal64_eq_ok_iff :
    decimal64 raw = .ok d ↔
      lacksDigit raw.toList = false ∧ Decimal.parse? raw = some d ∧ IsDecimal64 d := by
  rw [decimal64]
  cases hlacks : lacksDigit raw.toList with
  | true => simp
  | false =>
      cases hparse : Decimal.parse? raw with
      | none => simp
      | some e =>
          by_cases hspace : IsDecimal64 e
          · simp only [Bool.false_eq_true, if_false, if_pos hspace, Except.ok.injEq,
              Option.some.injEq, true_and]
            exact ⟨fun h => ⟨h, h ▸ hspace⟩, fun h => h.1⟩
          · simp only [Bool.false_eq_true, if_false, if_neg hspace, reduceCtorEq, Option.some.injEq,
              true_and, false_iff, not_and]
            rintro rfl
            exact hspace

/-- Of the literals without exponent those are accepted that have digits at
their ends, and whose number is of the type. -/
theorem decimal64_eq_ok_iff_of_noMark
    (noMark : ∀ c ∈ raw.toList, Decimal.isExponentMark c = false) :
    decimal64 raw = .ok d ↔ lacksDigit raw.toList = false ∧ Decimal.IsPlain raw.toList ∧
      d = Decimal.written raw.toList ∧ IsDecimal64 d := by
  rw [decimal64_eq_ok_iff]
  refine and_congr_right fun _ => ?_
  rw [Decimal.parse?]
  constructor
  · rintro ⟨hparse, hspace⟩
    cases hplain : Decimal.plain? raw.toList with
    | some e =>
        rw [hplain] at hparse
        obtain rfl : e = d := Option.some.inj hparse
        obtain ⟨hform, hrounded⟩ := Decimal.plain?_eq_some hplain
        exact ⟨hform, hrounded.eq hspace, hspace⟩
    | none =>
        rw [hplain] at hparse
        obtain ⟨_, _, _, hscientific, -⟩ := Decimal.scientific?_eq_some hparse
        obtain ⟨c, hc, hmark⟩ := hscientific.isExponentMark
        rw [noMark c hc] at hmark
        cases hmark
  · rintro ⟨hform, rfl, hspace⟩
    have hm := Nat.lt_of_le_of_lt (Decimal.natAbs_mantissa_le hspace)
      (by decide : _ < Decimal.mantissaBound)
    rw [Decimal.plain?_of_isPlain hform hm (Decimal.scale_lt hspace).le]
    exact ⟨rfl, hspace⟩

/-- What is accepted has the form of a literal without exponent, and then the
number is the one written, or it has an exponent, and then the number is that of
the literal in front with the point moved. -/
theorem decimal64_eq_ok (h : decimal64 raw = .ok d) :
    IsDecimal64 d ∧
      (Decimal.IsPlain raw.toList ∧ d = Decimal.written raw.toList ∨
        ∃ base x, Decimal.IsScientific raw.toList base x ∧ Decimal.IsPlain base ∧
          (d.toRat = (Decimal.written base).toRat * 10 ^ x ∨
            28 < (Decimal.written base).scale ∧
              |d.toRat - (Decimal.written base).toRat * 10 ^ x| < 10 ^ (x - 28))) := by
  obtain ⟨-, hparse, hspace⟩ := decimal64_eq_ok_iff.mp h
  refine ⟨hspace, ?_⟩
  rw [Decimal.parse?] at hparse
  cases hplain : Decimal.plain? raw.toList with
  | some e =>
      rw [hplain] at hparse
      obtain rfl : e = d := Option.some.inj hparse
      obtain ⟨hform, hrounded⟩ := Decimal.plain?_eq_some hplain
      exact .inl ⟨hform, hrounded.eq hspace⟩
  | none =>
      rw [hplain] at hparse
      obtain ⟨base, e, x, hscientific, hbase, hshift⟩ := Decimal.scientific?_eq_some hparse
      obtain ⟨hform, hrounded⟩ := Decimal.plain?_eq_some hbase
      exact .inr ⟨base, x, hscientific, hform, hrounded.toRat_shifted hspace hshift⟩

end

section

variable {cs : List Char}

theorem continues_append {point digit : Bool} {whole rest : List Char}
    (digits : ∀ c ∈ whole, c.isDigit = true) (ne : whole ≠ []) :
    Decimal.Continues point digit (whole ++ rest) ↔ Decimal.Continues point true rest := by
  induction whole generalizing digit with
  | nil => exact absurd rfl ne
  | cons c whole ih =>
      obtain ⟨hc, hwhole⟩ := List.forall_mem_cons.mp digits
      rw [List.cons_append, Decimal.continues_digit hc]
      rcases eq_or_ne whole [] with rfl | hne
      · rfl
      · exact ih hwhole hne

theorem IsDecimalLiteral.isPlain (h : IsDecimalLiteral cs) : Decimal.IsPlain cs := by
  obtain ⟨sign, hsign, whole, fraction, rfl, hne, hdigits⟩ := h
  obtain ⟨hwhole, hfraction⟩ := List.forall_mem_append.mp hdigits
  refine ⟨sign, hsign, _, rfl, (continues_append hwhole hne).mpr ?_⟩
  split
  · exact Decimal.continues_nil.mpr rfl
  · exact Decimal.continues_point.mpr
      ⟨rfl, Decimal.continues_true_true_iff.mpr fun c hc => .inl (hfraction c hc)⟩

theorem getLast?_ne_of_digits {cs : List Char} (digits : ∀ c ∈ cs, c.isDigit = true) (hne : cs ≠ [])
    (before : List Char) : (before ++ cs).getLast? ≠ some '.' := by
  rw [List.getLast?_append_of_ne_nil _ hne]
  intro hlast
  cases digits '.' (List.mem_of_getLast? hlast)

theorem lacksDigit_eq_false_iff :
    lacksDigit cs = false ↔ cs ≠ [] ∧ cs.head? ≠ some '.' ∧ cs.getLast? ≠ some '.' := by
  simp [lacksDigit, and_assoc]

theorem IsDecimalLiteral.lacksDigit (h : IsDecimalLiteral cs) : lacksDigit cs = false := by
  obtain ⟨sign, hsign, whole, fraction, rfl, hne, hdigits⟩ := h
  obtain ⟨hwhole, hfraction⟩ := List.forall_mem_append.mp hdigits
  have hlast : (sign ++ (whole ++ if fraction = [] then [] else '.' :: fraction)).getLast? ≠
      some '.' := by
    rcases eq_or_ne fraction [] with rfl | hsome
    · rw [if_pos rfl, List.append_nil]
      exact getLast?_ne_of_digits hwhole hne _
    · rw [if_neg hsome, ← List.append_assoc, List.append_cons]
      exact getLast?_ne_of_digits hfraction hsome _
  obtain ⟨c, rest, rfl⟩ := List.exists_cons_of_ne_nil hne
  have hc : c ≠ '.' := Decimal.ne_point_of_isDigit (hwhole c (List.mem_cons_self ..))
  rw [lacksDigit_eq_false_iff]
  refine ⟨by simp, ?_, hlast⟩
  simp only [List.mem_cons, List.not_mem_nil, or_false] at hsign
  rcases hsign with rfl | rfl | rfl
  · exact fun hpoint => hc (Option.some.inj hpoint)
  · nofun
  · nofun

end

/-- A literal of the type is accepted if it has eighteen fraction digits at most
and its digits write a signed integer of sixty-four bits, and then these are the
scale and the mantissa. What is accepted is a number of the type. Without
exponent it is the number that the sign, the digits and the point of the text
write; with an exponent it is that of the text in front with its point moved,
and less than a unit of the twenty-eighth fraction digit off if there are more
of them. -/
theorem decimal64_exact (raw : String) :
    (IsDecimalLiteral raw.toList → ∀ d, decimal64 raw = .ok d ↔
      d = Decimal.written raw.toList ∧ d.scale ≤ 18 ∧ -2 ^ 63 ≤ d.mantissa ∧ d.mantissa < 2 ^ 63) ∧
    ∀ d, decimal64 raw = .ok d →
      (d.scale ≤ 18 ∧ -2 ^ 63 ≤ d.mantissa ∧ d.mantissa < 2 ^ 63) ∧
      ((∀ c ∈ raw.toList, Decimal.isExponentMark c = false) ∧ d = Decimal.written raw.toList ∨
        ∃ base x, Decimal.IsScientific raw.toList base x ∧
          (d.toRat = (Decimal.written base).toRat * 10 ^ x ∨
            28 < (Decimal.written base).scale ∧
              |d.toRat - (Decimal.written base).toRat * 10 ^ x| < 10 ^ (x - 28))) := by
  have hspace : ∀ d, IsDecimal64 d ↔
      d.scale ≤ 18 ∧ -2 ^ 63 ≤ d.mantissa ∧ d.mantissa < 2 ^ 63 := by
    intro d
    exact and_congr_right fun _ => IntegerType.holds_iff_fits
  constructor
  · intro hliteral d
    rw [decimal64_eq_ok_iff_of_noMark hliteral.isPlain.isExponentMark, ← hspace]
    exact ⟨fun h => h.2.2, fun h => ⟨hliteral.lacksDigit, hliteral.isPlain, h⟩⟩
  · intro d hd
    obtain ⟨hd, ⟨hform, hvalue⟩ | ⟨base, x, hform, -, hvalue⟩⟩ := decimal64_eq_ok hd
    · exact ⟨(hspace d).mp hd, .inl ⟨hform.isExponentMark, hvalue⟩⟩
    · exact ⟨(hspace d).mp hd, .inr ⟨base, x, hform, hvalue⟩⟩

/-- The least mantissa of the type is that of a literal, and its opposite is too
large. -/
theorem decimal64_exact_least :
    (decimal64 "-922337203685477580.8" = .ok ⟨-9223372036854775808, 1⟩ ∧
      ∀ c ∈ "-922337203685477580.8".toList, Decimal.isExponentMark c = false) ∧
      ¬∃ d, decimal64 "+922337203685477580.8" = .ok d := by
  have hleast : IsDecimalLiteral "-922337203685477580.8".toList :=
    ⟨['-'], by decide, "922337203685477580".toList, ['8'], rfl, by decide, List.all_eq_true.mp rfl⟩
  have hopposite : IsDecimalLiteral "+922337203685477580.8".toList :=
    ⟨['+'], by decide, "922337203685477580".toList, ['8'], rfl, by decide, List.all_eq_true.mp rfl⟩
  have hread : decimal64 "-922337203685477580.8" = .ok ⟨-9223372036854775808, 1⟩ :=
    ((decimal64_exact _).1 hleast _).mpr (by decide)
  refine ⟨⟨hread, ?_⟩, ?_⟩
  · obtain ⟨-, ⟨hmarks, -⟩ | ⟨base, x, hform, -⟩⟩ := (decimal64_exact _).2 _ hread
    · exact hmarks
    · obtain ⟨c, hc, hmark⟩ := hform.isExponentMark
      rw [hleast.isPlain.isExponentMark c hc] at hmark
      cases hmark
  · rintro ⟨d, hd⟩
    obtain ⟨rfl, -, -, hlt⟩ := ((decimal64_exact _).1 hopposite d).mp hd
    exact absurd hlt (by decide)

/-- Numbers of which more digits are written than a reading can hold are
accepted when an exponent makes the scale small again, and they are not those
that are written. -/
theorem rounded_before_exponent :
    decimal64 "0.00000000000000000000000000015e10" = .ok ⟨2, 18⟩ ∧
      Decimal.IsScientific "0.00000000000000000000000000015e10".toList
        "0.00000000000000000000000000015".toList 10 ∧
      Decimal.toRat ⟨2, 18⟩ ≠
        (Decimal.written "0.00000000000000000000000000015".toList).toRat * 10 ^ 10 ∧
      decimal64 "1e5" = .ok ⟨100000, 0⟩ ∧
      Decimal.toRat ⟨100000, 0⟩ ≠ (Decimal.written "1e5".toList).toRat := by
  have hbase : Decimal.written "0.00000000000000000000000000015".toList = ⟨15, 29⟩ := by decide
  have hwhole : Decimal.written "1e5".toList = ⟨15, 0⟩ := by decide
  have hmarks : ∀ c ∈ "0.00000000000000000000000000015".toList, Decimal.isExponentMark c = false :=
    fun c hc => Bool.eq_false_iff.mpr (List.any_eq_false.mp rfl c hc)
  refine ⟨rfl, ⟨hmarks, 'e', ['1', '0'], rfl, rfl, ['1', '0'], by decide, List.all_eq_true.mp rfl,
    .inl ⟨.inl rfl, rfl⟩⟩, ?_, rfl, ?_⟩
  · rw [hbase]
    norm_num [Decimal.toRat, tenTo]
  · rw [hwhole]
    norm_num [Decimal.toRat, tenTo]

end Literal

end Yang
