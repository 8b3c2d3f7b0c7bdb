import Yang.Literal.Integer
import Yang.Proofs.Digits

/-!
# Integer literals that are read back

The text of an integer is a minus or nothing and its decimal digits. Only zero begins with
the digit zero, so the digits carry no mark of another base, and the literal denotes the
integer again.
-/

namespace Yang

/-- The numbers of every integer type have at most sixty-four bits. -/
theorem IntegerType.bounds (t : IntegerType) :
    -0x8000000000000000 ≤ t.least ∧ t.greatest < 0x10000000000000000 := by
  cases t <;> decide

theorem IntegerType.natAbs_le {t : IntegerType} {n : Int} (holds : t.Holds n) :
    n.natAbs ≤ 0x10000000000000000 := by
  obtain ⟨hleast, hgreatest⟩ := t.bounds
  obtain ⟨hl, hg⟩ := holds
  omega

namespace Literal

open Json

theorem unsign_of_isDigit {c : Char} {cs : List Char} (h : c.isDigit = true) :
    unsign (c :: cs) = (false, c :: cs) := by
  rw [unsign.eq_def]
  split
  · rename_i heq
    obtain ⟨rfl, -⟩ := List.cons.inj heq
    cases h
  · rename_i heq
    obtain ⟨rfl, -⟩ := List.cons.inj heq
    cases h
  · rfl

/-- The digits of a number have no mark of a base. -/
theorem radix_decimalDigits (n : Nat) : radix (decimalDigits n) = (10, decimalDigits n) := by
  rcases Nat.eq_zero_or_pos n with rfl | hpos
  · rfl
  · have hhead := head?_decimalDigits_of_pos hpos
    rw [radix.eq_def]
    split
    all_goals simp_all

theorem numeral?_decimalDigits (n : Nat) : numeral? (decimalDigits n) = some n := by
  have hne : (decimalDigits n).isEmpty = false :=
    List.isEmpty_eq_false_iff.mpr (decimalDigits_ne_nil n)
  simp [numeral?, radix_decimalDigits, hne, number?_decimalDigits]

theorem unsign_toString (n : Int) :
    unsign (toString n).toList = (decide (n < 0), decimalDigits n.natAbs) := by
  rw [toList_toString]
  split
  · rename_i hneg
    rw [decide_eq_true hneg]
    rfl
  · rename_i hneg
    obtain ⟨c, cs, hcs⟩ := List.exists_cons_of_ne_nil (decimalDigits_ne_nil n.natAbs)
    have hdigit : c.isDigit = true := isDigit_of_mem_decimalDigits c (hcs ▸ List.mem_cons_self ..)
    rw [decide_eq_false hneg, List.nil_append, hcs, unsign_of_isDigit hdigit]

/-- An integer is read back from its text. Its digits have no mark of a base,
because none but zero begins with the digit zero. -/
theorem integer_toString {n : Int} (h : n.natAbs ≤ magnitudeBound) :
    integer (toString n) = .ok n := by
  have hsign : (if n < 0 then -(n.natAbs : Int) else n.natAbs) = n := by
    split <;> omega
  simp only [integer, unsign_toString, numeral?_decimalDigits, if_pos h, decide_eq_true_eq, hsign]

theorem integerOf_toString {t : IntegerType} {n : Int} (holds : t.Holds n) :
    integerOf t (toString n) = .ok ⟨n, holds⟩ := by
  have hbound : n.natAbs ≤ magnitudeBound :=
    Nat.le_trans (IntegerType.natAbs_le holds) (by decide)
  rw [integerOf, integer_toString hbound]
  exact dif_pos holds

end Literal

end Yang
