import Yang.Proofs.Literal.Exactness

/-!
# Decimal literals that are read back

The text of a decimal number has all digits of its mantissa and at least one of them before
the point. It is a literal of the type decimal64 that writes the number, and is read as it if the
number is of the type.
-/

namespace Yang

namespace Json

theorem digitsValue_zeros_append (n : Nat) (cs : List Char) :
    digitsValue (List.replicate n '0' ++ cs) = digitsValue cs := by
  induction n with
  | zero => rfl
  | succ n ih => exact ih

end Json

open Json

namespace Decimal

section Written

variable {cs whole fraction sign : List Char}

theorem digitsOf_eq_self (digits : ∀ c ∈ cs, c.isDigit = true) : digitsOf cs = cs :=
  List.filter_eq_self.mpr digits

theorem digitsOf_append (cs rest : List Char) :
    digitsOf (cs ++ rest) = digitsOf cs ++ digitsOf rest :=
  List.filter_append _ _

theorem fractionOf_append (h : '.' ∉ cs) (rest : List Char) :
    fractionOf (cs ++ rest) = fractionOf rest := by
  rw [fractionOf, List.dropWhile_append_of_pos fun c hc => ?_, fractionOf]
  simpa using ne_of_mem_of_not_mem hc h

/-- A literal of the type writes a number with the digits around its point for
the mantissa, and with those behind it for the scale. -/
theorem written_literal (hsign : sign ∈ [[], ['-'], ['+']]) (hne : whole ≠ [])
    (digits : ∀ c ∈ whole ++ fraction, c.isDigit = true) :
    written (sign ++ (whole ++ if fraction = [] then [] else '.' :: fraction)) =
      ⟨if sign = ['-'] then -(digitsValue (whole ++ fraction) : Int)
        else digitsValue (whole ++ fraction), fraction.length⟩ := by
  obtain ⟨hwhole, hfraction⟩ := List.forall_mem_append.mp digits
  have htail : digitsOf (if fraction = [] then [] else '.' :: fraction) = fraction ∧
      fractionOf (if fraction = [] then [] else '.' :: fraction) = fraction := by
    split
    · rename_i hnil
      rw [hnil]
      exact ⟨rfl, rfl⟩
    · rw [digitsOf_cons_of_not_isDigit rfl, fractionOf_point]
      exact ⟨digitsOf_eq_self hfraction, digitsOf_eq_self hfraction⟩
  have hpoint : '.' ∉ whole := fun hmem => ne_point_of_isDigit (hwhole _ hmem) rfl
  have hbody : digitsOf (whole ++ if fraction = [] then [] else '.' :: fraction) =
      whole ++ fraction := by
    rw [digitsOf_append, digitsOf_eq_self hwhole, htail.1]
  have hscale : fractionOf (whole ++ if fraction = [] then [] else '.' :: fraction) = fraction := by
    rw [fractionOf_append hpoint, htail.2]
  have hhead : (whole ++ if fraction = [] then [] else '.' :: fraction).head? ≠ some '-' := by
    rw [List.head?_append_of_ne_nil _ hne]
    intro hminus
    cases hwhole '-' (List.mem_of_mem_head? hminus)
  have hminus : '.' ∉ sign ∧ digitsOf sign = [] := by
    revert sign
    decide
  rw [written, digitsOf_append, hminus.2, List.nil_append, hbody, fractionOf_append hminus.1,
    hscale]
  simp only [List.mem_cons, List.not_mem_nil, or_false] at hsign
  obtain rfl | rfl | rfl := hsign
  · rw [List.nil_append, if_neg hhead]
    rfl
  · rfl
  · rfl

end Written

section Text

theorem isDigit_of_mem_digits {width n : Nat} : ∀ c ∈ digits width n, c.isDigit = true := by
  intro c hc
  rcases List.mem_append.mp hc with hzero | hdigit
  · rw [List.eq_of_mem_replicate hzero]
    rfl
  · exact isDigit_of_mem_decimalDigits c hdigit

theorem digitsValue_digits (width n : Nat) : digitsValue (digits width n) = n :=
  (digitsValue_zeros_append _ _).trans (digitsValue_decimalDigits n)

theorem le_length_digits (width n : Nat) : width ≤ (digits width n).length := by
  rw [digits, List.length_append, List.length_replicate]
  omega

/-- The text of a decimal number is its sign, a whole part that is not empty,
and a fraction of as many digits as the scale says behind a point. The digits
write the mantissa. -/
theorem exists_text (d : Decimal) :
    ∃ whole fraction, d.text.toList = (if d.mantissa < 0 then ['-'] else []) ++
        (whole ++ if fraction = [] then [] else '.' :: fraction) ∧
      whole ≠ [] ∧ fraction.length = d.scale ∧ (∀ c ∈ whole ++ fraction, c.isDigit = true) ∧
      digitsValue (whole ++ fraction) = d.mantissa.natAbs := by
  have hlength := le_length_digits (d.scale + 1) d.mantissa.natAbs
  generalize hds : digits (d.scale + 1) d.mantissa.natAbs = ds at hlength
  have hfraction : (ds.drop (ds.length - d.scale)).length = d.scale := by
    rw [List.length_drop]
    omega
  refine ⟨ds.take (ds.length - d.scale), ds.drop (ds.length - d.scale), ?_, ?_, hfraction, ?_, ?_⟩
  · have hscale : ds.drop (ds.length - d.scale) = [] ↔ d.scale = 0 := by
      rw [← List.length_eq_zero_iff, hfraction]
    simp only [text, hds, String.toList_ofList, hscale, List.append_assoc]
  · rw [← List.length_pos_iff, List.length_take]
    omega
  · rw [List.take_append_drop, ← hds]
    exact isDigit_of_mem_digits
  · rw [List.take_append_drop, ← hds, digitsValue_digits]

theorem sign_mem (d : Decimal) : (if d.mantissa < 0 then ['-'] else []) ∈ [[], ['-'], ['+']] := by
  split <;> decide

theorem isDecimalLiteral_text (d : Decimal) : Literal.IsDecimalLiteral d.text.toList := by
  obtain ⟨whole, fraction, htext, hne, -, hdigits, -⟩ := d.exists_text
  exact ⟨_, d.sign_mem, whole, fraction, htext, hne, hdigits⟩

theorem written_text (d : Decimal) : written d.text.toList = d := by
  obtain ⟨whole, fraction, htext, hne, hscale, hdigits, hvalue⟩ := d.exists_text
  have hmantissa : (if (if d.mantissa < 0 then ['-'] else []) = ['-']
      then -(d.mantissa.natAbs : Int) else d.mantissa.natAbs) = d.mantissa := by
    by_cases hneg : d.mantissa < 0
    · rw [if_pos hneg, if_pos rfl]
      omega
    · rw [if_neg hneg, if_neg (by decide)]
      omega
  rw [htext, written_literal d.sign_mem hne hdigits, hvalue, hscale, hmantissa]

end Text

end Decimal

/-- A number of type decimal64 is read back from its text. -/
theorem Literal.decimal64_text {d : Decimal} (h : IsDecimal64 d) : decimal64 d.text = .ok d := by
  have hliteral := d.isDecimalLiteral_text
  rw [decimal64_eq_ok_iff_of_noMark hliteral.isPlain.isExponentMark]
  exact ⟨hliteral.lacksDigit, hliteral.isPlain, d.written_text.symm, h⟩

end Yang
