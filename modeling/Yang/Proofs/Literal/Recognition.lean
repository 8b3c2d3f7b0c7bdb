import Yang.Proofs.Literal.Exactness

/-!
# Which texts are taken for decimal numbers

The type decimal64 looks at the first and the last character of a text, and leaves the rest to a
reader that takes more than the literals of the type. So the texts that are accepted are those
literals and others: with underscores, with a sign in front of a point, or with an exponent.
-/

namespace Yang.Literal

open Decimal

variable {cs : List Char} {raw : String} {d : Decimal}

theorem IsDecimalLiteral.ne_sign_point (h : IsDecimalLiteral cs) {sign : Char}
    (hsign : sign = '-' ∨ sign = '+') (rest : List Char) : cs ≠ sign :: '.' :: rest := by
  obtain ⟨front, hfront, whole, fraction, rfl, hne, hdigits⟩ := h
  obtain ⟨c, whole, rfl⟩ := List.exists_cons_of_ne_nil hne
  have hc : c.isDigit = true := hdigits c (by simp)
  have hpoint := ne_point_of_isDigit hc
  have hfirst : c ≠ sign := by
    rintro rfl
    rcases hsign with rfl | rfl <;> cases hc
  simp only [List.mem_cons, List.not_mem_nil, or_false] at hfront
  rcases hfront with rfl | rfl | rfl
  · simp [hfirst]
  · simp [hpoint]
  · simp [hpoint]

theorem IsDecimalLiteral.underscore_notMem (h : IsDecimalLiteral cs) : '_' ∉ cs := by
  obtain ⟨sign, hsign, whole, fraction, rfl, -, hdigits⟩ := h
  obtain ⟨hwhole, hfraction⟩ := List.forall_mem_append.mp hdigits
  have hnone : ∀ digits : List Char, (∀ c ∈ digits, c.isDigit = true) → '_' ∉ digits :=
    fun digits h hmem => nomatch h _ hmem
  simp only [List.mem_append, not_or]
  refine ⟨?_, hnone whole hwhole, ?_⟩
  · simp only [List.mem_cons, List.not_mem_nil, or_false] at hsign
    rcases hsign with rfl | rfl | rfl <;> decide
  · split
    · exact List.not_mem_nil
    · rw [List.mem_cons, not_or]
      exact ⟨by decide, hnone fraction hfraction⟩

/-- Digits and a point, of which neither end is the point, are digits around a
point or without one. -/
theorem exists_digits_of_continues {body : List Char} (h : Continues false false body)
    (underscore : '_' ∉ body) (head : body.head? ≠ some '.') (last : body.getLast? ≠ some '.') :
    ∃ whole fraction, body = whole ++ (if fraction = [] then [] else '.' :: fraction) ∧
      whole ≠ [] ∧ ∀ c ∈ whole ++ fraction, c.isDigit = true := by
  have hchars : ∀ c ∈ body, c ≠ '.' → c.isDigit = true := by
    intro c hc hpoint
    obtain hdigit | rfl | rfl := h.chars c hc
    · exact hdigit
    · exact absurd hc underscore
    · exact absurd rfl hpoint
  by_cases hmem : '.' ∈ body
  · obtain ⟨whole, fraction, rfl, hwhole⟩ := List.eq_append_cons_of_mem hmem
    have hfraction : '.' ∉ fraction := by
      have hpoints := h.points
      rw [List.count_append, List.count_cons_self, List.count_eq_zero.mpr hwhole] at hpoints
      rw [← List.count_eq_zero]
      simpa using hpoints
    have hwholeNe : whole ≠ [] := by
      rintro rfl
      exact head rfl
    have hfractionNe : fraction ≠ [] := by
      rintro rfl
      exact last (by simp)
    refine ⟨whole, fraction, by rw [if_neg hfractionNe], hwholeNe, ?_⟩
    intro c hc
    obtain hc | hc := List.mem_append.mp hc
    · exact hchars c (List.mem_append_left _ hc) (ne_of_mem_of_not_mem hc hwhole)
    · exact hchars c (List.mem_append_right _ (List.mem_cons_of_mem _ hc))
        (ne_of_mem_of_not_mem hc hfraction)
  · have hne : body ≠ [] := by
      rintro rfl
      simpa using h.first
    refine ⟨body, [], by simp, hne, ?_⟩
    rw [List.append_nil]
    exact fun c hc => hchars c hc (ne_of_mem_of_not_mem hc hmem)

/-- Of the literals without exponent that have digits at their ends, those are
literals of the type that have no underscores, and no point behind a sign. The
test at the ends looks at the first and the last character only. -/
theorem isDecimalLiteral_iff (plain : IsPlain cs) (ends : lacksDigit cs = false) :
    IsDecimalLiteral cs ↔
      '_' ∉ cs ∧ ∀ rest, cs ≠ '-' :: '.' :: rest ∧ cs ≠ '+' :: '.' :: rest := by
  constructor
  · intro h
    exact ⟨h.underscore_notMem, fun rest =>
      ⟨h.ne_sign_point (.inl rfl) rest, h.ne_sign_point (.inr rfl) rest⟩⟩
  · rintro ⟨underscore, signs⟩
    obtain ⟨-, head, last⟩ := lacksDigit_eq_false_iff.mp ends
    obtain ⟨sign, hsign, body, rfl, hbody⟩ := plain
    have hunderscore : '_' ∉ body := fun hmem => underscore (List.mem_append_right _ hmem)
    have hne : body ≠ [] := by
      rintro rfl
      simpa using hbody.first
    rw [List.getLast?_append_of_ne_nil _ hne] at last
    have hhead : body.head? ≠ some '.' := by
      intro hpoint
      obtain ⟨rest, rfl⟩ := List.head?_eq_some_iff.mp hpoint
      simp only [List.mem_cons, List.not_mem_nil, or_false] at hsign
      rcases hsign with rfl | rfl | rfl
      · exact head rfl
      · exact (signs rest).1 rfl
      · exact (signs rest).2 rfl
    obtain ⟨whole, fraction, rfl, hwhole, hdigits⟩ :=
      exists_digits_of_continues hbody hunderscore hhead last
    exact ⟨sign, hsign, whole, fraction, rfl, hwhole, hdigits⟩

/-- A text that is accepted as a decimal number consists of a sign or none and
of digits with at most one point and with underscores behind a digit, or it is
such a text with an exponent. It is a literal of the type, a sign or none,
digits, and a point and more digits or none, exactly if it has no underscores,
no exponent, and no point behind its sign. Without exponent all texts of that
form are accepted that do not begin or end with a point and whose number is of
the type. -/
theorem decimal64_recognizes (raw : String) :
    (∀ d, decimal64 raw = .ok d →
      (IsPlain raw.toList ∨ ∃ base x, IsScientific raw.toList base x ∧ IsPlain base) ∧
      (IsDecimalLiteral raw.toList ↔ '_' ∉ raw.toList ∧
        (∀ c ∈ raw.toList, isExponentMark c = false) ∧
        ∀ rest, raw.toList ≠ '-' :: '.' :: rest ∧ raw.toList ≠ '+' :: '.' :: rest)) ∧
    ((∀ c ∈ raw.toList, isExponentMark c = false) →
      ((∃ d, decimal64 raw = .ok d) ↔ IsPlain raw.toList ∧ raw.toList.head? ≠ some '.' ∧
        raw.toList.getLast? ≠ some '.' ∧ (written raw.toList).scale ≤ 18 ∧
        -2 ^ 63 ≤ (written raw.toList).mantissa ∧ (written raw.toList).mantissa < 2 ^ 63)) := by
  constructor
  · intro d hd
    have hends := (decimal64_eq_ok_iff.mp hd).1
    obtain ⟨-, ⟨hform, -⟩ | ⟨base, x, hform, hbase, -⟩⟩ := decimal64_eq_ok hd
    · refine ⟨.inl hform, ?_⟩
      rw [isDecimalLiteral_iff hform hends]
      exact and_congr_right fun _ => (and_iff_right hform.isExponentMark).symm
    · refine ⟨.inr ⟨base, x, hform, hbase⟩, ?_⟩
      obtain ⟨c, hc, hmark⟩ := hform.isExponentMark
      have hnoMark : ¬∀ c ∈ raw.toList, isExponentMark c = false := by
        intro h
        rw [h c hc] at hmark
        cases hmark
      exact ⟨fun h => absurd h.isPlain.isExponentMark hnoMark, fun h => absurd h.2.1 hnoMark⟩
  · intro noMark
    simp only [decimal64_eq_ok_iff_of_noMark noMark, lacksDigit_eq_false_iff]
    constructor
    · rintro ⟨d, ⟨-, head, last⟩, hform, rfl, hspace⟩
      exact ⟨hform, head, last, hspace.1, IntegerType.holds_iff_fits.mp hspace.2⟩
    · rintro ⟨hform, head, last, hscale, hmantissa⟩
      have hne : raw.toList ≠ [] := by
        intro hnil
        obtain ⟨sign, hsign, body, hbody, h⟩ := hnil ▸ hform
        obtain ⟨-, rfl⟩ := List.append_eq_nil_iff.mp hbody.symm
        simpa using h.first
      exact ⟨_, ⟨hne, head, last⟩, hform, rfl, hscale, IntegerType.holds_iff_fits.mpr hmantissa⟩

/-- A number with an underscore is accepted, and not as a literal of the type. -/
theorem decimal64_recognizes_underscore :
    decimal64 "-1_0.5" = .ok ⟨-105, 1⟩ ∧ ¬IsDecimalLiteral "-1_0.5".toList ∧
      IsPlain "-1_0.5".toList := by
  have hread : decimal64 "-1_0.5" = .ok ⟨-105, 1⟩ := rfl
  have noMark : ∀ c ∈ "-1_0.5".toList, isExponentMark c = false := fun c hc =>
    Bool.eq_false_iff.mpr (List.any_eq_false.mp rfl c hc)
  refine ⟨hread, ?_, (((decimal64_recognizes _).2 noMark).mp ⟨_, hread⟩).1⟩
  intro hliteral
  exact (((decimal64_recognizes _).1 _ hread).2.mp hliteral).1 (by decide)

/-- A point behind a sign, an underscore and an exponent are accepted, and with
none of them is the text a literal of the type. -/
theorem accepted_without_form :
    (decimal64 "-.5" = .ok ⟨-5, 1⟩ ∧ ¬IsDecimalLiteral "-.5".toList) ∧
      (decimal64 "1_0" = .ok ⟨10, 0⟩ ∧ ¬IsDecimalLiteral "1_0".toList) ∧
        decimal64 "1e5" = .ok ⟨100000, 0⟩ ∧ ¬IsDecimalLiteral "1e5".toList := by
  refine ⟨⟨rfl, fun h => ?_⟩, ⟨rfl, fun h => ?_⟩, rfl, fun h => ?_⟩
  · exact h.ne_sign_point (.inl rfl) ['5'] (by decide)
  · exact h.underscore_notMem (by decide)
  · cases h.isPlain.isExponentMark 'e' (by decide)

end Yang.Literal
