import Yang.Literal
import Yang.Proofs.Literal.Grammar

/-!
# How decimal literals are spelled

A decimal literal is a sign or none, and digits with at most one point among them. The reader
takes more than that: a point may stand in front of the first digit or behind the last one, and
underscores behind the first digit are passed over. `Continues` says what may follow at each
place of a literal and `Reading.written` which number its digits and its point write, both
without the reader. What is read is this number, except where more digits are written than a
reading can hold.
-/

namespace Yang

namespace Json

theorem digitsValue_cons (c : Char) (cs : List Char) :
    digitsValue (c :: cs) = digitValue c * 10 ^ cs.length + digitsValue cs := by
  rw [digitsValue, List.map_cons, Literal.ofDigits_cons, List.length_map]
  rfl

theorem digitValue_lt {c : Char} (h : c.isDigit = true) : digitValue c < 10 :=
  Text.digit?_lt (digit?_eq_digitValue h)

theorem digitsValue_lt {cs : List Char} (digits : ∀ c ∈ cs, c.isDigit = true) :
    digitsValue cs < 10 ^ cs.length := by
  induction cs with
  | nil => decide
  | cons c cs ih =>
      obtain ⟨hc, hcs⟩ := List.forall_mem_cons.mp digits
      have hfirst : digitValue c + 1 ≤ 10 := digitValue_lt hc
      rw [digitsValue_cons, List.length_cons, Nat.pow_succ']
      calc digitValue c * 10 ^ cs.length + digitsValue cs
          < digitValue c * 10 ^ cs.length + 10 ^ cs.length := Nat.add_lt_add_left (ih hcs) _
        _ = (digitValue c + 1) * 10 ^ cs.length := (Nat.succ_mul _ _).symm
        _ ≤ 10 * 10 ^ cs.length := Nat.mul_le_mul_right _ hfirst

end Json

open Json

namespace Text

theorem digit?_ten_eq_some_iff {c : Char} {d : Nat} :
    digit? 10 c = some d ↔ c.isDigit = true ∧ d = digitValue c := by
  constructor
  · intro h
    have hdigit : ∀ d < 10, d.digitChar.isDigit = true ∧ d.digitChar.toUpper.isDigit = true := by
      decide
    have hc : c.isDigit = true := by
      obtain ⟨hd, rfl | rfl⟩ := (Literal.digit?_eq_some_iff (by decide)).mp h
      · exact (hdigit d hd).1
      · exact (hdigit d hd).2
    exact ⟨hc, Option.some.inj (h.symm.trans (digit?_eq_digitValue hc))⟩
  · rintro ⟨hc, rfl⟩
    exact digit?_eq_digitValue hc

theorem digit?_ten_eq_none {c : Char} (h : c.isDigit = false) : digit? 10 c = none := by
  cases hd : digit? 10 c with
  | none => rfl
  | some d => exact absurd (digit?_ten_eq_some_iff.mp hd).1 (by simp [h])

end Text

namespace Decimal

def digitsOf (cs : List Char) : List Char := cs.filter Char.isDigit

def fractionOf (cs : List Char) : List Char := digitsOf (cs.dropWhile (· != '.'))

/-- What may follow in a literal: digits, underscores, and a point unless there
was one already. The first of them that is not the point is a digit unless there
was a digit already. -/
structure Continues (point digit : Bool) (cs : List Char) : Prop where
  chars : ∀ c ∈ cs, c.isDigit = true ∨ c = '_' ∨ c = '.'
  points : cs.count '.' ≤ if point then 0 else 1
  first : digit = true ∨ ∃ c, (cs.filter (· != '.')).head? = some c ∧ c.isDigit = true

/-- The mantissa and the scale that a text writes whose beginning was read
already. -/
def Reading.written (r : Reading) (cs : List Char) : Nat × Nat :=
  (r.mantissa * 10 ^ (digitsOf cs).length + digitsValue (digitsOf cs),
    r.scale + (if r.point then digitsOf cs else fractionOf cs).length)

/-- Of the mantissas and scales in question, the second is the first one or, at
a smaller scale, one that is less than a unit off. It is another one only at the
greatest scale, or if its mantissa has more than sixty-four bits. -/
def Rounded (p q : Nat × Nat) : Prop :=
  q = p ∨ q.2 < p.2 ∧ (scaleBound ≤ q.2 ∨ 0x10000000000000000 < q.1) ∧
    q.1 * 10 ^ (p.2 - q.2) < p.1 + 10 ^ (p.2 - q.2) ∧
    p.1 < q.1 * 10 ^ (p.2 - q.2) + 10 ^ (p.2 - q.2)

section Characters

variable {point digit : Bool} {c : Char} {cs : List Char} {r : Reading}

theorem digitsOf_cons_of_isDigit (h : c.isDigit = true) : digitsOf (c :: cs) = c :: digitsOf cs :=
  List.filter_cons_of_pos h

theorem digitsOf_cons_of_not_isDigit (h : c.isDigit = false) : digitsOf (c :: cs) = digitsOf cs :=
  List.filter_cons_of_neg (by simp [h])

theorem isDigit_of_mem_digitsOf : ∀ c ∈ digitsOf cs, c.isDigit = true :=
  fun _ hc => List.of_mem_filter hc

theorem fractionOf_cons_of_ne (h : c ≠ '.') : fractionOf (c :: cs) = fractionOf cs := by
  rw [fractionOf, List.dropWhile_cons_of_pos (by simpa using h)]
  rfl

theorem fractionOf_point : fractionOf ('.' :: cs) = digitsOf cs := rfl

theorem ne_point_of_isDigit (h : c.isDigit = true) : c ≠ '.' := by
  rintro rfl
  cases h

theorem continues_nil : Continues point digit [] ↔ digit = true := by
  constructor
  · intro h
    simpa using h.first
  · rintro rfl
    exact ⟨List.forall_mem_nil _, by simp, .inl rfl⟩

theorem continues_digit (h : c.isDigit = true) :
    Continues point digit (c :: cs) ↔ Continues point true cs := by
  have hc := ne_point_of_isDigit h
  constructor
  · rintro ⟨chars, points, -⟩
    exact ⟨(List.forall_mem_cons.mp chars).2, by simpa [List.count_cons, hc] using points, .inl rfl⟩
  · rintro ⟨chars, points, -⟩
    have hpoints : (c :: cs).count '.' ≤ if point then 0 else 1 := by
      simpa [List.count_cons, hc] using points
    exact ⟨List.forall_mem_cons.mpr ⟨.inl h, chars⟩, hpoints, .inr ⟨c, by simp [hc], h⟩⟩

theorem continues_point :
    Continues point digit ('.' :: cs) ↔ point = false ∧ Continues true digit cs := by
  constructor
  · rintro ⟨chars, points, first⟩
    rw [List.count_cons_self] at points
    cases point with
    | true => simp at points
    | false =>
        refine ⟨rfl, (List.forall_mem_cons.mp chars).2, ?_, by simpa using first⟩
        simpa using points
  · rintro ⟨rfl, chars, points, first⟩
    refine ⟨List.forall_mem_cons.mpr ⟨.inr (.inr rfl), chars⟩, ?_, by simpa using first⟩
    rw [List.count_cons_self]
    simpa using points

theorem continues_underscore :
    Continues point digit ('_' :: cs) ↔ digit = true ∧ Continues point true cs := by
  constructor
  · rintro ⟨chars, points, first⟩
    have hdigit : digit = true := by
      simpa using first
    exact ⟨hdigit, (List.forall_mem_cons.mp chars).2, by simpa [List.count_cons] using points,
      .inl rfl⟩
  · rintro ⟨rfl, chars, points, -⟩
    exact ⟨List.forall_mem_cons.mpr ⟨.inr (.inl rfl), chars⟩,
      by simpa [List.count_cons] using points, .inl rfl⟩

theorem continues_true_true_iff :
    Continues true true cs ↔ ∀ c ∈ cs, c.isDigit = true ∨ c = '_' := by
  constructor
  · rintro ⟨chars, points, -⟩ c hc
    have hpoint : c ≠ '.' := by
      rintro rfl
      exact List.count_eq_zero.mp (Nat.le_zero.mp points) hc
    obtain hdigit | hunderscore | rfl := chars c hc
    · exact .inl hdigit
    · exact .inr hunderscore
    · exact absurd rfl hpoint
  · intro h
    have hpoint : '.' ∉ cs := by
      intro hmem
      obtain hdigit | heq := h _ hmem
      · cases hdigit
      · cases heq
    exact ⟨fun c hc => (h c hc).imp_right .inl, (List.count_eq_zero.mpr hpoint).le, .inl rfl⟩

theorem written_nil : r.written [] = (r.mantissa, r.scale) := by
  simp [Reading.written, digitsOf, fractionOf, digitsValue]

theorem written_digit (h : c.isDigit = true) :
    r.written (c :: cs) =
      Reading.written ⟨r.point, true, r.mantissa * 10 + digitValue c,
        if r.point then r.scale + 1 else r.scale⟩ cs := by
  simp only [Reading.written, digitsOf_cons_of_isDigit h,
    fractionOf_cons_of_ne (ne_point_of_isDigit h), digitsValue_cons, List.length_cons,
    Prod.mk.injEq]
  constructor
  · rw [Nat.pow_succ', Nat.add_mul, Nat.mul_assoc, Nat.add_assoc]
  · cases r.point <;> simp [Nat.add_assoc, Nat.add_comm]

theorem written_point (h : r.point = false) :
    r.written ('.' :: cs) = Reading.written { r with point := true } cs := by
  simp [Reading.written, h, digitsOf_cons_of_not_isDigit, fractionOf_point]

theorem written_underscore : r.written ('_' :: cs) = r.written cs := by
  simp [Reading.written, digitsOf_cons_of_not_isDigit, fractionOf_cons_of_ne]

end Characters

section Rounding

variable {m s k v : Nat}

/-- Digits are dropped from a number that is too long. -/
theorem rounded_cut (hv : v < 10 ^ k) (hlong : scaleBound ≤ s ∨ 0x10000000000000000 < m) :
    Rounded (m * 10 ^ k + v, s + k) (m, s) := by
  rcases Nat.eq_zero_or_pos k with rfl | hk
  · obtain rfl : v = 0 := Nat.lt_one_iff.mp hv
    exact .inl (by simp)
  · refine .inr ⟨Nat.lt_add_of_pos_right hk, hlong, ?_, ?_⟩
    · simp only [Nat.add_sub_cancel_left]
      omega
    · simp only [Nat.add_sub_cancel_left]
      omega

theorem rounded_up (hpos : 0 < v) (hv : v < 10 ^ k)
    (hlong : scaleBound ≤ s ∨ 0x10000000000000000 < m) :
    Rounded (m * 10 ^ k + v, s + k) (m + 1, s) := by
  have hk : 0 < k := by
    rcases Nat.eq_zero_or_pos k with rfl | hk
    · rw [Nat.pow_zero] at hv
      omega
    · exact hk
  refine .inr ⟨Nat.lt_add_of_pos_right hk, hlong.imp_right Nat.lt_succ_of_lt, ?_, ?_⟩
  · simp only [Nat.add_sub_cancel_left, Nat.succ_mul]
    omega
  · simp only [Nat.add_sub_cancel_left, Nat.succ_mul]
    omega

/-- A mantissa with no room for one more loses one more digit. -/
theorem rounded_carry (hv : v < 10 ^ k) (hs : s ≠ 0) (hm : mantissaBound ≤ m + 1) :
    Rounded (m * 10 ^ k + v, s + k) ((m + 5) / 10, s - 1) := by
  have hscale : s + k - (s - 1) = k + 1 := by omega
  have hlow : (m + 5) / 10 * 10 * 10 ^ k ≤ (m + 5) * 10 ^ k :=
    Nat.mul_le_mul_right _ (Nat.div_mul_le_self _ _)
  have hhigh : (m + 5) * 10 ^ k ≤ ((m + 5) / 10 * 10 + 9) * 10 ^ k :=
    Nat.mul_le_mul_right _ (by omega)
  rw [Nat.add_mul] at hlow hhigh
  rw [Nat.add_mul] at hhigh
  refine .inr ⟨?_, .inr ?_, ?_, ?_⟩
  · change s - 1 < s + k
    omega
  · change 0x10000000000000000 < (m + 5) / 10
    rw [mantissaBound] at hm
    omega
  · simp only [hscale, Nat.pow_succ']
    rw [← Nat.mul_assoc]
    omega
  · simp only [hscale, Nat.pow_succ']
    rw [← Nat.mul_assoc]
    omega

variable {r : Reading} {c : Char} {cs : List Char} {q : Nat × Nat}

/-- Where a reading is full, what is left of the literal decides the rounding. -/
theorem round?_eq_some (h : r.round? c cs = some q) (hpoint : r.point = true)
    (hlong : scaleBound ≤ r.scale ∨ 0x10000000000000000 < r.mantissa) :
    (∀ x ∈ c :: cs, x.isDigit = true ∨ x = '_') ∧ Rounded (r.written (c :: cs)) q := by
  simp only [Reading.written, if_pos hpoint]
  have hv : digitsValue (digitsOf (c :: cs)) < 10 ^ (digitsOf (c :: cs)).length :=
    digitsValue_lt isDigit_of_mem_digitsOf
  rw [Reading.round?] at h
  split at h
  · rename_i hrest
    have hrest : ∀ x ∈ cs, x.isDigit = true ∨ x = '_' := by simpa using hrest
    rcases eq_or_ne c '_' with rfl | hc
    · simp only [beq_self_eq_true, if_true, Nat.zero_lt_succ] at h
      obtain rfl := Option.some.inj h
      exact ⟨List.forall_mem_cons.mpr ⟨.inr rfl, hrest⟩, rounded_cut hv hlong⟩
    · have hbeq : (c == '_') = false := beq_eq_false_iff_ne.mpr hc
      simp only [hbeq, Bool.false_eq_true, if_false] at h
      split at h
      · cases h
      · rename_i d hd
        obtain ⟨hdigit, rfl⟩ := Text.digit?_ten_eq_some_iff.mp hd
        refine ⟨List.forall_mem_cons.mpr ⟨.inl hdigit, hrest⟩, ?_⟩
        split at h
        · obtain rfl := Option.some.inj h
          exact rounded_cut hv hlong
        · -- at five and above the mantissa counts one more, and loses a digit if it cannot
          rename_i hhalf
          have hpos : 0 < digitsValue (digitsOf (c :: cs)) := by
            rw [digitsOf_cons_of_isDigit hdigit, digitsValue_cons]
            have := Nat.mul_pos (by omega : 0 < digitValue c)
              (Nat.pow_pos (by decide) : 0 < 10 ^ (digitsOf cs).length)
            omega
          split at h
          · obtain rfl := Option.some.inj h
            exact rounded_up hpos hv hlong
          · rename_i hfull
            split at h
            · cases h
            · rename_i hs
              obtain rfl := Option.some.inj h
              exact rounded_carry hv hs (Nat.le_of_not_lt hfull)
  · cases h

end Rounding

section Reading

variable {r : Reading} {cs : List Char} {q : Nat × Nat}

/-- What is read has the form of a literal, and the number is the one written or
a rounded one. The induction is on the text, for all states of the reading. -/
theorem finish?_eq_some (started : r.digit = true ∨ r.scale = 0) (h : r.finish? cs = some q) :
    Continues r.point r.digit cs ∧ Rounded (r.written cs) q := by
  induction cs generalizing r with
  | nil =>
      rw [Reading.finish?] at h
      split at h
      · rename_i hdigit
        obtain rfl := Option.some.inj h
        exact ⟨continues_nil.mpr hdigit, .inl written_nil.symm⟩
      · cases h
  | cons c cs ih =>
      rw [Reading.finish?] at h
      split at h
      · -- the scale is the greatest, so there was a digit
        rename_i hfull
        simp only [Bool.and_eq_true, decide_eq_true_eq] at hfull
        obtain ⟨hpoint, hscale⟩ := hfull
        have hdigit : r.digit = true := by
          refine started.resolve_right fun hzero => ?_
          rw [hzero] at hscale
          exact absurd hscale (by decide)
        obtain ⟨hchars, hrounded⟩ := round?_eq_some h hpoint (.inl hscale)
        rw [hpoint, hdigit]
        exact ⟨continues_true_true_iff.mpr hchars, hrounded⟩
      · split at h
        · rename_i d hd
          obtain ⟨hc, rfl⟩ := Text.digit?_ten_eq_some_iff.mp hd
          simp only at h
          split at h
          · rw [continues_digit hc, written_digit hc]
            exact ih (.inl rfl) h
          · -- a digit that the mantissa cannot take is dropped only behind the point
            rename_i hlarge
            split at h
            · rename_i hpoint
              have hlong : 0x10000000000000000 < r.mantissa := by
                have hlt : digitValue c < 10 := digitValue_lt hc
                rw [mantissaBound] at hlarge
                omega
              obtain ⟨hchars, hrounded⟩ := round?_eq_some h hpoint (.inr hlong)
              rw [continues_digit hc, hpoint, continues_true_true_iff]
              exact ⟨(List.forall_mem_cons.mp hchars).2, hrounded⟩
            · cases h
        · split at h
          · rename_i hfirst
            obtain ⟨rfl, hpoint⟩ : c = '.' ∧ r.point = false := by simpa using hfirst
            rw [continues_point, written_point hpoint, and_assoc]
            exact ⟨hpoint, ih (r := { r with point := true }) started h⟩
          · split at h
            · rename_i hunderscore
              obtain ⟨rfl, hdigit⟩ : c = '_' ∧ r.digit = true := by simpa using hunderscore
              rw [continues_underscore, written_underscore, and_assoc, ← hdigit]
              exact ⟨rfl, ih started h⟩
            · cases h

theorem mantissa_le_written (r : Reading) (cs : List Char) : r.mantissa ≤ (r.written cs).1 := by
  have hpos : 1 ≤ 10 ^ (digitsOf cs).length := Nat.pow_pos (by decide)
  calc r.mantissa ≤ r.mantissa * 10 ^ (digitsOf cs).length := Nat.le_mul_of_pos_right _ hpos
    _ ≤ (r.written cs).1 := Nat.le_add_right _ _

theorem round?_of_no_digits {c : Char} (hpoint : r.point = true)
    (h : Continues r.point r.digit (c :: cs)) (hnone : digitsOf (c :: cs) = []) :
    r.round? c cs = some (r.written (c :: cs)) := by
  have hunderscores : ∀ x ∈ c :: cs, x = '_' := by
    intro x hx
    obtain hdigit | hunderscore | rfl := h.chars x hx
    · have hmem : x ∈ digitsOf (c :: cs) := List.mem_filter.mpr ⟨hx, hdigit⟩
      rw [hnone] at hmem
      cases hmem
    · exact hunderscore
    · have hcount := h.points
      rw [if_pos hpoint, Nat.le_zero, List.count_eq_zero] at hcount
      exact absurd hx hcount
  obtain ⟨rfl, hrest⟩ := List.forall_mem_cons.mp hunderscores
  have hall : cs.all (fun d => d.isDigit || d == '_') = true :=
    List.all_eq_true.mpr fun x hx => by simp [hrest x hx]
  rw [Reading.round?, if_pos hall]
  simp [Reading.written, hnone, hpoint, digitsValue]

/-- What has the form of a literal is read, and exactly, if a reading can hold
it. No digit has to be dropped then. -/
theorem finish?_of_continues (h : Continues r.point r.digit cs)
    (hm : (r.written cs).1 < mantissaBound) (hs : (r.written cs).2 ≤ scaleBound) :
    r.finish? cs = some (r.written cs) := by
  induction cs generalizing r with
  | nil => rw [Reading.finish?, if_pos (continues_nil.mp h), written_nil]
  | cons c cs ih =>
      rw [Reading.finish?]
      split
      · rename_i hfull
        obtain ⟨hpoint, hscale⟩ : r.point = true ∧ scaleBound ≤ r.scale := by simpa using hfull
        have hnone : digitsOf (c :: cs) = [] := by
          rw [Reading.written, if_pos hpoint] at hs
          rw [← List.length_eq_zero_iff]
          omega
        exact round?_of_no_digits hpoint h hnone
      · obtain hc | rfl | rfl := h.chars c (List.mem_cons_self ..)
        · rw [written_digit hc] at hm hs ⊢
          have hnext := Nat.lt_of_le_of_lt (mantissa_le_written _ cs) hm
          rw [digit?_eq_digitValue hc]
          simp only
          rw [if_pos hnext]
          exact ih ((continues_digit hc).mp h) hm hs
        · have hdigit := (continues_underscore.mp h).1
          rw [written_underscore] at hm hs ⊢
          rw [Text.digit?_ten_eq_none rfl]
          simp only
          rw [if_neg (by simp), if_pos (by simp [hdigit])]
          exact ih (hdigit ▸ (continues_underscore.mp h).2) hm hs
        · have hpoint := (continues_point.mp h).1
          rw [written_point hpoint] at hm hs ⊢
          rw [Text.digit?_ten_eq_none rfl]
          simp only
          rw [if_pos (by simp [hpoint])]
          exact ih (continues_point.mp h).2 hm hs

end Reading

end Decimal

end Yang
