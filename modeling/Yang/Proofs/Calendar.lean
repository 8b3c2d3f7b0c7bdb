import Mathlib.Data.String.Basic
import Mathlib.Tactic.Ring
import Yang.Calendar
import Yang.Proofs.Literal.Grammar

/-!
# Dates in order

The texts of dates have all their digits in the same places, the years before the months and the
months before the days. So the order of the texts is the order of the dates, which is here the
order of the days as they are counted one after the other through the calendar.
-/

namespace Yang

namespace Date

section Padding

variable {width m n : Nat}

theorem isDigit_of_mem_padded : ∀ c ∈ padded width n, c.isDigit = true := by
  induction width generalizing n with
  | zero => exact List.forall_mem_nil _
  | succ width ih =>
      have hlast : ∀ d < 10, (Nat.digitChar d).isDigit = true := by decide
      rw [padded, List.forall_mem_append, List.forall_mem_singleton]
      exact ⟨ih, hlast (n % 10) (Nat.mod_lt n (by decide))⟩

/-- Digits that are cut to a width write what is left of the number. -/
theorem digitsValue_padded : Json.digitsValue (padded width n) = n % 10 ^ width := by
  induction width generalizing n with
  | zero => exact (Nat.mod_one n).symm
  | succ width ih =>
      have hlast : ∀ d < 10, Json.digitValue (Nat.digitChar d) = d := by decide
      rw [padded, Json.digitsValue_concat, ih, hlast (n % 10) (Nat.mod_lt n (by decide)),
        Nat.pow_succ', Nat.mod_mul]
      ring

theorem writes_padded (hn : n < 10 ^ width) : Literal.Writes 10 (padded width n) n := by
  rw [← Literal.number?_eq_some_iff (by decide), Json.number?_of_isDigit isDigit_of_mem_padded,
    digitsValue_padded, Nat.mod_eq_of_lt hn]

/-- Of two texts with front parts of one length the front parts are compared
first. So the texts of dates are compared by year, by month and by day. -/
theorem append_lt_append_iff {as bs cs ds : List Char} (h : as.length = bs.length) :
    as ++ cs < bs ++ ds ↔ as < bs ∨ as = bs ∧ cs < ds := by
  induction as generalizing bs with
  | nil =>
      obtain rfl := List.eq_nil_of_length_eq_zero h.symm
      simp
  | cons a as ih =>
      obtain ⟨b, bs, rfl⟩ := List.exists_cons_of_length_eq_add_one h.symm
      rw [List.cons_append, List.cons_append, List.cons_lt_cons_iff, List.cons_lt_cons_iff,
        ih (Nat.succ.inj h), List.cons.injEq]
      tauto

theorem padded_eq_padded_iff (hm : m < 10 ^ width) (hn : n < 10 ^ width) :
    padded width m = padded width n ↔ m = n := by
  constructor
  · intro h
    have hvalue : m % 10 ^ width = n % 10 ^ width := by
      rw [← digitsValue_padded, h, digitsValue_padded]
    rwa [Nat.mod_eq_of_lt hm, Nat.mod_eq_of_lt hn] at hvalue
  · exact congrArg _

/-- Digits of one width are ordered as the numbers that they write, which is why
dates are padded with zeros. -/
theorem padded_lt_padded_iff (hm : m < 10 ^ width) (hn : n < 10 ^ width) :
    padded width m < padded width n ↔ m < n := by
  induction width generalizing m n with
  | zero =>
      rw [Nat.pow_zero, Nat.lt_one_iff] at hm hn
      subst hm hn
      simp
  | succ width ih =>
      have hlast : ∀ a < 10, ∀ b < 10, ([Nat.digitChar a] < [Nat.digitChar b] ↔ a < b) := by
        decide
      have hm' : m / 10 < 10 ^ width := Nat.div_lt_of_lt_mul (Nat.pow_succ' ▸ hm)
      have hn' : n / 10 < 10 ^ width := Nat.div_lt_of_lt_mul (Nat.pow_succ' ▸ hn)
      -- The last digits are compared only if the digits before them are the same.
      rw [padded, padded, append_lt_append_iff (by rw [padded_length, padded_length]), ih hm' hn',
        padded_eq_padded_iff hm' hn', hlast _ (Nat.mod_lt m (by decide)) _
          (Nat.mod_lt n (by decide))]
      omega

end Padding

section Days

/-- The days of the first `n` of some spans of time that follow each other. -/
def daysBefore (days : Nat → Nat) (n : Nat) : Nat := ((List.range n).map days).sum

/-- The days of a year are those of its months; the month zero has none. -/
def daysOfYear (year : Nat) : Nat := daysBefore (daysIn year) 13

def dayOfYear (d : Date) : Nat := daysBefore (daysIn d.year) d.month + d.day

/-- The number of a day in the calendar, where the year zero begins with the day
one. It gives the order of dates a meaning apart from how they are written. -/
def dayNumber (d : Date) : Nat := daysBefore daysOfYear d.year + d.dayOfYear

variable {days : Nat → Nat} {m n x y : Nat}

theorem daysBefore_succ : daysBefore days (n + 1) = daysBefore days n + days n := by
  rw [daysBefore, List.range_succ, List.map_append, List.sum_append, List.map_singleton,
    List.sum_singleton, daysBefore]

theorem daysBefore_le (h : m ≤ n) : daysBefore days m ≤ daysBefore days n := by
  induction h with
  | refl => exact Nat.le_refl _
  | step _ ih =>
      rw [daysBefore_succ]
      exact Nat.le_add_right_of_le ih

/-- The days of a span come before those of a later span. It is used for years
of months and for months of days alike. -/
theorem daysBefore_add_lt (h : m < n) (hx : x ≤ days m) (hy : 1 ≤ y) :
    daysBefore days m + x < daysBefore days n + y :=
  calc
    daysBefore days m + x ≤ daysBefore days m + days m := Nat.add_le_add_left hx _
    _ = daysBefore days (m + 1) := daysBefore_succ.symm
    _ ≤ daysBefore days n := daysBefore_le h
    _ < daysBefore days n + y := Nat.lt_add_of_pos_right hy

/-- Days are in order if their spans are, or if they are in order within one
span. -/
theorem daysBefore_add_lt_iff (hx : 1 ≤ x ∧ x ≤ days m) (hy : 1 ≤ y ∧ y ≤ days n) :
    daysBefore days m + x < daysBefore days n + y ↔ m < n ∨ m = n ∧ x < y := by
  rcases Nat.lt_trichotomy m n with hlt | rfl | hgt
  · have hbefore := daysBefore_add_lt hlt hx.2 hy.1
    omega
  · omega
  · have hbefore := daysBefore_add_lt hgt hy.2 hx.1
    omega

end Days

section Order

variable {d e : Date}

/-- One date is earlier than another in the year, in the month or in the day.
Later parts only count if those before them are equal. -/
def Before (d e : Date) : Prop :=
  d.year < e.year ∨ d.year = e.year ∧
    (d.month < e.month ∨ d.month = e.month ∧ d.day < e.day)

theorem daysIn_le (year month : Nat) : daysIn year month ≤ 31 := by
  have hfebruary : (if isLeap year then 29 else 28) ≤ 31 := by split <;> decide
  unfold daysIn
  split <;> omega

theorem Exists.dayOfYear (h : d.Exists) : 1 ≤ d.dayOfYear ∧ d.dayOfYear ≤ daysOfYear d.year := by
  obtain ⟨-, hfirst, hlast⟩ := h
  obtain ⟨-, hmonth⟩ := month_of_daysIn (Nat.le_trans hfirst hlast)
  refine ⟨Nat.le_add_left_of_le hfirst, ?_⟩
  calc
    d.dayOfYear ≤ daysBefore (daysIn d.year) (d.month + 1) := by
      rw [daysBefore_succ]
      exact Nat.add_le_add_left hlast _
    _ ≤ daysOfYear d.year := daysBefore_le (Nat.succ_le_succ hmonth)

/-- The days are counted in the order of the dates. -/
theorem dayNumber_lt_iff (hd : d.Exists) (he : e.Exists) :
    d.dayNumber < e.dayNumber ↔ d.Before e := by
  rw [dayNumber, dayNumber, daysBefore_add_lt_iff hd.dayOfYear he.dayOfYear, Before]
  refine or_congr_right (and_congr_right ?_)
  intro hyear
  -- In one year the months are the spans, of the same lengths for both dates.
  rw [Date.dayOfYear, Date.dayOfYear, ← hyear]
  refine daysBefore_add_lt_iff hd.2 ?_
  rw [hyear]
  exact he.2

/-- Year, month and day have the widths in which they are written, so that
padding loses no digit. -/
theorem Exists.widths (h : d.Exists) :
    d.year < 10 ^ 4 ∧ d.month < 10 ^ 2 ∧ d.day < 10 ^ 2 := by
  obtain ⟨hyear, hfirst, hlast⟩ := h
  obtain ⟨-, hmonth⟩ := month_of_daysIn (Nat.le_trans hfirst hlast)
  have hmost := daysIn_le d.year d.month
  omega

/-- The texts of dates are in the order of the dates. -/
theorem chars_lt_chars_iff (hd : d.Exists) (he : e.Exists) : d.chars < e.chars ↔ d.Before e := by
  obtain ⟨hdyear, hdmonth, hdday⟩ := hd.widths
  obtain ⟨heyear, hemonth, heday⟩ := he.widths
  have hlength : ∀ width m n, (padded width m).length = (padded width n).length :=
    fun width m n => by rw [padded_length, padded_length]
  rw [chars, chars, List.append_assoc, List.append_assoc, List.cons_append, List.cons_append,
    append_lt_append_iff (hlength _ _ _), List.cons_lt_cons_self,
    append_lt_append_iff (hlength _ _ _), List.cons_lt_cons_self,
    padded_lt_padded_iff hdyear heyear, padded_eq_padded_iff hdyear heyear,
    padded_lt_padded_iff hdmonth hemonth, padded_eq_padded_iff hdmonth hemonth,
    padded_lt_padded_iff hdday heday, Before]

/-- The order of texts is the order of days. -/
theorem text_le_text_iff (hd : d.Exists) (he : e.Exists) :
    d.text ≤ e.text ↔ d.dayNumber ≤ e.dayNumber := by
  rw [← String.not_lt, ← Nat.not_lt, not_iff_not, String.lt_iff_toList_lt, text, text,
    String.toList_ofList, String.toList_ofList, chars_lt_chars_iff he hd, dayNumber_lt_iff he hd]

end Order

end Date

end Yang
