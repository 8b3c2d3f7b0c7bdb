import Mathlib.Data.List.Pairwise
import Yang.Proofs.Range

/-!
# Ranges are ascending

An interval is appended to a range only if it begins past the end of the last one. Bounds are
compared by the rational numbers that they denote, and each interval ends at or past its
start, so comparing with the last end alone keeps every two intervals apart:
`Range.Ascending` says so, `Range.Built` describes the ranges that calls can give, and all of
them are ascending. A number then lies in one interval at most.
-/

namespace Yang

namespace Value

/-- The rational number that a value denotes, if it denotes one. -/
def number? (v : Value) : Option ℚ := v.magnitude?.map Decimal.toRat

def number (v : Value) (numeric : v.isNumeric = true) : ℚ := (v.magnitude?.get numeric).toRat

theorem number?_eq_some (v : Value) (numeric : v.isNumeric = true) :
    v.number? = some (v.number numeric) :=
  congrArg (Option.map Decimal.toRat) (Option.some_get numeric).symm

@[simp] theorem number?_integer (t : IntegerType) (n : Int) (holds : t.Holds n) :
    (integer t n holds).number? = some (n : ℚ) := by
  simp [number?, magnitude?, Decimal.toRat, Decimal.ofInt]

/-- Numbers compare as what they denote. -/
theorem compare?_eq_gt_iff {a b : Value} {x y : ℚ} (ha : a.number? = some x)
    (hb : b.number? = some y) : a.compare? b = some .gt ↔ y < x := by
  obtain ⟨d, hd, rfl⟩ := Option.map_eq_some_iff.mp ha
  obtain ⟨e, he, rfl⟩ := Option.map_eq_some_iff.mp hb
  rw [← not_le, ← Decimal.compare_ne_gt_iff, not_ne_iff]
  simp [compare?, hd, he]

theorem atMost_iff_number_le {a b : Value} {x y : ℚ} (ha : a.number? = some x)
    (hb : b.number? = some y) : a.atMost b = true ↔ x ≤ y := by
  obtain ⟨d, hd, rfl⟩ := Option.map_eq_some_iff.mp ha
  obtain ⟨e, he, rfl⟩ := Option.map_eq_some_iff.mp hb
  simp [atMost_iff_of_left hd, he]

end Value

namespace Interval

def low (i : Interval) : ℚ := i.start.number i.start_isNumeric

def high (i : Interval) : ℚ := i.stop.number i.stop_isNumeric

@[simp] theorem number?_start (i : Interval) : i.start.number? = some i.low :=
  i.start.number?_eq_some i.start_isNumeric

@[simp] theorem number?_stop (i : Interval) : i.stop.number? = some i.high :=
  i.stop.number?_eq_some i.stop_isNumeric

theorem low_le_high (i : Interval) : i.low ≤ i.high :=
  (Value.atMost_iff_number_le i.number?_start i.number?_stop).mp i.ordered.2

/-- An interval contains the values that denote a number between its ends. The
type of the value does not count, and neither do the types of the ends. -/
theorem contains_iff_number {i : Interval} {v : Value} {x : ℚ} (hv : v.number? = some x) :
    i.contains v = true ↔ i.low ≤ x ∧ x ≤ i.high := by
  rw [contains_iff, Value.atMost_iff_number_le i.number?_start hv,
    Value.atMost_iff_number_le hv i.number?_stop]

end Interval

namespace Range

/-- Each interval ends before all that come after it begin. The bounds are
compared as rational numbers, so equal bounds of two types are not apart. -/
def Ascending (r : Range) : Prop := r.intervals.Pairwise fun i j => i.high < j.low

theorem admits_iff {r : Range} {i : Interval} :
    r.admits i = true ↔ ∀ last, r.intervals.getLast? = some last → last.high < i.low := by
  rw [admits]
  cases r.intervals.getLast? with
  | none => simp
  | some last =>
      simp [Value.compare?_eq_gt_iff i.number?_start last.number?_stop]

section Adding

variable {r s : Range} {i : Interval}

/-- In an ascending range the last interval ends last. This is all that adding
an interval has to know of the intervals before. -/
theorem Ascending.high_le_of_getLast? (h : r.Ascending) {last : Interval}
    (hlast : r.intervals.getLast? = some last) (hi : i ∈ r.intervals) : i.high ≤ last.high := by
  obtain ⟨init, hinit⟩ := List.getLast?_eq_some_iff.mp hlast
  rw [Ascending, hinit, List.pairwise_append] at h
  rw [hinit, List.mem_append, List.mem_singleton] at hi
  rcases hi with hi | rfl
  · have hbefore := h.2.2 i hi last (List.mem_singleton_self last)
    exact hbefore.le.trans last.low_le_high
  · exact le_rfl

theorem Ascending.low_le_of_head? (h : r.Ascending) {first : Interval}
    (hfirst : r.intervals.head? = some first) (hi : i ∈ r.intervals) : first.low ≤ i.low := by
  obtain ⟨rest, hrest⟩ := List.head?_eq_some_iff.mp hfirst
  rw [Ascending, hrest, List.pairwise_cons] at h
  rw [hrest, List.mem_cons] at hi
  rcases hi with rfl | hi
  · exact le_rfl
  · exact first.low_le_high.trans (h.1 i hi).le

/-- Looking at the last interval is enough to keep all of them in order, because
of an ascending range the last interval ends last. -/
theorem Ascending.add (h : r.Ascending) (hs : r.add i = .ok s) : s.Ascending := by
  have hintervals := add_eq_ok hs
  rw [Range.add] at hs
  split at hs
  · rename_i hadmits
    rw [Ascending, hintervals, List.pairwise_append]
    refine ⟨h, List.pairwise_singleton _ _, ?_⟩
    intro j hj k hk
    obtain rfl := List.mem_singleton.mp hk
    cases hlast : r.intervals.getLast? with
    | none =>
        rw [List.getLast?_eq_none_iff.mp hlast] at hj
        cases hj
    | some last =>
        exact (h.high_le_of_getLast? hlast hj).trans_lt (admits_iff.mp hadmits last hlast)
  · cases hs

theorem Ascending.foldlM_add {intervals : List Interval} (h : r.Ascending)
    (hs : intervals.foldlM Range.add r = .ok s) : s.Ascending := by
  induction intervals generalizing r with
  | nil =>
      obtain rfl := Except.ok.inj hs
      exact h
  | cons i rest ih =>
      rw [List.foldlM_cons, bind_eq_ok_iff] at hs
      obtain ⟨next, hnext, hrest⟩ := hs
      exact ih (h.add hnext) hrest

theorem Ascending.addParts {type : Builtin} {least greatest : Value} {parts : List String}
    (h : r.Ascending) (hs : addParts type least greatest r parts = .ok s) : s.Ascending := by
  induction parts generalizing r with
  | nil =>
      obtain rfl := Except.ok.inj hs
      exact h
  | cons part rest ih =>
      simp only [Range.addParts, bind_eq_ok_iff] at hs
      obtain ⟨i, -, next, hnext, hrest⟩ := hs
      exact ih (h.add hnext) hrest

end Adding

/-- The range after a call that adds an interval, also if the interval is
refused. -/
def adding (r : Range) (i : Interval) : Range :=
  match r.add i with
  | .ok s => s
  | .error _ => r

/-- The ranges that calls give: empty ones, those of given intervals or of an
expression, what is said about any of them, and intervals that are added, be it
that they are refused. Every range of the program comes about in one of these
ways. -/
inductive Built : Range → Prop
  | new : Built {}
  | ofIntervals {intervals : List Interval} {r : Range}
      (h : Range.ofIntervals intervals = .ok r) : Built r
  | parse {expression : String} {type : Builtin} {inherited : Option Range} {r : Range}
      (below : ∀ s, inherited = some s → Built s)
      (h : Range.parse expression type inherited = .ok r) : Built r
  | withExpression {r : Range} (built : Built r) (text : String) :
      Built { r with expression := some text }
  | withDescription {r : Range} (built : Built r) (text : String) :
      Built { r with description := some text }
  | withReference {r : Range} (built : Built r) (text : String) :
      Built { r with reference := some text }
  | withLocation {r : Range} (built : Built r) (l : Location) :
      Built { r with location := some l }
  | adding {r : Range} (built : Built r) (i : Interval) : Built (r.adding i)

variable {r : Range}

/-- Every call keeps a range ascending. The inherited range of an expression
plays no part, since it only gives bounds. -/
theorem Built.ascending (built : r.Built) : r.Ascending := by
  have empty : ∀ {r : Range}, r.intervals = [] → r.Ascending := by
    intro r h
    rw [Ascending, h]
    exact List.Pairwise.nil
  induction built with
  | new => exact empty rfl
  | ofIntervals h => exact (empty rfl).foldlM_add h
  | parse _ h _ =>
      obtain ⟨bounds, least, greatest, -, -, hparts, -⟩ := parse_eq_ok_iff.mp h
      exact (empty rfl).addParts hparts
  | withExpression _ _ ih | withDescription _ _ ih | withReference _ _ ih
  | withLocation _ _ ih => exact ih
  | @adding r _ i ih =>
      rw [Range.adding]
      split
      · rename_i s hs
        exact ih.add hs
      · exact ih

def Spans (r : Range) (x y : ℚ) : Prop :=
  ∃ a b, r.least = .ok a ∧ r.greatest = .ok b ∧ a.number? = some x ∧ b.number? = some y

/-- A range spans the numbers from its first start to its last end. Whether it
is ascending does not matter for that. -/
theorem spans_of_first_last {first last : Interval} (hfirst : r.intervals.head? = some first)
    (hlast : r.intervals.getLast? = some last) : r.Spans first.low last.high := by
  refine ⟨first.start, last.stop, ?_, ?_, first.number?_start, last.number?_stop⟩
  · rw [least, hfirst]
  · rw [greatest, hlast]

/-- In an ascending range a number lies in one interval at most, as two
intervals never share a number. -/
theorem Ascending.eq_of_between (h : r.Ascending) {x : ℚ} {k l : Fin r.intervals.length}
    (hk : (r.intervals.get k).low ≤ x ∧ x ≤ (r.intervals.get k).high)
    (hl : (r.intervals.get l).low ≤ x ∧ x ≤ (r.intervals.get l).high) : k = l := by
  have apart := List.pairwise_iff_get.mp h
  rcases Nat.lt_trichotomy k l with hlt | heq | hgt
  · exact absurd (hl.1.trans hk.2) (apart k l hlt).not_ge
  · exact Fin.ext heq
  · exact absurd (hk.1.trans hl.2) (apart l k hgt).not_ge

/-- The intervals of every range that calls give follow each other with gaps
between them. Of all bounds, its least and greatest one are the least and the
greatest. A number is valid exactly if it lies in one interval and no other, and
then it lies between those two bounds. A range that was read from an expression
is never empty. -/
theorem built_ranges_ascend (built : r.Built) :
    (∀ i ∈ r.intervals, i.low ≤ i.high) ∧ r.intervals.Pairwise (fun i j => i.high < j.low) ∧
      (r.intervals ≠ [] → ∃ x y, r.Spans x y ∧ (∃ i ∈ r.intervals, i.low = x) ∧
        (∃ i ∈ r.intervals, i.high = y) ∧ ∀ i ∈ r.intervals, x ≤ i.low ∧ i.high ≤ y) ∧
      (∀ v x, v.number? = some x →
        (r.isValid v = .ok true ↔ ∃! k : Fin r.intervals.length,
          (r.intervals.get k).low ≤ x ∧ x ≤ (r.intervals.get k).high) ∧
        (r.isValid v = .ok true → ∃ y z, r.Spans y z ∧ y ≤ x ∧ x ≤ z)) ∧
      ∀ expression type inherited s, parse expression type inherited = .ok s →
        s.intervals ≠ [] := by
  have ascending := built.ascending
  have spans : r.intervals ≠ [] → ∃ x y, r.Spans x y ∧ (∃ i ∈ r.intervals, i.low = x) ∧
      (∃ i ∈ r.intervals, i.high = y) ∧ ∀ i ∈ r.intervals, x ≤ i.low ∧ i.high ≤ y := by
    intro hne
    have hfirst := List.head?_eq_some_head hne
    have hlast := List.getLast?_eq_some_getLast hne
    exact ⟨_, _, spans_of_first_last hfirst hlast, ⟨_, List.head_mem hne, rfl⟩,
      ⟨_, List.getLast_mem hne, rfl⟩, fun i hi =>
        ⟨ascending.low_le_of_head? hfirst hi, ascending.high_le_of_getLast? hlast hi⟩⟩
  refine ⟨fun i _ => i.low_le_high, ascending, spans, ?_, ?_⟩
  · intro v x hv
    have hvalid : r.isValid v = .ok true ↔
        ∃ i ∈ r.intervals, i.low ≤ x ∧ x ≤ i.high := by
      simp only [isValid_eq_true_iff, holds_iff, Interval.contains_iff_number hv]
      exact and_iff_right_of_imp fun ⟨i, hi, _⟩ => List.ne_nil_of_mem hi
    constructor
    · rw [hvalid, List.exists_mem_iff_get]
      exact ⟨fun ⟨k, hk⟩ => ⟨k, hk, fun l hl => ascending.eq_of_between hl hk⟩,
        fun ⟨k, hk, _⟩ => ⟨k, hk⟩⟩
    · intro h
      obtain ⟨i, hi, hlow, hhigh⟩ := hvalid.mp h
      obtain ⟨y, z, hspans, -, -, hall⟩ := spans (List.ne_nil_of_mem hi)
      exact ⟨y, z, hspans, (hall i hi).1.trans hlow, hhigh.trans (hall i hi).2⟩
  · exact fun expression type inherited s => intervals_ne_nil_of_parse

def small : Interval :=
  ⟨.integer .uint8 1 (by decide), .integer .uint8 9 (by decide), by decide⟩

def medium : Interval := ⟨.decimal ⟨105, 1⟩, .decimal ⟨125, 1⟩, by decide⟩

def overlapping : Interval :=
  ⟨.integer .int64 5 (by decide), .integer .int64 20 (by decide), by decide⟩

def sizes : Range := { intervals := [small, medium], description := some "sizes" }

/-- The interval that overlaps the sizes was refused. -/
theorem built_sizes : sizes.Built :=
  (((Built.new.adding small).adding medium).adding overlapping).withDescription "sizes"

/-- Eleven lies in one of the intervals, whose bounds are of another type. -/
theorem built_ranges_ascend_sizes :
    sizes.Built ∧ sizes.isValid (.integer .int8 11 (by decide)) = .ok true ∧
      (∃! k : Fin sizes.intervals.length,
        (sizes.intervals.get k).low ≤ 11 ∧ 11 ≤ (sizes.intervals.get k).high) ∧
      ∃ y z, sizes.Spans y z ∧ y ≤ 11 ∧ 11 ≤ z := by
  obtain ⟨-, -, -, numbers, -⟩ := built_ranges_ascend built_sizes
  obtain ⟨hunique, hspans⟩ :=
    numbers (.integer .int8 11 (by decide)) 11 (by simp)
  have hvalid : sizes.isValid (.integer .int8 11 (by decide)) = .ok true := rfl
  exact ⟨built_sizes, hvalid, hunique.mp hvalid, hspans hvalid⟩

end Range

end Yang
