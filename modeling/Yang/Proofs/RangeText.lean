import Yang.Proofs.Comparison
import Yang.Proofs.Literal.Numeral
import Yang.Proofs.Literal.ReadBack

/-!
# The text of a range

A range is written as its intervals between bars, and each interval as its bounds around two
points, or as one bound if they are equal. A number is written with digits, at most one point
that is followed by a digit, and a sign at most. So neither a bar nor two points stand in it, and
the text is taken apart where it was put together. If the bounds can be read back from their
literals, which is the case for all ranges that expressions write, the text of a range therefore
writes the same range again, whether nothing is inherited or that range itself: neither `min` nor
`max` is left in it.
-/

namespace Yang

namespace Text

/-- Texts without bars and blanks are the parts, without the blanks around them,
of what they are joined to by bars. -/
theorem trimChars_splitOn_intercalate {texts : List (List Char)} (hne : texts ≠ [])
    (bars : ∀ cs ∈ texts, '|' ∉ cs) (solid : ∀ cs ∈ texts, ∀ c ∈ cs, isBlank c = false)
    {before : List Char} (hbefore : before = [] ∨ before = [' ']) :
    ((before ++ [' ', '|', ' '].intercalate texts).splitOn '|').map trimChars = texts := by
  have hblank : ∀ c ∈ before, isBlank c = true ∧ c ≠ '|' := by
    obtain rfl | rfl := hbefore <;> simp [isBlank]
  have hbar : '|' ∉ before := fun hmem => (hblank '|' hmem).2 rfl
  -- `before` is the space behind a bar: the first part has none, all others have one
  induction texts generalizing before with
  | nil => exact absurd rfl hne
  | cons cs rest ih =>
      obtain ⟨hcs, hrest⟩ := List.forall_mem_cons.mp bars
      obtain ⟨hsolid, hsolids⟩ := List.forall_mem_cons.mp solid
      have htrim : ∀ after : List Char, (∀ c ∈ after, isBlank c = true) →
          trimChars (before ++ (cs ++ after)) = cs := fun after hafter =>
        trimChars_append (fun c hc => (hblank c hc).1) hafter hsolid
      cases rest with
      | nil =>
          have hwhole : '|' ∉ before ++ cs := by simp [hbar, hcs]
          rw [List.intercalate_singleton, List.splitOn_eq_singleton hwhole, List.map_singleton]
          have h := htrim [] (List.forall_mem_nil _)
          rw [List.append_nil] at h
          rw [h]
      | cons next others =>
          have hjoin : before ++ [' ', '|', ' '].intercalate (cs :: next :: others) =
              (before ++ (cs ++ [' '])) ++ '|' ::
                ([' '] ++ [' ', '|', ' '].intercalate (next :: others)) := by
            simp [List.intercalate_cons_cons]
          have hwhole : '|' ∉ before ++ (cs ++ [' ']) := by simp [hbar, hcs]
          rw [hjoin, List.splitOn_append_cons_self_of_not_mem hwhole, List.map_cons,
            htrim [' '] (by simp [isBlank]),
            ih (List.cons_ne_nil _ _) hrest hsolids (.inr rfl) (by simp [isBlank]) (by simp)]

theorem trim_parts_intercalate {texts : List String} (hne : texts ≠ [])
    (chars : ∀ s ∈ texts, ∀ c ∈ s.toList, IsNumberChar c) :
    (parts '|' (" | ".intercalate texts)).map trim = texts := by
  have hmap : texts.map String.toList ≠ [] := by simpa using hne
  have hbars : ∀ cs ∈ texts.map String.toList, '|' ∉ cs :=
    List.forall_mem_map.mpr fun s hs hmem =>
      not_isNumberChar_of_mem '|' (by decide) (chars s hs '|' hmem)
  have hsolid : ∀ cs ∈ texts.map String.toList, ∀ c ∈ cs, isBlank c = false :=
    List.forall_mem_map.mpr fun s hs c hc => (chars s hs c hc).isBlank
  have hsplit := trimChars_splitOn_intercalate hmap hbars hsolid (.inl rfl)
  have hbar : " | ".toList = [' ', '|', ' '] := rfl
  have htrim : trim ∘ String.ofList = String.ofList ∘ trimChars := by
    funext cs
    simp [trim]
  have hback : String.ofList ∘ String.toList = id := funext fun _ => String.ofList_toList
  rw [List.nil_append] at hsplit
  rw [parts, String.toList_intercalate, hbar, List.map_map, htrim, ← List.map_map, hsplit,
    List.map_map, hback, List.map_id]

end Text

namespace Value

variable {v : Value} {type : Builtin}

def IsReadBack (type : Builtin) (v : Value) : Prop := parse v.literal type = .ok v

theorem isReadBack_bounds {bounds : Value × Value} (h : bounds? type = some bounds) :
    IsReadBack type bounds.1 ∧ IsReadBack type bounds.2 := by
  cases type with
  | integer t =>
      obtain rfl := Option.some.inj h
      simp only [IsReadBack, literal, parse, Literal.integerOf_toString t.holds_least,
        Literal.integerOf_toString t.holds_greatest]
      exact ⟨rfl, rfl⟩
  | decimal64 =>
      obtain rfl := Option.some.inj h
      simp only [IsReadBack, literal, parse]
      rw [Literal.decimal64_text (by decide), Literal.decimal64_text (by decide)]
      exact ⟨rfl, rfl⟩
  | _ => cases h

end Value

namespace Interval

variable {i j : Interval}

theorem same_iff : i.same j = true ↔ i.low = j.low ∧ i.high = j.high := by
  rw [same, Bool.and_eq_true, Value.same_iff_number_eq i.number?_start j.number?_start,
    Value.same_iff_number_eq i.number?_stop j.number?_stop]

theorem start_atMost_start (i : Interval) : i.start.atMost i.start = true :=
  (Value.atMost_iff_number_le i.number?_start i.number?_start).mpr le_rfl

/-- The interval as its text tells it: with one bound twice if the two are
equal. The two may differ in their scale, of which the text shows one only. -/
def collapsed (i : Interval) : Interval :=
  if i.start.same i.stop then ⟨i.start, i.start, i.start_isNumeric, i.start_atMost_start⟩ else i

theorem same_collapsed (i : Interval) : i.collapsed.same i = true := by
  rw [collapsed]
  split
  · rename_i hsame
    have hequal := (Value.same_iff_number_eq i.number?_start i.number?_stop).mp hsame
    exact same_iff.mpr ⟨rfl, hequal⟩
  · exact same_iff.mpr ⟨rfl, rfl⟩

theorem text_collapsed (i : Interval) : i.collapsed.text = i.text := by
  rw [collapsed]
  split
  · rename_i hsame
    have hrefl : i.start.same i.start = true := Value.same_equivalence.refl i.start
    rw [text, text, if_pos hsame]
    exact if_pos hrefl
  · rfl

theorem covers_of_same (h : i.same j = true) : j.covers i = true := by
  obtain ⟨hlow, hhigh⟩ := same_iff.mp h
  rw [covers, Bool.and_eq_true, contains_iff_number i.number?_start,
    contains_iff_number i.number?_stop, ← hlow, ← hhigh]
  exact ⟨⟨le_rfl, i.low_le_high⟩, i.low_le_high, le_rfl⟩

theorem isNumberChar_text (i : Interval) : ∀ c ∈ i.text.toList, Text.IsNumberChar c := by
  have hstart := (Value.isNumeral_literal i.start_isNumeric).isNumberChar
  have hstop := (Value.isNumeral_literal i.stop_isNumeric).isNumberChar
  rw [text]
  split
  · exact hstart
  · have hpoints : ∀ c ∈ "..".toList, Text.IsNumberChar c := by simp [Text.IsNumberChar]
    rw [String.toList_append, String.toList_append, List.forall_mem_append, List.forall_mem_append]
    exact ⟨⟨hstart, hpoints⟩, hstop⟩

end Interval

namespace Range

section Reading

variable {type : Builtin} {least greatest : Value}

theorem bound_literal {v : Value} (numeric : v.isNumeric = true) (h : v.IsReadBack type) :
    bound type least greatest v.literal = .ok v := by
  have hchars := (Value.isNumeral_literal numeric).isNumberChar
  have hword : ∀ word : String, 'm' ∈ word.toList → v.literal ≠ word := by
    rintro _ hm rfl
    exact Text.not_isNumberChar_of_mem 'm' (by decide) (hchars 'm' hm)
  rw [bound, if_neg (hword "min" (by decide)), if_neg (hword "max" (by decide))]
  exact h

/-- The text of an interval is read as the interval, up to the form of equal
bounds. -/
theorem interval_text {i : Interval} (hstart : i.start.IsReadBack type)
    (hstop : i.stop.IsReadBack type) :
    interval type least greatest i.text = .ok i.collapsed := by
  have hnumeral := Value.isNumeral_literal i.start_isNumeric
  by_cases hsame : i.start.same i.stop = true
  · rw [Interval.text, Interval.collapsed, if_pos hsame, if_pos hsame, interval,
      Text.cutText?_numeral hnumeral]
    simp only [bound_literal i.start_isNumeric hstart]
    exact dif_pos ⟨i.start_isNumeric, i.start_atMost_start⟩
  · rw [Interval.text, Interval.collapsed, if_neg hsame, if_neg hsame, interval,
      Text.cutText?_points hnumeral]
    simp only [Value.trim_of_isNumeric i.start_isNumeric, Value.trim_of_isNumeric i.stop_isNumeric,
      bound_literal i.start_isNumeric hstart, bound_literal i.stop_isNumeric hstop]
    exact dif_pos i.ordered

theorem addParts_of_ascending {r : Range} {intervals : List Interval} {parts : List String}
    (reads : List.Forall₂
      (fun part i => interval type least greatest (Text.trim part) = .ok i) parts intervals)
    (ascending : Ascending { r with intervals := r.intervals ++ intervals }) :
    addParts type least greatest r parts =
      .ok { r with intervals := r.intervals ++ intervals } := by
  induction reads generalizing r with
  | nil => rw [addParts, List.append_nil]
  | @cons part i parts intervals hread _ ih =>
      have hadmits : r.admits i = true := by
        refine admits_iff.mpr fun last hlast => ?_
        have hbefore := (List.pairwise_append.mp ascending).2.2
        exact hbefore last (List.mem_of_getLast? hlast) i (List.mem_cons_self ..)
      have hadd : r.add i = .ok { r with intervals := r.intervals ++ [i] } := if_pos hadmits
      have hall : r.intervals ++ i :: intervals = r.intervals ++ [i] ++ intervals := by simp
      rw [hall] at ascending ⊢
      rw [addParts, hread]
      show (r.add i >>= fun next => addParts type least greatest next parts) = _
      rw [hadd]
      exact ih (r := { r with intervals := r.intervals ++ [i] }) ascending

/-- The text of a range writes its intervals, up to the form of equal bounds. -/
theorem addParts_text {r : Range} (hne : r.intervals ≠ []) (ascending : r.Ascending)
    (readBack : ∀ i ∈ r.intervals, i.start.IsReadBack type ∧ i.stop.IsReadBack type) :
    addParts type least greatest { expression := some r.text } (Text.parts '|' r.text) =
      .ok { intervals := r.intervals.map Interval.collapsed, expression := some r.text } := by
  have hparts : (Text.parts '|' r.text).map Text.trim = r.intervals.map Interval.text := by
    apply Text.trim_parts_intercalate
    · simpa using hne
    · exact List.forall_mem_map.mpr fun i _ => i.isNumberChar_text
  have reads : List.Forall₂
      (fun part i => interval type least greatest (Text.trim part) = .ok i)
      (Text.parts '|' r.text) (r.intervals.map Interval.collapsed) := by
    have htexts : List.Forall₂ (fun text i => interval type least greatest text = .ok i)
        (r.intervals.map Interval.text) (r.intervals.map Interval.collapsed) := by
      rw [List.forall₂_map_left_iff, List.forall₂_map_right_iff, List.forall₂_same]
      exact fun i hi => interval_text (readBack i hi).1 (readBack i hi).2
    rw [← hparts, List.forall₂_map_left_iff] at htexts
    exact htexts
  have hcollapsed : Ascending { intervals := r.intervals.map Interval.collapsed } := by
    refine List.pairwise_map.mpr (List.Pairwise.imp ?_ ascending)
    intro i j hij
    rw [(Interval.same_iff.mp i.same_collapsed).2, (Interval.same_iff.mp j.same_collapsed).1]
    exact hij
  exact addParts_of_ascending reads hcollapsed

end Reading

/-- The ranges that a chain of expressions writes for a type: the first one
inherits nothing, and each of the others inherits the range before it. -/
inductive Written (type : Builtin) : Range → Prop
  | first {expression : String} {r : Range} (h : parse expression type none = .ok r) :
      Written type r
  | next {expression : String} {s r : Range} (below : Written type s)
      (h : parse expression type (some s) = .ok r) : Written type r

section Written

variable {type : Builtin} {r : Range}

theorem Written.exists_parse (written : r.Written type) :
    ∃ expression inherited, parse expression type inherited = .ok r := by
  cases written with
  | first h => exact ⟨_, _, h⟩
  | next _ h => exact ⟨_, _, h⟩

theorem Written.built (written : r.Written type) : r.Built := by
  induction written with
  | first h =>
      refine .parse ?_ h
      rintro _ ⟨⟩
  | next _ h ih =>
      refine .parse ?_ h
      rintro _ ⟨⟩
      exact ih

/-- All bounds in such a chain are read back: those that are written, the bounds
of the type, and so those of the inherited ranges as well. The induction is on
the chain. -/
theorem Written.isReadBack (written : r.Written type) :
    ∀ i ∈ r.intervals, i.start.IsReadBack type ∧ i.stop.IsReadBack type := by
  induction written with
  | first h =>
      refine parse_property Value.parse_literal Value.isReadBack_bounds ?_ h
      rintro _ ⟨⟩
  | next _ h ih =>
      refine parse_property Value.parse_literal Value.isReadBack_bounds ?_ h
      rintro _ ⟨⟩
      exact ih

end Written

/-- What the text of a range tells is no wider than the range, so the text can
be read again with the range itself inherited. -/
theorem checkNarrower_collapsed {r s : Range} (hne : r.intervals ≠ [])
    (hs : s.intervals = r.intervals.map Interval.collapsed) :
    s.checkNarrower (some r) = .ok () := by
  refine forM_eq_ok_iff.mpr ?_
  rw [hs, List.forall_mem_map]
  intro i hi
  have hcovers : r.intervals.any (·.covers i.collapsed) = true :=
    List.any_eq_true.mpr ⟨i, hi, Interval.covers_of_same i.same_collapsed⟩
  rw [checkInterval, if_neg (by simpa using hne), if_pos hcovers]

/-- The extremes of a range exist if it has intervals. They are its own bounds
and not those of the type. -/
theorem exists_extremes {r : Range} (hne : r.intervals ≠ []) (bounds : Value × Value) :
    ∃ extremal, extremes bounds (some r) = .ok extremal := by
  have hhead := List.head?_eq_some_head hne
  have hlast := List.getLast?_eq_some_getLast hne
  refine ⟨((r.intervals.head hne).start, (r.intervals.getLast hne).stop), ?_⟩
  simp only [extremes, least, greatest, hhead, hlast]
  rfl

/-- The text of a range that a chain of expressions wrote for a type writes the
same intervals again, whether nothing is inherited or the range itself, and what
it writes has the same text. -/
theorem text_writes_range {type : Builtin} {r : Range} (written : r.Written type) :
    ∀ inherited, inherited = none ∨ inherited = some r →
      ∃ s, parse r.text type inherited = .ok s ∧
        List.Forall₂ (fun i j => i.same j = true) s.intervals r.intervals ∧ s.text = r.text := by
  intro inherited hinherited
  obtain ⟨expression, above, hparse⟩ := written.exists_parse
  obtain ⟨bounds, -, -, hbounds, -, -, -⟩ := parse_eq_ok_iff.mp hparse
  have hne := intervals_ne_nil_of_parse hparse
  have hsame : List.Forall₂ (fun i j => i.same j = true)
      (r.intervals.map Interval.collapsed) r.intervals := by
    rw [List.forall₂_map_left_iff, List.forall₂_same]
    exact fun i _ => i.same_collapsed
  have hextremes : ∃ extremal, extremes bounds inherited = .ok extremal := by
    obtain rfl | rfl := hinherited
    · exact ⟨bounds, rfl⟩
    · exact exists_extremes hne bounds
  obtain ⟨⟨least, greatest⟩, hextremes⟩ := hextremes
  have hnarrower : checkNarrower
      { intervals := r.intervals.map Interval.collapsed, expression := some r.text } inherited =
        .ok () := by
    obtain rfl | rfl := hinherited
    · rfl
    · exact checkNarrower_collapsed hne rfl
  refine ⟨_, parse_eq_ok_iff.mpr ⟨bounds, least, greatest, hbounds, hextremes,
    addParts_text hne written.built.ascending written.isReadBack, hnarrower⟩, hsame, ?_⟩
  rw [text, text, List.map_map]
  exact congrArg _ (List.map_congr_left fun i _ => i.text_collapsed)

/-- Offsets with a gap, the first of them written twice. -/
def offsets : Range where
  intervals := [⟨.integer .int8 (-5) (by decide), .integer .int8 (-5) (by decide), by decide⟩,
    ⟨.integer .int8 3 (by decide), .integer .int8 127 (by decide), by decide⟩]
  expression := some "-5..-05|3 .. max"

/-- Fewer of the offsets, the greatest one written in base eight. -/
def fewerOffsets : Range where
  intervals := [⟨.integer .int8 (-5) (by decide), .integer .int8 (-5) (by decide), by decide⟩,
    ⟨.integer .int8 3 (by decide), .integer .int8 8 (by decide), by decide⟩]
  expression := some "min | 3..010"

theorem written_fewerOffsets : fewerOffsets.Written (.integer .int8) := by
  have hoffsets : parse "-5..-05|3 .. max" (.integer .int8) none = .ok offsets := rfl
  have hfewer : parse "min | 3..010" (.integer .int8) (some offsets) = .ok fewerOffsets := rfl
  exact .next (.first hoffsets) hfewer

/-- The text says neither how the offsets were written nor where one of them
came from. -/
theorem text_writes_range_offsets :
    fewerOffsets.Written (.integer .int8) ∧ fewerOffsets.text = "-5 | 3..8" ∧
      ∃ s, parse "-5 | 3..8" (.integer .int8) (some fewerOffsets) = .ok s ∧
        List.Forall₂ (fun i j => i.same j = true) s.intervals fewerOffsets.intervals ∧
        s.text = "-5 | 3..8" := by
  have htext : fewerOffsets.text = "-5 | 3..8" := by decide
  refine ⟨written_fewerOffsets, htext, ?_⟩
  have hwrites := text_writes_range written_fewerOffsets (some fewerOffsets) (.inr rfl)
  rwa [htext] at hwrites

end Range

end Yang
