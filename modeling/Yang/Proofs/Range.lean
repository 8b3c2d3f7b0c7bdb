import Yang.Proofs.Magnitude
import Yang.Proofs.Success
import Yang.Range

/-!
# Ranges that are read from an expression

A range written for a type has at least one interval, all its bounds are values of that
type, and it holds no value that the inherited range does not hold: each interval lies
inside one interval of the inherited range, and magnitudes are ordered transitively.
The keywords `min` and `max` stand for bounds of the inherited range, so they keep the
type of its bounds.
-/

namespace Yang

namespace Value

theorem type_of_parse {raw : String} {type : Builtin} {v : Value} (numeric : type.isNumeric = true)
    (h : parse raw type = .ok v) : v.type = type := by
  cases type with
  | integer t =>
      simp only [parse, bind_eq_ok_iff, pure_eq_ok_iff] at h
      obtain ⟨⟨n, holds⟩, _, rfl⟩ := h
      rfl
  | decimal64 =>
      obtain ⟨d, _, rfl⟩ := map_eq_ok_iff.mp h
      rfl
  | _ => simp [Builtin.isNumeric, Builtin.isInteger] at numeric

theorem isNumeric_of_bounds? {type : Builtin} {bounds : Value × Value}
    (h : bounds? type = some bounds) : type.isNumeric = true := by
  cases type <;> simp_all [bounds?, Builtin.isNumeric, Builtin.isInteger]

theorem type_of_bounds? {type : Builtin} {bounds : Value × Value}
    (h : bounds? type = some bounds) : bounds.1.type = type ∧ bounds.2.type = type := by
  cases type with
  | integer t =>
      obtain rfl := Option.some.inj h
      exact ⟨rfl, rfl⟩
  | decimal64 =>
      obtain rfl := Option.some.inj h
      exact ⟨rfl, rfl⟩
  | _ => cases h

end Value

namespace Interval

theorem of_eq_ok {start stop : Value} {i : Interval} (h : of start stop = .ok i) :
    i.start = start ∧ i.stop = stop := by
  unfold of at h
  split at h
  · cases h
    exact ⟨rfl, rfl⟩
  · cases h

end Interval

namespace Range

def Bounds (type : Builtin) (i : Interval) : Prop := i.start.type = type ∧ i.stop.type = type

/-- The range has intervals, and their bounds are values of a type. With no
interval at all a range could not be checked. -/
def IsOf (r : Range) (type : Builtin) : Prop :=
  r.intervals ≠ [] ∧ ∀ i ∈ r.intervals, Bounds type i

/-- Every value of the first range is one of the second. It is stated by the
values, whereas the check looks at intervals. -/
def Narrows (r s : Range) : Prop := ∀ v, r.holds v = true → s.holds v = true

theorem Narrows.trans {r s t : Range} (hrs : r.Narrows s) (hst : s.Narrows t) : r.Narrows t :=
  fun v hv => hst v (hrs v hv)

theorem isValid_eq_true_iff {r : Range} {v : Value} :
    r.isValid v = .ok true ↔ r.intervals ≠ [] ∧ r.holds v = true := by
  unfold isValid
  split <;> simp_all

theorem isValid_eq_true_iff_of_isOf {r : Range} {type : Builtin} (h : r.IsOf type) {v : Value} :
    r.isValid v = .ok true ↔ r.holds v = true := by
  rw [isValid_eq_true_iff]
  exact and_iff_right h.1

@[simp] theorem check_eq_ok_iff {r : Range} {v : Value} :
    r.check v = .ok () ↔ r.isValid v = .ok true := by
  unfold check
  rw [bind_eq_ok_iff]
  constructor
  · rintro ⟨valid, hvalid, hcheck⟩
    cases valid with
    | true => exact hvalid
    | false => simp at hcheck
  · intro hvalid
    exact ⟨true, hvalid, by simp⟩

theorem holds_iff {r : Range} {v : Value} :
    r.holds v = true ↔ ∃ i ∈ r.intervals, i.contains v = true := by
  simp [holds]

/-- A range whose intervals each lie inside one of another range narrows that
range. The values in question may be of any type. -/
theorem narrows_of_checkNarrower {r s : Range} (h : r.checkNarrower (some s) = .ok ()) :
    r.Narrows s := by
  intro v hv
  obtain ⟨i, hi, hiv⟩ := holds_iff.mp hv
  have covered : s.checkInterval i = .ok () := forM_eq_ok_iff.mp h i hi
  unfold checkInterval at covered
  split at covered
  · cases covered
  · split at covered
    · rename_i hcovers
      obtain ⟨j, hj, hji⟩ := List.any_eq_true.mp hcovers
      exact holds_iff.mpr ⟨j, hj, Interval.contains_of_covers hji hiv⟩
    · cases covered

theorem add_eq_ok {r s : Range} {i : Interval} (h : r.add i = .ok s) :
    s.intervals = r.intervals ++ [i] := by
  unfold add at h
  split at h
  · cases h
    rfl
  · cases h

section Reading

variable {type : Builtin} {least greatest : Value} {P : Value → Prop}

/-- What holds of the literals of a type and of the two extremes holds of every
bound. No bound is written in another way. -/
theorem bound_property (literals : ∀ {token v}, Value.parse token type = .ok v → P v)
    (hleast : P least) (hgreatest : P greatest) {token : String} {v : Value}
    (h : bound type least greatest token = .ok v) : P v := by
  unfold bound at h
  split at h
  · cases h
    exact hleast
  · split at h
    · cases h
      exact hgreatest
    · exact literals h

theorem interval_property (literals : ∀ {token v}, Value.parse token type = .ok v → P v)
    (hleast : P least) (hgreatest : P greatest) {part : String} {i : Interval}
    (h : interval type least greatest part = .ok i) : P i.start ∧ P i.stop := by
  unfold interval at h
  split at h
  · simp only [bind_eq_ok_iff] at h
    obtain ⟨start, hstart, stop, hstop, hi⟩ := h
    obtain ⟨rfl, rfl⟩ := Interval.of_eq_ok hi
    exact ⟨bound_property literals hleast hgreatest hstart,
      bound_property literals hleast hgreatest hstop⟩
  · simp only [bind_eq_ok_iff] at h
    obtain ⟨v, hv, hi⟩ := h
    obtain ⟨hstart, hstop⟩ := Interval.of_eq_ok hi
    have hbound := bound_property literals hleast hgreatest hv
    exact ⟨hstart ▸ hbound, hstop ▸ hbound⟩

theorem length_addParts {r s : Range} {parts : List String}
    (h : addParts type least greatest r parts = .ok s) :
    s.intervals.length = r.intervals.length + parts.length := by
  induction parts generalizing r with
  | nil =>
      cases h
      rfl
  | cons part rest ih =>
      simp only [addParts, bind_eq_ok_iff] at h
      obtain ⟨i, -, next, hnext, hrest⟩ := h
      rw [ih hrest, add_eq_ok hnext, List.length_append, List.length_singleton, List.length_cons]
      omega

theorem addParts_property (literals : ∀ {token v}, Value.parse token type = .ok v → P v)
    (hleast : P least) (hgreatest : P greatest) {r s : Range} {parts : List String}
    (hr : ∀ i ∈ r.intervals, P i.start ∧ P i.stop)
    (h : addParts type least greatest r parts = .ok s) :
    ∀ i ∈ s.intervals, P i.start ∧ P i.stop := by
  induction parts generalizing r with
  | nil =>
      cases h
      exact hr
  | cons part rest ih =>
      simp only [addParts, bind_eq_ok_iff] at h
      obtain ⟨i, hi, next, hnext, hrest⟩ := h
      refine ih ?_ hrest
      intro j hj
      rw [add_eq_ok hnext, List.mem_append, List.mem_singleton] at hj
      rcases hj with hj | rfl
      · exact hr j hj
      · exact interval_property literals hleast hgreatest hi

/-- What holds of the bounds of a type and of those of the inherited range holds
of the two extremes. -/
theorem extremes_property {bounds extremal : Value × Value} {inherited : Option Range}
    (hbounds : P bounds.1 ∧ P bounds.2)
    (hinherited : ∀ s, inherited = some s → ∀ i ∈ s.intervals, P i.start ∧ P i.stop)
    (h : extremes bounds inherited = .ok extremal) : P extremal.1 ∧ P extremal.2 := by
  cases inherited with
  | none =>
      cases h
      exact hbounds
  | some s =>
      have hs := hinherited s rfl
      simp only [extremes, bind_eq_ok_iff, pure_eq_ok_iff] at h
      obtain ⟨least, hleast, greatest, hgreatest, rfl⟩ := h
      unfold Range.least at hleast
      unfold Range.greatest at hgreatest
      split at hleast
      · rename_i i hi
        split at hgreatest
        · rename_i j hj
          cases hleast
          cases hgreatest
          exact ⟨(hs i (List.mem_of_mem_head? hi)).1, (hs j (List.mem_of_mem_getLast? hj)).2⟩
        · cases hgreatest
      · cases hleast

end Reading

/-- The steps of reading an expression: what `min` and `max` stand for, the
intervals of the parts, and the comparison with the inherited range. -/
theorem parse_eq_ok_iff {expression : String} {type : Builtin} {inherited : Option Range}
    {r : Range} :
    parse expression type inherited = .ok r ↔
      ∃ bounds least greatest, Value.bounds? type = some bounds ∧
        extremes bounds inherited = .ok (least, greatest) ∧
        addParts type least greatest { expression := some expression }
          (Text.parts '|' expression) = .ok r ∧
        r.checkNarrower inherited = .ok () := by
  rw [parse]
  cases Value.bounds? type with
  | none => simp
  | some bounds => simp

/-- An expression writes at least one interval, since its text has at least one
part. -/
theorem intervals_ne_nil_of_parse {expression : String} {type : Builtin}
    {inherited : Option Range} {r : Range} (h : parse expression type inherited = .ok r) :
    r.intervals ≠ [] := by
  obtain ⟨bounds, least, greatest, -, -, hparts, -⟩ := parse_eq_ok_iff.mp h
  have hlength := length_addParts hparts
  have hsome : Text.parts '|' expression ≠ [] := by
    simp [Text.parts, List.splitOn_ne_nil]
  intro hempty
  rw [hempty, List.length_nil, Nat.zero_add] at hlength
  exact hsome (List.eq_nil_of_length_eq_zero hlength.symm)

/-- What holds of the literals of a type, of its bounds and of those of the
inherited range holds of all bounds that an expression writes. The property is
left open, since several invariants of bounds are proved in this way. -/
theorem parse_property {P : Value → Prop} {expression : String} {type : Builtin}
    {inherited : Option Range} {r : Range}
    (literals : ∀ {token v}, Value.parse token type = .ok v → P v)
    (hbounds : ∀ {bounds}, Value.bounds? type = some bounds → P bounds.1 ∧ P bounds.2)
    (hinherited : ∀ s, inherited = some s → ∀ i ∈ s.intervals, P i.start ∧ P i.stop)
    (h : parse expression type inherited = .ok r) :
    ∀ i ∈ r.intervals, P i.start ∧ P i.stop := by
  obtain ⟨bounds, least, greatest, htype, hextremes, hparts, -⟩ := parse_eq_ok_iff.mp h
  obtain ⟨hleast, hgreatest⟩ := extremes_property (hbounds htype) hinherited hextremes
  exact addParts_property literals hleast hgreatest (List.forall_mem_nil _) hparts

/-- What an expression writes is a range of the type that narrows the inherited
one. -/
theorem parse_eq_ok {expression : String} {type : Builtin} {inherited : Option Range} {r : Range}
    (hinherited : ∀ s, inherited = some s → s.IsOf type)
    (h : parse expression type inherited = .ok r) :
    r.IsOf type ∧ ∀ s, inherited = some s → r.Narrows s := by
  obtain ⟨bounds, -, -, hbounds, -, -, hnarrow⟩ := parse_eq_ok_iff.mp h
  have numeric := Value.isNumeric_of_bounds? hbounds
  refine ⟨⟨intervals_ne_nil_of_parse h, ?_⟩, ?_⟩
  · exact parse_property (P := fun v => v.type = type) (Value.type_of_parse numeric)
      Value.type_of_bounds? (fun s hs => (hinherited s hs).2) h
  · rintro s rfl
    exact narrows_of_checkNarrower hnarrow

end Range

end Yang
