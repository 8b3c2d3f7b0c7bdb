import Yang.Proofs.Range
import Yang.TypeSpec

/-!
# Ranges narrow along a derivation

A range that is written for a type lies inside the range that the type has already.
So of the ranges on the way from a type down to its built-in type the outermost one
implies all the others, and reading a literal, which checks each of them, depends on
that one only.

`TypeSpec.Formed` describes the types that are put together without unions. What their
ranges have in common is `TypeSpec.Narrowing`, a condition on the structure of a type
that says of each range how it relates to the next one below it. Restricting a type
again replaces its outermost range and keeps the condition.
-/

namespace Yang

mutual

/-- The types that are built from built-in types, references to typedefs,
leafrefs and restrictions. None of them contains a union. -/
inductive TypeSpec.Formed : TypeSpec → Prop
  | builtin (type : Builtin) : TypeSpec.Formed (.builtin type none)
  | ofTypedef {d : Typedef} (formed : Typedef.Formed d) : TypeSpec.Formed (.ofTypedef d)
  | leafref {t : TypeSpec} (path : String) (formed : TypeSpec.Formed t) :
      TypeSpec.Formed (.leafref path t)
  | withRange {t t' : TypeSpec} {expression : String} (formed : TypeSpec.Formed t)
      (h : t.withRange expression = .ok t') : TypeSpec.Formed t'

/-- The typedefs over such types. -/
inductive Typedef.Formed : Typedef → Prop
  | new {t : TypeSpec} (name : String) (formed : TypeSpec.Formed t) :
      Typedef.Formed { name := name, base := t }
  | located {d : Typedef} (l : Location) (formed : Typedef.Formed d) :
      Typedef.Formed { d with location := some l }
  | withRange {d d' : Typedef} {expression : String} (formed : Typedef.Formed d)
      (h : d.withRange expression = .ok d') : Typedef.Formed d'

end

namespace TypeSpec

mutual

/-- How many typedefs, leafrefs and unions lie above the deepest built-in type.
It is the bound that a type needs for every literal to be read. -/
def nesting : TypeSpec → Nat
  | .builtin _ _ => 0
  | .derived _ base _ _ _ => base.nesting + 1
  | .leafref _ target => target.nesting + 1
  | .union members => nestingOfMembers members

def nestingOfMembers : List TypeSpec → Nat
  | [] => 0
  | member :: rest => max (member.nesting + 1) (nestingOfMembers rest)

end

/-- A range, if there is one, is of the type and narrows the next one below it.
No range is a layer as well, which leaves in force what was so below. -/
def Layer (type : Builtin) (below range : Option Range) : Prop :=
  ∀ r, range = some r → r.IsOf type ∧ ∀ s, below = some s → r.Narrows s

/-- Every range of a type is of the built-in type at the end and narrows the
ranges below it. This is the invariant of types without unions, from which it
follows that the narrowest range decides. -/
inductive Narrowing : TypeSpec → Prop
  | builtin {type : Builtin} {range : Option Range} (layer : Layer type none range) :
      Narrowing (.builtin type range)
  | derived {name : String} {base : TypeSpec} {own use : Option Range}
      {location : Option Location} (narrowing : Narrowing base)
      (inner : Layer base.effective base.effectiveRange own)
      (outer : Layer base.effective (own.or base.effectiveRange) use) :
      Narrowing (.derived name base own location use)
  | leafref {path : String} {target : TypeSpec} (narrowing : Narrowing target) :
      Narrowing (.leafref path target)

def Passes (range : Option Range) (v : Value) : Prop :=
  ∀ r, range = some r → r.isValid v = .ok true

theorem checkRange_eq_ok_iff {range : Option Range} {v : Value} :
    checkRange range v = .ok () ↔ Passes range v := by
  cases range with
  | none => simp [checkRange, Passes]
  | some r => simp [checkRange, Passes]

/-- A layer over what is in force below it is in force itself. -/
theorem Layer.isOf {type : Builtin} {below range : Option Range} (h : Layer type below range)
    (hbelow : ∀ s, below = some s → s.IsOf type) :
    ∀ r, range.or below = some r → r.IsOf type := by
  intro r hr
  cases range with
  | none => exact hbelow r hr
  | some r' =>
      obtain rfl := Option.some.inj hr
      exact (h r' rfl).1

/-- A value that passes a range passes what the range narrows. So of two ranges
in a row only the upper one counts. -/
theorem Layer.passes_or_iff {type : Builtin} {below range : Option Range}
    (h : Layer type below range) (hbelow : ∀ s, below = some s → s.IsOf type) {v : Value} :
    Passes (range.or below) v ↔ Passes range v ∧ Passes below v := by
  cases range with
  | none => simp [Passes]
  | some r =>
      obtain ⟨hr, hnarrows⟩ := h r rfl
      rw [Option.some_or]
      constructor
      · intro hpass
        refine ⟨hpass, ?_⟩
        intro s hs
        have hv := (Range.isValid_eq_true_iff_of_isOf hr).mp (hpass r rfl)
        exact (Range.isValid_eq_true_iff_of_isOf (hbelow s hs)).mpr (hnarrows s hs v hv)
      · exact fun hpass => hpass.1

/-- The narrowest range in force is a range of the built-in type at the end. -/
theorem Narrowing.isOf {t : TypeSpec} (h : t.Narrowing) :
    ∀ r, t.effectiveRange = some r → r.IsOf t.effective := by
  induction h with
  | builtin layer => exact fun r hr => (layer r hr).1
  | derived _ inner outer ih => exact outer.isOf (inner.isOf ih)
  | leafref _ ih => exact ih

/-- A range that an expression writes for a type is a layer over it. This is
where writing checks what reading relies on. -/
theorem Narrowing.layer_of_restriction {t : TypeSpec} (h : t.Narrowing) {expression : String}
    {r : Range} (hr : t.restriction expression = .ok r) :
    Layer t.effective t.effectiveRange (some r) := by
  rintro r' hr'
  obtain rfl := Option.some.inj hr'
  exact Range.parse_eq_ok h.isOf hr

/-- The literal is read if the type is not nested too deep, the built-in type at
the end reads it, and the narrowest range holds the value. The other ranges are
checked as well, but hold it then. -/
theorem Narrowing.readAt_eq_ok_iff {t : TypeSpec} (h : t.Narrowing) {limits : Limits}
    {raw : String} {depth : Nat} {v : Value} :
    readAt limits raw depth t = .ok v ↔
      depth + t.nesting ≤ limits.derivationDepth ∧ Value.parse raw t.effective = .ok v ∧
        Passes t.effectiveRange v := by
  induction h generalizing depth v with
  | builtin layer =>
      simp only [readAt, bind_eq_ok_iff, exists_unit_iff, pure_eq_ok_iff, Limits.check_eq_ok_iff,
        checkRange_eq_ok_iff]
      constructor
      · rintro ⟨hdepth, v', hv', hpass, rfl⟩
        exact ⟨hdepth, hv', hpass⟩
      · rintro ⟨hdepth, hv, hpass⟩
        exact ⟨hdepth, v, hv, hpass, rfl⟩
  | @derived name base own use location narrowing inner outer ih =>
      have hbase := narrowing.isOf
      have hnested : depth + (base.nesting + 1) = depth + 1 + base.nesting := by omega
      simp only [readAt, bind_eq_ok_iff, exists_unit_iff, pure_eq_ok_iff, Limits.check_eq_ok_iff,
        checkRange_eq_ok_iff, ih, nesting, effective, effectiveRange, hnested,
        outer.passes_or_iff (inner.isOf hbase), inner.passes_or_iff hbase]
      constructor
      · rintro ⟨_, v', ⟨hdepth, hv', hpass⟩, hown, huse, rfl⟩
        exact ⟨hdepth, hv', huse, hown, hpass⟩
      · rintro ⟨hdepth, hv, huse, hown, hpass⟩
        refine ⟨?_, v, ⟨hdepth, hv, hpass⟩, hown, huse, rfl⟩
        change depth ≤ limits.derivationDepth
        omega
  | @leafref path target narrowing ih =>
      have hnested : depth + (target.nesting + 1) = depth + 1 + target.nesting := by omega
      simp only [readAt, bind_eq_ok_iff, exists_unit_iff, Limits.check_eq_ok_iff, ih, nesting,
        effective, effectiveRange, hnested]
      constructor
      · exact fun hread => hread.2
      · intro hread
        refine ⟨?_, hread⟩
        change depth ≤ limits.derivationDepth
        omega

/-- A layer over a layer can take its place. What is restricted again forgets
the range before, which it narrows. -/
theorem Layer.replace {type : Builtin} {below inner outer : Option Range}
    (hinner : Layer type below inner) (houter : Layer type (inner.or below) outer) :
    Layer type below outer := by
  cases inner with
  | none => exact houter
  | some s =>
      intro r hr
      obtain ⟨hof, hnarrows⟩ := houter r hr
      exact ⟨hof, fun b hb => (hnarrows s rfl).trans ((hinner s rfl).2 b hb)⟩

/-- Restricting a type replaces its outermost range by one that narrows the
range in force. The built-in type at the end stays the same. -/
theorem Narrowing.withRange {t t' : TypeSpec} {expression : String} (h : t.Narrowing)
    (ht' : t.withRange expression = .ok t') :
    t'.Narrowing ∧ t'.effective = t.effective ∧
      ∃ r, t'.effectiveRange = some r ∧ Layer t.effective t.effectiveRange (some r) := by
  simp only [TypeSpec.withRange, bind_eq_ok_iff] at ht'
  obtain ⟨r, hr, ht'⟩ := ht'
  have layer := h.layer_of_restriction hr
  cases h with
  | builtin inner =>
      obtain rfl := pure_eq_ok_iff.mp ht'
      refine ⟨.builtin (inner.replace ?_), rfl, r, rfl, layer⟩
      rwa [Option.or_none]
  | derived narrowing inner outer =>
      obtain rfl := pure_eq_ok_iff.mp ht'
      exact ⟨.derived narrowing inner (outer.replace layer), rfl, r, rfl, layer⟩
  | leafref _ => exact absurd ht' throw_ne_ok

theorem Narrowing.layer_of_typedef {d d' : Typedef} {expression : String}
    (h : d.base.Narrowing) (hd' : d.withRange expression = .ok d') :
    d'.base = d.base ∧ Layer d.base.effective d.base.effectiveRange d'.range := by
  simp only [Typedef.withRange, bind_eq_ok_iff, pure_eq_ok_iff] at hd'
  obtain ⟨r, hr, rfl⟩ := hd'
  obtain ⟨hof, hnarrows⟩ := h.layer_of_restriction hr r rfl
  refine ⟨rfl, ?_⟩
  intro r' hr'
  obtain rfl := Option.some.inj hr'
  -- The location of a range does not matter for its values.
  cases d.location with
  | none => exact ⟨hof, hnarrows⟩
  | some l => exact ⟨hof, hnarrows⟩

theorem Narrowing.ofTypedef {d : Typedef} (h : d.base.Narrowing)
    (layer : Layer d.base.effective d.base.effectiveRange d.range) :
    (TypeSpec.ofTypedef d).Narrowing :=
  .derived h layer (fun _ hr => nomatch hr)

end TypeSpec

mutual

theorem TypeSpec.Formed.narrowing {t : TypeSpec} : t.Formed → t.Narrowing
  | .builtin _ => .builtin (fun _ hr => nomatch hr)
  | .ofTypedef formed => .ofTypedef formed.narrowing.1 formed.narrowing.2
  | .leafref _ formed => .leafref formed.narrowing
  | .withRange formed h => (formed.narrowing.withRange h).1

theorem Typedef.Formed.narrowing {d : Typedef} :
    d.Formed → d.base.Narrowing ∧ TypeSpec.Layer d.base.effective d.base.effectiveRange d.range
  | .new _ formed => ⟨formed.narrowing, fun _ hr => nomatch hr⟩
  | .located _ formed => formed.narrowing
  | .withRange formed h => by
      obtain ⟨hbase, hlayer⟩ := TypeSpec.Narrowing.layer_of_typedef formed.narrowing.1 h
      rw [hbase]
      exact ⟨formed.narrowing.1, hlayer⟩

end

namespace TypeSpec

/-- A literal is valid for a range of a numeric type if it denotes a value of
the type that passes the range. The type is found again by the bounds. -/
theorem isValidLiteral_eq_true_iff {r : Range} {type : Builtin} (h : r.IsOf type) {raw : String} :
    r.isValidLiteral raw = .ok true ↔
      ∃ v, Value.parse raw type = .ok v ∧ r.isValid v = .ok true := by
  obtain ⟨i, rest, hi⟩ := List.exists_cons_of_ne_nil h.1
  have hleast : r.least = .ok i.start := by simp [Range.least, hi]
  have htype : i.start.type = type := (h.2 i (by simp [hi])).1
  simp only [Range.isValidLiteral, hleast, bind_eq_ok_iff, Except.ok.injEq, exists_eq_left',
    htype]

/-- Of the ranges of a type without unions only the narrowest one decides which
literals it reads, although reading checks every one of them. So a restricted
type reads no literal that its base does not read, and reads the same values. -/
theorem narrowest_range_decides {t : TypeSpec} (formed : t.Formed) {limits : Limits}
    (within : t.nesting ≤ limits.derivationDepth) :
    (∀ raw v, t.read raw limits = .ok v ↔
      Value.parse raw t.effective = .ok v ∧
        (t.effectiveRange = none ∨
          ∃ r, t.effectiveRange = some r ∧ r.isValid v = .ok true)) ∧
    (∀ r, t.effectiveRange = some r → ∀ raw,
      r.isValidLiteral raw = .ok true ↔ ∃ v, t.read raw limits = .ok v) ∧
    (∀ expression t', t.withRange expression = .ok t' → ∀ raw v,
      t'.read raw limits = .ok v → t.read raw limits = .ok v) ∧
    (∀ (d d' : Typedef) expression, d.base = t → d.withRange expression = .ok d' → ∀ raw v,
      (ofTypedef d').read raw limits = .ok v → t.read raw limits = .ok v) := by
  have narrowing := formed.narrowing
  have hread : ∀ raw v, t.read raw limits = .ok v ↔
      Value.parse raw t.effective = .ok v ∧ Passes t.effectiveRange v := by
    intro raw v
    rw [read, narrowing.readAt_eq_ok_iff, Nat.zero_add]
    exact and_iff_right within
  refine ⟨?_, ?_, ?_, ?_⟩
  · intro raw v
    rw [hread]
    cases t.effectiveRange <;> simp [Passes]
  · intro r hr raw
    simp only [isValidLiteral_eq_true_iff (narrowing.isOf r hr), hread, Passes, hr,
      Option.some.injEq, forall_eq']
  · intro expression t' ht' raw v hv
    obtain ⟨narrowing', heffective, r, hr, layer⟩ := narrowing.withRange ht'
    obtain ⟨_, hparse, hpass⟩ := narrowing'.readAt_eq_ok_iff.mp hv
    rw [heffective] at hparse
    rw [hr] at hpass
    exact (hread raw v).mpr ⟨hparse, ((layer.passes_or_iff narrowing.isOf).mp hpass).2⟩
  · rintro d d' expression rfl hd' raw v hv
    obtain ⟨hbase, layer⟩ := narrowing.layer_of_typedef hd'
    have narrowing' : (ofTypedef d').Narrowing := .ofTypedef (hbase ▸ narrowing) (hbase ▸ layer)
    obtain ⟨_, hparse, hpass⟩ := narrowing'.readAt_eq_ok_iff.mp hv
    simp only [ofTypedef, effective, effectiveRange, Option.none_or, hbase] at hparse hpass
    exact (hread raw v).mpr ⟨hparse, ((layer.passes_or_iff narrowing.isOf).mp hpass).2⟩

/-- A percentage: a typedef that restricts `uint8`. -/
def percentage : Typedef where
  name := "percentage"
  base := .builtin (.integer .uint8) none
  range := some
    { intervals := [⟨.integer .uint8 0 (by decide), .integer .uint8 100 (by decide), by decide⟩]
      expression := some "0..100" }

def share : TypeSpec :=
  .derived percentage.name percentage.base percentage.range percentage.location (some
    { intervals := [⟨.integer .uint8 10 (by decide), .integer .uint8 20 (by decide), by decide⟩]
      expression := some "10..20" })

theorem percentage_formed : percentage.Formed :=
  .withRange (.new "percentage" (.builtin (.integer .uint8)))
    (rfl : Typedef.withRange _ "0..100" = .ok percentage)

theorem share_formed : share.Formed :=
  .withRange (.ofTypedef percentage_formed) (rfl : withRange _ "10..20" = .ok share)

/-- A share reads 12 and does not read 21. -/
theorem narrowest_range_decides_share :
    share.Formed ∧ share.nesting ≤ ({} : Limits).derivationDepth ∧
      share.read "12" {} = .ok (.integer .uint8 12 (by decide)) ∧
      share.read "21" {} ≠ .ok (.integer .uint8 21 (by decide)) := by
  have within : share.nesting ≤ ({} : Limits).derivationDepth := by decide
  have hread := (narrowest_range_decides share_formed within).1
  refine ⟨share_formed, within, (hread _ _).mpr ⟨rfl, .inr ⟨_, rfl, rfl⟩⟩, ?_⟩
  intro h
  obtain ⟨_, hnone | ⟨r, hr, hvalid⟩⟩ := (hread _ _).mp h
  · cases hnone
  · obtain rfl := Option.some.inj hr
    cases hvalid

end TypeSpec

end Yang
