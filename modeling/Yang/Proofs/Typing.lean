import Yang.Proofs.Narrowing

/-!
# The values that types give

A type gives a value to a literal by way of one built-in type: through typedefs and
leafrefs, and in a union through the first member that accepts the literal. `Gives`
describes this way apart from the limits and the errors of reading. A value that a type
gives lies inside every range on its way; ranges of members that rejected the literal do
not matter.
-/

namespace Yang.TypeSpec

/-- The value that a type gives to a literal, after `depth` indirections. It
passes every range on the way to the built-in type; of a union, the member that
gave it is told. -/
inductive Gives (limits : Limits) (raw : String) : Nat → TypeSpec → Value → Prop
  | builtin {depth : Nat} {type : Builtin} {range : Option Range} {v : Value}
      (parsed : Value.parse raw type = .ok v) (passes : Passes range v) :
      Gives limits raw depth (.builtin type range) v
  | derived {depth : Nat} {name : String} {base : TypeSpec} {own use : Option Range}
      {location : Option Location} {v : Value} (below : Gives limits raw (depth + 1) base v)
      (passesOwn : Passes own v) (passesUse : Passes use v) :
      Gives limits raw depth (.derived name base own location use) v
  | leafref {depth : Nat} {path : String} {target : TypeSpec} {v : Value}
      (below : Gives limits raw (depth + 1) target v) :
      Gives limits raw depth (.leafref path target) v
  | union {depth : Nat} {before after : List TypeSpec} {member : TypeSpec} {v : Value}
      (rejected : ∀ other ∈ before, ∀ w, readAt limits raw (depth + 1) other ≠ .ok w)
      (below : Gives limits raw (depth + 1) member v) :
      Gives limits raw depth (.union (before ++ member :: after)) v

mutual

/-- What is read for a type is what it gives. -/
theorem gives_of_readAt {limits : Limits} {raw : String} {depth : Nat} {v : Value} :
    ∀ type : TypeSpec, readAt limits raw depth type = .ok v → Gives limits raw depth type v
  | .builtin type range, h => by
      simp only [readAt, bind_eq_ok_iff, exists_unit_iff, pure_eq_ok_iff, checkRange_eq_ok_iff] at h
      obtain ⟨-, _, parsed, passes, rfl⟩ := h
      exact .builtin parsed passes
  | .derived name base own location use, h => by
      simp only [readAt, bind_eq_ok_iff, exists_unit_iff, pure_eq_ok_iff, checkRange_eq_ok_iff] at h
      obtain ⟨-, _, hbase, passesOwn, passesUse, rfl⟩ := h
      exact .derived (gives_of_readAt base hbase) passesOwn passesUse
  | .leafref path target, h => by
      simp only [readAt, bind_eq_ok_iff, exists_unit_iff] at h
      exact .leafref (gives_of_readAt target h.2)
  | .union members, h => by
      simp only [readAt, bind_eq_ok_iff, exists_unit_iff] at h
      obtain ⟨-, found, hfound, h⟩ := h
      cases found with
      | none => simp at h
      | some w =>
          obtain rfl := pure_eq_ok_iff.mp h
          obtain ⟨before, member, after, rfl, rejected, below⟩ := gives_of_readFirst members hfound
          exact .union rejected below

/-- What is read for the members of a union is what the first accepting one
gives. None of those before it reads any value for the literal. -/
theorem gives_of_readFirst {limits : Limits} {raw : String} {depth : Nat} {v : Value} :
    ∀ members : List TypeSpec, readFirst limits raw depth members = .ok (some v) →
      ∃ before member after, members = before ++ member :: after ∧
        (∀ other ∈ before, ∀ w, readAt limits raw depth other ≠ .ok w) ∧
        Gives limits raw depth member v
  | [], h => by simp [readFirst] at h
  | member :: rest, h => by
      rw [readFirst] at h
      split at h
      · rename_i w hw
        obtain rfl := Option.some.inj (Except.ok.inj h)
        exact ⟨[], member, rest, rfl, List.forall_mem_nil _, gives_of_readAt member hw⟩
      · cases h
      · rename_i e _ herror
        obtain ⟨before, next, after, rfl, rejected, below⟩ := gives_of_readFirst rest h
        refine ⟨member :: before, next, after, rfl, ?_, below⟩
        refine List.forall_mem_cons.mpr ⟨?_, rejected⟩
        intro w hw
        rw [herror] at hw
        cases hw

end

theorem gives_of_read {type : TypeSpec} {limits : Limits} {raw : String} {v : Value}
    (h : type.read raw limits = .ok v) :
    Gives limits raw 0 type v :=
  gives_of_readAt type h

end Yang.TypeSpec
