import Yang.Proofs.Branches

/-!
# How far a literal is followed

The bound on derivations has no say in what a type makes of a literal. For each type and each
literal there is a depth that reading goes to (`TypeSpec.reach`): the typedefs, leafrefs and
unions on the longest way down that is tried. If the bound allows this depth, then the result is
the one without a bound (`TypeSpec.outcome`); otherwise the bound is reported.

A union does not try the members after the one that accepts the literal, so a literal may be read
within a bound that the type as a whole exceeds. It never happens that a member which is too deep
is passed over in favour of a later one.
-/

namespace Yang

def Limits.tooDeep (limits : Limits) : Error :=
  .limitExceeded .derivationDepth (limits.derivationDepth + 1) limits.derivationDepth

namespace TypeSpec

/-- What a type makes of a literal when it may nest as deep as it does. Other
than its value, it tells the errors apart. -/
def outcome (t : TypeSpec) (raw : String) : Except Error Value :=
  t.read raw { derivationDepth := t.nesting }

mutual

/-- How many typedefs, leafrefs and unions are followed, one below the other, to
read a literal. It depends on the literal, because the members behind the
accepting one are not tried. -/
def reach (raw : String) : TypeSpec → Nat
  | .builtin _ _ => 0
  | .derived _ base _ _ _ => base.reach raw + 1
  | .leafref _ target => target.reach raw + 1
  | .union members => reachOfMembers raw members

/-- The members of a union are tried up to the first one that accepts the
literal. -/
def reachOfMembers (raw : String) : List TypeSpec → Nat
  | [] => 0
  | member :: rest =>
    max (member.reach raw + 1)
      (if (member.value? raw).isSome then 0 else reachOfMembers raw rest)

end

variable {limits : Limits} {depth : Nat} {t : TypeSpec} {raw : String}

/-! ### The outcome -/

theorem toOption_outcome (t : TypeSpec) (raw : String) :
    (t.outcome raw).toOption = t.value? raw := rfl

theorem decides_outcome (t : TypeSpec) (raw : String) : Decides (t.outcome raw) :=
  decides_of_fits raw (Nat.zero_add _).le

/-- Within the bound reading gives the outcome. -/
theorem readAt_eq_outcome (raw : String) (fits : depth + t.nesting ≤ limits.derivationDepth) :
    readAt limits raw depth t = t.outcome raw :=
  readAt_eq_readAt raw fits (Nat.zero_add _).le

theorem outcome_derived (name : String) (base : TypeSpec) (own : Option Range)
    (location : Option Location) (use : Option Range) (raw : String) :
    (derived name base own location use).outcome raw = (do
      let v ← base.outcome raw
      checkRange own v
      checkRange use v
      return v) := by
  have hbase : readAt { derivationDepth := base.nesting + 1 } raw (0 + 1) base =
      base.outcome raw := readAt_eq_outcome raw (by simp only; omega)
  rw [outcome, read, nesting, readAt, bind_of_ok (checkDepth_of_le (Nat.zero_le _)), hbase]

theorem outcome_leafref (path : String) (target : TypeSpec) (raw : String) :
    (leafref path target).outcome raw = target.outcome raw := by
  rw [outcome, read, nesting, readAt_leafref (Nat.zero_le _)]
  exact readAt_eq_outcome raw (by simp only; omega)

/-- A union makes of a literal what its first accepting member does. -/
theorem outcome_union (members : List TypeSpec) (raw : String) :
    (union members).outcome raw =
      (members.findSome? (·.value? raw)).elim (.error (.noUnionMember raw members.length))
        .ok := by
  have fits : ∀ m ∈ members, 0 + 1 + m.nesting ≤ (union members).nesting := by
    intro m hm
    have hnesting := nesting_lt_of_mem hm
    omega
  rw [outcome, read, readAt, bind_of_ok (checkDepth_of_le (Nat.zero_le _)),
    readFirst_of_fits fits]
  cases members.findSome? (·.value? raw) <;> rfl

/-! ### One member of a union -/

theorem readFirst_cons_of_ok {member : TypeSpec} {v : Value}
    (h : readAt limits raw depth member = .ok v) (rest : List TypeSpec) :
    readFirst limits raw depth (member :: rest) = .ok (some v) := by
  rw [readFirst, h]

/-- A member that is too deep ends the search. The members behind it might have
accepted the literal. -/
theorem readFirst_cons_of_tooDeep {member : TypeSpec}
    (h : readAt limits raw depth member = .error limits.tooDeep) (rest : List TypeSpec) :
    readFirst limits raw depth (member :: rest) = .error limits.tooDeep := by
  rw [readFirst, h]
  rfl

theorem readFirst_cons_of_error {member : TypeSpec} {e : Error}
    (h : readAt limits raw depth member = .error e) (hkind : e.kind ≠ .limitExceeded)
    (rest : List TypeSpec) :
    readFirst limits raw depth (member :: rest) = readFirst limits raw depth rest := by
  rw [readFirst, h]
  split
  · rename_i hok
    cases hok
  · rename_i herror
    obtain rfl := Except.error.inj herror
    exact absurd rfl hkind
  · rfl

/-! ### Reading within any bound -/

/-- The search in a union ends at a member that is too deep, if it gets there,
and otherwise as it does without a bound. The members are known by what the
induction says of each of them. -/
theorem readFirst_eq_ite {members : List TypeSpec} (hdepth : depth ≤ limits.derivationDepth)
    (hmembers : ∀ m ∈ members, readAt limits raw (depth + 1) m =
      if depth + 1 + m.reach raw ≤ limits.derivationDepth then m.outcome raw
      else .error limits.tooDeep) :
    readFirst limits raw (depth + 1) members =
      if depth + reachOfMembers raw members ≤ limits.derivationDepth then
        .ok (members.findSome? (·.value? raw))
      else .error limits.tooDeep := by
  induction members with
  | nil =>
      rw [reachOfMembers]
      exact (if_pos hdepth).symm
  | cons member rest ih =>
      obtain ⟨hmember, hrest⟩ := List.forall_mem_cons.mp hmembers
      rw [reachOfMembers, List.findSome?_cons]
      by_cases fits : depth + 1 + member.reach raw ≤ limits.derivationDepth
      · rw [if_pos fits] at hmember
        rw [← toOption_outcome]
        have hdecides := decides_outcome member raw
        cases houtcome : member.outcome raw with
        | ok v =>
            have hfirst := readFirst_cons_of_ok (hmember.trans houtcome) rest
            simp only [Except.toOption, Option.isSome_some, if_true]
            rw [hfirst, if_pos (by omega)]
        | error e =>
            have hnext := readFirst_cons_of_error (hmember.trans houtcome)
              (hdecides e houtcome) rest
            simp only [Except.toOption, Option.isSome_none, Bool.false_eq_true, if_false]
            rw [hnext, ih hrest]
            have hreach : depth + max (member.reach raw + 1) (reachOfMembers raw rest) ≤
                limits.derivationDepth ↔
                  depth + reachOfMembers raw rest ≤ limits.derivationDepth := by omega
            simp only [hreach]
      · rw [if_neg fits] at hmember
        rw [readFirst_cons_of_tooDeep hmember rest, if_neg (by omega)]

theorem readAt_of_tooDeep (h : depth = limits.derivationDepth + 1) (raw : String)
    (t : TypeSpec) : readAt limits raw depth t = .error limits.tooDeep := by
  subst h
  exact readAt_of_over (Nat.lt_succ_self _) raw t

/-- Reading gives the outcome if the bound allows the depth that it goes to, and
reports the bound otherwise. All three statements about bounds follow from this
equation. -/
theorem readAt_eq_ite (raw : String) (hdepth : depth ≤ limits.derivationDepth + 1) :
    readAt limits raw depth t =
      if depth + t.reach raw ≤ limits.derivationDepth then t.outcome raw
      else .error limits.tooDeep := by
  induction t using induct generalizing depth with
  | builtin type range =>
      rw [reach, Nat.add_zero]
      split
      · rename_i hwithin
        exact readAt_eq_outcome raw hwithin
      · exact readAt_of_tooDeep (by omega) raw _
  | derived name base own location use ih =>
      rcases Nat.lt_or_ge limits.derivationDepth depth with hover | hwithin
      · rw [if_neg (by omega)]
        exact readAt_of_tooDeep (by omega) raw _
      · have hbase := @ih (depth + 1) (by omega)
        have hreach : depth + (base.reach raw + 1) = depth + 1 + base.reach raw := by omega
        rw [readAt, bind_of_ok (checkDepth_of_le hwithin), hbase, reach, hreach,
          outcome_derived]
        split <;> rfl
  | leafref path target ih =>
      rcases Nat.lt_or_ge limits.derivationDepth depth with hover | hwithin
      · rw [if_neg (by omega)]
        exact readAt_of_tooDeep (by omega) raw _
      · have hreach : depth + (target.reach raw + 1) = depth + 1 + target.reach raw := by omega
        rw [readAt_leafref hwithin, reach, hreach, outcome_leafref]
        exact ih (by omega)
  | union members ih =>
      rcases Nat.lt_or_ge limits.derivationDepth depth with hover | hwithin
      · rw [if_neg (by omega)]
        exact readAt_of_tooDeep (by omega) raw _
      · have hfirst := readFirst_eq_ite hwithin fun m hm => ih m hm (by omega)
        rw [readAt, bind_of_ok (checkDepth_of_le hwithin), hfirst, reach, outcome_union]
        split
        · cases members.findSome? (·.value? raw) <;> rfl
        · rfl

theorem read_eq_ite (t : TypeSpec) (raw : String) (limits : Limits) :
    t.read raw limits =
      if t.reach raw ≤ limits.derivationDepth then t.outcome raw
      else .error limits.tooDeep := by
  rw [read, readAt_eq_ite raw (Nat.zero_le _), Nat.zero_add]

/-- Reading goes no deeper than the type does, and less deep if an early member
of a union accepts the literal. -/
theorem reach_le_nesting (t : TypeSpec) (raw : String) : t.reach raw ≤ t.nesting := by
  induction t using induct with
  | builtin type range => exact Nat.le_refl 0
  | derived name base own location use ih => exact Nat.succ_le_succ ih
  | leafref path target ih => exact Nat.succ_le_succ ih
  | union members ih =>
      rw [reach, nesting]
      induction members with
      | nil => exact Nat.le_refl 0
      | cons member rest hrest =>
          obtain ⟨hmember, htail⟩ := List.forall_mem_cons.mp ih
          have hnext := hrest htail
          rw [reachOfMembers, nestingOfMembers]
          split <;> omega

/-- Reading decides about a literal exactly if the bound allows the depth that
it goes to. -/
theorem decides_read_iff : Decides (t.read raw limits) ↔ t.reach raw ≤ limits.derivationDepth := by
  rw [read_eq_ite]
  split
  · rename_i hwithin
    exact iff_of_true (decides_outcome t raw) hwithin
  · rename_i hover
    exact iff_of_false (fun h => h _ rfl rfl) hover

/-- The bound on derivations only ever turns results into reports of the bound.
What is read within a bound, a value or an error of another kind, is read so
within every greater bound. A bound that the nesting of the type keeps is never
reported. It is reported exactly if the literal is followed deeper, and then for
the depth just above it. -/
theorem read_under_bounds (t : TypeSpec) (raw : String) :
    (∀ limits limits' : Limits, limits.derivationDepth ≤ limits'.derivationDepth →
      Decides (t.read raw limits) → t.read raw limits' = t.read raw limits) ∧
    (∀ limits : Limits, t.nesting ≤ limits.derivationDepth → Decides (t.read raw limits)) ∧
    ∀ limits : Limits,
      (Decides (t.read raw limits) ↔ t.reach raw ≤ limits.derivationDepth) ∧
      (¬Decides (t.read raw limits) → t.read raw limits = .error limits.tooDeep) := by
  refine ⟨?_, ?_, ?_⟩
  · intro limits limits' hle hdecides
    have hwithin := decides_read_iff.mp hdecides
    rw [read_eq_ite, read_eq_ite, if_pos hwithin, if_pos (hwithin.trans hle)]
  · intro limits hnesting
    exact decides_read_iff.mpr ((reach_le_nesting t raw).trans hnesting)
  · intro limits
    refine ⟨decides_read_iff, fun hexceeded => ?_⟩
    rw [read_eq_ite, if_neg (mt decides_read_iff.mpr hexceeded)]

/-- A flag, or else the size that another leaf holds. -/
def flagOrSize : TypeSpec :=
  .union [.builtin .boolean none,
    .leafref "/store/size" (.ofTypedef { name := "size", base := .builtin (.integer .int8) none })]

/-- A bound that the members of a union keep if they are built-in types. -/
def oneStep : Limits := { derivationDepth := 1 }

/-- A flag is read within a bound that is too narrow for a size. -/
theorem read_under_bounds_flagOrSize :
    flagOrSize.read "true" oneStep = .ok (.flag true) ∧
      flagOrSize.read "true" {} = .ok (.flag true) ∧
      flagOrSize.nesting ≤ ({} : Limits).derivationDepth ∧ Decides (flagOrSize.read "7" {}) ∧
      ¬Decides (flagOrSize.read "7" oneStep) ∧
      flagOrSize.read "7" oneStep = .error oneStep.tooDeep := by
  have hflag : flagOrSize.read "true" oneStep = .ok (.flag true) := by decide
  have hdecides : Decides (flagOrSize.read "true" oneStep) := by
    rw [hflag]
    exact .ok _
  have hwider : oneStep.derivationDepth ≤ ({} : Limits).derivationDepth := by decide
  have hfits : flagOrSize.nesting ≤ ({} : Limits).derivationDepth := by decide
  have hsize := read_under_bounds flagOrSize "7"
  have hexceeded : ¬Decides (flagOrSize.read "7" oneStep) := by
    rw [(hsize.2.2 oneStep).1]
    decide
  exact ⟨hflag, ((read_under_bounds flagOrSize "true").1 oneStep {} hwider hdecides).trans hflag,
    hfits, hsize.2.1 {} hfits, hexceeded, (hsize.2.2 oneStep).2 hexceeded⟩

end TypeSpec

end Yang
