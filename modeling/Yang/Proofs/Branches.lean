import Yang.Proofs.Literal.Faults
import Yang.Proofs.Narrowing

/-!
# The branches of a type

Unions nest through typedefs, leafrefs and other unions. Flattened, a type is the sequence of
its branches, from left to right, in none of which a union is left. Since no range can be
written for a union, the typedefs above one restrict nothing, and the type gives a literal the
value that the first branch gives which accepts it.

Reading is bounded. Within the bound a type decides about every literal, and the bound does
not matter (`readAt_of_fits`).
-/

namespace Yang

mutual

/-- The types that are built from built-in types, references to typedefs,
leafrefs, unions and restrictions. A restriction is put on by the call that
reads its expression, so a union is never restricted. -/
inductive TypeSpec.Built : TypeSpec → Prop
  | builtin (type : Builtin) : TypeSpec.Built (.builtin type none)
  | ofTypedef {d : Typedef} (built : Typedef.Built d) : TypeSpec.Built (.ofTypedef d)
  | leafref {t : TypeSpec} (path : String) (built : TypeSpec.Built t) :
      TypeSpec.Built (.leafref path t)
  | union {members : List TypeSpec} (built : ∀ m ∈ members, TypeSpec.Built m) :
      TypeSpec.Built (.union members)
  | withRange {t t' : TypeSpec} {expression : String} (built : TypeSpec.Built t)
      (h : t.withRange expression = .ok t') : TypeSpec.Built t'

inductive Typedef.Built : Typedef → Prop
  | new {t : TypeSpec} (name : String) (built : TypeSpec.Built t) :
      Typedef.Built { name := name, base := t }
  | located {d : Typedef} (l : Location) (built : Typedef.Built d) :
      Typedef.Built { d with location := some l }
  | withRange {d d' : Typedef} {expression : String} (built : Typedef.Built d)
      (h : d.withRange expression = .ok d') : Typedef.Built d'

end

namespace TypeSpec

mutual

/-- The types without unions that a type consists of, from left to right. Each
branch keeps the typedefs, leafrefs and ranges that lead to it. -/
def branches : TypeSpec → List TypeSpec
  | .builtin type range => [.builtin type range]
  | .derived name base own location use =>
      base.branches.map fun branch => .derived name branch own location use
  | .leafref path target => target.branches.map (.leafref path)
  | .union members => branchesOfMembers members

def branchesOfMembers : List TypeSpec → List TypeSpec
  | [] => []
  | member :: rest => member.branches ++ branchesOfMembers rest

end

/-- The value that a type gives to a literal when it may nest as deep as it
does. It is what the type means, apart from any bound. -/
def value? (t : TypeSpec) (raw : String) : Option Value :=
  (t.read raw { derivationDepth := t.nesting }).toOption

/-- What holds of built-in types, and of every other type if it holds of those
it refers to, holds of all types. -/
theorem induct {motive : TypeSpec → Prop} (builtin : ∀ type range, motive (.builtin type range))
    (derived : ∀ name base own location use, motive base →
      motive (.derived name base own location use))
    (leafref : ∀ path target, motive target → motive (.leafref path target))
    (union : ∀ members, (∀ m ∈ members, motive m) → motive (.union members)) :
    ∀ t : TypeSpec, motive t
  | .builtin type range => builtin type range
  | .derived name base own location use =>
      derived name base own location use (induct builtin derived leafref union base)
  | .leafref path target => leafref path target (induct builtin derived leafref union target)
  | .union members => union members fun m _ => induct builtin derived leafref union m

theorem branchesOfMembers_eq_flatMap (members : List TypeSpec) :
    branchesOfMembers members = members.flatMap branches := by
  induction members with
  | nil => rfl
  | cons member rest ih => rw [branchesOfMembers, ih, List.flatMap_cons]

/-- Searching the branches of a union searches those of each member in turn. By
it, results about branches are proved member by member. -/
theorem findSome?_branches_union {f g : TypeSpec → Option Value} {members : List TypeSpec}
    (h : ∀ m ∈ members, m.branches.findSome? f = g m) :
    (union members).branches.findSome? f = members.findSome? g := by
  rw [branches, branchesOfMembers_eq_flatMap]
  induction members with
  | nil => rfl
  | cons member rest ih =>
      obtain ⟨hmember, hrest⟩ := List.forall_mem_cons.mp h
      rw [List.flatMap_cons, List.findSome?_append, hmember, ih hrest, List.findSome?_cons]
      cases g member <;> rfl

theorem nesting_lt_of_mem {members : List TypeSpec} {m : TypeSpec} (h : m ∈ members) :
    m.nesting < (TypeSpec.union members).nesting := by
  rw [nesting]
  induction members with
  | nil => cases h
  | cons member rest ih =>
      rw [nestingOfMembers]
      rcases List.mem_cons.mp h with rfl | hrest
      · omega
      · have := ih hrest
        omega

/-! ### Types without unions -/

/-- The type contains no union. -/
inductive Plain : TypeSpec → Prop
  | builtin (type : Builtin) (range : Option Range) : Plain (.builtin type range)
  | derived {base : TypeSpec} (name : String) (own : Option Range) (location : Option Location)
      (use : Option Range) (plain : Plain base) : Plain (.derived name base own location use)
  | leafref {target : TypeSpec} (path : String) (plain : Plain target) :
      Plain (.leafref path target)

/-- A type whose last reference does not lead to a union contains none. -/
theorem plain_of_effective_ne {t : TypeSpec} (h : t.effective ≠ .union) : t.Plain := by
  induction t using induct with
  | builtin type range => exact .builtin type range
  | derived name base own location use ih => exact .derived name own location use (ih h)
  | leafref path target ih => exact .leafref path (ih h)
  | union members => exact absurd rfl h

/-- A type without unions is its only branch, with all the typedefs and leafrefs
that lead to its built-in type. -/
theorem Plain.branches_eq {t : TypeSpec} (h : t.Plain) : t.branches = [t] := by
  induction h with
  | builtin type range => rw [branches]
  | derived name own location use _ ih => rw [branches, ih, List.map_singleton]
  | leafref path _ ih => rw [branches, ih, List.map_singleton]

theorem plain_of_mem_branches {t : TypeSpec} : ∀ branch ∈ t.branches, branch.Plain := by
  induction t using induct with
  | builtin type range =>
      rw [branches, List.forall_mem_singleton]
      exact .builtin type range
  | derived name base own location use ih =>
      rw [branches, List.forall_mem_map]
      exact fun branch hbranch => .derived name own location use (ih branch hbranch)
  | leafref path target ih =>
      rw [branches, List.forall_mem_map]
      exact fun branch hbranch => .leafref path (ih branch hbranch)
  | union members ih =>
      rw [branches, branchesOfMembers_eq_flatMap, List.forall_mem_flatMap]
      exact ih

theorem checkDepth_of_le {limits : Limits} {depth : Nat} (h : depth ≤ limits.derivationDepth) :
    limits.check .derivationDepth depth = .ok () :=
  Limits.check_eq_ok_iff.mpr h

theorem checkDepth_of_lt {limits : Limits} {depth : Nat} (h : limits.derivationDepth < depth) :
    limits.check .derivationDepth depth =
      .error (.limitExceeded .derivationDepth depth limits.derivationDepth) :=
  Limits.check_eq_error_iff.mpr ⟨h, rfl⟩

/-- A type past the bound reads nothing, whatever the literal: the depth at
which it stands is reported. -/
theorem readAt_of_over {limits : Limits} {depth : Nat} (h : limits.derivationDepth < depth)
    (raw : String) (t : TypeSpec) :
    readAt limits raw depth t =
      .error (.limitExceeded .derivationDepth depth limits.derivationDepth) := by
  cases t <;> rw [readAt, checkDepth_of_lt h] <;> rfl

theorem readAt_derived {limits : Limits} {depth : Nat} (h : depth ≤ limits.derivationDepth)
    (raw name : String) (base : TypeSpec) (location : Option Location) :
    readAt limits raw depth (.derived name base none location none) =
      readAt limits raw (depth + 1) base := by
  rw [readAt, bind_of_ok (checkDepth_of_le h)]
  cases readAt limits raw (depth + 1) base <;> rfl

theorem readAt_leafref {limits : Limits} {depth : Nat} (h : depth ≤ limits.derivationDepth)
    (raw path : String) (target : TypeSpec) :
    readAt limits raw depth (.leafref path target) = readAt limits raw (depth + 1) target := by
  rw [readAt, bind_of_ok (checkDepth_of_le h)]

/-! ### Reading within the bound -/

theorem readFirst_congr_mem {limits limits' : Limits} {raw : String} {depth depth' : Nat}
    {members : List TypeSpec}
    (h : ∀ m ∈ members, readAt limits raw depth m = readAt limits' raw depth' m) :
    readFirst limits raw depth members = readFirst limits' raw depth' members := by
  induction members with
  | nil => rfl
  | cons member rest ih =>
      obtain ⟨hmember, hrest⟩ := List.forall_mem_cons.mp h
      rw [readFirst, readFirst, hmember, ih hrest]

/-- Within the bound neither the bound nor the depth matters. Reading can then
be taken at a bound and a depth of one's choice. -/
theorem readAt_eq_readAt {limits limits' : Limits} {t : TypeSpec} (raw : String)
    {depth depth' : Nat} (fits : depth + t.nesting ≤ limits.derivationDepth)
    (fits' : depth' + t.nesting ≤ limits'.derivationDepth) :
    readAt limits raw depth t = readAt limits' raw depth' t := by
  induction t using induct generalizing depth depth' with
  | builtin type range =>
      have hdepth : depth ≤ limits.derivationDepth := fits
      have hdepth' : depth' ≤ limits'.derivationDepth := fits'
      rw [readAt, readAt, checkDepth_of_le hdepth, checkDepth_of_le hdepth']
  | derived name base own location use ih =>
      rw [nesting] at fits fits'
      have hbase := @ih (depth + 1) (depth' + 1) (by omega) (by omega)
      have hdepth : depth ≤ limits.derivationDepth := by omega
      have hdepth' : depth' ≤ limits'.derivationDepth := by omega
      rw [readAt, readAt, checkDepth_of_le hdepth, checkDepth_of_le hdepth', hbase]
  | leafref path target ih =>
      rw [nesting] at fits fits'
      have htarget := @ih (depth + 1) (depth' + 1) (by omega) (by omega)
      have hdepth : depth ≤ limits.derivationDepth := by omega
      have hdepth' : depth' ≤ limits'.derivationDepth := by omega
      rw [readAt, readAt, checkDepth_of_le hdepth, checkDepth_of_le hdepth', htarget]
  | union members ih =>
      have hdepth : depth ≤ limits.derivationDepth := by omega
      have hdepth' : depth' ≤ limits'.derivationDepth := by omega
      have hmembers : readFirst limits raw (depth + 1) members =
          readFirst limits' raw (depth' + 1) members := by
        refine readFirst_congr_mem fun m hm => ?_
        have hnesting := nesting_lt_of_mem hm
        exact ih m hm (by omega) (by omega)
      rw [readAt, readAt, checkDepth_of_le hdepth, checkDepth_of_le hdepth', hmembers]

/-- The computation does not fail because of a limit. Such a failure ends the
search in a union, where all others are rejections. -/
abbrev Decides {α : Type} (x : Except Error α) : Prop := FailsOnly (· ≠ .limitExceeded) x

theorem decides_parse (raw : String) (type : Builtin) : Decides (Value.parse raw type) := by
  refine (Value.faultsOnly_parse raw type).mono ?_
  rintro kind rfl
  decide

theorem decides_checkRange (range : Option Range) (v : Value) : Decides (checkRange range v) := by
  cases range with
  | none => exact .ok ()
  | some r =>
      have hvalid : Decides (r.isValid v) := by
        rw [Range.isValid]
        split
        · exact .error (by simp [Error.kind])
        · exact .ok _
      refine hvalid.bind fun valid => ?_
      cases valid with
      | true => exact .ok ()
      | false => exact .error (by simp [Error.kind])

/-- Members that decide about a literal leave it to the next ones if none of
them accepts it. -/
theorem readFirst_append {limits : Limits} {raw : String} {depth : Nat}
    {members : List TypeSpec} {f : TypeSpec → Option Value} (rest : List TypeSpec)
    (decides : ∀ m ∈ members, Decides (readAt limits raw depth m))
    (values : ∀ m ∈ members, (readAt limits raw depth m).toOption = f m) :
    readFirst limits raw depth (members ++ rest) =
      (members.findSome? f).elim (readFirst limits raw depth rest) fun v => .ok (some v) := by
  induction members with
  | nil => rfl
  | cons member members ih =>
      obtain ⟨hmember, hmembers⟩ := List.forall_mem_cons.mp decides
      obtain ⟨hvalue, hvalues⟩ := List.forall_mem_cons.mp values
      rw [List.cons_append, readFirst, List.findSome?_cons, ← hvalue]
      split
      · rename_i v hv
        rw [hv]
        rfl
      · rename_i herror
        exact absurd rfl (hmember _ herror)
      · rename_i e _ herror
        rw [ih hmembers hvalues, herror]
        rfl

theorem readFirst_of_decides {limits : Limits} {raw : String} {depth : Nat}
    {members : List TypeSpec} {f : TypeSpec → Option Value}
    (decides : ∀ m ∈ members, Decides (readAt limits raw depth m))
    (values : ∀ m ∈ members, (readAt limits raw depth m).toOption = f m) :
    readFirst limits raw depth members = .ok (members.findSome? f) := by
  have happend := readFirst_append [] decides values
  rw [List.append_nil] at happend
  rw [happend]
  cases members.findSome? f <;> rfl

/-- Within the bound a type decides about every literal. -/
theorem decides_of_fits {limits : Limits} {t : TypeSpec} (raw : String) {depth : Nat}
    (fits : depth + t.nesting ≤ limits.derivationDepth) : Decides (readAt limits raw depth t) := by
  induction t using induct generalizing depth with
  | builtin type range =>
      have hdepth : depth ≤ limits.derivationDepth := fits
      rw [readAt, bind_of_ok (checkDepth_of_le hdepth)]
      refine (decides_parse raw type).bind fun v => ?_
      exact (decides_checkRange range v).bind fun _ => .ok v
  | derived name base own location use ih =>
      rw [nesting] at fits
      have hdepth : depth ≤ limits.derivationDepth := by omega
      rw [readAt, bind_of_ok (checkDepth_of_le hdepth)]
      refine (ih (by omega)).bind fun v => ?_
      refine (decides_checkRange own v).bind fun _ => ?_
      exact (decides_checkRange use v).bind fun _ => .ok v
  | leafref path target ih =>
      rw [nesting] at fits
      have hdepth : depth ≤ limits.derivationDepth := by omega
      rw [readAt, bind_of_ok (checkDepth_of_le hdepth)]
      exact ih (by omega)
  | union members ih =>
      have hdepth : depth ≤ limits.derivationDepth := by omega
      have hmembers : ∀ m ∈ members, Decides (readAt limits raw (depth + 1) m) := by
        intro m hm
        have hnesting := nesting_lt_of_mem hm
        exact ih m hm (by omega)
      rw [readAt, bind_of_ok (checkDepth_of_le hdepth),
        readFirst_of_decides hmembers fun _ _ => rfl]
      cases members.findSome? fun m => (readAt limits raw (depth + 1) m).toOption with
      | some v => exact .ok v
      | none => exact .error (by simp [Error.kind])

/-- Within the bound a type reads a literal as the value that it gives to it.
All that is proved of values carries over to reading by this. -/
theorem toOption_readAt {limits : Limits} {t : TypeSpec} (raw : String) {depth : Nat}
    (fits : depth + t.nesting ≤ limits.derivationDepth) :
    (readAt limits raw depth t).toOption = t.value? raw := by
  have hown : 0 + t.nesting ≤ ({ derivationDepth := t.nesting } : Limits).derivationDepth :=
    Nat.le_of_eq (Nat.zero_add _)
  rw [value?, read, readAt_eq_readAt raw fits hown]

theorem readAt_of_fits {limits : Limits} {t : TypeSpec} {raw : String} {depth : Nat} {v : Value}
    (fits : depth + t.nesting ≤ limits.derivationDepth) :
    readAt limits raw depth t = .ok v ↔ t.value? raw = some v := by
  rw [← toOption_readAt raw fits]
  cases readAt limits raw depth t <;> simp [Except.toOption]

theorem value?_leafref (path : String) (target : TypeSpec) (raw : String) :
    (leafref path target).value? raw = target.value? raw := by
  have fits : 0 + 1 + target.nesting ≤ target.nesting + 1 := by omega
  rw [value?, read, readAt_leafref (Nat.zero_le _), nesting, toOption_readAt raw fits]

theorem value?_derived (name : String) (base : TypeSpec) (location : Option Location)
    (raw : String) : (derived name base none location none).value? raw = base.value? raw := by
  have fits : 0 + 1 + base.nesting ≤ base.nesting + 1 := by omega
  rw [value?, read, readAt_derived (Nat.zero_le _), nesting, toOption_readAt raw fits]

/-- Within the bound the first member that gives the literal a value is found.
No member can end the search before. -/
theorem readFirst_of_fits {limits : Limits} {raw : String} {depth : Nat}
    {members : List TypeSpec}
    (fits : ∀ m ∈ members, depth + m.nesting ≤ limits.derivationDepth) :
    readFirst limits raw depth members = .ok (members.findSome? (·.value? raw)) :=
  readFirst_of_decides (fun m hm => decides_of_fits raw (fits m hm))
    fun m hm => toOption_readAt raw (fits m hm)

/-- A union gives the value that its first accepting member gives. -/
theorem value?_union (members : List TypeSpec) (raw : String) :
    (union members).value? raw = members.findSome? (·.value? raw) := by
  have fits : ∀ m ∈ members, 0 + 1 + m.nesting ≤ (union members).nesting := by
    intro m hm
    have hnesting := nesting_lt_of_mem hm
    omega
  rw [value?, read, readAt, bind_of_ok (checkDepth_of_le (Nat.zero_le _)),
    readFirst_of_fits fits]
  cases members.findSome? (·.value? raw) <;> rfl

/-! ### Types whose unions are not restricted -/

/-- No range restricts a union: above one there are only typedefs without
ranges, leafrefs and unions. Without this a range above a union could reject the
value of the first accepting member, and no later member would be tried. -/
inductive Regular : TypeSpec → Prop
  | plain {t : TypeSpec} (plain : t.Plain) : Regular t
  | derived {base : TypeSpec} (name : String) (location : Option Location)
      (regular : Regular base) : Regular (.derived name base none location none)
  | leafref {target : TypeSpec} (path : String) (regular : Regular target) :
      Regular (.leafref path target)
  | union {members : List TypeSpec} (regular : ∀ m ∈ members, Regular m) :
      Regular (.union members)

/-- A type that a range is written for contains no union, since there are no
bounds of a union for which `min` and `max` could stand. -/
theorem plain_of_restriction {t : TypeSpec} {expression : String} {r : Range}
    (h : t.restriction expression = .ok r) : t.Plain := by
  refine plain_of_effective_ne ?_
  intro hunion
  rw [restriction, hunion, Range.parse] at h
  cases h

end TypeSpec

mutual

/-- A type that is put together step by step has no range over a union, since no
expression can be read for a type that leads to one. -/
theorem TypeSpec.Built.regular {t : TypeSpec} : t.Built → t.Regular
  | .builtin type => .plain (.builtin type none)
  | .ofTypedef (d := d) built => by
      obtain ⟨hbase, hplain | hrange⟩ := built.regular
      · exact .plain (.derived d.name d.range d.location none hplain)
      · rw [TypeSpec.ofTypedef, hrange]
        exact .derived d.name d.location hbase
  | .leafref path built => .leafref path built.regular
  | .union built => .union fun m hm => (built m hm).regular
  | .withRange built h => by
      simp only [TypeSpec.withRange, bind_eq_ok_iff] at h
      obtain ⟨r, hr, h⟩ := h
      refine .plain ?_
      cases TypeSpec.plain_of_restriction hr with
      | builtin type range =>
          obtain rfl := pure_eq_ok_iff.mp h
          exact .builtin type (some r)
      | derived name own location use plain =>
          obtain rfl := pure_eq_ok_iff.mp h
          exact .derived name own location (some r) plain
      | leafref path plain => exact absurd h throw_ne_ok

theorem Typedef.Built.regular {d : Typedef} :
    d.Built → d.base.Regular ∧ (d.base.Plain ∨ d.range = none)
  | .new _ built => ⟨built.regular, .inr rfl⟩
  | .located _ built => built.regular
  | .withRange built h => by
      simp only [Typedef.withRange, bind_eq_ok_iff, pure_eq_ok_iff] at h
      obtain ⟨r, hr, rfl⟩ := h
      exact ⟨built.regular.1, .inl (TypeSpec.plain_of_restriction hr)⟩

end

namespace TypeSpec

/-- The first branch that accepts a literal gives its value. How the branches
are grouped into unions does not count. -/
theorem Regular.value?_eq {t : TypeSpec} (h : t.Regular) (raw : String) :
    t.value? raw = t.branches.findSome? (·.value? raw) := by
  induction h with
  | plain plain => rw [plain.branches_eq, List.findSome?_singleton]
  | derived name location regular ih =>
      have hvalue : (·.value? raw) ∘ (TypeSpec.derived name · none location none) =
          (·.value? raw) := funext fun branch => value?_derived name branch location raw
      rw [value?_derived, ih, branches, List.findSome?_map, hvalue]
  | leafref path regular ih =>
      have hvalue : (·.value? raw) ∘ TypeSpec.leafref path = (·.value? raw) :=
        funext fun branch => value?_leafref path branch raw
      rw [value?_leafref, ih, branches, List.findSome?_map, hvalue]
  | union regular ih =>
      rw [value?_union, findSome?_branches_union fun m hm => (ih m hm).symm]

end TypeSpec

end Yang
