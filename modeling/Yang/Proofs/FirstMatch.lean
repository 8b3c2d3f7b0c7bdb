import Yang.Proofs.Branches

/-!
# The first branch that accepts a literal

A union reads a literal as its first accepting member does, and so do the typedefs, leafrefs and
unions above it. Flattened to its branches, a type of any nesting reads a literal as the first
of its branches that accepts it. A type that leads to a union refuses a literal as that union
does, whatever the errors of the branches are.

What counts is thus the sequence of the branches. Typedefs and leafrefs that restrict nothing
do not change a branch (`TypeSpec.bare`), so members may be grouped in any way.
-/

namespace Yang

namespace TypeSpec

def Refuses (t : TypeSpec) (raw : String) (limits : Limits) : Prop :=
  ∃ e, t.read raw limits = .error e

/-- The members of the union that is reached through typedefs and leafrefs. The
name `union` of a built-in type alone has none. -/
def members? : TypeSpec → Option (List TypeSpec)
  | .builtin _ _ => none
  | .derived _ base _ _ _ => base.members?
  | .leafref _ target => target.members?
  | .union members => some members

/-- A type without the leafrefs and the typedefs without ranges that lead to it.
They change how deep a type nests, but not what it reads. -/
def bare : TypeSpec → TypeSpec
  | .builtin type range => .builtin type range
  | .derived name base own location use =>
    if own.isSome || use.isSome then .derived name base own location use else base.bare
  | .leafref _ target => target.bare
  | .union members => .union members

/-- The types without unions that a type consists of, from left to right and
bare. Types with equal alternatives differ in their grouping only. -/
def alternatives (t : TypeSpec) : List TypeSpec := t.branches.map bare

/-! ### Branches within the bound -/

theorem nesting_le_of_mem_branches {t : TypeSpec} :
    ∀ branch ∈ t.branches, branch.nesting ≤ t.nesting := by
  induction t using induct with
  | builtin type range =>
      rw [branches, List.forall_mem_singleton]
  | derived name base own location use ih =>
      rw [branches, List.forall_mem_map]
      exact fun branch hbranch => Nat.succ_le_succ (ih branch hbranch)
  | leafref path target ih =>
      rw [branches, List.forall_mem_map]
      exact fun branch hbranch => Nat.succ_le_succ (ih branch hbranch)
  | union members ih =>
      rw [branches, branchesOfMembers_eq_flatMap, List.forall_mem_flatMap]
      intro m hm branch hbranch
      exact (ih m hm branch hbranch).trans (nesting_lt_of_mem hm).le

theorem read_eq_ok_iff {t : TypeSpec} {limits : Limits}
    (within : t.nesting ≤ limits.derivationDepth) {raw : String} {v : Value} :
    t.read raw limits = .ok v ↔ t.value? raw = some v :=
  readAt_of_fits (by rwa [Nat.zero_add])

theorem refuses_iff {t : TypeSpec} {limits : Limits}
    (within : t.nesting ≤ limits.derivationDepth) {raw : String} :
    t.Refuses raw limits ↔ t.value? raw = none := by
  have hvalue : (readAt limits raw 0 t).toOption = t.value? raw :=
    toOption_readAt raw (by rwa [Nat.zero_add])
  rw [← hvalue, Refuses, read]
  cases readAt limits raw 0 t <;> simp [Except.toOption]

/-- The value of a type is that of the first branch that does not refuse the
literal. The branches are read by themselves, within the same limits. -/
theorem Regular.read_eq_ok_iff {t : TypeSpec} (h : t.Regular) {limits : Limits}
    (within : t.nesting ≤ limits.derivationDepth) {raw : String} {v : Value} :
    t.read raw limits = .ok v ↔
      ∃ before branch after, t.branches = before ++ branch :: after ∧
        (∀ b ∈ before, b.Refuses raw limits) ∧ branch.read raw limits = .ok v := by
  have hbranches : ∀ b ∈ t.branches, b.nesting ≤ limits.derivationDepth :=
    fun b hb => (nesting_le_of_mem_branches b hb).trans within
  rw [TypeSpec.read_eq_ok_iff within, h.value?_eq, List.findSome?_eq_some_iff]
  refine exists_congr fun before => exists_congr fun branch => exists_congr fun after => ?_
  refine and_congr_right fun hsplit => ?_
  rw [hsplit, List.forall_mem_append, List.forall_mem_cons] at hbranches
  obtain ⟨hbefore, hbranch, -⟩ := hbranches
  rw [TypeSpec.read_eq_ok_iff hbranch, and_comm]
  refine and_congr_left fun _ => forall₂_congr fun b hb => ?_
  rw [refuses_iff (hbefore b hb)]

/-- A type refuses what all its branches refuse. A report of the limit would
count as refusing, but cannot occur within the bound. -/
theorem Regular.refuses_iff {t : TypeSpec} (h : t.Regular) {limits : Limits}
    (within : t.nesting ≤ limits.derivationDepth) {raw : String} :
    t.Refuses raw limits ↔ ∀ b ∈ t.branches, b.Refuses raw limits := by
  rw [TypeSpec.refuses_iff within, h.value?_eq, List.findSome?_eq_none_iff]
  refine forall₂_congr fun b hb => ?_
  rw [TypeSpec.refuses_iff ((nesting_le_of_mem_branches b hb).trans within)]

/-! ### The error of a union -/

theorem Plain.members?_eq_none {t : TypeSpec} (h : t.Plain) : t.members? = none := by
  induction h with
  | builtin type range => rfl
  | derived name own location use _ ih => exact ih
  | leafref path _ ih => exact ih

/-- No error of a member or of a branch leaves the union: the error names the
literal and how many members the union has. It is the union that the type leads
to, whose members may be unions again. -/
theorem Regular.error_of_members? {t : TypeSpec} (h : t.Regular) {members : List TypeSpec}
    (hmembers : t.members? = some members) {limits : Limits} {raw : String} {depth : Nat}
    (fits : depth + t.nesting ≤ limits.derivationDepth) {e : Error}
    (herror : readAt limits raw depth t = .error e) : e = .noUnionMember raw members.length := by
  -- Down to the union there is no range that could fail with another error.
  induction h generalizing depth with
  | plain plain =>
      rw [plain.members?_eq_none] at hmembers
      cases hmembers
  | derived name location regular ih =>
      rw [nesting] at fits
      rw [readAt_derived (by omega)] at herror
      exact ih hmembers (by omega) herror
  | leafref path regular ih =>
      rw [nesting] at fits
      rw [readAt_leafref (by omega)] at herror
      exact ih hmembers (by omega) herror
  | @union all regular ih =>
      obtain rfl : all = members := Option.some.inj hmembers
      have hdecides : ∀ m ∈ all, Decides (readAt limits raw (depth + 1) m) := by
        intro m hm
        have hnesting := nesting_lt_of_mem hm
        exact decides_of_fits raw (by omega)
      rw [readAt, bind_of_ok (checkDepth_of_le (by omega)),
        readFirst_of_decides hdecides fun _ _ => rfl] at herror
      cases hfirst : all.findSome? fun m => (readAt limits raw (depth + 1) m).toOption with
      | some v =>
          rw [hfirst] at herror
          cases herror
      | none =>
          rw [hfirst] at herror
          exact (Except.error.inj herror).symm

/-! ### Grouping members -/

theorem value?_bare (t : TypeSpec) (raw : String) : t.bare.value? raw = t.value? raw := by
  induction t using induct with
  | builtin type range => rw [bare]
  | derived name base own location use ih =>
      rw [bare]
      split
      · rfl
      · rename_i hranges
        rw [Bool.or_eq_true, not_or, Option.not_isSome_iff_eq_none,
          Option.not_isSome_iff_eq_none] at hranges
        obtain ⟨rfl, rfl⟩ := hranges
        rw [ih, value?_derived]
  | leafref path target ih => rw [bare, ih, value?_leafref]
  | union members ih => rw [bare]

@[simp]
theorem alternatives_derived (name : String) (base : TypeSpec) (location : Option Location) :
    (derived name base none location none).alternatives = base.alternatives := by
  rw [alternatives, branches, List.map_map]
  rfl

@[simp]
theorem alternatives_leafref (path : String) (target : TypeSpec) :
    (leafref path target).alternatives = target.alternatives := by
  rw [alternatives, branches, List.map_map]
  rfl

@[simp]
theorem alternatives_union (members : List TypeSpec) :
    (union members).alternatives = members.flatMap alternatives := by
  rw [alternatives, branches, branchesOfMembers_eq_flatMap, List.map_flatMap]
  rfl

/-- A union among the members of another one may give way to its own members. -/
theorem alternatives_union_nested (before inner after : List TypeSpec) :
    (union (before ++ union inner :: after)).alternatives =
      (union (before ++ inner ++ after)).alternatives := by
  simp

theorem Regular.value?_eq_of_alternatives {t t' : TypeSpec} (h : t.Regular) (h' : t'.Regular)
    (hsame : t'.alternatives = t.alternatives) (raw : String) :
    t'.value? raw = t.value? raw := by
  have hbare : (·.value? raw) ∘ bare = (·.value? raw) := funext fun b => value?_bare b raw
  have hfirst : ∀ {s : TypeSpec}, s.Regular →
      s.value? raw = s.alternatives.findSome? (·.value? raw) := by
    intro s hs
    rw [hs.value?_eq, alternatives, List.findSome?_map, hbare]
  rw [hfirst h, hfirst h', hsame]

/-- A type of any nesting of unions means the first match from left to right.
Within the bound it reads a literal as the first of its branches that accepts
it. If it leads to a union, it fails exactly if all its branches refuse the
literal, and the error is always that no member of this union matched. A type
with the same alternatives in the same order, however they are grouped, gives
the same values. -/
theorem read_iff_first_branch {t : TypeSpec} (built : t.Built) {limits : Limits}
    (within : t.nesting ≤ limits.derivationDepth) (raw : String) :
    (∀ v, t.read raw limits = .ok v ↔
      ∃ before branch after, t.branches = before ++ branch :: after ∧
        (∀ b ∈ before, b.Refuses raw limits) ∧ branch.read raw limits = .ok v) ∧
    (∀ members, t.members? = some members →
      (t.Refuses raw limits ↔ ∀ b ∈ t.branches, b.Refuses raw limits) ∧
      ∀ e, t.read raw limits = .error e → e = .noUnionMember raw members.length) ∧
    (∀ t' : TypeSpec, t'.Built → t'.nesting ≤ limits.derivationDepth →
      t'.alternatives = t.alternatives →
      ∀ v, t'.read raw limits = .ok v ↔ t.read raw limits = .ok v) := by
  have hregular := built.regular
  refine ⟨fun v => hregular.read_eq_ok_iff within, ?_, ?_⟩
  · intro members hmembers
    refine ⟨hregular.refuses_iff within, fun e herror => ?_⟩
    exact hregular.error_of_members? hmembers (by rwa [Nat.zero_add]) herror
  · intro t' built' within' hsame v
    rw [TypeSpec.read_eq_ok_iff within', TypeSpec.read_eq_ok_iff within,
      hregular.value?_eq_of_alternatives built'.regular hsame]

/-- A mark is a small number or a flag. -/
def mark : Typedef where
  name := "mark"
  base := .union [.builtin (.integer .int8) none, .builtin .boolean none]

/-- A mark, or else the price that another leaf holds. -/
def markOrPrice : TypeSpec :=
  .union [.ofTypedef mark, .leafref "/store/price" (.builtin .decimal64 none)]

def numberFlagOrPrice : TypeSpec :=
  .union [.builtin (.integer .int8) none, .builtin .boolean none, .builtin .decimal64 none]

theorem built_markOrPrice : markOrPrice.Built := by
  have hmark : mark.Built := .new "mark" (.union (List.forall_mem_cons.mpr
    ⟨.builtin _, List.forall_mem_singleton.mpr (.builtin _)⟩))
  have hprice : (leafref "/store/price" (.builtin .decimal64 none)).Built :=
    .leafref _ (.builtin _)
  exact .union (List.forall_mem_cons.mpr
    ⟨.ofTypedef hmark, List.forall_mem_singleton.mpr hprice⟩)

theorem built_numberFlagOrPrice : numberFlagOrPrice.Built :=
  .union (List.forall_mem_cons.mpr ⟨.builtin _, List.forall_mem_cons.mpr
    ⟨.builtin _, List.forall_mem_singleton.mpr (.builtin _)⟩⟩)

/-- A whole number is a mark before it is a price, in either grouping, and a
word is neither. -/
theorem read_iff_first_branch_markOrPrice :
    markOrPrice.Built ∧ markOrPrice.nesting ≤ ({} : Limits).derivationDepth ∧
      markOrPrice.read "7" {} = .ok (.integer .int8 7 (by decide)) ∧
      numberFlagOrPrice.read "7" {} = .ok (.integer .int8 7 (by decide)) ∧
      markOrPrice.read "tall" {} = .error (.noUnionMember "tall" 2) ∧
      ∀ b ∈ markOrPrice.branches, b.Refuses "tall" {} := by
  have within : markOrPrice.nesting ≤ ({} : Limits).derivationDepth := by decide
  have hmeaning := read_iff_first_branch built_markOrPrice within
  have hseven : markOrPrice.read "7" {} = .ok (.integer .int8 7 (by decide)) :=
    ((hmeaning "7").1 _).mpr ⟨[], _, _, rfl, List.forall_mem_nil _, by decide⟩
  have hsame : numberFlagOrPrice.alternatives = markOrPrice.alternatives := by
    simp [numberFlagOrPrice, markOrPrice, ofTypedef, mark]
  have hgrouped : numberFlagOrPrice.read "7" {} = .ok (.integer .int8 7 (by decide)) :=
    ((hmeaning "7").2.2 _ built_numberFlagOrPrice (by decide) hsame _).mpr hseven
  have htall : markOrPrice.read "tall" {} = .error (.noUnionMember "tall" 2) := by decide
  have hrefuses := ((hmeaning "tall").2.1 _ rfl).1
  exact ⟨built_markOrPrice, within, hseven, hgrouped, htall, hrefuses.mp ⟨_, htall⟩⟩

end TypeSpec

end Yang
