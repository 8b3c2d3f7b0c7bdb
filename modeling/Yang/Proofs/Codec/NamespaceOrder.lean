import Yang.Proofs.Registry.Newest

/-!
# Namespaces and the order of declaration

Codecs enter a module in both of their tables only if it is newer than what the table of names
has, so whether a namespace is known depends on the order in which the revisions of a module were
declared, if they have different namespaces. Of a namespace they find the newest module that was
newer than all of its name when it was declared, and none if there is no such module. The newest
module of a name always is. So where the newest module of a namespace is also the newest of its
name, codecs find it whatever the order is, and in particular where all revisions of a name have
one namespace.
-/

namespace Yang

open Schema

namespace Revision

variable {α : Type} {revision : α → Option String} {p : α → Prop} {a b : α}

/-- Among things that differ in their revisions, one is the newest. Two of them
would not be newer than each other. -/
theorem IsNewest.eq (ha : IsNewest revision p a) (hb : IsNewest revision p b)
    (distinct : revision a = revision b → a = b) : a = b :=
  distinct (le_antisymm (hb.2 a ha.1) (ha.2 b hb.1))

theorem IsNewest.of_imp {q : α → Prop} (h : IsNewest revision p a) (ha : q a)
    (himp : ∀ b, q b → p b) : IsNewest revision q a :=
  ⟨ha, fun b hb => h.2 b (himp b hb)⟩

theorem le_of_newer {r s : Option String} (h : newer s r = true) : le r s = true := by
  rw [newer, Bool.not_eq_true'] at h
  exact (le_total r s).resolve_right (Bool.eq_false_iff.mp h)

end Revision

/-- What a module says of itself. -/
structure Schema.Heading where
  name : String
  ns : String
  revision : Option String
deriving DecidableEq

namespace Schema.Tree

variable {t t' : Tree} {m : NodeId} {ns : String}

def heading (t : Tree) (m : NodeId) : Heading := ⟨t.name m, t.ns m, t.revision? m⟩

def Owns (t : Tree) (ns : String) (i : NodeId) : Prop :=
  t.kind? i = some .module ∧ t.ns i = ns

/-- Modules of different names have different namespaces. Revisions of one name
may have several. -/
def Apart (t : Tree) : Prop :=
  ∀ i j, t.kind? i = some .module → t.kind? j = some .module → t.ns i = t.ns j →
    t.name i = t.name j

/-- The trees have the same modules, in any order. -/
def SameModules (t t' : Tree) : Prop :=
  (t.modules.map t.heading).Perm (t'.modules.map t'.heading)

theorem Sound.owns_moduleOf (h : t.Sound) {i : NodeId} {kind : NodeKind}
    (hi : t.kind? i = some kind) : t.Owns (t.ns i) (t.moduleOf i) := by
  obtain ⟨o, ho, -⟩ := exists_outline_of_kind? hi
  rw [Owns, ns_eq t i, ho]
  exact h.rooted.ns_moduleOf ho

section Newest

theorem exists_isNewest_owns (h : t.Owns ns m) :
    ∃ newest, Revision.IsNewest t.revision? (t.Owns ns) newest := by
  have hmem : ∀ i, i ∈ t.modules.filter (fun i => t.ns i = ns) ↔ t.Owns ns i := by
    intro i
    rw [List.mem_filter, mem_modules_iff, decide_eq_true_eq, Owns]
  obtain ⟨newest, hnewest⟩ : ∃ newest, Revision.newest? t.revision?
      (t.modules.filter fun i => t.ns i = ns) = some newest :=
    Revision.exists_newest? ((hmem m).mpr h)
  refine ⟨newest, (hmem newest).mp (Revision.mem_of_newest? hnewest), fun i hi => ?_⟩
  exact Revision.le_of_newest? hnewest i ((hmem i).mpr hi)

/-- The newest module of a name is newer than those that were declared before
it. Modules that come after it do not matter here. -/
theorem Distinct.advances_of_isNewest (distinct : t.Distinct)
    (h : Revision.IsNewest t.revision? (t.IsModule (t.name m)) m) : t.Advances m := by
  refine ⟨h.1.1, fun i hlt hi hname => ?_⟩
  have hle := h.2 i ⟨hi, hname⟩
  rw [Revision.newer, Bool.not_eq_true']
  cases hback : Revision.le (t.revision? m) (t.revision? i) with
  | false => rfl
  | true =>
      have hsame := distinct i m hi h.1.1 hname (Revision.le_antisymm hle hback)
      exact absurd hlt (hsame ▸ Nat.lt_irrefl i)

/-- Where all revisions of a name have one namespace, the newest module of a
namespace is the newest of its name. Otherwise a newer revision may have moved
away. -/
theorem isNewest_isModule_of_owns
    (one : ∀ i j, t.kind? i = some .module → t.kind? j = some .module → t.name i = t.name j →
      t.ns i = t.ns j)
    (h : Revision.IsNewest t.revision? (t.Owns ns) m) :
    Revision.IsNewest t.revision? (t.IsModule (t.name m)) m := by
  apply h.of_imp ⟨h.1.1, rfl⟩
  rintro i ⟨hi, hname⟩
  exact ⟨hi, (one i m hi h.1.1 hname).trans h.1.2⟩

end Newest

section Reordering

theorem SameModules.symm (h : t.SameModules t') : t'.SameModules t := List.Perm.symm h

/-- Each module is there in the other order as well, under a number of its own. -/
theorem SameModules.exists_heading (h : t.SameModules t') (hm : t.kind? m = some .module) :
    ∃ m', t'.kind? m' = some .module ∧ t'.heading m' = t.heading m := by
  have hmem : t.heading m ∈ t.modules.map t.heading :=
    List.mem_map_of_mem (mem_modules_iff.mpr hm)
  obtain ⟨m', hm', heq⟩ := List.mem_map.mp ((List.Perm.mem_iff h).mp hmem)
  exact ⟨m', mem_modules_iff.mp hm', heq⟩

/-- The newest module with some heading is the newest in the other order as
well. -/
theorem SameModules.exists_isNewest (h : t.SameModules t') {q : Heading → Prop}
    (hm : Revision.IsNewest t.revision? (fun i => t.kind? i = some .module ∧ q (t.heading i)) m) :
    ∃ m', t'.heading m' = t.heading m ∧ Revision.IsNewest t'.revision?
      (fun i => t'.kind? i = some .module ∧ q (t'.heading i)) m' := by
  obtain ⟨⟨hkind, hq⟩, hnewest⟩ := hm
  obtain ⟨m', hkind', hheading⟩ := h.exists_heading hkind
  refine ⟨m', hheading, ⟨hkind', hheading ▸ hq⟩, ?_⟩
  rintro i ⟨hi, hqi⟩
  obtain ⟨j, hj, hji⟩ := h.symm.exists_heading hi
  have hle : Revision.le (t.heading j).revision (t.heading m).revision = true :=
    hnewest j ⟨hj, hji ▸ hqi⟩
  rwa [hji, ← hheading] at hle

theorem SameModules.apart (h : t.SameModules t') (apart : t.Apart) : t'.Apart := by
  intro i j hi hj hns
  obtain ⟨i', hi', heqi⟩ := h.symm.exists_heading hi
  obtain ⟨j', hj', heqj⟩ := h.symm.exists_heading hj
  have hsame : (t.heading i').ns = (t.heading j').ns → (t.heading i').name = (t.heading j').name :=
    apart i' j' hi' hj'
  rw [heqi, heqj] at hsame
  exact hsame hns

end Reordering

end Schema.Tree

namespace Codec.Context

variable {t t' : Tree} {limits limits' : Limits} {ns : String} {m : NodeId}

/-- What the table of namespaces leads to is the newest of the modules that were
newer than all of their name when they were declared: of one name, these are
declared in ascending order, so the last one is the newest. -/
theorem isNewest_of_moduleByNamespace? (distinct : t.Distinct) (apart : t.Apart)
    (h : (ofTree t limits).moduleByNamespace? ns = some m) :
    Revision.IsNewest t.revision? (fun i => t.Advances i ∧ t.ns i = ns) m := by
  have hmem : ∀ i, i ∈ t.modules.filter (fun i => t.Advances i ∧ t.ns i = ns) ↔
      t.Advances i ∧ t.ns i = ns := by
    intro i
    rw [List.mem_filter, decide_eq_true_eq, and_iff_right_iff_imp]
    exact fun h => Tree.mem_modules_iff.mpr h.1.1
  have hsorted : (t.modules.filter fun i => t.Advances i ∧ t.ns i = ns).Pairwise (· < ·) :=
    (List.pairwise_lt_range.filter _).filter _
  rw [moduleByNamespace?_ofTree_eq_getLast? distinct] at h
  have hm := (hmem m).mp (List.mem_of_getLast? h)
  refine ⟨hm, fun i hi => ?_⟩
  obtain ⟨front, hfront⟩ := List.getLast?_eq_some_iff.mp h
  have himem := (hmem i).mpr hi
  rw [hfront] at hsorted himem
  obtain hbefore | hlast := List.mem_append.mp himem
  · have hlt := (List.pairwise_append.mp hsorted).2.2 i hbefore m (List.mem_singleton_self m)
    have hname := apart i m hi.1.1 hm.1.1 (hi.2.trans hm.2.symm)
    exact Revision.le_of_newer (hm.1.2 i hlt hi.1.1 hname)
  · rw [List.mem_singleton.mp hlast]
    exact Revision.le_refl _

theorem moduleByNamespace?_ofTree_eq_some_iff (distinct : t.Distinct) (apart : t.Apart) :
    (ofTree t limits).moduleByNamespace? ns = some m ↔
      Revision.IsNewest t.revision? (fun i => t.Advances i ∧ t.ns i = ns) m := by
  refine ⟨isNewest_of_moduleByNamespace? distinct apart, fun hm => ?_⟩
  cases hfound : (ofTree t limits).moduleByNamespace? ns with
  | none =>
      exact absurd hm.1.2 ((moduleByNamespace?_ofTree_eq_none_iff distinct).mp hfound m hm.1.1)
  | some k =>
      have hk := isNewest_of_moduleByNamespace? distinct apart hfound
      have hname := apart k m hk.1.1.1 hm.1.1.1 (hk.1.2.trans hm.1.2.symm)
      rw [hk.eq hm (distinct k m hk.1.1.1 hm.1.1.1 hname)]

/-- The newest module of a namespace is found exactly if it was newer than all
of its name when it was declared. -/
theorem moduleByNamespace?_eq_some_newest_iff (distinct : t.Distinct) (apart : t.Apart)
    (h : Revision.IsNewest t.revision? (t.Owns ns) m) :
    (ofTree t limits).moduleByNamespace? ns = some m ↔ t.Advances m := by
  rw [moduleByNamespace?_ofTree_eq_some_iff distinct apart]
  refine ⟨fun hnewest => hnewest.1.1, fun hadvances => ?_⟩
  exact h.of_imp ⟨hadvances, h.1.2⟩ fun i hi => ⟨hi.1.1, hi.2⟩

/-- The name of a module is found for the namespaces that lead to a module.
Since no other name has the namespace, it is the name of the module in which the
node is written. -/
theorem moduleNameFor_eq_ok_iff (reachable : t.Reachable) (apart : t.Apart) {i : NodeId}
    {kind : NodeKind} (hi : t.kind? i = some kind) {name : String} :
    (ofTree t limits).moduleNameFor (t.ns i) = .ok name ↔
      (∃ m, t.Advances m ∧ t.ns m = t.ns i) ∧ t.name (t.moduleOf i) = name := by
  obtain ⟨hmodule, hsame⟩ := reachable.sound.owns_moduleOf hi
  rw [moduleNameFor, tree_ofTree]
  cases hfound : (ofTree t limits).moduleByNamespace? (t.ns i) with
  | none =>
      have hnone := (moduleByNamespace?_ofTree_eq_none_iff reachable.distinct).mp hfound
      constructor
      · intro hok
        cases hok
      · rintro ⟨⟨m, hm, hns⟩, -⟩
        exact absurd hns (hnone m hm)
  | some m =>
      obtain ⟨⟨hm, hmns⟩, -⟩ :=
        (moduleByNamespace?_ofTree_eq_some_iff reachable.distinct apart).mp hfound
      have hname : t.name m = t.name (t.moduleOf i) :=
        apart m _ hm.1 hmodule (hmns.trans hsame.symm)
      rw [Except.ok.injEq, hname, and_iff_right ⟨m, hm, hmns⟩]

/-- In every order the newest module of a namespace is found that is also the
newest of its name. Trees in different order number their modules differently,
so modules are compared by their headings. -/
theorem map_heading_moduleByNamespace? (reachable : t.Reachable) (reachable' : t'.Reachable)
    (apart : t.Apart) (same : t.SameModules t')
    (newest : ∀ m, Revision.IsNewest t.revision? (t.Owns ns) m →
      Revision.IsNewest t.revision? (t.IsModule (t.name m)) m) :
    ((ofTree t' limits').moduleByNamespace? ns).map t'.heading =
      ((ofTree t limits).moduleByNamespace? ns).map t.heading := by
  by_cases howns : ∃ i, t.Owns ns i
  · obtain ⟨i, hi⟩ := howns
    obtain ⟨m, hm⟩ := Tree.exists_isNewest_owns hi
    obtain ⟨m', hheading, hm'⟩ := same.exists_isNewest (q := fun h => h.ns = ns) hm
    obtain ⟨k, hk, hnewest⟩ := same.exists_isNewest (q := fun h => h.name = t.name m) (newest m hm)
    -- a heading belongs to one module, so both are the same
    have hkm : k = m' := by
      apply reachable'.distinct k m' hnewest.1.1 hm'.1.1
      · exact congrArg Heading.name (hk.trans hheading.symm)
      · exact congrArg Heading.revision (hk.trans hheading.symm)
    subst hkm
    have hname : t'.name k = t.name m := congrArg Heading.name hheading
    have hnewest' : Revision.IsNewest t'.revision? (t'.IsModule (t'.name k)) k := by
      rw [hname]
      exact hnewest
    have hfound : (ofTree t limits).moduleByNamespace? ns = some m :=
      (moduleByNamespace?_eq_some_newest_iff reachable.distinct apart hm).mpr
        (reachable.distinct.advances_of_isNewest (newest m hm))
    have hfound' : (ofTree t' limits').moduleByNamespace? ns = some k :=
      (moduleByNamespace?_eq_some_newest_iff reachable'.distinct (same.apart apart) hm').mpr
        (reachable'.distinct.advances_of_isNewest hnewest')
    rw [hfound, hfound', Option.map_some, Option.map_some, hheading]
  · have hnone : (ofTree t limits).moduleByNamespace? ns = none := by
      rw [moduleByNamespace?_ofTree_eq_none_iff reachable.distinct]
      exact fun m hm hns => howns ⟨m, hm.1, hns⟩
    have hnone' : (ofTree t' limits').moduleByNamespace? ns = none := by
      rw [moduleByNamespace?_ofTree_eq_none_iff reachable'.distinct]
      intro m hm hns
      obtain ⟨i, hi, hheading⟩ := same.symm.exists_heading hm.1
      exact howns ⟨i, hi, (congrArg Heading.ns hheading).trans hns⟩
    rw [hnone, hnone']
    rfl

/-- What codecs find for the namespaces of a tree. -/
structure NewestOfNamespace (t : Tree) (limits : Limits) : Prop where
  /-- Of the modules of a namespace that were newer than all of their name when they were declared
  the newest one is found. -/
  found_iff : ∀ ns m, (ofTree t limits).moduleByNamespace? ns = some m ↔
    Revision.IsNewest t.revision? (fun i => t.Advances i ∧ t.ns i = ns) m
  /-- For a node the name of its module is found if there is such a module. -/
  name_iff : ∀ i kind name, t.kind? i = some kind →
    ((ofTree t limits).moduleNameFor (t.ns i) = .ok name ↔
      (∃ m, t.Advances m ∧ t.ns m = t.ns i) ∧ t.name (t.moduleOf i) = name)
  /-- The newest module of a namespace is found if it is one of these, -/
  newest_iff : ∀ ns m, Revision.IsNewest t.revision? (t.Owns ns) m →
    ((ofTree t limits).moduleByNamespace? ns = some m ↔ t.Advances m)
  /-- which is the case if it is also the newest of its name. -/
  advances_of_newest : ∀ m, Revision.IsNewest t.revision? (t.IsModule (t.name m)) m → t.Advances m
  /-- Then the answer is the same in every order of the modules. -/
  heading_eq : ∀ t' limits' ns, t'.Reachable → t.SameModules t' →
    (∀ m, Revision.IsNewest t.revision? (t.Owns ns) m →
      Revision.IsNewest t.revision? (t.IsModule (t.name m)) m) →
    ((ofTree t' limits').moduleByNamespace? ns).map t'.heading =
      ((ofTree t limits).moduleByNamespace? ns).map t.heading
  /-- So if all revisions of a name have one namespace, the newest module of each namespace is
  found, the name of its module for every node, and in every order the same. -/
  complete : (∀ i j, t.kind? i = some .module → t.kind? j = some .module → t.name i = t.name j →
      t.ns i = t.ns j) →
    (∀ i, t.kind? i = some .module → ∃ m, Revision.IsNewest t.revision? (t.Owns (t.ns i)) m ∧
      (ofTree t limits).moduleByNamespace? (t.ns i) = some m) ∧
    (∀ i kind, t.kind? i = some kind →
      (ofTree t limits).moduleNameFor (t.ns i) = .ok (t.name (t.moduleOf i))) ∧
    ∀ t' limits' ns, t'.Reachable → t.SameModules t' →
      ((ofTree t' limits').moduleByNamespace? ns).map t'.heading =
        ((ofTree t limits).moduleByNamespace? ns).map t.heading

/-- Where modules of different names have different namespaces, the newest
module of a namespace is found in every order if it is also the newest of its
name, and otherwise if its name had no newer module when it was declared. -/
theorem newest_of_namespace (reachable : t.Reachable) (apart : t.Apart) (limits : Limits) :
    NewestOfNamespace t limits where
  found_iff _ _ := moduleByNamespace?_ofTree_eq_some_iff reachable.distinct apart
  name_iff _ _ _ hi := moduleNameFor_eq_ok_iff reachable apart hi
  newest_iff _ _ h := moduleByNamespace?_eq_some_newest_iff reachable.distinct apart h
  advances_of_newest _ := reachable.distinct.advances_of_isNewest
  heading_eq _ _ _ reachable' same newest :=
    map_heading_moduleByNamespace? reachable reachable' apart same newest
  complete := by
    intro one
    have hfound : ∀ i, t.kind? i = some .module →
        ∃ m, Revision.IsNewest t.revision? (t.Owns (t.ns i)) m ∧ t.Advances m := by
      intro i hi
      obtain ⟨m, hm⟩ := Tree.exists_isNewest_owns ⟨hi, rfl⟩
      exact ⟨m, hm,
        reachable.distinct.advances_of_isNewest (Tree.isNewest_isModule_of_owns one hm)⟩
    refine ⟨?found, ?names, ?orders⟩
    case found =>
      intro i hi
      obtain ⟨m, hm, hadvances⟩ := hfound i hi
      refine ⟨m, hm, ?_⟩
      exact (moduleByNamespace?_eq_some_newest_iff reachable.distinct apart hm).mpr hadvances
    case names =>
      intro i kind hi
      obtain ⟨hmodule, hns⟩ := reachable.sound.owns_moduleOf hi
      obtain ⟨m, hm, hadvances⟩ := hfound _ hmodule
      exact (moduleNameFor_eq_ok_iff reachable apart hi).mpr
        ⟨⟨m, hadvances, hm.1.2.trans hns⟩, rfl⟩
    case orders =>
      intro t' limits' ns reachable' same
      exact map_heading_moduleByNamespace? reachable reachable' apart same
        fun m => Tree.isNewest_isModule_of_owns one

/-- Two revisions of a store in different namespaces, the older one first. -/
def ascending : Tree :=
  [.module "store" "urn:store:2024" "s" (some "2024-01-31"),
    .module "store" "urn:store:2025" "s" (some "2025-06-30"),
    .leaf 0 "label" (.builtin .string none)].foldl Tree.after {}

def descending : List Statement :=
  [.module "store" "urn:store:2025" "s" (some "2025-06-30"),
    .module "store" "urn:store:2024" "s" (some "2024-01-31"),
    .leaf 1 "label" (.builtin .string none)]

theorem apart_of_forall (name : String) (h : ∀ i ∈ t.modules, t.name i = name) : t.Apart := by
  intro i j hi hj _
  rw [h i (Tree.mem_modules_iff.mpr hi), h j (Tree.mem_modules_iff.mpr hj)]

theorem apart_ascending : ascending.Apart := apart_of_forall "store" (by decide +kernel)

/-- The older store is found by its namespace where it was declared first, and
it is the module of the label. -/
theorem newest_of_namespace_store :
    ascending.Reachable ∧ ascending.Apart ∧
      (ofTree ascending {}).moduleByNamespace? "urn:store:2024" = some 0 ∧
      Revision.IsNewest ascending.revision?
        (fun i => ascending.Advances i ∧ ascending.ns i = "urn:store:2024") 0 ∧
      (ofTree ascending {}).moduleNameFor "urn:store:2024" = .ok "store" := by
  have reachable : ascending.Reachable := Tree.Reachable.empty.foldl_after _
  have hnewest := newest_of_namespace reachable apart_ascending {}
  have hfound : (ofTree ascending {}).moduleByNamespace? "urn:store:2024" = some 0 := by
    decide +kernel
  have hlabel : ascending.kind? 2 = some .leaf ∧ ascending.ns 2 = "urn:store:2024" ∧
      ascending.name (ascending.moduleOf 2) = "store" := by
    decide +kernel
  obtain ⟨hkind, hns, hname⟩ := hlabel
  have hadvances : ascending.Advances 0 ∧ ascending.ns 0 = ascending.ns 2 := by decide +kernel
  refine ⟨reachable, apart_ascending, hfound, (hnewest.found_iff _ _).mp hfound, ?_⟩
  rw [← hns]
  exact (hnewest.name_iff 2 .leaf "store" hkind).mpr ⟨⟨0, hadvances⟩, hname⟩

/-- Where the newer store was declared first, the namespace of the older one is
unknown, although the tree has a module and a leaf of it. -/
theorem older_namespace_unknown :
    ¬ ∀ (statements : List Statement) (t : Tree) (limits : Limits),
      Tree.ofStatements statements = .ok t → t.Apart →
      ∀ i kind, t.kind? i = some kind →
        ∃ name, (ofTree t limits).moduleNameFor (t.ns i) = .ok name := by
  intro claim
  have built : Tree.ofStatements descending = .ok (descending.foldl Tree.after {}) := by
    with_unfolding_all rfl
  have apart : (descending.foldl Tree.after {}).Apart :=
    apart_of_forall "store" (by decide +kernel)
  obtain ⟨name, hname⟩ := claim descending _ {} built apart 2 .leaf (by decide +kernel)
  have hunknown : (ofTree (descending.foldl Tree.after {}) {}).moduleNameFor
      ((descending.foldl Tree.after {}).ns 2) =
        .error (.encode (.unknownNamespace "urn:store:2024")) := by
    decide +kernel
  rw [hunknown] at hname
  cases hname

end Codec.Context

end Yang
