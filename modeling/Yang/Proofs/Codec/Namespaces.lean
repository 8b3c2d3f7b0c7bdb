import Yang.Proofs.Codec.Context

/-!
# What the table of namespaces leads to

A context enters a module in its tables if the module is newer than every module of its name
before it. So a namespace leads to the last such module that has it. A module that is not newer
than those before it leaves no trace: a namespace that only such modules have leads nowhere.
-/

namespace Yang

namespace Revision

variable {α : Type} {revision : α → Option String}

theorem le_trans {a b c : Option String} (hab : le a b = true) (hbc : le b c = true) :
    le a c = true := by
  cases a with
  | none => rfl
  | some a =>
      cases b with
      | none => cases hab
      | some b =>
          cases c with
          | none => cases hbc
          | some c =>
              simp only [le, decide_eq_true_eq] at hab hbc ⊢
              exact String.le_trans hab hbc

theorem newest?_eq_none_iff {as : List α} : newest? revision as = none ↔ as = [] := by
  constructor
  · intro hnone
    rw [List.eq_nil_iff_forall_not_mem]
    intro a ha
    obtain ⟨b, hb⟩ : ∃ b, newest? revision as = some b := exists_newest? ha
    rw [hnone] at hb
    cases hb
  · rintro rfl
    rfl

theorem le_of_newest? {as : List α} {b : α} (h : newest? revision as = some b) :
    ∀ a ∈ as, le (revision a) (revision b) = true := by
  induction as using List.reverseRecOn generalizing b with
  | nil => cases h
  | append_singleton as a ih =>
      rw [newest?_concat] at h
      simp only [List.forall_mem_append, List.forall_mem_singleton]
      split at h
      · rename_i hnone
        obtain rfl := Option.some.inj h
        rw [newest?_eq_none_iff.mp hnone]
        exact ⟨List.forall_mem_nil _, le_refl _⟩
      · rename_i c hc
        split at h
        · rename_i hle
          obtain rfl := Option.some.inj h
          exact ⟨fun a' ha' => le_trans (ih hc a' ha') hle, le_refl _⟩
        · rename_i hnot
          obtain rfl := Option.some.inj h
          exact ⟨ih hc, (le_total _ _).resolve_right hnot⟩

/-- What is newer than the newest is newer than everything. -/
theorem newer_newest?_iff {as : List α} {b : α} (h : newest? revision as = some b)
    {r : Option String} :
    newer r (revision b) = true ↔ ∀ a ∈ as, newer r (revision a) = true := by
  refine ⟨?_, fun hall => hall b (mem_of_newest? h)⟩
  intro hb a ha
  rw [newer, Bool.not_eq_true'] at hb ⊢
  cases hr : le r (revision a) with
  | false => rfl
  | true =>
      rw [le_trans hr (le_of_newest? h a ha)] at hb
      cases hb

end Revision

namespace Schema.Tree

variable {t : Tree}

/-- The module is newer than every module of its name before it. These are the
modules that are entered in the tables, also if they are replaced later. -/
def Advances (t : Tree) (m : NodeId) : Prop :=
  t.kind? m = some .module ∧ ∀ i < m, t.kind? i = some .module → t.name i = t.name m →
    Revision.newer (t.revision? m) (t.revision? i) = true

instance (t : Tree) (m : NodeId) : Decidable (t.Advances m) :=
  inferInstanceAs (Decidable (_ ∧ ∀ i, i < m → _))

/-- Before a module in the order of modules are those that were added before it. -/
theorem mem_iff_of_prefix {ms : List NodeId} {m : NodeId} (h : ms ++ [m] <+: t.modules)
    {i : NodeId} : i ∈ ms ↔ t.kind? i = some .module ∧ i < m := by
  have hsorted : t.modules.Pairwise (· < ·) := List.pairwise_lt_range.filter _
  obtain ⟨rest, hrest⟩ := h
  rw [← mem_modules_iff, ← hrest]
  rw [← hrest, List.pairwise_append, List.pairwise_append] at hsorted
  obtain ⟨⟨-, -, hbefore⟩, -, hafter⟩ := hsorted
  constructor
  · intro hi
    exact ⟨by simp [hi], hbefore i hi m (List.mem_singleton_self m)⟩
  · rintro ⟨hi, hlt⟩
    simp only [List.mem_append, List.mem_singleton] at hi
    obtain (hi | rfl) | hi := hi
    · exact hi
    · exact absurd hlt (Nat.lt_irrefl _)
    · exact absurd (hafter m (by simp) i hi) (Nat.lt_asymm hlt)

end Schema.Tree

namespace Codec.Context

open Schema

variable {t : Tree} {limits : Limits}

/-- A module is news after those before it exactly if it is newer than those of
its name. Namespaces have no part in it. -/
theorem isNews_foldl_iff (distinct : t.Distinct) {ms : List NodeId} {m : NodeId}
    (h : ms ++ [m] <+: t.modules) :
    (ms.foldl enter { tree := t, limits := limits }).isNews m = true ↔ t.Advances m := by
  have hmodules : ∀ i ∈ ms, t.kind? i = some .module :=
    fun i hi => ((Tree.mem_iff_of_prefix h).mp hi).1
  have hnodup : ms.Nodup := by
    have hall := (Tree.nodup_modules t).sublist h.sublist
    exact (List.nodup_append.mp hall).1
  have hmodule : t.kind? m = some .module :=
    Tree.mem_modules_iff.mp (h.subset (by simp))
  have hnews : (ms.foldl enter { tree := t, limits := limits }).isNews m = true ↔
      ∀ i ∈ ms, t.name i = t.name m →
        Revision.newer (t.revision? m) (t.revision? i) = true := by
    rw [isNews, tree_foldl_enter, lookup_byName_foldl distinct hnodup hmodules]
    cases hnewest : Revision.newest? t.revision? (ms.filter fun i => t.name i == t.name m) with
    | none =>
        have hnone := Revision.newest?_eq_none_iff.mp hnewest
        simp only [List.filter_eq_nil_iff, beq_iff_eq] at hnone
        simp only [true_iff]
        exact fun i hi hname => absurd hname (hnone i hi)
    | some known =>
        simp only [Revision.newer_newest?_iff hnewest, List.mem_filter, beq_iff_eq, and_imp]
  rw [hnews, Tree.Advances]
  constructor
  · intro hnewer
    exact ⟨hmodule, fun i hlt hi hname => hnewer i ((Tree.mem_iff_of_prefix h).mpr ⟨hi, hlt⟩) hname⟩
  · rintro ⟨-, hnewer⟩ i hi hname
    obtain ⟨hkind, hlt⟩ := (Tree.mem_iff_of_prefix h).mp hi
    exact hnewer i hlt hkind hname

theorem byNamespace_enter (c : Context) (m : NodeId) :
    (c.enter m).byNamespace =
      if c.isNews m then Table.put (c.tree.ns m) m c.byNamespace else c.byNamespace := by
  rw [enter]
  split <;> rfl

theorem lookup_byNamespace_prefix (distinct : t.Distinct) {ms : List NodeId}
    (h : ms <+: t.modules) (ns : String) :
    (ms.foldl enter { tree := t, limits := limits }).byNamespace.lookup ns =
      (ms.filter fun m => t.Advances m ∧ t.ns m = ns).getLast? := by
  induction ms using List.reverseRecOn with
  | nil => rfl
  | append_singleton ms m ih =>
      have hold := ih ((List.prefix_append ms [m]).trans h)
      rw [List.foldl_append, List.foldl_cons, List.foldl_nil, byNamespace_enter,
        tree_foldl_enter, List.filter_append]
      by_cases hnews : t.Advances m
      · rw [if_pos ((isNews_foldl_iff distinct h).mpr hnews)]
        by_cases hns : t.ns m = ns
        · have hself : [m].filter (fun m => t.Advances m ∧ t.ns m = ns) = [m] := by
            simp [hnews, hns]
          rw [hself, List.getLast?_concat, hns, Table.lookup_put_self]
        · have hnone : [m].filter (fun m => t.Advances m ∧ t.ns m = ns) = [] := by
            simp [hns]
          rw [hnone, List.append_nil, Table.lookup_put_of_ne _ _ (Ne.symm hns), hold]
      · have hnone : [m].filter (fun m => t.Advances m ∧ t.ns m = ns) = [] := by
          simp [hnews]
        rw [if_neg (mt (isNews_foldl_iff distinct h).mp hnews), hnone, List.append_nil, hold]

/-- A namespace leads to the last module of it that is newer than those of its
name before it. Later entries of a namespace replace earlier ones without any
comparison. -/
theorem moduleByNamespace?_ofTree_eq_getLast? (distinct : t.Distinct) (ns : String) :
    (ofTree t limits).moduleByNamespace? ns =
      (t.modules.filter fun m => t.Advances m ∧ t.ns m = ns).getLast? :=
  lookup_byNamespace_prefix distinct (List.prefix_refl _) ns

/-- A namespace leads nowhere if no module of it is newer than those of its name
before it. A module of the namespace may be there all the same. -/
theorem moduleByNamespace?_ofTree_eq_none_iff (distinct : t.Distinct) {ns : String} :
    (ofTree t limits).moduleByNamespace? ns = none ↔ ∀ m, t.Advances m → t.ns m ≠ ns := by
  rw [moduleByNamespace?_ofTree_eq_getLast? distinct, List.getLast?_eq_none_iff,
    List.filter_eq_nil_iff]
  simp only [decide_eq_true_eq, not_and]
  constructor
  · intro hnone m hm
    exact hnone m (Tree.mem_modules_iff.mpr hm.1) hm
  · exact fun hall m _ hm => hall m hm

end Codec.Context

end Yang
