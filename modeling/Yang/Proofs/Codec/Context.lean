import Mathlib.Data.List.Induction
import Yang.Codec.Context
import Yang.Proofs.Codec.Conforming

/-!
# The tables of modules

A context enters the modules one after the other. The table of names ends up with the
newest revision of each name, which is the module that the tree itself finds: no two
modules have a name and a revision in common, so it does not matter that the table
keeps the first of equally new ones and the tree the last. The table of namespaces
leads to modules with these namespaces, and to the same modules as the table of names
where names and namespaces correspond.
-/

namespace Yang

namespace Revision

variable {α : Type} {revision : α → Option String}

theorem newest?_concat (as : List α) (a : α) :
    newest? revision (as ++ [a]) =
      match newest? revision as with
      | none => some a
      | some b => if le (revision b) (revision a) then some a else some b := by
  rw [newest?, List.foldl_append]
  rfl

theorem mem_of_newest? {as : List α} {a : α} (h : newest? revision as = some a) : a ∈ as := by
  induction as using List.reverseRecOn generalizing a with
  | nil => cases h
  | append_singleton as b ih =>
      rw [newest?_concat] at h
      rw [List.mem_append, List.mem_singleton]
      split at h
      · exact .inr (Option.some.inj h).symm
      · rename_i c hc
        split at h
        · exact .inr (Option.some.inj h).symm
        · obtain rfl := Option.some.inj h
          exact .inl (ih hc)

theorem exists_newest? {as : List α} {a : α} (h : a ∈ as) : ∃ b, newest? revision as = some b := by
  induction as using List.reverseRecOn with
  | nil => cases h
  | append_singleton as b _ =>
      rw [newest?_concat]
      split
      · exact ⟨_, rfl⟩
      · split <;> exact ⟨_, rfl⟩

theorem le_antisymm {a b : Option String} (hab : le a b = true) (hba : le b a = true) : a = b := by
  cases a with
  | none => cases b <;> simp_all [le]
  | some a =>
      cases b with
      | none => cases hab
      | some b =>
          simp only [le, decide_eq_true_eq] at hab hba
          rw [String.le_antisymm hab hba]

/-- Of two different revisions one is newer. -/
theorem newer_eq_le {a b : Option String} (h : a ≠ b) : newer b a = le a b := by
  have htotal := le_total a b
  have hanti : le a b = true → le b a = true → a = b := le_antisymm
  rw [newer]
  cases hab : le a b <;> cases hba : le b a <;> simp_all

end Revision

namespace Codec.Context

open Schema

variable {c : Context} {t : Tree} {limits : Limits}

@[simp] theorem tree_enter (m : NodeId) : (c.enter m).tree = c.tree := by
  rw [enter]
  split <;> rfl

@[simp] theorem limits_enter (m : NodeId) : (c.enter m).limits = c.limits := by
  rw [enter]
  split <;> rfl

theorem tree_foldl_enter (ms : List NodeId) : (ms.foldl enter c).tree = c.tree := by
  induction ms generalizing c with
  | nil => rfl
  | cons m ms ih => rw [List.foldl_cons, ih, tree_enter]

theorem limits_foldl_enter (ms : List NodeId) : (ms.foldl enter c).limits = c.limits := by
  induction ms generalizing c with
  | nil => rfl
  | cons m ms ih => rw [List.foldl_cons, ih, limits_enter]

@[simp] theorem tree_ofTree : (ofTree t limits).tree = t := tree_foldl_enter t.modules

@[simp] theorem limits_ofTree : (ofTree t limits).limits = limits := limits_foldl_enter t.modules

theorem sound_ofTree (reachable : t.Reachable) (limits : Limits) :
    (ofTree t limits).tree.Sound := by
  rw [tree_ofTree]
  exact reachable.sound

theorem byName_enter (m : NodeId) :
    (c.enter m).byName =
      if c.isNews m then Table.put (c.tree.name m) m c.byName else c.byName := by
  rw [enter]
  split <;> rfl

theorem lookup_byName_enter_of_ne {m : NodeId} {name : String} (hname : c.tree.name m ≠ name) :
    (c.enter m).byName.lookup name = c.byName.lookup name := by
  rw [byName_enter]
  split
  · exact Table.lookup_put_of_ne _ _ hname.symm
  · rfl

/-- Entering a module changes the entry of its name if it is newer. -/
theorem lookup_byName_enter (m : NodeId) :
    (c.enter m).byName.lookup (c.tree.name m) =
      match c.byName.lookup (c.tree.name m) with
      | none => some m
      | some known =>
        if Revision.newer (c.tree.revision? m) (c.tree.revision? known) then some m
        else some known := by
  rw [byName_enter, isNews]
  cases hknown : c.byName.lookup (c.tree.name m) with
  | none => exact Table.lookup_put_self _ _ _
  | some known =>
      simp only
      split
      · exact Table.lookup_put_self _ _ _
      · exact hknown

/-- After some modules the table of names has the newest one of each name. The
induction is on the modules from the last one, as the table is made from the
first. -/
theorem lookup_byName_foldl (distinct : t.Distinct) {ms : List NodeId} (hnodup : ms.Nodup)
    (hmodules : ∀ m ∈ ms, t.kind? m = some .module) (name : String) :
    (ms.foldl enter { tree := t, limits := limits }).byName.lookup name =
      Revision.newest? t.revision? (ms.filter fun m => t.name m == name) := by
  induction ms using List.reverseRecOn with
  | nil => rfl
  | append_singleton ms m ih =>
      rw [List.nodup_append] at hnodup
      have hold := ih hnodup.1 fun i hi => hmodules i (List.mem_append_left _ hi)
      have htree := tree_foldl_enter (c := { tree := t, limits := limits }) ms
      rw [List.foldl_append, List.foldl_cons, List.foldl_nil, List.filter_append]
      by_cases hname : t.name m = name
      · have hself : [m].filter (fun i => t.name i == name) = [m] := by simp [hname]
        have henter := lookup_byName_enter
          (c := ms.foldl enter { tree := t, limits := limits }) m
        simp only [htree, hname, hold] at henter
        rw [henter, hself, Revision.newest?_concat]
        cases hnewest : Revision.newest? t.revision? (ms.filter fun i => t.name i == name) with
        | none => rfl
        | some known =>
            obtain ⟨hmem, hsame⟩ := List.mem_filter.mp (Revision.mem_of_newest? hnewest)
            -- The two are different modules of one name, so their revisions differ.
            have hne : t.revision? known ≠ t.revision? m := by
              intro heq
              have hkm := distinct known m (hmodules known (List.mem_append_left _ hmem))
                (hmodules m (by simp)) ((beq_iff_eq.mp hsame).trans hname.symm) heq
              exact hnodup.2.2 known hmem m (by simp) hkm
            simp only [Revision.newer_eq_le hne]
      · have hnone : [m].filter (fun i => t.name i == name) = [] := by simp [hname]
        rw [lookup_byName_enter_of_ne (by rwa [htree]), hold, hnone, List.append_nil]

/-- Codecs find the newest module of a name, as the tree does. -/
theorem moduleByName?_ofTree (distinct : t.Distinct) (name : String) :
    (ofTree t limits).moduleByName? name = t.findModule? name none :=
  lookup_byName_foldl distinct (Tree.nodup_modules t) (fun _ hm => Tree.mem_modules_iff.mp hm) name

theorem mem_of_findModule? {name : String} {m : NodeId} (h : t.findModule? name none = some m) :
    t.kind? m = some .module ∧ t.name m = name := by
  obtain ⟨hmem, hname⟩ := List.mem_filter.mp (Revision.mem_of_newest? h)
  exact ⟨Tree.mem_modules_iff.mp hmem, beq_iff_eq.mp hname⟩

theorem exists_findModule? {m : NodeId} (h : t.kind? m = some .module) :
    ∃ root, t.findModule? (t.name m) none = some root :=
  Revision.exists_newest? (List.mem_filter.mpr ⟨Tree.mem_modules_iff.mpr h, beq_self_eq_true _⟩)

/-- The newest modules of two names are the same if they have one namespace. -/
theorem findModule?_injective (one : t.NamesNamespaces) {a b : String} {i j : NodeId}
    (hi : t.findModule? a none = some i) (hj : t.findModule? b none = some j)
    (hns : t.ns i = t.ns j) : i = j := by
  obtain ⟨hikind, rfl⟩ := mem_of_findModule? hi
  obtain ⟨hjkind, rfl⟩ := mem_of_findModule? hj
  rw [(one i j hikind hjkind).mpr hns, hj] at hi
  exact (Option.some.inj hi).symm

theorem lookup_byNamespace_foldl {ms : List NodeId} {ns : String} {m : NodeId}
    (h : (ms.foldl enter { tree := t, limits := limits }).byNamespace.lookup ns = some m) :
    m ∈ ms ∧ t.ns m = ns := by
  induction ms using List.reverseRecOn with
  | nil => cases h
  | append_singleton ms i ih =>
      rw [List.foldl_append, List.foldl_cons, List.foldl_nil, enter, tree_foldl_enter] at h
      split at h
      · by_cases hns : ns = t.ns i
        · rw [hns, Table.lookup_put_self] at h
          obtain rfl := Option.some.inj h
          exact ⟨by simp, hns.symm⟩
        · rw [Table.lookup_put_of_ne _ _ hns] at h
          obtain ⟨hmem, hm⟩ := ih h
          exact ⟨List.mem_append_left _ hmem, hm⟩
      · obtain ⟨hmem, hm⟩ := ih h
        exact ⟨List.mem_append_left _ hmem, hm⟩

theorem mem_of_moduleByNamespace? {ns : String} {m : NodeId}
    (h : (ofTree t limits).moduleByNamespace? ns = some m) :
    t.kind? m = some .module ∧ t.ns m = ns := by
  obtain ⟨hmem, hns⟩ := lookup_byNamespace_foldl h
  exact ⟨Tree.mem_modules_iff.mp hmem, hns⟩

/-- Where names stand for namespaces, a module is found by its namespace exactly
when it is found by its name. The two tables then have the same modules. -/
theorem lookup_byNamespace_eq (one : t.NamesNamespaces) {ms : List NodeId}
    (hmodules : ∀ m ∈ ms, t.kind? m = some .module) {i : NodeId} (hi : t.kind? i = some .module) :
    (ms.foldl enter { tree := t, limits := limits }).byNamespace.lookup (t.ns i) =
      (ms.foldl enter { tree := t, limits := limits }).byName.lookup (t.name i) := by
  induction ms using List.reverseRecOn with
  | nil => rfl
  | append_singleton ms m ih =>
      have hm := hmodules m (by simp)
      have hold := ih fun j hj => hmodules j (List.mem_append_left _ hj)
      rw [List.foldl_append, List.foldl_cons, List.foldl_nil, enter, tree_foldl_enter]
      split
      · by_cases hname : t.name i = t.name m
        · rw [hname, (one i m hi hm).mp hname, Table.lookup_put_self, Table.lookup_put_self]
        · have hns : t.ns i ≠ t.ns m := mt (one i m hi hm).mpr hname
          rw [Table.lookup_put_of_ne _ _ hname, Table.lookup_put_of_ne _ _ hns, hold]
      · exact hold

/-- Codecs find the newest module of a name by its namespace, if names stand for
namespaces. -/
theorem moduleByNamespace?_ofTree (distinct : t.Distinct) (one : t.NamesNamespaces)
    {name : String} {root : NodeId} (h : t.findModule? name none = some root) :
    (ofTree t limits).moduleByNamespace? (t.ns root) = some root := by
  obtain ⟨hkind, rfl⟩ := mem_of_findModule? h
  have hmodules : ∀ m ∈ t.modules, t.kind? m = some .module :=
    fun _ hm => Tree.mem_modules_iff.mp hm
  refine (lookup_byNamespace_eq one hmodules hkind).trans ?_
  exact (moduleByName?_ofTree distinct (t.name root)).trans h

end Codec.Context

end Yang
