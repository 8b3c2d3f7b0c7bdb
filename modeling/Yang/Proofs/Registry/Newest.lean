import Yang.Proofs.Codec.JsonNames
import Yang.Proofs.Codec.Namespaces
import Yang.Proofs.Registry.Interchange

/-!
# The newest revision of a name

A name without a revision means the newest revision of it. The tree takes the maximum over its
modules, codecs keep the newest of each name in a table, and a registry looks for the name among
the qualified names before it takes the maximum over an index that is in no order. All of them
arrive at one module, because a name and a revision belong to one module only. The registry's
look at the qualified names is right because a module without revision gets into the index only
if no module of its name has one.
-/

namespace Yang

open Schema

namespace Revision

variable {α : Type} {revision : α → Option String} {p q : α → Prop} {as : List α} {a : α}

/-- The thing has the property, and none with the property is newer. If no two
of them have one revision, there is one such thing at most. -/
def IsNewest (revision : α → Option String) (p : α → Prop) (a : α) : Prop :=
  p a ∧ ∀ b, p b → le (revision b) (revision a) = true

theorem isNewest_congr (h : ∀ a, p a ↔ q a) : IsNewest revision p a ↔ IsNewest revision q a :=
  and_congr (h a) (forall_congr' fun b => imp_congr_left (h b))

/-- Among things that differ in their revisions, the newest is the one that is
found. -/
theorem newest?_eq_some_iff (distinct : ∀ b ∈ as, ∀ c ∈ as, revision b = revision c → b = c) :
    newest? revision as = some a ↔ IsNewest revision (· ∈ as) a := by
  constructor
  · intro h
    exact ⟨mem_of_newest? h, le_of_newest? h⟩
  · rintro ⟨ha, hnewest⟩
    obtain ⟨b, hb⟩ : ∃ b, newest? revision as = some b := exists_newest? ha
    have hmem := mem_of_newest? hb
    have hsame : revision b = revision a := le_antisymm (hnewest b hmem) (le_of_newest? hb a ha)
    rw [hb, distinct b hmem a ha hsame]

end Revision

/-- No revision stands behind the name: one would follow an at sign. -/
def Name.IsBare (s : String) : Prop := '@' ∉ s.toList

theorem Name.isBare_of_isIdentifier {s : String} (h : isIdentifier s = true) : IsBare s :=
  notMem_of_isIdentifier h rfl

theorem ModuleId.eq_of_text_eq {id : ModuleId} (bare : Name.IsBare id.text) :
    id = ⟨id.text, none⟩ := by
  obtain ⟨name, revision⟩ := id
  cases revision with
  | none => rfl
  | some r =>
      apply absurd _ bare
      simp [text]

def Schema.Tree.IsModule (t : Tree) (name : String) (i : NodeId) : Prop :=
  t.kind? i = some .module ∧ t.name i = name

namespace Schema.Tree

variable {t : Tree} {name : String} {i : NodeId}

theorem mem_modulesNamed_iff : i ∈ t.modulesNamed name ↔ t.IsModule name i := by
  rw [modulesNamed, List.mem_filter, mem_modules_iff, beq_iff_eq, IsModule]

/-- The tree finds the newest module of a name. -/
theorem Distinct.findModule?_eq_some_iff (distinct : t.Distinct) :
    t.findModule? name none = some i ↔ Revision.IsNewest t.revision? (t.IsModule name) i := by
  rw [← Revision.isNewest_congr fun _ => mem_modulesNamed_iff]
  apply Revision.newest?_eq_some_iff
  intro i hi j hj hrevision
  obtain ⟨hikind, hiname⟩ := mem_modulesNamed_iff.mp hi
  obtain ⟨hjkind, hjname⟩ := mem_modulesNamed_iff.mp hj
  exact distinct i j hikind hjkind (hiname.trans hjname.symm) hrevision

theorem revision?_of_findModule? {r : String} (h : t.findModule? name (some r) = some i) :
    t.revision? i = some r := by
  rw [findModule?] at h
  simpa using List.find?_some h

end Schema.Tree

/-- The tree finds the module for its name and some revision, or for the name
alone, as it does when the module is located. -/
def Module.IsFound (t : Tree) (m : Module) : Prop :=
  ∃ revision, t.findModule? m.id.name revision = some m.root

namespace Registry

variable {r r' : Registry} {name : String} {m m' : Module}

def HasModule (r : Registry) (name : String) (m : Module) : Prop :=
  m ∈ r.indexed ∧ m.id.name = name

section Found

theorem isFound_of_locate {model : String} {id : ModuleId} (h : r.locate model id = .ok m) :
    m.IsFound r.tree := by
  obtain ⟨root, hroot, rfl⟩ := locate_eq_ok_iff.mp h
  exact ⟨id.revision, hroot⟩

theorem indexed_withModel (model : Model) :
    (r.withModel model).indexed = r.indexed ++ model.modules := by
  rw [indexed, withModel, List.map_append, List.map_map]
  exact congrArg (r.indexed ++ ·) (List.map_id _)

/-- What holds of the modules in the index and of every module that can be
located holds of the modules in the index after a change. -/
theorem Changes.forall_indexed {p : Module → Prop} (h : r.Changes r')
    (old : ∀ m ∈ r.indexed, p m) (new : ∀ model id m, r.locate model id = .ok m → p m) :
    ∀ m ∈ r'.indexed, p m := by
  cases h with
  | none => exact old
  | anydata anydata => exact old
  | registered admits =>
      rw [indexed_withModel, List.forall_mem_append]
      refine ⟨old, fun m hm => ?_⟩
      obtain ⟨id, hid⟩ := exists_locate_of_mem admits.located m hm
      exact new _ id m hid
  | unregistered hmodel =>
      rw [Registry.unregister, hmodel]
      intro m hm
      exact old m (List.map_subset _ (List.filter_subset_self _) hm)

/-- Every module in the index is one that the tree finds, by its name and a
revision or by its name alone. -/
theorem isFound_after_calls (t : Tree) (limits : Limits) (requests : List Request) :
    let r := requests.foldl after { tree := t, limits := limits }
    ∀ m ∈ r.indexed, m.IsFound r.tree := by
  apply foldl_after (p := fun s => ∀ m ∈ s.indexed, m.IsFound s.tree)
  · exact List.forall_mem_nil _
  · intro s s' hfound hchanges
    rw [hchanges.tree_eq]
    exact hchanges.forall_indexed hfound fun _ _ _ => isFound_of_locate

end Found

section Newest

theorem Consistent.eq_of_id_eq (h : r.Consistent) (hm : m ∈ r.indexed) (hm' : m' ∈ r.indexed)
    (hid : m.id = m'.id) : m = m' := by
  have hfirst := h.qualified?_eq_some_iff.mpr ⟨hm, congrArg ModuleId.text hid⟩
  have hsecond := h.qualified?_eq_some_iff.mpr ⟨hm', rfl⟩
  exact Option.some.inj (hfirst.symm.trans hsecond)

theorem mem_filter_indexed_iff :
    m ∈ r.indexed.filter (fun m => m.id.name == name) ↔ r.HasModule name m := by
  rw [List.mem_filter, beq_iff_eq, HasModule]

/-- The maximum over the index is the newest module of the name. The index has
no two modules with one identifier, so the order in it does not count. -/
theorem Consistent.newest?_eq_some_iff (h : r.Consistent) :
    Revision.newest? (fun m => m.id.revision) (r.indexed.filter fun m => m.id.name == name) =
        some m ↔
      Revision.IsNewest (fun m => m.id.revision) (r.HasModule name) m := by
  rw [← Revision.isNewest_congr fun _ => mem_filter_indexed_iff]
  apply Revision.newest?_eq_some_iff
  intro a ha b hb hrevision
  obtain ⟨hmema, hnamea⟩ := mem_filter_indexed_iff.mp ha
  obtain ⟨hmemb, hnameb⟩ := mem_filter_indexed_iff.mp hb
  apply h.eq_of_id_eq hmema hmemb
  show ModuleId.mk a.id.name a.id.revision = ⟨b.id.name, b.id.revision⟩
  rw [hnamea, hnameb, hrevision]

theorem Consistent.isModule_of_hasModule (h : r.Consistent) (hm : r.HasModule name m) :
    r.tree.IsModule name m.root ∧ m.id.revision = r.tree.revision? m.root := by
  obtain ⟨hmem, hname⟩ := hm
  obtain ⟨kind, id, -⟩ := h.isOf_of_mem_indexed hmem
  rw [id] at hname ⊢
  exact ⟨⟨kind, hname⟩, rfl⟩

/-- If the newest module of the tree is in the index, then it is the newest one
there. The index has no modules that the tree does not have. -/
theorem Consistent.isNewest_of_findModule? (h : r.Consistent) (distinct : r.tree.Distinct)
    (hm : m ∈ r.indexed) (hfind : r.tree.findModule? name none = some m.root) :
    Revision.IsNewest (fun m => m.id.revision) (r.HasModule name) m := by
  obtain ⟨hmodule, hnewest⟩ := distinct.findModule?_eq_some_iff.mp hfind
  have hid := (h.isOf_of_mem_indexed hm).id
  refine ⟨⟨hm, ?_⟩, fun b hb => ?_⟩
  · rw [hid]
    exact hmodule.2
  · obtain ⟨hother, hrevision⟩ := h.isModule_of_hasModule hb
    show Revision.le b.id.revision m.id.revision = true
    rw [hrevision, hid]
    exact hnewest b.root hother

/-- A module without revision is in the index only as the newest of the tree,
since it can be located by the name alone. -/
theorem Consistent.findModule?_of_revision_eq_none (h : r.Consistent) (hm : m ∈ r.indexed)
    (found : m.IsFound r.tree) (hnone : m.id.revision = none) :
    r.tree.findModule? m.id.name none = some m.root := by
  obtain ⟨_ | revision, hfind⟩ := found
  · exact hfind
  · rw [(h.isOf_of_mem_indexed hm).id, Tree.revision?_of_findModule? hfind] at hnone
    cases hnone

/-- For a bare name the look at the qualified names does not change the answer. -/
theorem Consistent.module?_eq_newest? (h : r.Consistent) (distinct : r.tree.Distinct)
    (found : ∀ m ∈ r.indexed, m.IsFound r.tree) (bare : Name.IsBare name) :
    r.module? ⟨name, none⟩ =
      Revision.newest? (fun m => m.id.revision)
        (r.indexed.filter fun m => m.id.name == name) := by
  rw [module?]
  split
  · rename_i m hm
    obtain ⟨hmem, hkey⟩ := h.qualified?_eq_some_iff.mp hm
    obtain rfl : m.id.text = name := hkey
    have hid : m.id = ⟨m.id.text, none⟩ := ModuleId.eq_of_text_eq bare
    have hnone : m.id.revision = none := congrArg ModuleId.revision hid
    have hname : m.id.name = m.id.text := congrArg ModuleId.name hid
    have hfind := h.findModule?_of_revision_eq_none hmem (found m hmem) hnone
    rw [hname] at hfind
    exact (h.newest?_eq_some_iff.mpr (h.isNewest_of_findModule? distinct hmem hfind)).symm
  · rfl

theorem Consistent.isBare_of_hasModule (h : r.Consistent) (reachable : r.tree.Reachable)
    (hm : r.HasModule name m) : Name.IsBare name := by
  obtain ⟨⟨hkind, rfl⟩, -⟩ := h.isModule_of_hasModule hm
  exact Name.isBare_of_isIdentifier (reachable.sound.isIdentifier_name hkind)

/-- For any other name there is nothing else than the look at the qualified
names. -/
theorem Consistent.module?_of_not_isBare (h : r.Consistent) (reachable : r.tree.Reachable)
    (hbare : ¬Name.IsBare name) : r.module? ⟨name, none⟩ = r.qualified? name := by
  have hnone : r.indexed.filter (fun m => m.id.name == name) = [] := by
    apply List.eq_nil_iff_forall_not_mem.mpr
    intro m hm
    exact hbare (h.isBare_of_hasModule reachable (mem_filter_indexed_iff.mp hm))
  have htext : ModuleId.text ⟨name, none⟩ = name := rfl
  rw [module?, htext, hnone]
  cases r.qualified? name <;> rfl

theorem Consistent.withIndex (h : r.Consistent) {index : List (String × IndexedModule)}
    (hperm : index.Perm r.index) : Consistent { r with index := index } where
  modelKeys := h.modelKeys
  moduleKeys := (hperm.map Prod.fst).nodup_iff.mpr h.moduleKeys
  id_eq := h.id_eq
  mem_index_iff key m owner := hperm.mem_iff.trans (h.mem_index_iff key m owner)
  isOf := h.isOf

theorem Consistent.module?_of_perm (h : r.Consistent) {index : List (String × IndexedModule)}
    (hperm : index.Perm r.index) (id : ModuleId) :
    module? { r with index := index } id = r.module? id := by
  have hindexed : ∀ m, m ∈ indexed { r with index := index } ↔ m ∈ r.indexed :=
    fun m => (hperm.map _).mem_iff
  have hqualified : qualified? { r with index := index } id.text = r.qualified? id.text := by
    apply Option.ext
    intro m
    rw [(h.withIndex hperm).qualified?_eq_some_iff, h.qualified?_eq_some_iff, hindexed]
  have hnewest : Revision.newest? (fun m => m.id.revision)
        ((indexed { r with index := index }).filter fun m => m.id.name == id.name) =
      Revision.newest? (fun m => m.id.revision)
        (r.indexed.filter fun m => m.id.name == id.name) := by
    apply Option.ext
    intro m
    rw [(h.withIndex hperm).newest?_eq_some_iff, h.newest?_eq_some_iff]
    exact Revision.isNewest_congr fun m => and_congr_left' (hindexed m)
  rw [module?, module?, hqualified, hnewest]

end Newest

/-- What a name without revision leads to over a schema tree and in a registry.
All of the look-ups are told by one order on revisions. -/
structure NewestOfName (t : Tree) (r : Registry) (name : String) : Prop where
  /-- Codecs find the module that the tree finds, whatever their limits are. -/
  moduleByName?_eq : ∀ limits,
    (Codec.Context.ofTree t limits).moduleByName? name = t.findModule? name none
  /-- The tree finds the newest of the modules of the name. -/
  findModule?_iff : ∀ root, t.findModule? name none = some root ↔
    Revision.IsNewest t.revision? (t.IsModule name) root
  /-- The registry finds the newest of the modules of the name that are registered. -/
  module?_iff : Name.IsBare name → ∀ m, r.module? ⟨name, none⟩ = some m ↔
    Revision.IsNewest (fun m => m.id.revision) (r.HasModule name) m
  module?_eq_none_iff : Name.IsBare name →
    (r.module? ⟨name, none⟩ = none ↔ ∀ m, ¬r.HasModule name m)
  /-- What is not a bare name can only be the qualified name of a revision. -/
  module?_of_not_isBare : ¬Name.IsBare name → r.module? ⟨name, none⟩ = r.qualified? name
  /-- The answer does not depend on the order of the index. -/
  module?_of_perm : ∀ index, index.Perm r.index →
    module? { r with index := index } ⟨name, none⟩ = r.module? ⟨name, none⟩
  /-- The registry finds the module of the tree if this is registered, so paths are resolved
  and members of JSON objects are decoded from one root. -/
  one_root : ∀ root m, t.findModule? name none = some root → m ∈ r.indexed → m.root = root →
    r.module? ⟨name, none⟩ = some m ∧
      (∀ path : Path, path.module = name → path.revision = none →
        r.resolve path = t.resolve r.members r.limits path root) ∧
      ∀ limits node,
        Codec.Json.topModule (Codec.Context.ofTree t limits) (name ++ ":" ++ node) = .ok root

theorem Consistent.newestOfName (h : r.Consistent) (reachable : r.tree.Reachable)
    (found : ∀ m ∈ r.indexed, m.IsFound r.tree) (name : String) :
    NewestOfName r.tree r name where
  moduleByName?_eq limits := Codec.Context.moduleByName?_ofTree reachable.distinct name
  findModule?_iff root := reachable.distinct.findModule?_eq_some_iff
  module?_iff bare m := by
    rw [h.module?_eq_newest? reachable.distinct found bare]
    exact h.newest?_eq_some_iff
  module?_eq_none_iff bare := by
    rw [h.module?_eq_newest? reachable.distinct found bare, Revision.newest?_eq_none_iff,
      List.eq_nil_iff_forall_not_mem]
    exact forall_congr' fun m => not_congr mem_filter_indexed_iff
  module?_of_not_isBare := h.module?_of_not_isBare reachable
  module?_of_perm index hperm := h.module?_of_perm hperm _
  one_root := by
    rintro root m hroot hm rfl
    have hnewest := h.isNewest_of_findModule? reachable.distinct hm hroot
    have bare : Name.IsBare name := h.isBare_of_hasModule reachable hnewest.1
    have hmodule : r.module? ⟨name, none⟩ = some m := by
      rw [h.module?_eq_newest? reachable.distinct found bare]
      exact h.newest?_eq_some_iff.mpr hnewest
    refine ⟨hmodule, fun path hpath hrevision => ?_,
      fun limits => Codec.Json.topModule_append reachable hroot⟩
    rw [resolve, hpath, hrevision, hmodule]

/-- All ways to look up a module by its name alone lead to the newest revision:
in the tree of any statements, in a context of codecs over it and in a registry
over it after any calls. -/
theorem newest_of_name (statements : List Statement) (limits : Limits) (requests : List Request)
    (name : String) :
    NewestOfName (statements.foldl Tree.after {})
      (requests.foldl after { tree := statements.foldl Tree.after {}, limits := limits }) name := by
  have reachable := Tree.Reachable.empty.foldl_after statements
  generalize statements.foldl Tree.after {} = t at reachable ⊢
  have consistent := consistent_after_calls t limits requests
  have found := isFound_after_calls t limits requests
  have htree : (requests.foldl after { tree := t, limits := limits }).tree = t :=
    tree_foldl_after requests
  generalize requests.foldl after { tree := t, limits := limits } = r at *
  obtain rfl := htree
  exact consistent.newestOfName reachable found name

/-- The newer store is the one of the name when both are registered. -/
theorem newest_of_name_store :
    editions.findModule? "store" none = some 0 ∧
      withBothStores.module? ⟨"store", none⟩ =
        some ⟨⟨"store", some "2025-06-30"⟩, "urn:store", 0⟩ ∧
      withBothStores.resolve ⟨"store", none, []⟩ =
        editions.resolve withBothStores.members {} ⟨"store", none, []⟩ 0 ∧
      ∀ limits node,
        Codec.Json.topModule (Codec.Context.ofTree editions limits) ("store" ++ ":" ++ node) =
          .ok 0 := by
  have hnewest : NewestOfName editions withBothStores "store" :=
    newest_of_name _ {} [.register oldShop, .register newDesk] "store"
  have hfind : editions.findModule? "store" none = some 0 := by decide +kernel
  have hmem : ⟨⟨"store", some "2025-06-30"⟩, "urn:store", 0⟩ ∈ withBothStores.indexed := by
    decide +kernel
  obtain ⟨hmodule, hresolve, htop⟩ := hnewest.one_root 0 _ hfind hmem rfl
  exact ⟨hfind, hmodule, hresolve _ rfl rfl, htop⟩

/-- The newest store that is registered need not be the newest of the tree. -/
example : withOldShop.module? ⟨"store", none⟩ =
    some ⟨⟨"store", some "2024-01-31"⟩, "urn:store", 1⟩ := by
  decide +kernel

end Registry

end Yang
