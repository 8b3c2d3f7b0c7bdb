import Yang.Proofs.Codec.Context
import Yang.Proofs.Registry.Calls

/-!
# The indexes of a registry

The index of modules and the index of models of a registry tell the same story: a module
stands in the first under its qualified name exactly if a model in the second lists it.
`Registry.Consistent` is kept by whatever a call does, so it holds after any calls in any
order. What users of a registry rely on follows from it: no module belongs to two models,
and every module is one of the schema tree.
-/

namespace Yang

open Schema

/-- A module of a registry is the one of a schema tree at its root: its
identifier and its namespace are those of the tree. -/
structure Module.IsOf (t : Tree) (m : Module) : Prop where
  kind : t.kind? m.root = some .module
  id : m.id = ⟨t.name m.root, t.revision? m.root⟩
  ns : m.ns = t.ns m.root

theorem Schema.Tree.module_of_findModule? {t : Tree} {name : String} {revision : Option String}
    {root : NodeId} (h : t.findModule? name revision = some root) :
    t.kind? root = some .module ∧ t.name root = name := by
  cases revision with
  | none => exact Codec.Context.mem_of_findModule? h
  | some r =>
      obtain ⟨hmodule, hname⟩ := List.mem_filter.mp (List.mem_of_find?_eq_some h)
      exact ⟨Tree.mem_modules_iff.mp hmodule, beq_iff_eq.mp hname⟩

namespace Registry

variable {r r' : Registry}

section Locating

variable {model : String} {id : ModuleId} {ids : List ModuleId} {m : Module}
  {known modules : List Module}

theorem isOf_of_locate (h : r.locate model id = .ok m) : m.IsOf r.tree := by
  obtain ⟨root, hroot, rfl⟩ := locate_eq_ok_iff.mp h
  obtain ⟨hkind, hname⟩ := Tree.module_of_findModule? hroot
  exact ⟨hkind, by rw [hname], rfl⟩

theorem mem_of_mem_addOnce {m' : Module} (h : m' ∈ addOnce modules m) : m' ∈ modules ∨ m' = m := by
  rw [addOnce] at h
  split at h
  · exact .inl h
  · simpa using h

theorem exists_locate_of_mem (h : r.locateAll model ids = .ok modules) :
    ∀ m ∈ modules, ∃ id, r.locate model id = .ok m := by
  have hrun : ∀ known, (∀ m ∈ known, ∃ id, r.locate model id = .ok m) →
      ids.foldlM (fun known id => return addOnce known (← r.locate model id)) known =
        .ok modules → ∀ m ∈ modules, ∃ id, r.locate model id = .ok m := by
    clear h
    induction ids with
    | nil =>
        intro known hknown h
        obtain rfl := pure_eq_ok_iff.mp h
        exact hknown
    | cons id ids ih =>
        intro known hknown h
        simp only [List.foldlM_cons, bind_eq_ok_iff, pure_eq_ok_iff] at h
        obtain ⟨_, ⟨m, hm, rfl⟩, h⟩ := h
        refine ih _ ?_ h
        intro m' hm'
        rcases mem_of_mem_addOnce hm' with hmem | rfl
        · exact hknown m' hmem
        · exact ⟨id, hm⟩
  exact hrun [] (List.forall_mem_nil _) h

theorem isOf_of_locateAll (h : r.locateAll model ids = .ok modules) :
    ∀ m ∈ modules, m.IsOf r.tree := by
  intro m hm
  obtain ⟨id, hid⟩ := exists_locate_of_mem h m hm
  exact isOf_of_locate hid

end Locating

/-- The two indexes of a registry agree with each other and with its schema
tree. -/
structure Consistent (r : Registry) : Prop where
  /-- No two models have an id in common. -/
  modelKeys : (r.models.map Prod.fst).Nodup
  /-- No two modules in the index have a qualified name in common. -/
  moduleKeys : (r.index.map Prod.fst).Nodup
  /-- A model stands under its id. -/
  id_eq : ∀ id model, (id, model) ∈ r.models → model.id = id
  /-- The index of modules holds what the models list, under the qualified names. -/
  mem_index_iff : ∀ key m owner, (key, IndexedModule.mk m owner) ∈ r.index ↔
    ∃ model, (owner, model) ∈ r.models ∧ m ∈ model.modules ∧ m.id.text = key
  isOf : ∀ id model, (id, model) ∈ r.models → ∀ m ∈ model.modules, m.IsOf r.tree

theorem Consistent.empty (t : Tree) (limits : Limits) :
    Consistent { tree := t, limits := limits } where
  modelKeys := List.nodup_nil
  moduleKeys := List.nodup_nil
  id_eq := nofun
  mem_index_iff := by simp
  isOf := nofun

/-- A model whose modules are new keeps the indexes in agreement. -/
theorem Consistent.withModel (h : r.Consistent) {p : Registration} {modules : List Module}
    (admits : r.Admits p modules) : (r.withModel ⟨p.model, modules⟩).Consistent where
  modelKeys := by
    rw [Registry.withModel, List.map_append, List.nodup_append']
    refine ⟨h.modelKeys, List.nodup_singleton _, List.disjoint_singleton.mpr ?_⟩
    exact Table.lookup_eq_none_iff.mp admits.free
  moduleKeys := by
    have hkeys : (modules.map (entryOf p.model)).map Prod.fst = modules.map fun m => m.id.text :=
      List.map_map
    rw [Registry.withModel, List.map_append, hkeys, List.nodup_append']
    refine ⟨h.moduleKeys, admits.distinct, ?_⟩
    intro key hkey hnew
    obtain ⟨m, hm, rfl⟩ := List.mem_map.mp hnew
    exact Table.lookup_eq_none_iff.mp (admits.fresh m hm) hkey
  id_eq := by
    intro id model hmem
    rcases List.mem_append.mp hmem with hmem | hmem
    · exact h.id_eq id model hmem
    · obtain ⟨rfl, rfl⟩ := Prod.mk.inj (List.mem_singleton.mp hmem)
      rfl
  mem_index_iff := by
    intro key m owner
    have hnew : (key, IndexedModule.mk m owner) ∈ modules.map (entryOf p.model) ↔
        owner = p.model ∧ m ∈ modules ∧ m.id.text = key := by
      simp only [List.mem_map, entryOf, Prod.mk.injEq, IndexedModule.mk.injEq]
      constructor
      · rintro ⟨m', hm', rfl, rfl, rfl⟩
        exact ⟨rfl, hm', rfl⟩
      · rintro ⟨rfl, hm, rfl⟩
        exact ⟨m, hm, rfl, rfl, rfl⟩
    rw [Registry.withModel, List.mem_append, h.mem_index_iff, hnew]
    simp only [List.mem_append, List.mem_singleton, Prod.mk.injEq]
    constructor
    · rintro (⟨model, hmodel, hm⟩ | ⟨rfl, hm⟩)
      · exact ⟨model, .inl hmodel, hm⟩
      · exact ⟨_, .inr ⟨rfl, rfl⟩, hm⟩
    · rintro ⟨model, hmodel | ⟨rfl, rfl⟩, hm⟩
      · exact .inl ⟨model, hmodel, hm⟩
      · exact .inr ⟨rfl, hm⟩
  isOf := by
    intro id model hmem
    rcases List.mem_append.mp hmem with hmem | hmem
    · exact h.isOf id model hmem
    · obtain ⟨rfl, rfl⟩ := Prod.mk.inj (List.mem_singleton.mp hmem)
      exact isOf_of_locateAll admits.located

/-- What a model owns is taken out of the index together with it, and nothing
else. The index is filtered by owner and name, of which the owner is enough
here. -/
theorem Consistent.not_belongsTo_iff (h : r.Consistent) {id : String} {model : Model}
    (hmodel : (id, model) ∈ r.models) {key : String} {m : Module} {owner : String}
    (hmem : (key, IndexedModule.mk m owner) ∈ r.index) :
    (!belongsTo model key ⟨m, owner⟩) = true ↔ owner ≠ id := by
  rw [belongsTo, h.id_eq id model hmodel, Bool.not_eq_true', Bool.and_eq_false_iff,
    beq_eq_false_iff_ne, or_iff_left_iff_imp]
  intro hnone howner
  obtain ⟨model', hmodel', hm, hkey⟩ := (h.mem_index_iff key m owner).mp hmem
  obtain rfl : owner = id := howner
  obtain rfl : model' = model := by
    have hfirst := (Table.lookup_eq_some_iff h.modelKeys).mpr hmodel
    rw [(Table.lookup_eq_some_iff h.modelKeys).mpr hmodel'] at hfirst
    exact Option.some.inj hfirst
  rw [List.any_eq_false] at hnone
  exact hnone m hm (by simpa using hkey)

/-- Removing a model keeps the indexes in agreement. Its modules are taken out
of the index, and those of other models stay. -/
theorem Consistent.unregister (h : r.Consistent) {id : String} {model : Model}
    (hmodel : r.model? id = some model) : (r.unregister id).2.Consistent := by
  have hmem : (id, model) ∈ r.models := Table.mem_of_lookup hmodel
  rw [Registry.unregister, hmodel]
  refine ⟨?_, ?_, ?_, ?_, ?_⟩
  · exact h.modelKeys.sublist (List.filter_sublist.map Prod.fst)
  · exact h.moduleKeys.sublist (List.filter_sublist.map Prod.fst)
  · intro other model' hmodel'
    exact h.id_eq other model' (List.mem_filter.mp hmodel').1
  · intro key m owner
    simp only [List.mem_filter, bne_iff_ne]
    constructor
    · rintro ⟨hindex, hother⟩
      obtain ⟨model', hmodel', hm, hkey⟩ := (h.mem_index_iff key m owner).mp hindex
      exact ⟨model', ⟨hmodel', (h.not_belongsTo_iff hmem hindex).mp hother⟩, hm, hkey⟩
    · rintro ⟨model', ⟨hmodel', hother⟩, hm, hkey⟩
      have hindex := (h.mem_index_iff key m owner).mpr ⟨model', hmodel', hm, hkey⟩
      exact ⟨hindex, (h.not_belongsTo_iff hmem hindex).mpr hother⟩
  · intro other model' hmodel'
    exact h.isOf other model' (List.mem_filter.mp hmodel').1

theorem Consistent.changes (h : r.Consistent) (hchanges : r.Changes r') : r'.Consistent := by
  cases hchanges with
  | none => exact h
  | registered admits => exact h.withModel admits
  | unregistered hmodel => exact h.unregister hmodel
  | anydata anydata => exact ⟨h.modelKeys, h.moduleKeys, h.id_eq, h.mem_index_iff, h.isOf⟩

theorem Changes.tree_eq (h : r.Changes r') : r'.tree = r.tree := by
  cases h with
  | unregistered hmodel =>
      rw [Registry.unregister, hmodel]
  | _ => rfl

/-- No call changes the schema tree, so what is found there is found for good. -/
theorem tree_foldl_after (requests : List Request) : (requests.foldl after r).tree = r.tree :=
  foldl_after (p := fun s => s.tree = r.tree) rfl
    (fun _ _ hs hchanges => hchanges.tree_eq.trans hs) requests

section Consequences

/-- A module stands under a qualified name and with an owner exactly if the
model of the owner lists it and this is its name. It holds in both directions,
so no entry is ever left over or missing. -/
theorem Consistent.lookup_index_iff (h : r.Consistent) {key : String} {m : Module}
    {owner : String} :
    r.index.lookup key = some ⟨m, owner⟩ ↔
      ∃ model, r.model? owner = some model ∧ model.id = owner ∧ m ∈ model.modules ∧
        m.id.text = key := by
  rw [Table.lookup_eq_some_iff h.moduleKeys, h.mem_index_iff]
  refine exists_congr fun model => ?_
  rw [model?, Table.lookup_eq_some_iff h.modelKeys]
  constructor
  · rintro ⟨hmodel, hm⟩
    exact ⟨hmodel, h.id_eq owner model hmodel, hm⟩
  · rintro ⟨hmodel, -, hm⟩
    exact ⟨hmodel, hm⟩

/-- Modules of one qualified name are one module of one model. -/
theorem Consistent.owned_once (h : r.Consistent) {a b : String} {model model' : Model}
    (ha : r.model? a = some model) (hb : r.model? b = some model') {m m' : Module}
    (hm : m ∈ model.modules) (hm' : m' ∈ model'.modules) (hkey : m.id.text = m'.id.text) :
    a = b ∧ m = m' := by
  have hid := h.id_eq a model (Table.mem_of_lookup ha)
  have hid' := h.id_eq b model' (Table.mem_of_lookup hb)
  have hfirst := h.lookup_index_iff.mpr ⟨model, ha, hid, hm, hkey⟩
  have hsecond := h.lookup_index_iff.mpr ⟨model', hb, hid', hm', rfl⟩
  obtain ⟨rfl, rfl⟩ := IndexedModule.mk.inj (Option.some.inj (hfirst.symm.trans hsecond))
  exact ⟨rfl, rfl⟩

theorem Consistent.nodup_moduleIds (h : r.Consistent) : r.moduleIds.Nodup := by
  have hkeys : r.index.map Prod.fst = (r.indexed.map Module.id).map ModuleId.text := by
    rw [indexed, List.map_map, List.map_map]
    refine List.map_congr_left fun entry hmem => ?_
    obtain ⟨key, m, owner⟩ := entry
    obtain ⟨_, _, _, hkey⟩ := (h.mem_index_iff key m owner).mp hmem
    exact hkey.symm
  have hnodup := h.moduleKeys
  rw [hkeys] at hnodup
  exact (List.mergeSort_perm _ _).nodup_iff.mpr (List.Nodup.of_map _ hnodup)

/-- A qualified name leads to the module in the index that has it. The owner of
the module does not matter. -/
theorem Consistent.qualified?_eq_some_iff (h : r.Consistent) {key : String} {m : Module} :
    r.qualified? key = some m ↔ m ∈ r.indexed ∧ m.id.text = key := by
  constructor
  · intro hqualified
    obtain ⟨⟨m, owner⟩, hlookup, rfl⟩ := Option.map_eq_some_iff.mp hqualified
    obtain ⟨_, _, _, _, hkey⟩ := h.lookup_index_iff.mp hlookup
    exact ⟨List.mem_map_of_mem (Table.mem_of_lookup hlookup), hkey⟩
  · rintro ⟨hm, rfl⟩
    obtain ⟨⟨key, m, owner⟩, hmem, rfl⟩ := List.mem_map.mp hm
    obtain ⟨_, _, _, rfl⟩ := (h.mem_index_iff key m owner).mp hmem
    rw [qualified?, (Table.lookup_eq_some_iff h.moduleKeys).mpr hmem, Option.map_some]

theorem Consistent.isOf_of_mem_indexed (h : r.Consistent) {m : Module} (hm : m ∈ r.indexed) :
    m.IsOf r.tree := by
  obtain ⟨⟨key, entry⟩, hmem, rfl⟩ := List.mem_map.mp hm
  obtain ⟨model, hmodel, hm, -⟩ := (h.mem_index_iff key entry.module entry.owner).mp hmem
  exact h.isOf _ model hmodel _ hm

end Consequences

/-- What users of a registry over a tree rely on. It is told by the calls that
look things up, while the invariant behind it is told by the tables. -/
structure Indexes (t : Tree) (r : Registry) : Prop where
  /-- An entry stands in the index of modules exactly if the model of its owner lists the
  module, under its qualified name. -/
  lookup_index_iff : ∀ key m owner, r.index.lookup key = some ⟨m, owner⟩ ↔
    ∃ model, r.model? owner = some model ∧ model.id = owner ∧ m ∈ model.modules ∧
      m.id.text = key
  /-- The index holds nothing under the same name as another entry. -/
  nodup_keys : (r.index.map Prod.fst).Nodup
  indexed : ∀ id model, r.model? id = some model → ∀ m ∈ model.modules,
    r.index.lookup m.id.text = some ⟨m, id⟩
  owned_once : ∀ a b model model', r.model? a = some model → r.model? b = some model' →
    ∀ m ∈ model.modules, ∀ m' ∈ model'.modules, m.id = m'.id ∨ m.root = m'.root → a = b ∧ m = m'
  nodup_moduleIds : r.moduleIds.Nodup
  isOf : ∀ m ∈ r.indexed, m.IsOf t
  /-- A registration that fails leaves everything as it was. -/
  registering_of_error : ∀ p e, (r.registering p).1 = .error e → (r.registering p).2 = r

theorem Consistent.indexes (h : r.Consistent) : r.Indexes r.tree where
  lookup_index_iff _ _ _ := h.lookup_index_iff
  nodup_keys := h.moduleKeys
  indexed id model hmodel m hm :=
    h.lookup_index_iff.mpr ⟨model, hmodel, h.id_eq id model (Table.mem_of_lookup hmodel), hm, rfl⟩
  owned_once a b model model' ha hb m hm m' hm' hsame := by
    refine h.owned_once ha hb hm hm' (congrArg ModuleId.text ?_)
    rcases hsame with hid | hroot
    · exact hid
    · rw [(h.isOf a model (Table.mem_of_lookup ha) m hm).id,
        (h.isOf b model' (Table.mem_of_lookup hb) m' hm').id, hroot]
  nodup_moduleIds := h.nodup_moduleIds
  isOf _ hm := h.isOf_of_mem_indexed hm
  registering_of_error _ _ he := registering_of_error he

/-- The indexes agree after any calls, of which some may have failed. A registry
without models is where the induction on the calls begins. -/
theorem consistent_after_calls (t : Tree) (limits : Limits) (requests : List Request) :
    (requests.foldl after { tree := t, limits := limits }).Consistent :=
  foldl_after (Consistent.empty t limits) (fun _ _ => Consistent.changes) requests

/-- After any calls, of which some may have failed, over the tree of any
statements the indexes of a registry agree, and a registration that fails
changes none of them. -/
theorem indexes_after_calls (statements : List Statement) (limits : Limits)
    (requests : List Request) :
    Indexes (statements.foldl Tree.after {})
      (requests.foldl after { tree := statements.foldl Tree.after {}, limits := limits }) := by
  have hconsistent := consistent_after_calls (statements.foldl Tree.after {}) limits requests
  have hindexes := hconsistent.indexes
  rwa [tree_foldl_after] at hindexes

end Registry

end Yang
