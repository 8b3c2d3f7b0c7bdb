import Yang.Proofs.Success
import Yang.Proofs.Table
import Yang.Registry

/-!
# What the calls of a registry do

A registration either fails and leaves the registry as it was, or it adds a model whose
modules are all new. That a failing one leaves nothing behind is not obvious: modules are
entered into the index one by one, and those before a conflict have to be taken out again.
The lemmas here say once what each call can do, so that no later proof follows its steps.
-/

namespace Yang

namespace Registry

open Schema

def entryOf (owner : String) (m : Module) : String × IndexedModule := (m.id.text, ⟨m, owner⟩)

section Entering

variable (owner : String) (index : List (String × IndexedModule)) (modules : List Module)

/-- Entering further modules after some takes all of them out again, or adds
all. The modules entered before are part of the statement, since a failure takes
them out as well. -/
theorem enterAll_append {entered : List Module}
    (fresh : ∀ m ∈ entered, index.lookup m.id.text = none)
    (distinct : (entered.map fun m => m.id.text).Nodup) :
    (∃ e, enterAll owner (entered.map fun m => m.id.text)
        (index ++ entered.map (entryOf owner)) modules = (.error e, index)) ∨
      enterAll owner (entered.map fun m => m.id.text)
          (index ++ entered.map (entryOf owner)) modules =
        (.ok (), index ++ (entered ++ modules).map (entryOf owner)) ∧
      (∀ m ∈ modules, index.lookup m.id.text = none) ∧
      ((entered ++ modules).map fun m => m.id.text).Nodup := by
  induction modules generalizing entered with
  | nil =>
      right
      rw [enterAll, List.append_nil]
      exact ⟨rfl, List.forall_mem_nil _, distinct⟩
  | cons m modules ih =>
      rw [enterAll]
      cases hknown : (index ++ entered.map (entryOf owner)).lookup m.id.text with
      | some known =>
          left
          refine ⟨_, congrArg (Prod.mk _) (Table.foldl_erase_append ?_ ?_)⟩
          · intro key hkey
            obtain ⟨m', hm', rfl⟩ := List.mem_map.mp hkey
            exact fresh m' hm'
          · intro entry hentry
            obtain ⟨m', hm', rfl⟩ := List.mem_map.mp hentry
            exact List.mem_map_of_mem hm'
      | none =>
          rw [List.lookup_append, Option.or_eq_none_iff] at hknown
          obtain ⟨hindex, hentered⟩ := hknown
          have hnew : m.id.text ∉ entered.map fun m => m.id.text := by
            rw [Table.lookup_eq_none_iff, List.map_map] at hentered
            exact hentered
          have hfresh : ∀ m' ∈ entered ++ [m], index.lookup m'.id.text = none := by
            intro m' hm'
            rcases List.mem_append.mp hm' with hm' | hm'
            · exact fresh m' hm'
            · rw [List.mem_singleton.mp hm']
              exact hindex
          have hdistinct : ((entered ++ [m]).map fun m => m.id.text).Nodup := by
            rw [List.map_append]
            exact List.nodup_append'.mpr ⟨distinct, List.nodup_singleton _,
              List.disjoint_singleton.mpr hnew⟩
          have hstep := ih hfresh hdistinct
          rw [List.map_append, List.map_append, ← List.append_assoc] at hstep
          simp only [List.map_cons, List.map_nil] at hstep
          rw [List.append_assoc entered, List.singleton_append] at hstep
          rcases hstep with hfails | ⟨hok, hfresh, hdistinct⟩
          · exact .inl hfails
          · exact .inr ⟨hok, List.forall_mem_cons.mpr ⟨hindex, hfresh⟩, hdistinct⟩

/-- Entering modules leaves the index as it was, or adds all of them, and then
they are new and different. -/
theorem enterAll_cases :
    (∃ e, enterAll owner [] index modules = (.error e, index)) ∨
      enterAll owner [] index modules = (.ok (), index ++ modules.map (entryOf owner)) ∧
      (∀ m ∈ modules, index.lookup m.id.text = none) ∧
      (modules.map fun m => m.id.text).Nodup := by
  have h := enterAll_append owner index modules (List.forall_mem_nil _) List.nodup_nil
  rwa [List.map_nil, List.map_nil, List.append_nil, List.nil_append] at h

variable {index modules}

theorem enterAll_of_fresh (entered : List String)
    (fresh : ∀ m ∈ modules, index.lookup m.id.text = none)
    (distinct : (modules.map fun m => m.id.text).Nodup) :
    enterAll owner entered index modules = (.ok (), index ++ modules.map (entryOf owner)) := by
  induction modules generalizing entered index with
  | nil => rw [enterAll, List.map_nil, List.append_nil]
  | cons m modules ih =>
      obtain ⟨hfirst, hrest⟩ := List.forall_mem_cons.mp fresh
      obtain ⟨hother, hdistinct⟩ := List.nodup_cons.mp distinct
      have hfresh : ∀ m' ∈ modules,
          (index ++ [entryOf owner m]).lookup m'.id.text = none := by
        intro m' hm'
        rw [List.lookup_append, hrest m' hm', Option.none_or, Table.lookup_eq_none_iff]
        intro hmem
        have hsame : m'.id.text = m.id.text := List.mem_singleton.mp hmem
        exact hother (List.mem_map.mpr ⟨m', hm', hsame⟩)
      rw [enterAll, hfirst]
      refine (ih _ hfresh hdistinct).trans ?_
      rw [List.append_assoc, List.singleton_append, List.map_cons]

end Entering

theorem locate_eq_ok_iff {r : Registry} {model : String} {id : ModuleId} {m : Module} :
    r.locate model id = .ok m ↔
      ∃ root, r.tree.findModule? id.name id.revision = some root ∧
        Module.mk ⟨id.name, r.tree.revision? root⟩ (r.tree.ns root) root = m := by
  rw [locate]
  cases r.tree.findModule? id.name id.revision <;> simp

/-- A registration can be met by some modules: they are in the tree, and nothing
of the model is there yet. -/
structure Admits (r : Registry) (p : Registration) (modules : List Module) : Prop where
  located : r.locateAll p.model p.modules = .ok modules
  free : r.model? p.model = none
  /-- The modules are not in the index yet, and no two of them have a name in common. -/
  fresh : ∀ m ∈ modules, r.index.lookup m.id.text = none
  distinct : (modules.map fun m => m.id.text).Nodup

def withModel (r : Registry) (model : Model) : Registry :=
  { r with
    models := r.models ++ [(model.id, model)]
    index := r.index ++ model.modules.map (entryOf model.id) }

theorem model?_withModel (r : Registry) (model : Model) (id : String) :
    (r.withModel model).model? id =
      (r.model? id).or (if id = model.id then some model else none) := by
  rw [withModel, model?, List.lookup_append, Table.lookup_cons_eq_ite]
  rfl

theorem lookup_index_withModel (r : Registry) (model : Model) (key : String) :
    (r.withModel model).index.lookup key =
      (r.index.lookup key).or ((model.modules.map (entryOf model.id)).lookup key) :=
  List.lookup_append

theorem lookup_entries_eq_none_iff {owner : String} {modules : List Module} {key : String} :
    (modules.map (entryOf owner)).lookup key = none ↔ ∀ m ∈ modules, m.id.text ≠ key := by
  rw [Table.lookup_eq_none_iff, List.map_map, List.mem_map, not_exists]
  exact forall_congr' fun m => not_and

/-- A registration changes nothing, or adds the model that was asked for. There
is nothing in between that a later call could see. -/
theorem registering_cases (r : Registry) (p : Registration) :
    (∃ e, r.registering p = (.error e, r)) ∨
      ∃ modules, r.Admits p modules ∧
        r.registering p = (.ok ⟨p.model, modules⟩, r.withModel ⟨p.model, modules⟩) := by
  rw [registering]
  split
  · exact .inl ⟨_, rfl⟩
  split
  · exact .inl ⟨_, rfl⟩
  cases hlocated : r.locateAll p.model p.modules with
  | error e => exact .inl ⟨e, rfl⟩
  | ok modules =>
      cases hfree : r.model? p.model with
      | some known => exact .inl ⟨_, rfl⟩
      | none =>
          simp only [Option.isSome_none, Bool.false_eq_true, if_false]
          rcases enterAll_cases p.model r.index modules with ⟨e, hfails⟩ | ⟨hok, fresh, distinct⟩
          · rw [hfails]
            exact .inl ⟨e, rfl⟩
          · rw [hok]
            exact .inr ⟨modules, ⟨hlocated, hfree, fresh, distinct⟩, rfl⟩

/-- The id of the model is legal, and some modules are asked for. -/
def IsLegal (p : Registration) : Prop := Name.isModelId p.model = true ∧ p.modules ≠ []

/-- A registration succeeds exactly if it is legal and can be met by some
modules, and then it adds a model of these. Modules are named by their
identifiers and may be named twice. -/
theorem registering_eq_ok_iff {r r' : Registry} {p : Registration} {model : Model} :
    r.registering p = (.ok model, r') ↔
      IsLegal p ∧ ∃ modules, r.Admits p modules ∧ Model.mk p.model modules = model ∧
        r.withModel model = r' := by
  constructor
  · intro h
    have hlegal : IsLegal p := by
      rw [registering] at h
      split at h
      · cases h
      split at h
      · cases h
      rename_i hid hmodules
      exact ⟨by simpa using hid, by simpa using hmodules⟩
    rcases registering_cases r p with ⟨e, hfails⟩ | ⟨modules, admits, hok⟩
    · rw [hfails] at h
      cases h
    · rw [hok] at h
      obtain ⟨hmodel, rfl⟩ := Prod.mk.inj h
      obtain rfl := Except.ok.inj hmodel
      exact ⟨hlegal, modules, admits, rfl, rfl⟩
  · rintro ⟨⟨hid, hmodules⟩, modules, admits, rfl, rfl⟩
    have hempty : p.modules.isEmpty = false := by simpa using hmodules
    rw [registering, hid, hempty, admits.located, admits.free]
    simp only [Bool.not_true, Bool.false_eq_true, if_false, Option.isSome_none]
    rw [enterAll_of_fresh p.model [] admits.fresh admits.distinct]
    rfl

/-- A registration that fails leaves the registry as it was, though it may have
entered modules on the way. -/
theorem registering_of_error {r : Registry} {p : Registration} {e : Error}
    (h : (r.registering p).1 = .error e) : (r.registering p).2 = r := by
  rcases registering_cases r p with ⟨e', hfails⟩ | ⟨modules, -, hok⟩
  · rw [hfails]
  · rw [hok] at h
    cases h

/-- A registration below an anydata node succeeds exactly if all its paths are
resolved, the first one to an anydata node, and then it puts the nodes behind
those registered before. -/
theorem registerAnydata_eq_ok_iff {r r' : Registry} {path : Path} {paths : List Path} :
    r.registerAnydata path paths = .ok r' ↔
      ∃ target entries, r.resolve path = .ok target ∧
        r.tree.kindOf target.node = .ok .anydata ∧
        List.Forall₂ (fun p e => ∃ found, r.resolve p = .ok found ∧ found.forAnydata = e)
          paths entries ∧
        { r with
          anydata := Table.put target.node (entries.foldl addEntry (r.members target.node))
            r.anydata } = r' := by
  simp only [registerAnydata, bind_eq_ok_iff]
  refine exists_congr fun target => ?_
  constructor
  · rintro ⟨htarget, kind, hkind, h⟩
    split at h
    · simp at h
    · rename_i hanydata
      obtain rfl := not_not.mp hanydata
      simp only [bind_eq_ok_iff, pure_eq_ok_iff, mapM_eq_ok_iff] at h
      obtain ⟨entries, hentries, rfl⟩ := h
      exact ⟨entries, htarget, hkind, hentries, rfl⟩
  · rintro ⟨entries, htarget, hkind, hentries, rfl⟩
    refine ⟨htarget, _, hkind, ?_⟩
    simp only [ne_eq, not_true_eq_false, if_false, bind_eq_ok_iff, pure_eq_ok_iff, mapM_eq_ok_iff]
    exact ⟨entries, hentries, rfl⟩

theorem registerAnydata_eq_ok {r after : Registry} {location : Path} {paths : List Path}
    (h : r.registerAnydata location paths = .ok after) :
    ∃ anydata, after = { r with anydata := anydata } := by
  obtain ⟨_, _, -, -, -, rfl⟩ := registerAnydata_eq_ok_iff.mp h
  exact ⟨_, rfl⟩

inductive Request
  | register (p : Registration)
  | unregister (model : String)
  | registerAnydata (location : Path) (paths : List Path)

/-- The registry after a call, also when the call fails. -/
def after (r : Registry) : Request → Registry
  | .register p => (r.registering p).2
  | .unregister model => (r.unregister model).2
  | .registerAnydata location paths =>
    match r.registerAnydata location paths with
    | .ok r' => r'
    | .error _ => r

/-- What a call can do to a registry. A call that fails does nothing, and
registrations below anydata nodes keep to their own table. -/
inductive Changes (r : Registry) : Registry → Prop
  | none : Changes r r
  | registered {p : Registration} {modules : List Module} (admits : r.Admits p modules) :
      Changes r (r.withModel ⟨p.model, modules⟩)
  | unregistered {id : String} {model : Model} (hmodel : r.model? id = some model) :
      Changes r (r.unregister id).2
  | anydata (anydata : List (NodeId × List ContextEntry)) : Changes r { r with anydata := anydata }

/-- All that a call can do. Invariants of registries need not look at the
requests themselves. -/
theorem Changes.of_after (r : Registry) (request : Request) : r.Changes (r.after request) := by
  cases request with
  | register p =>
      rw [after]
      rcases registering_cases r p with ⟨e, hfails⟩ | ⟨modules, admits, hok⟩
      · rw [hfails]
        exact .none
      · rw [hok]
        exact .registered admits
  | unregister id =>
      rw [after]
      cases hmodel : r.model? id with
      | none =>
          rw [unregister, hmodel]
          exact .none
      | some model => exact .unregistered hmodel
  | registerAnydata location paths =>
      rw [after]
      split
      · rename_i hok
        obtain ⟨anydata, rfl⟩ := registerAnydata_eq_ok hok
        exact .anydata anydata
      · exact .none

/-- What holds at first and is kept by every change holds after any calls.
Invariants of registries are proved by this, from the changes and not from the
calls. -/
theorem foldl_after {r : Registry} {p : Registry → Prop} (first : p r)
    (step : ∀ s s', p s → s.Changes s' → p s') (requests : List Request) :
    p (requests.foldl after r) := by
  induction requests generalizing r with
  | nil => exact first
  | cons request rest ih => exact ih (step r _ first (.of_after r request))

end Registry

end Yang
