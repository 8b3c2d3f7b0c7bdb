import Yang.Proofs.Registry.Anydata

/-!
# Removing a model

A model that is removed right after its registration leaves the indexes as they were before it.
That it takes away its own modules and no others rests on the agreement of the two indexes: no
module in the index has a model as its owner that is not registered. All the while the other
models and their modules are found as before.
-/

namespace Yang

open Schema

namespace Registry

variable {r : Registry} {p : Registration} {model : Model} {modules : List Module}

theorem unregister_of_unknown {id : String} (h : r.model? id = none) :
    r.unregister id = (none, r) := by
  rw [unregister, h]

theorem module?_of_qualified? {id : ModuleId} {m : Module} (h : r.qualified? id.text = some m) :
    r.module? id = some m := by
  rw [module?, h]

/-- A module that a model lists is found by its qualified name and by its
identifier. The identifier has its revision, if the module has one. -/
theorem Consistent.finds (h : r.Consistent) {id : String} (hmodel : r.model? id = some model)
    {m : Module} (hm : m ∈ model.modules) :
    r.module? m.id = some m ∧ r.qualified? m.id.text = some m := by
  have hqualified : r.qualified? m.id.text = some m := by
    rw [qualified?, h.indexes.indexed id model hmodel m hm]
    rfl
  exact ⟨module?_of_qualified? hqualified, hqualified⟩

/-- The names of other modules lead where they did before the model was added.
Only the qualified names count here, not those without revision. -/
theorem qualified?_withModel {key : String} (h : ∀ m ∈ model.modules, m.id.text ≠ key) :
    (r.withModel model).qualified? key = r.qualified? key := by
  rw [qualified?, lookup_index_withModel, lookup_entries_eq_none_iff.mpr h, Option.or_none,
    qualified?]

theorem model?_withModel_of_ne {id : String} (h : id ≠ model.id) :
    (r.withModel model).model? id = r.model? id := by
  rw [model?_withModel, if_neg h, Option.or_none]

theorem Consistent.belongsTo_of_free (h : r.Consistent) (free : r.model? model.id = none)
    {key : String} {m : IndexedModule} (hentry : (key, m) ∈ r.index) :
    belongsTo model key m = false := by
  obtain ⟨known, hknown, -⟩ := (h.mem_index_iff key m.module m.owner).mp hentry
  have howner : m.owner ≠ model.id := by
    intro hsame
    rw [hsame] at hknown
    exact Table.lookup_eq_none_iff.mp free (List.mem_map_of_mem hknown)
  rw [belongsTo, beq_eq_false_iff_ne.mpr howner, Bool.false_and]

theorem belongsTo_of_mem {m : Module} (hm : m ∈ model.modules) :
    belongsTo model m.id.text ⟨m, model.id⟩ = true := by
  rw [belongsTo, Bool.and_eq_true, beq_iff_eq, List.any_eq_true]
  exact ⟨rfl, m, hm, beq_self_eq_true _⟩

/-- Removing the model that was added last takes its entries out of the indexes
again, and what is registered below its anydata nodes. As the model was not
there before, nothing else is concerned. -/
theorem Consistent.unregister_withModel (h : r.Consistent) (free : r.model? model.id = none) :
    (r.withModel model).unregister model.id =
      (some model,
        { r with anydata := r.anydata.filter fun (i, _) => !r.isWrittenIn model i }) := by
  have hmodel : (r.withModel model).model? model.id = some model := by
    rw [model?_withModel, free, if_pos rfl, Option.none_or]
  have hmodels : (r.withModel model).models.filter (fun entry => entry.1 != model.id) =
      r.models := by
    apply Table.filter_append_eq_left
    · rintro ⟨key, known⟩ hknown
      rw [bne_iff_ne]
      rintro rfl
      exact Table.lookup_eq_none_iff.mp free (List.mem_map_of_mem hknown)
    · intro entry hentry
      rw [List.mem_singleton.mp hentry]
      exact bne_self_eq_false _
  have hindex : (r.withModel model).index.filter (fun entry => !belongsTo model entry.1 entry.2) =
      r.index := by
    apply Table.filter_append_eq_left
    · rintro ⟨key, m⟩ hentry
      exact congrArg not (h.belongsTo_of_free free hentry)
    · rw [List.forall_mem_map]
      intro m hm
      exact congrArg not (belongsTo_of_mem hm)
  rw [Registry.unregister, hmodel]
  exact congrArg₂
    (fun models index =>
      (some model,
        { r with
          models := models
          index := index
          anydata := r.anydata.filter fun entry => !r.isWrittenIn model entry.1 }))
    hmodels hindex

/-- A model that is removed right after its registration is given back, and both
indexes are as they were before; removing it again, or a model that is not
there, changes nothing. Before, between and after the two calls every other
model is found, its modules by their identifiers and by their qualified names,
and all other qualified names lead to the same modules. Below the anydata nodes
that others own everything stays as well. -/
theorem unregister_after_register (t : Tree) (limits : Limits) (requests : List Request)
    {before between : Registry}
    (reached : requests.foldl Registry.after { tree := t, limits := limits } = before)
    (registered : before.registering p = (.ok model, between)) :
    ∃ after, between.unregister p.model = (some model, after) ∧
      after.models = before.models ∧ after.index = before.index ∧
      (∀ location entries, (location, entries) ∈ after.anydata ↔
        (location, entries) ∈ before.anydata ∧ ¬model.Owns t location) ∧
      after.unregister p.model = (none, after) ∧
      (∀ (s : Registry) (id : String), s.model? id = none → s.unregister id = (none, s)) ∧
      ∀ s ∈ [before, between, after],
        (∀ key, (∀ m ∈ model.modules, m.id.text ≠ key) →
          s.qualified? key = before.qualified? key) ∧
        ∀ id ≠ p.model, s.model? id = before.model? id ∧
          ∀ other, before.model? id = some other →
            ∀ m ∈ other.modules, s.module? m.id = some m ∧ s.qualified? m.id.text = some m := by
  have hbefore : before.Consistent := by
    rw [← reached]
    exact consistent_after_calls t limits requests
  obtain ⟨-, modules, admits, rfl, rfl⟩ := registering_eq_ok_iff.mp registered
  have htree : (before.withModel ⟨p.model, modules⟩).tree = t := by
    rw [← reached]
    exact tree_foldl_after requests
  have hremoved : (before.withModel ⟨p.model, modules⟩).unregister p.model = _ :=
    hbefore.unregister_withModel admits.free
  have hbetween := hbefore.withModel admits
  have hmodel : (before.withModel ⟨p.model, modules⟩).model? p.model =
      some ⟨p.model, modules⟩ := model?_of_unregister hremoved
  refine ⟨_, hremoved, rfl, rfl, ?_, ?_, fun _ _ => unregister_of_unknown, ?_⟩
  · intro location entries
    have hkept : (location, entries) ∈
        ((before.withModel ⟨p.model, modules⟩).unregister p.model).2.anydata ↔ _ :=
      mem_anydata_unregister_iff hmodel
    rw [hremoved, htree] at hkept
    exact hkept
  · exact unregister_of_unknown admits.free
  · -- All three registries are consistent, so what their models list is found in their indexes.
    refine List.forall_mem_cons.mpr ⟨?before, List.forall_mem_cons.mpr
      ⟨?between, List.forall_mem_singleton.mpr ?after⟩⟩
    case before =>
      exact ⟨fun _ _ => rfl, fun id _ => ⟨rfl, fun other hother m hm => hbefore.finds hother hm⟩⟩
    case between =>
      refine ⟨fun _ => qualified?_withModel, fun id hid => ?_⟩
      have hsame : (before.withModel ⟨p.model, modules⟩).model? id = before.model? id :=
        model?_withModel_of_ne hid
      exact ⟨hsame, fun other hother m hm => hbetween.finds (hsame.trans hother) hm⟩
    case after =>
      have hafter := hbetween.unregister hmodel
      rw [hremoved] at hafter
      exact ⟨fun _ _ => rfl, fun id _ => ⟨rfl, fun other hother m hm => hafter.finds hother hm⟩⟩

def shopAlone : Registry :=
  [Request.register ⟨"shop", [⟨"store", none⟩]⟩].foldl after { tree := bureau }

def deskRegistration : Registration := ⟨"desk", [⟨"office", none⟩]⟩

def shopAndDesk : Registry := (shopAlone.registering deskRegistration).2

/-- The model of the memos comes and goes, and the module of the notes is found
all the while. -/
theorem unregister_after_register_desk :
    shopAlone.registering deskRegistration = (.ok desk, shopAndDesk) ∧
      ∃ after, shopAndDesk.unregister "desk" = (some desk, after) ∧
        after.models = shopAlone.models ∧ after.index = shopAlone.index ∧
        after.unregister "desk" = (none, after) ∧
        ∀ s ∈ [shopAlone, shopAndDesk, after],
          s.module? ⟨"store", none⟩ = some ⟨⟨"store", none⟩, "urn:store", 0⟩ := by
  have hmodel : (shopAlone.registering deskRegistration).1 = .ok desk := by decide +kernel
  have hregistered : shopAlone.registering deskRegistration = (.ok desk, shopAndDesk) :=
    Prod.ext hmodel rfl
  obtain ⟨after, hremoved, hmodels, hindex, -, hagain, -, hothers⟩ :=
    unregister_after_register bureau {} [.register ⟨"shop", [⟨"store", none⟩]⟩] rfl hregistered
  have hshop : shopAlone.model? "shop" = some shop := by decide +kernel
  refine ⟨hregistered, after, hremoved, hmodels, hindex, hagain, fun s hs => ?_⟩
  have hother := (hothers s hs).2 "shop" (by decide)
  exact (hother.2 shop hshop _ (List.mem_singleton_self _)).1

end Registry

end Yang
