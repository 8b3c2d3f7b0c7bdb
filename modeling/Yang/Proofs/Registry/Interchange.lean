import Yang.Proofs.Registry.Consistency

/-!
# The order of registrations

Two registrations that succeed one after the other succeed in the other order as well, with the
same models and the same indexes. Which modules a registration means depends on the schema tree
alone. What stands against it can only be a model of its id or a module of a name of its own, and
if none is in the registry with the other model, then none is in the registry without it.
-/

namespace Yang

open Schema

namespace Registry

variable {r : Registry} {p q : Registration} {a b model : Model} {modules : List Module}

/-- No module of the one model has its qualified name in common with one of the
other. -/
def Apart (a b : Model) : Prop := ∀ m ∈ a.modules, ∀ m' ∈ b.modules, m.id.text ≠ m'.id.text

theorem Apart.symm (h : Apart a b) : Apart b a := fun m hm m' hm' => (h m' hm' m hm).symm

/-- The two registries hold the same entries, whatever the order in which they
came, and find the same models and modules. The tables themselves are not equal,
as they keep the order of the calls. -/
structure SameEntries (r s : Registry) : Prop where
  tree_eq : s.tree = r.tree
  limits_eq : s.limits = r.limits
  models_perm : s.models.Perm r.models
  index_perm : s.index.Perm r.index
  anydata_eq : s.anydata = r.anydata
  model?_eq : ∀ id, s.model? id = r.model? id
  lookup_index_eq : ∀ key, s.index.lookup key = r.index.lookup key

theorem lookup_index_withModel_eq_none_iff {key : String} :
    (r.withModel model).index.lookup key = none ↔
      r.index.lookup key = none ∧ ∀ m ∈ model.modules, m.id.text ≠ key := by
  rw [lookup_index_withModel, Option.or_eq_none_iff, lookup_entries_eq_none_iff]

theorem model?_withModel_eq_none_iff {id : String} :
    (r.withModel model).model? id = none ↔ r.model? id = none ∧ id ≠ model.id := by
  rw [model?_withModel, Option.or_eq_none_iff]
  refine and_congr_right fun _ => ?_
  split <;> simp_all

/-- A registration can be met beside one more model exactly if it can be met
without it and shares neither the id nor a module with it. The condition is the
same from both sides, which is why calls can change places. -/
theorem admits_withModel_iff :
    (r.withModel model).Admits p modules ↔
      r.Admits p modules ∧ p.model ≠ model.id ∧ Apart ⟨p.model, modules⟩ model := by
  constructor
  · rintro ⟨located, free, fresh, distinct⟩
    obtain ⟨hfree, hid⟩ := model?_withModel_eq_none_iff.mp free
    have hfresh := fun m hm => lookup_index_withModel_eq_none_iff.mp (fresh m hm)
    exact ⟨⟨located, hfree, fun m hm => (hfresh m hm).1, distinct⟩, hid,
      fun m hm m' hm' => ((hfresh m hm).2 m' hm').symm⟩
  · rintro ⟨⟨located, free, fresh, distinct⟩, hid, apart⟩
    refine ⟨located, model?_withModel_eq_none_iff.mpr ⟨free, hid⟩, fun m hm => ?_, distinct⟩
    exact lookup_index_withModel_eq_none_iff.mpr
      ⟨fresh m hm, fun m' hm' => (apart m hm m' hm').symm⟩

section Tables

variable {α : Type}

theorem or_right_comm {x y z : Option α} (h : y = none ∨ z = none) :
    (x.or y).or z = (x.or z).or y := by
  rcases h with rfl | rfl <;> rw [Option.or_none, Option.or_none]

theorem perm_append_right_comm (t u v : List α) : (t ++ u ++ v).Perm (t ++ v ++ u) := by
  rw [List.append_assoc, List.append_assoc]
  exact List.perm_append_comm.append_left t

end Tables

/-- Two models that have nothing in common can be added in either order. -/
theorem sameEntries_withModel (hid : a.id ≠ b.id) (apart : Apart a b) :
    SameEntries ((r.withModel a).withModel b) ((r.withModel b).withModel a) where
  tree_eq := rfl
  limits_eq := rfl
  models_perm := perm_append_right_comm ..
  index_perm := perm_append_right_comm ..
  anydata_eq := rfl
  model?_eq id := by
    have hone : (if id = b.id then some b else none) = none ∨
        (if id = a.id then some a else none) = none := by
      by_cases h : id = b.id
      · right
        apply if_neg
        rw [h]
        exact hid.symm
      · exact .inl (if_neg h)
    simp only [model?_withModel]
    exact or_right_comm hone
  lookup_index_eq key := by
    have hone : (b.modules.map (entryOf b.id)).lookup key = none ∨
        (a.modules.map (entryOf a.id)).lookup key = none := by
      by_cases h : ∀ m ∈ b.modules, m.id.text ≠ key
      · exact .inl (lookup_entries_eq_none_iff.mpr h)
      · right
        obtain ⟨m', hm', rfl⟩ : ∃ m' ∈ b.modules, m'.id.text = key := by simpa using h
        exact lookup_entries_eq_none_iff.mpr fun m hm => apart m hm m' hm'
    simp only [lookup_index_withModel]
    exact or_right_comm hone

/-- If one registration succeeds after another, then both succeed in the other
order. They give the same models, and both indexes end up with the same entries. -/
theorem registering_comm {first second : Registry} (hp : r.registering p = (.ok a, first))
    (hq : first.registering q = (.ok b, second)) :
    ∃ first' second', r.registering q = (.ok b, first') ∧
      first'.registering p = (.ok a, second') ∧ SameEntries second second' := by
  obtain ⟨hlegalp, modules, hadmitsp, rfl, rfl⟩ := registering_eq_ok_iff.mp hp
  obtain ⟨hlegalq, others, hadmitsq, rfl, rfl⟩ := registering_eq_ok_iff.mp hq
  obtain ⟨halone, hid, apart⟩ := admits_withModel_iff.mp hadmitsq
  -- The two models have nothing in common, and that does not depend on which one comes first.
  have hbeside : (r.withModel ⟨q.model, others⟩).Admits p modules :=
    admits_withModel_iff.mpr ⟨hadmitsp, hid.symm, apart.symm⟩
  exact ⟨_, _, registering_eq_ok_iff.mpr ⟨hlegalq, others, halone, rfl, rfl⟩,
    registering_eq_ok_iff.mpr ⟨hlegalp, modules, hbeside, rfl, rfl⟩,
    sameEntries_withModel hid.symm apart.symm⟩

/-- Two revisions of a store, the newer one declared first, and an office. -/
def editions : Tree :=
  [.module "store" "urn:store" "s" (some "2025-06-30"),
    .module "store" "urn:store" "s" (some "2024-01-31"),
    .module "office" "urn:office" "o" none].foldl Tree.after {}

def oldShop : Registration := ⟨"shop", [⟨"store", some "2024-01-31"⟩]⟩

/-- The registration of a model with the office and the newest store, which it
names twice. -/
def newDesk : Registration :=
  ⟨"desk", [⟨"store", none⟩, ⟨"office", none⟩, ⟨"store", some "2025-06-30"⟩]⟩

def oldShopModel : Model :=
  ⟨"shop", [⟨⟨"store", some "2024-01-31"⟩, "urn:store", 1⟩]⟩

def newDeskModel : Model :=
  ⟨"desk", [⟨⟨"store", some "2025-06-30"⟩, "urn:store", 0⟩, ⟨⟨"office", none⟩, "urn:office", 2⟩]⟩

def withOldShop : Registry := (registering { tree := editions } oldShop).2

def withBothStores : Registry := (withOldShop.registering newDesk).2

/-- The two stores are registered in either order. -/
theorem registering_comm_stores :
    registering { tree := editions } oldShop = (.ok oldShopModel, withOldShop) ∧
      withOldShop.registering newDesk = (.ok newDeskModel, withBothStores) ∧
      ∃ first second, registering { tree := editions } newDesk = (.ok newDeskModel, first) ∧
        first.registering oldShop = (.ok oldShopModel, second) ∧
        SameEntries withBothStores second := by
  have hshop : (registering { tree := editions } oldShop).1 = .ok oldShopModel := by
    decide +kernel
  have hdesk : (withOldShop.registering newDesk).1 = .ok newDeskModel := by decide +kernel
  have hfirst : registering { tree := editions } oldShop = (.ok oldShopModel, withOldShop) :=
    Prod.ext hshop rfl
  have hsecond : withOldShop.registering newDesk = (.ok newDeskModel, withBothStores) :=
    Prod.ext hdesk rfl
  exact ⟨hfirst, hsecond, registering_comm hfirst hsecond⟩

end Registry

end Yang
