import Yang.Codec.Json
import Yang.Proofs.Codec.Conforming
import Yang.Proofs.Codec.Context
import Yang.Proofs.Cut
import Yang.Proofs.Folding
import Yang.Proofs.Schema.Forest
import Yang.Proofs.Success

/-!
# The names of members

The name of a member is read back as the identifier for which it was written. This
rests on two facts: identifiers have no colon, so a qualified name is cut where it was
put together, and the names of modules stand for their namespaces one for one.
-/

namespace Yang

theorem Name.colon_notMem {s : String} (h : isIdentifier s = true) : ':' ∉ s.toList :=
  notMem_of_isIdentifier h rfl

namespace Schema.Tree

variable {t : Tree}

/-- An entry stands under an identifier whose name is one. -/
theorem Sound.isIdentifier_of_mem (h : t.Sound) {i : NodeId} {id : SchemaId} {e : ContextEntry}
    (he : (id, e) ∈ t.context i) : Name.isIdentifier id.name = true := by
  obtain ⟨o, _, ho, rfl, _⟩ := (h.mem_context_iff _ _ _).mp he
  exact Name.checkIdentifier_eq_ok_iff.mp (h.rooted e.node o ho).named

theorem Sound.isIdentifier_name (h : t.Sound) {i : NodeId} {k : NodeKind}
    (hk : t.kind? i = some k) : Name.isIdentifier (t.name i) = true := by
  obtain ⟨o, ho, _⟩ := exists_outline_of_kind? hk
  rw [name_eq, ho]
  exact Name.checkIdentifier_eq_ok_iff.mp (h.rooted i o ho).named

end Schema.Tree

namespace Codec.Json

open Schema

variable {t : Tree} {limits : Limits} {parentNs : Option String} {id : SchemaId} {name : String}

/-- The newest module of the name that qualifies an identifier has its
namespace. The name was found by the namespace, and is looked up by name when it
is read. -/
theorem exists_module_of_moduleNameFor (reachable : t.Reachable) (one : t.NamesNamespaces)
    {module ns : String} (h : (Context.ofTree t limits).moduleNameFor ns = .ok module) :
    ':' ∉ module.toList ∧
      ∃ root, (Context.ofTree t limits).moduleByName? module = some root ∧ t.ns root = ns := by
  rw [Context.moduleNameFor] at h
  split at h
  · rename_i m hm
    rw [Context.tree_ofTree] at h
    obtain rfl := Except.ok.inj h
    obtain ⟨hkind, rfl⟩ := Context.mem_of_moduleByNamespace? hm
    obtain ⟨root, hroot⟩ := Context.exists_findModule? hkind
    obtain ⟨hrootKind, hname⟩ := Context.mem_of_findModule? hroot
    refine ⟨Name.colon_notMem (reachable.sound.isIdentifier_name hkind), root, ?_, ?_⟩
    · rw [Context.moduleByName?_ofTree reachable.distinct, hroot]
    · exact (one root m hrootKind hkind).mp hname
  · cases h

/-- The name of a member is read back as the identifier. It is qualified exactly
where the namespace changes, so the parent tells the namespace of all other
names. -/
theorem memberId_memberName (reachable : t.Reachable) (one : t.NamesNamespaces)
    (hid : Name.isIdentifier id.name = true)
    (h : memberName (Context.ofTree t limits) parentNs id = .ok name) :
    memberId (Context.ofTree t limits) parentNs name = .ok id := by
  rw [memberName] at h
  split at h
  · rename_i hns
    obtain rfl := Except.ok.inj h
    simp only [memberId, Text.cutText?_eq_none (Name.colon_notMem hid), hns]
  · obtain ⟨module, hmodule, h⟩ := bind_eq_ok_iff.mp h
    obtain rfl := pure_eq_ok_iff.mp h
    obtain ⟨hcolon, root, hroot, hns⟩ := exists_module_of_moduleNameFor reachable one hmodule
    simp only [memberId, Text.cutText?_append hcolon, hroot, Context.tree_ofTree, hns]

/-- At the top level a name that is qualified by a module leads to its newest
revision. -/
theorem topModule_append (reachable : t.Reachable) {module : String} {root : NodeId}
    (hroot : t.findModule? module none = some root) (node : String) :
    topModule (Context.ofTree t limits) (module ++ ":" ++ node) = .ok root := by
  obtain ⟨hkind, rfl⟩ := Context.mem_of_findModule? hroot
  have hcolon := Name.colon_notMem (reachable.sound.isIdentifier_name hkind)
  simp only [topModule, Text.cutText?_append hcolon,
    Context.moduleByName?_ofTree reachable.distinct, hroot]

/-- At the top level the name of a member leads to the newest module of its
namespace. All names are qualified there, as no parent gives a namespace. -/
theorem topModule_memberName (reachable : t.Reachable) (one : t.NamesNamespaces)
    (h : memberName (Context.ofTree t limits) none id = .ok name) {module : String} {root : NodeId}
    (hroot : t.findModule? module none = some root) (hns : t.ns root = id.ns) :
    topModule (Context.ofTree t limits) name = .ok root := by
  rw [memberName, if_neg nofun] at h
  obtain ⟨qualifier, hqualifier, h⟩ := bind_eq_ok_iff.mp h
  obtain rfl := pure_eq_ok_iff.mp h
  obtain ⟨-, root', hroot', hns'⟩ := exists_module_of_moduleNameFor reachable one hqualifier
  rw [Context.moduleByName?_ofTree reachable.distinct] at hroot'
  obtain rfl := Context.findModule?_injective one hroot' hroot (hns'.trans hns.symm)
  exact topModule_append reachable hroot' id.name

end Codec.Json

end Yang
