import Yang.Proofs.Codec.Conforming
import Yang.Proofs.Schema.Forest
import Yang.Proofs.Success
import Yang.Proofs.Table
import Yang.Proofs.Typing

/-!
# Where data nodes stand

Both decoders find the schema node of a data node in the context of a parent and give it
the form that the kind of the schema node prescribes, so the data node stands below the
parent. The value of a leaf is one that its type gives to some literal.
-/

namespace Yang

namespace Schema.Tree

variable {t : Tree}

theorem Sound.entry?_of_dataChild? (h : t.Sound) {i : NodeId} {name : String} {ns : Option String}
    {e : ContextEntry} (he : t.dataChild? i name ns = some e) :
    t.name e.node = name ∧ (∀ uri ∈ ns, t.ns e.node = uri) ∧
      t.entry? i ⟨t.name e.node, t.ns e.node⟩ = some e := by
  rw [dataChild?] at he
  obtain ⟨⟨id, _⟩, hmem, rfl⟩ := List.mem_map.mp (List.mem_of_find?_eq_some he)
  obtain ⟨hname, hns⟩ := h.name_ns_of_mem hmem
  have hfound := List.find?_some he
  rw [Bool.and_eq_true, beq_iff_eq, Option.all_eq_true] at hfound
  refine ⟨hfound.1, ?_, ?_⟩
  · intro uri huri
    exact beq_iff_eq.mp (hfound.2 uri huri)
  · rw [hname, hns]
    exact (Table.lookup_eq_some_iff (h.nodup i)).mpr hmem

/-- The namespace of an entry is that of a module. -/
theorem Sound.exists_module (h : t.Sound) {i : NodeId} {id : SchemaId} {e : ContextEntry}
    (he : t.entry? i id = some e) : ∃ m, t.kind? m = some .module ∧ t.ns m = id.ns := by
  obtain ⟨o, _, ho, rfl, _⟩ := (h.mem_context_iff _ _ _).mp (Tree.mem_context_of_entry? he)
  exact ⟨t.moduleOf e.node, h.rooted.ns_moduleOf ho⟩

theorem Sound.exists_kind (h : t.Sound) {i : NodeId} {id : SchemaId} {e : ContextEntry}
    (he : t.entry? i id = some e) : ∃ kind, t.kind? e.node = some kind := by
  obtain ⟨n, hn, -, -⟩ := ((h.mem_context_iff _ _ _).mp (Tree.mem_context_of_entry? he)).data
  exact ⟨n.kind, kind?_of_node? hn⟩

end Schema.Tree

namespace Codec

open Schema Instance

/-- The type of a schema node gives the value to some literal. Which ranges it
passed and which member of a union gave it is told by the derivation. -/
def Produced (c : Context) (i : NodeId) (v : Value) : Prop :=
  ∃ type raw, c.type? i = some type ∧ type.read raw c.limits = .ok v ∧
    type.Gives c.limits raw 0 v

variable {c : Context} {fits : NodeId → Value → Prop} {parent i : NodeId} {id : SchemaId}
  {e : ContextEntry} {children : List DataNode} {n : DataNode} {raw : String} {v : Value}

theorem id_of_entry? (sound : c.tree.Sound) (he : c.tree.entry? parent id = some e) :
    c.id e.node = id := by
  obtain ⟨hname, hns⟩ := sound.name_ns_of_mem (Tree.mem_context_of_entry? he)
  rw [Context.id, hname, hns]

theorem leafValue_eq_ok_iff :
    c.leafValue i raw = .ok v ↔ ∃ type, c.type? i = some type ∧ type.read raw c.limits = .ok v := by
  rw [Context.leafValue]
  cases c.type? i <;> simp

/-- The value of a leaf is one that its type gives, if it was read within the
limits of the codec. -/
theorem produced_of_leafValue (h : c.leafValue i raw = .ok v) : Produced c i v := by
  obtain ⟨type, htype, hread⟩ := leafValue_eq_ok_iff.mp h
  exact ⟨type, raw, htype, hread, TypeSpec.gives_of_read hread⟩

theorem exists_leaves_of_listEntryKey {key : Key} (h : c.listEntryKey i children = .ok key) :
    ∃ leaves, key = .listEntry (c.id i) leaves := by
  simp only [Context.listEntryKey, bind_eq_ok_iff, pure_eq_ok_iff] at h
  obtain ⟨-, -, leaves, -, rfl⟩ := h
  exact ⟨leaves, rfl⟩

/-- The node of a literal stands where its schema node has an entry. -/
theorem Stands.of_valueNode (sound : c.tree.Sound) (he : c.tree.entry? parent id = some e)
    (hkind : c.tree.kind? e.node = some .leaf ∨ c.tree.kind? e.node = some .leafList)
    (h : c.valueNode e.node raw = .ok n) : n.id = id ∧ Stands c (Produced c) parent n := by
  simp only [Context.valueNode, bind_eq_ok_iff] at h
  obtain ⟨v, hv, h⟩ := h
  have hid := id_of_entry? sound he
  rw [hid] at h
  split at h
  · rename_i hleafList
    obtain rfl := pure_eq_ok_iff.mp h
    exact ⟨rfl, .leafListEntry he hleafList (produced_of_leafValue hv)⟩
  · rename_i hleaf
    obtain rfl := pure_eq_ok_iff.mp h
    exact ⟨rfl, .leaf he (hkind.resolve_right hleaf) (produced_of_leafValue hv)⟩

/-- The node of children stands where its schema node has an entry. If this is a
list, its key comes from the children. -/
theorem Stands.of_innerNode (sound : c.tree.Sound) (he : c.tree.entry? parent id = some e)
    (hkind : ¬(c.tree.kind? e.node = some .leaf ∨ c.tree.kind? e.node = some .leafList))
    (below : ∀ child ∈ children, Stands c fits e.node child)
    (h : c.innerNode e.node children = .ok n) : n.id = id ∧ Stands c fits parent n := by
  have hid := id_of_entry? sound he
  rw [Context.innerNode] at h
  split at h
  · rename_i hlist
    simp only [bind_eq_ok_iff, pure_eq_ok_iff] at h
    obtain ⟨key, hkey, rfl⟩ := h
    obtain ⟨leaves, rfl⟩ := exists_leaves_of_listEntryKey hkey
    rw [hid] at hkey ⊢
    exact ⟨rfl, .listEntry he hlist hkey below⟩
  · rename_i hlist
    obtain rfl := pure_eq_ok_iff.mp h
    obtain ⟨kind, hk⟩ := sound.exists_kind he
    rw [hid]
    rw [hk, Option.some.injEq, Option.some.injEq, not_or] at hkind
    rw [hk, Option.some.injEq] at hlist
    exact ⟨rfl, .inner he hk ⟨hkind.1, hkind.2, hlist⟩ below⟩

end Codec

end Yang
