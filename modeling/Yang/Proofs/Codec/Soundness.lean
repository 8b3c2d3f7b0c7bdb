import Yang.Proofs.Codec.JsonRoundTrip
import Yang.Proofs.Codec.Payload
import Yang.Proofs.Codec.Standing

/-!
# What is decoded stands

Whatever a decoder accepts stands below the module that it looked up. A node of a JSON
text comes from a value inside the value of its parent, and the induction is on this
value; a node of an XML text comes from an element, and the induction is on the element
and its siblings. In both the schema node of a member or an element is an entry of the
context of its parent, whichever way the namespace was found.
-/

namespace Yang.Codec

open Schema Instance

variable {c : Context} {parent i : NodeId} {depth : Nat} {n : DataNode} {nodes : List DataNode}

namespace Json

open Yang.Json

variable {parentNs : Option String} {ns member : String} {v : Json.Value}
  {members : List (String × Json.Value)}

theorem exists_readNode_of_memberNodes (h : memberNodes c i ns depth member v = .ok nodes)
    (hn : n ∈ nodes) : ∃ w, readNode c i ns depth w = .ok n ∧ sizeOf w ≤ sizeOf v := by
  rw [memberNodes.eq_def] at h
  split at h
  · split at h
    · rename_i items
      obtain ⟨w, hw, hread⟩ := exists_mem_of_forall₂ (mapM_eq_ok_iff.mp h) hn
      refine ⟨w, hread, ?_⟩
      have hlt := List.sizeOf_lt_of_mem hw
      rw [Json.Value.array.sizeOf_spec]
      omega
    · cases h
  · obtain ⟨m, hm, rfl⟩ := map_eq_ok_iff.mp h
    obtain rfl := List.mem_singleton.mp hn
    exact ⟨v, hm, Nat.le_refl _⟩

/-- A node of an object comes from one of its members, from the value of the
member or from one of its items. The value is no larger than the member, so
inductions go through. -/
theorem exists_readNode_of_decodeMembers
    (h : decodeMembers c parent parentNs depth members = .ok nodes) (hn : n ∈ nodes) :
    ∃ member ∈ members, ∃ id i w, memberId c parentNs member.1 = .ok id ∧
      schemaNode c parent member.1 id = .ok i ∧ readNode c i id.ns depth w = .ok n ∧
      sizeOf w ≤ sizeOf member.2 := by
  induction members generalizing nodes with
  | nil =>
      rw [decodeMembers] at h
      obtain rfl := Except.ok.inj h
      cases hn
  | cons member rest ih =>
      obtain ⟨name, v⟩ := member
      rw [decodeMembers_cons] at h
      simp only [bind_eq_ok_iff, pure_eq_ok_iff] at h
      obtain ⟨id, hid, i, hi, group, hgroup, others, hothers, rfl⟩ := h
      rcases List.mem_append.mp hn with hn | hn
      · obtain ⟨w, hw, hsize⟩ := exists_readNode_of_memberNodes hgroup hn
        exact ⟨(name, v), List.mem_cons_self .., id, i, w, hid, hi, hw, hsize⟩
      · obtain ⟨member, hmember, hread⟩ := ih hothers hn
        exact ⟨member, List.mem_cons_of_mem _ hmember, hread⟩

theorem entry?_of_schemaNode (sound : c.tree.Sound) {id : SchemaId}
    (h : schemaNode c parent member id = .ok i) :
    ∃ e, c.tree.entry? parent id = some e ∧ e.node = i := by
  rw [schemaNode, sound.dataChild?_eq] at h
  split at h
  · rename_i e he
    exact ⟨e, he, Except.ok.inj h⟩
  · cases h

/-- The node that a value writes for a schema node stands where this has an
entry. The values in it are those that their types gave. -/
theorem stands_of_readNode (sound : c.tree.Sound) {id : SchemaId} {e : ContextEntry}
    (he : c.tree.entry? parent id = some e) (h : readNode c e.node ns depth v = .ok n) :
    n.id = id ∧ Stands c (Produced c) parent n := by
  induction hsize : sizeOf v using Nat.strongRecOn
    generalizing v parent id e ns depth n with
  | ind size ih =>
      subst hsize
      rw [readNode] at h
      split at h
      · rename_i hkind
        obtain ⟨raw, -, hnode⟩ := bind_eq_ok_iff.mp h
        exact Stands.of_valueNode sound he hkind hnode
      · rename_i hkind
        cases v with
        | object members =>
            simp only [decodeInner, bind_eq_ok_iff, exists_unit_iff] at h
            obtain ⟨-, children, hchildren, hnode⟩ := h
            refine Stands.of_innerNode sound he hkind ?_ hnode
            intro child hchild
            obtain ⟨member, hmember, id', i, w, -, hi, hw, hle⟩ :=
              exists_readNode_of_decodeMembers hchildren hchild
            obtain ⟨e', he', rfl⟩ := entry?_of_schemaNode sound hi
            have hlt := List.sizeOf_lt_of_mem hmember
            have hmemberSize : sizeOf member = 1 + sizeOf member.1 + sizeOf member.2 := rfl
            have hsmaller : sizeOf w < sizeOf (Json.Value.object members) := by
              rw [Json.Value.object.sizeOf_spec]
              omega
            exact (ih _ hsmaller he' hw rfl).2
        | _ => cases h

/-- A node at the top level stands below the newest module of a name, in the
namespace of this module. In JSON the module is looked up by the name before the
colon. -/
theorem exists_root_of_decodeTop (sound : c.tree.Sound) (h : decodeTop c member v = .ok nodes)
    (hn : n ∈ nodes) :
    ∃ module root, c.moduleByName? module = some root ∧ c.tree.ns root = n.id.ns ∧
      Stands c (Produced c) root n := by
  simp only [decodeTop, bind_eq_ok_iff, exists_unit_iff] at h
  obtain ⟨root, hroot, -, hnodes⟩ := h
  obtain ⟨_, hmember, id, i, w, hid, hi, hw, -⟩ := exists_readNode_of_decodeMembers hnodes hn
  obtain rfl := List.mem_singleton.mp hmember
  obtain ⟨e, he, rfl⟩ := entry?_of_schemaNode sound hi
  obtain ⟨rfl, hstands⟩ := stands_of_readNode sound he hw
  rw [topModule] at hroot
  rw [memberId] at hid
  split at hroot
  · cases hroot
  · rename_i module _ hcut
    simp only [hcut] at hid
    cases hmodule : c.moduleByName? module with
    | none =>
        rw [hmodule] at hroot
        cases hroot
    | some found =>
        rw [hmodule] at hroot hid
        obtain rfl := Except.ok.inj hroot
        exact ⟨module, found, hmodule, congrArg SchemaId.ns (Except.ok.inj hid), hstands⟩

theorem exists_root_of_decode (sound : c.tree.Sound) {text : String}
    (h : decode c text = .ok nodes) (hn : n ∈ nodes) :
    ∃ module root, c.moduleByName? module = some root ∧ c.tree.ns root = n.id.ns ∧
      Stands c (Produced c) root n := by
  rw [decode] at h
  split at h
  · rename_i v _
    rw [decodeValue.eq_def] at h
    split at h
    · simp only [bind_eq_ok_iff, pure_eq_ok_iff] at h
      obtain ⟨groups, hgroups, rfl⟩ := h
      obtain ⟨group, hgroup, hn⟩ := List.mem_flatten.mp hn
      obtain ⟨member, -, htop⟩ := exists_mem_of_forall₂ (mapM_eq_ok_iff.mp hgroups) hgroup
      exact exists_root_of_decodeTop sound htop hn
    · cases h
  · cases h

end Json

namespace Xml

open Yang.Xml

theorem isTerminal_iff : ((c.tree.kind? i).map NodeKind.isTerminal).getD false = true ↔
    c.tree.kind? i = some .leaf ∨ c.tree.kind? i = some .leafList := by
  cases c.tree.kind? i with
  | none => simp
  | some kind => cases kind <;> simp [NodeKind.isTerminal]

mutual

/-- The node that an element writes stands below the parent, in the namespace of
the element if it has one. An element without namespace takes the first entry of
its name. -/
theorem stands_of_decodeNode {c : Context} (sound : c.tree.Sound) {parent : NodeId} {depth : Nat}
    {n : DataNode} : ∀ x : Xml.Node, decodeNode c parent depth x = .ok (some n) →
      (∃ ns name children, x = .element ns name children ∧ ∀ uri ∈ ns, n.id.ns = uri) ∧
        Stands c (Produced c) parent n
  | .element ns name children, h => by
      simp only [decodeNode, bind_eq_ok_iff, exists_unit_iff] at h
      obtain ⟨-, h⟩ := h
      split at h
      · cases h
      · rename_i e hchild
        obtain ⟨-, hns, he⟩ := sound.entry?_of_dataChild? hchild
        split at h
        · rename_i hkind
          simp only [bind_eq_ok_iff, pure_eq_ok_iff, Option.some.injEq] at h
          obtain ⟨m, hm, rfl⟩ := h
          obtain ⟨hid, hstands⟩ := Stands.of_valueNode sound he (isTerminal_iff.mp hkind) hm
          refine ⟨⟨ns, name, children, rfl, ?_⟩, hstands⟩
          rwa [hid]
        · rename_i hkind
          simp only [bind_eq_ok_iff, pure_eq_ok_iff, Option.some.injEq] at h
          obtain ⟨found, hfound, m, hm, rfl⟩ := h
          obtain ⟨hid, hstands⟩ := Stands.of_innerNode sound he (mt isTerminal_iff.mpr hkind)
            (stands_of_decodeNodes sound children hfound) hm
          refine ⟨⟨ns, name, children, rfl, ?_⟩, hstands⟩
          rwa [hid]
  | .text _, h => by
      rw [decodeNode] at h
      · cases h
      · nofun
  | .aside, h => by
      rw [decodeNode] at h
      · cases h
      · nofun

theorem stands_of_decodeNodes {c : Context} (sound : c.tree.Sound) {parent : NodeId} {depth : Nat}
    {nodes : List DataNode} : ∀ xs : List Xml.Node, decodeNodes c parent depth xs = .ok nodes →
      ∀ n ∈ nodes, Stands c (Produced c) parent n
  | [], h, n, hn => by
      rw [decodeNodes] at h
      obtain rfl := Except.ok.inj h
      cases hn
  | x :: xs, h, n, hn => by
      simp only [decodeNodes, bind_eq_ok_iff, pure_eq_ok_iff] at h
      obtain ⟨first, hfirst, others, hothers, rfl⟩ := h
      rcases List.mem_append.mp hn with hn | hn
      · obtain rfl := Option.mem_toList.mp hn
        exact (stands_of_decodeNode sound x hfirst).2
      · exact stands_of_decodeNodes sound xs hothers n hn

end

/-- A node at the top level stands below the module of its namespace. In XML the
module is looked up by the namespace of the element. -/
theorem exists_root_of_decodeTop (sound : c.tree.Sound) {x : Xml.Node}
    (h : decodeTop c x = .ok (some n)) :
    ∃ root, c.moduleByNamespace? n.id.ns = some root ∧ Stands c (Produced c) root n := by
  rw [decodeTop.eq_def] at h
  split at h
  · split at h
    · cases h
    · rename_i uri
      split at h
      · cases h
      · rename_i root hroot
        obtain ⟨⟨_, _, _, heq, hns⟩, hstands⟩ := stands_of_decodeNode sound _ h
        obtain ⟨rfl, -, -⟩ := Node.element.inj heq
        rw [hns uri rfl]
        exact ⟨root, hroot, hstands⟩
  · cases h

theorem exists_root_of_decode (sound : c.tree.Sound) {text : String}
    (h : decode c text = .ok nodes) (hn : n ∈ nodes) :
    ∃ root, c.moduleByNamespace? n.id.ns = some root ∧ Stands c (Produced c) root n := by
  rw [decode] at h
  split at h
  · simp only [decodeRoot, bind_eq_ok_iff, pure_eq_ok_iff] at h
    obtain ⟨found, hfound, rfl⟩ := h
    obtain ⟨n?, hn?, hn⟩ := List.mem_flatMap.mp hn
    obtain rfl := Option.mem_toList.mp hn
    obtain ⟨x, -, htop⟩ := exists_mem_of_forall₂ (mapM_eq_ok_iff.mp hfound) hn?
    exact exists_root_of_decodeTop sound htop
  · cases h

end Xml

/-- How a codec finds the module of a node at the top level: by a name of a
module that has the namespace of the node, or by this namespace. -/
def LooksUp (codec : Codec) (c : Context) (n : DataNode) (root : NodeId) : Prop :=
  match codec with
  | .json _ => ∃ module, c.moduleByName? module = some root ∧ c.tree.ns root = n.id.ns
  | .xml => c.moduleByNamespace? n.id.ns = some root

/-- The module that a codec finds is one, whichever table it was looked up in. -/
theorem LooksUp.kind? {t : Tree} {limits : Limits} {codec : Codec} {root : NodeId}
    (reachable : t.Reachable) (h : codec.LooksUp (Context.ofTree t limits) n root) :
    t.kind? root = some .module := by
  cases codec with
  | json indented =>
      obtain ⟨module, hmodule, -⟩ := h
      rw [Context.moduleByName?_ofTree reachable.distinct] at hmodule
      exact (Context.mem_of_findModule? hmodule).1
  | xml => exact (Context.mem_of_moduleByNamespace? h).1

/-- Whatever a codec decodes stands below the modules that it looked up.
Payloads of any size or depth are covered, as only what is decoded counts. -/
theorem exists_root_of_decode {c : Context} (sound : c.tree.Sound) {codec : Codec} {s : Stream}
    {d : ResourceData} (h : codec.decode c s = .ok d) :
    d.resource = none ∧
      ∀ n ∈ d.nodes, ∃ root, codec.LooksUp c n root ∧ Stands c (Produced c) root n := by
  rw [decode] at h
  obtain ⟨text, -, h⟩ := bind_eq_ok_iff.mp h
  cases codec with
  | json indented =>
      obtain ⟨nodes, hnodes, h⟩ := bind_eq_ok_iff.mp h
      obtain rfl := pure_eq_ok_iff.mp h
      refine ⟨rfl, ?_⟩
      intro n hn
      obtain ⟨module, root, hmodule, hns, hstands⟩ := Json.exists_root_of_decode sound hnodes hn
      exact ⟨root, ⟨module, hmodule, hns⟩, hstands⟩
  | xml =>
      obtain ⟨nodes, hnodes, h⟩ := bind_eq_ok_iff.mp h
      obtain rfl := pure_eq_ok_iff.mp h
      exact ⟨rfl, fun n hn => Xml.exists_root_of_decode sound hnodes hn⟩

/-- Over the tree of any statements, whatever a codec decodes stands below the
schema: the nodes at the top level below the modules that the codec looked up,
and all others below their parents, with values that their types give to some
literal. -/
theorem decode_stands (statements : List Statement) (limits : Limits) (codec : Codec)
    (s : Stream) {d : ResourceData}
    (h : codec.decode (Context.ofTree (statements.foldl Tree.after {}) limits) s = .ok d) :
    d.resource = none ∧ ∀ n ∈ d.nodes, ∃ root,
      (statements.foldl Tree.after {}).kind? root = some .module ∧
      codec.LooksUp (Context.ofTree (statements.foldl Tree.after {}) limits) n root ∧
      Stands (Context.ofTree (statements.foldl Tree.after {}) limits)
        (Produced (Context.ofTree (statements.foldl Tree.after {}) limits)) root n := by
  have reachable := Tree.Reachable.empty.foldl_after statements
  obtain ⟨hresource, hroots⟩ := exists_root_of_decode (Context.sound_ofTree reachable limits) h
  refine ⟨hresource, ?_⟩
  intro n hn
  obtain ⟨root, hlooks, hstands⟩ := hroots n hn
  exact ⟨root, hlooks.kind? reachable, hlooks, hstands⟩

/-- An item of which one member is qualified and another one is not. -/
def newVaseValue : Yang.Json.Value :=
  .object [("store:item", .array [.object
    [("store:name", .string "vase"), ("tag", .array [.string "new"])]])]

def newVase : DataNode :=
  .inner (.listEntry ⟨"item", "urn:store"⟩ [⟨⟨"name", "urn:store"⟩, .text "vase"⟩])
    [.leaf (.plain ⟨"name", "urn:store"⟩) (.text "vase"),
      .leaf (.leafListEntry ⟨"tag", "urn:store"⟩ (.text "new")) (.text "new")]

theorem canonical_newVaseValue : newVaseValue.Canonical := by
  refine .object (List.pairwise_singleton _ _) ?_
  simp only [List.forall_mem_singleton]
  refine .array ?_
  simp only [List.forall_mem_singleton]
  refine .object (by decide) ?_
  simp only [List.forall_mem_cons]
  refine ⟨.string _, .array ?_, List.forall_mem_nil _⟩
  simp only [List.forall_mem_singleton]
  exact .string _

/-- The decoded item stands below its module, however its members are named. -/
theorem decode_stands_newVase :
    (json false).decode (Context.ofTree inventory {}) (Stream.ofText newVaseValue.compact none) =
        .ok { nodes := [newVase] } ∧
      ∀ n ∈ [newVase], ∃ root, inventory.kind? root = some .module ∧
        (json false).LooksUp (Context.ofTree inventory {}) n root ∧
        Stands (Context.ofTree inventory {}) (Produced (Context.ofTree inventory {})) root n := by
  have hread : Yang.Json.Value.read? newVaseValue.compact = some newVaseValue :=
    (Yang.Json.read?_compact canonical_newVaseValue).trans (if_pos (by decide))
  have hvalue : Json.decodeValue inventoryContext newVaseValue = .ok [newVase] := by
    decide +kernel
  have hdecode : (json false).decode (Context.ofTree inventory {})
      (Stream.ofText newVaseValue.compact none) = .ok { nodes := [newVase] } := by
    rw [decode_json_ofText, Json.decode, hread, ofTree_inventory]
    exact congrArg (ResourceData.mk none <$> ·) hvalue
  exact ⟨hdecode, (decode_stands _ {} _ _ hdecode).2⟩

end Yang.Codec
