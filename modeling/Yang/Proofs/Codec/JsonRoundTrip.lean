import Yang.Codec
import Yang.Proofs.Codec.JsonReading
import Yang.Proofs.Codec.Payload
import Yang.Proofs.Codec.Standing

/-!
# Data written as JSON and read back

Data that conforms to a schema is read back from its JSON form up to the order of
siblings of different schema nodes. The induction is on the conforming data: the
children of a node are read back from its members, and the node gets its key again,
because the key depends neither on the order of different children nor on how the
children were written. Texts are read back as far as JSON values may nest.
-/

namespace Yang.Codec

open Schema Instance

namespace Json

open Yang.Json

variable {c : Context} {parent i : NodeId} {parentNs : Option String} {depth : Nat}
  {nodes children : List DataNode} {n : DataNode} {v : Json.Value}

/-- Nodes whose kinds depend on their schema nodes are all plain or all entries
under one name. -/
theorem homogeneous (sound : c.tree.Sound) (names : NamesReadBack c)
    (same : ∀ a ∈ nodes, ∀ b ∈ nodes, a.id = b.id →
      ∃ parent, Conforms c parent a ∧ Conforms c parent b) :
    Homogeneous c parentNs nodes := by
  have below : ∀ n ∈ nodes, ∃ parent, Conforms c parent n := by
    intro n hn
    obtain ⟨parent, hconforms, -⟩ := same n hn n hn rfl
    exact ⟨parent, hconforms⟩
  intro a ha b hb name hname hname'
  have hid := id_eq_of_mem_namedMember sound names below (mem_namedMember_iff.mpr ⟨ha, hname⟩)
    (mem_namedMember_iff.mpr ⟨hb, hname'⟩)
  obtain ⟨_, ha', hb'⟩ := same a ha b hb hid
  obtain ⟨_, he⟩ := ha'.stands.exists_entry
  rw [ha'.stands.isPlain_iff he, hb'.stands.isPlain_iff (hid ▸ he)]

theorem leafNode_json {value : Value} (stable : c.leafValue i value.literal = .ok value) :
    leafNode c i value.json =
      .ok (.leaf (if c.tree.kind? i = some .leafList then .leafListEntry (c.id i) value
        else .plain (c.id i)) value) := by
  rw [leafNode, literal_json]
  change c.valueNode i value.literal = _
  rw [Context.valueNode, stable]
  change ite _ _ _ = _
  split <;> rfl

/-- Children are read back from the object of their parent. What becomes of them
as a node depends on the key that they give, which is settled later. -/
theorem exists_decodeInner (sound : c.tree.Sound) (names : NamesReadBack c) {key : Key}
    (below : ∀ child ∈ children, Conforms c i child)
    (reads : ∀ child ∈ children, ∀ depth, ReadsBack c i depth child)
    (hv : encodeNode c depth (.inner key children) = .ok v) :
    ∃ found, decodeInner c i key.id.ns depth v = c.innerNode i found ∧
      AgreesAll children found := by
  simp only [encodeNode, bind_eq_ok_iff, exists_unit_iff, pure_eq_ok_iff] at hv
  obtain ⟨hdepth, members, hmembers, rfl⟩ := hv
  have hparent : ∀ n ∈ children, ∃ parent, Conforms c parent n := by
    intro n hn
    exact ⟨i, below n hn⟩
  have hgathered : Gathered c (some key.id.ns) (depth + 1) children members := by
    apply Gathered.nil.encodeNodes hmembers
    apply homogeneous sound names
    intro a ha b hb _
    exact ⟨i, below a ha, below b hb⟩
  have hgroup : ∀ member ∈ members, ∃ g, Writes c i (some key.id.ns) (depth + 1) member g ∧
      List.Forall₂ Agrees (namedMember c (some key.id.ns) member.1 children) g := by
    intro member hmember
    apply hgathered.exists_writes sound names hmember
    · intro m hm n hn
      exact id_eq_of_mem_namedMember sound names hparent hm hn
    · intro n hn
      exact below n (mem_namedMember_iff.mp hn).1
    · intro n hn
      exact reads n (mem_namedMember_iff.mp hn).1 (depth + 1)
  obtain ⟨gs, hwrites, hagrees⟩ := hgathered.exists_groups hgroup
  refine ⟨gs.flatten, ?_, hagrees⟩
  rw [decodeInner, hdepth, decodeMembers_eq_ok hwrites]
  rfl

/-- Conforming data is read back from its JSON form. The induction is on how the
data conforms, for all depths at once. -/
theorem readsBack (sound : c.tree.Sound) (names : NamesReadBack c)
    (differ : c.tree.ListNamesDiffer) (h : Conforms c parent n) :
    ∀ depth, ReadsBack c parent depth n := by
  induction h with
  | @leaf parent id e value he hkind stable =>
      intro depth e' v he' hv
      obtain rfl := Option.some.inj (he.symm.trans he')
      rw [encodeNode] at hv
      obtain rfl := Except.ok.inj hv
      have hleafList : c.tree.kind? e.node ≠ some .leafList := by simp [hkind]
      have hread := leafNode_json stable
      rw [if_neg hleafList, id_of_entry? sound he] at hread
      rw [readNode_of_leaf (.inl hkind)]
      exact ⟨_, hread, .leaf _ _⟩
  | @leafListEntry parent id e value he hkind stable =>
      intro depth e' v he' hv
      obtain rfl := Option.some.inj (he.symm.trans he')
      rw [encodeNode] at hv
      obtain rfl := Except.ok.inj hv
      have hread := leafNode_json stable
      rw [if_pos hkind, id_of_entry? sound he] at hread
      rw [readNode_of_leaf (.inr hkind)]
      exact ⟨_, hread, .leaf _ _⟩
  | @listEntry parent id e leaves children he hkind hkey _ below ih =>
      intro depth e' v he' hv
      obtain rfl := Option.some.inj (he.symm.trans he')
      obtain ⟨found, hfound, hagrees⟩ := exists_decodeInner sound names below ih hv
      have hsame : c.listEntryKey e.node found = c.listEntryKey e.node children :=
        listEntryKey_congr hagrees (names_of_conforms differ hkind below)
      rw [readNode_of_inner (by simp [hkind])]
      refine ⟨.inner (.listEntry id leaves) found, ?_, .inner hagrees⟩
      rw [hkey] at hsame
      refine hfound.trans ?_
      rw [Context.innerNode, if_pos hkind, hsame]
      rfl
  | @inner parent id e kind children he hkind hinner _ below ih =>
      intro depth e' v he' hv
      obtain rfl := Option.some.inj (he.symm.trans he')
      obtain ⟨found, hfound, hagrees⟩ := exists_decodeInner sound names below ih hv
      rw [readNode_of_inner (by simp [hkind, hinner])]
      refine ⟨.inner (.plain id) found, ?_, .inner hagrees⟩
      refine hfound.trans ?_
      rw [Context.innerNode, if_neg (by simp [hkind, hinner]), id_of_entry? sound he]
      rfl

section Top

variable {t : Tree} {limits : Limits} {members : List (String × Json.Value)}

theorem namesReadBack_ofTree (reachable : t.Reachable) (one : t.NamesNamespaces)
    (limits : Limits) : NamesReadBack (Context.ofTree t limits) :=
  fun _ _ _ => memberId_memberName reachable one

/-- Nodes of one schema node stand below the same module. -/
theorem exists_root (one : t.NamesNamespaces)
    (conforms : ConformsAll (Context.ofTree t limits) nodes) (hn : n ∈ nodes) :
    ∃ name root, t.findModule? name none = some root ∧ t.ns root = n.id.ns ∧
      ∀ m ∈ nodes, m.id = n.id → Conforms (Context.ofTree t limits) root m := by
  obtain ⟨name, root, hroot, hns, hbelow⟩ := conforms.below n hn
  rw [Context.tree_ofTree] at hroot hns
  refine ⟨name, root, hroot, hns, ?_⟩
  intro m hm hid
  obtain ⟨name', root', hroot', hns', hbelow'⟩ := conforms.below m hm
  rw [Context.tree_ofTree] at hroot' hns'
  obtain rfl : root' = root :=
    Context.findModule?_injective one hroot' hroot (by rw [hns', hns, hid])
  exact hbelow'

/-- A member at the top level writes nodes that agree with its group. -/
theorem exists_decodeTop (reachable : t.Reachable) (one : t.NamesNamespaces)
    (differ : t.ListNamesDiffer) (conforms : ConformsAll (Context.ofTree t limits) nodes)
    (hdepth : (Context.ofTree t limits).limits.check .dataDepth 1 = .ok ())
    (hgathered : Gathered (Context.ofTree t limits) none 1 nodes members)
    {member : String × Json.Value} (hmember : member ∈ members) :
    ∃ g, decodeTop (Context.ofTree t limits) member.1 member.2 = .ok g ∧
      List.Forall₂ Agrees (namedMember (Context.ofTree t limits) none member.1 nodes) g := by
  have sound := Context.sound_ofTree reachable limits
  have names := namesReadBack_ofTree reachable one limits
  have hid : ∀ m ∈ namedMember (Context.ofTree t limits) none member.1 nodes,
      ∀ n ∈ namedMember (Context.ofTree t limits) none member.1 nodes, m.id = n.id := by
    intro m hm n hn
    exact id_eq_of_mem_namedMember sound names conforms.exists_parent hm hn
  have hmerged := hgathered.merged member.1 member.2 hmember
  obtain ⟨n, hn⟩ := List.exists_mem_of_ne_nil _ hmerged.ne_nil
  obtain ⟨hmem, hname⟩ := mem_namedMember_iff.mp hn
  obtain ⟨name, root, hroot, hns, hsame⟩ := exists_root one conforms hmem
  have below : ∀ m ∈ namedMember (Context.ofTree t limits) none member.1 nodes,
      Conforms (Context.ofTree t limits) root m := by
    intro m hm
    exact hsame m (mem_namedMember_iff.mp hm).1 (hid m hm n hn)
  have reads : ∀ m ∈ namedMember (Context.ofTree t limits) none member.1 nodes,
      ReadsBack (Context.ofTree t limits) root 1 m := by
    intro m hm
    apply readsBack sound names _ (below m hm)
    rwa [Context.tree_ofTree]
  obtain ⟨g, hwrites, hagrees⟩ :=
    hgathered.exists_writes sound names hmember hid below reads
  refine ⟨g, ?_, hagrees⟩
  have hdecode := decodeMembers_eq_ok (.cons hwrites .nil)
  rw [List.flatten_singleton] at hdecode
  rw [decodeTop, topModule_memberName reachable one hname hroot hns, hdepth]
  exact hdecode

/-- Conforming data is read back from the JSON value that is written for it. The
text around the value has no part in it yet. -/
theorem exists_decodeValue (reachable : t.Reachable) (one : t.NamesNamespaces)
    (differ : t.ListNamesDiffer) (conforms : ConformsAll (Context.ofTree t limits) nodes)
    (hv : encodeValue (Context.ofTree t limits) nodes = .ok v) :
    ∃ found, decodeValue (Context.ofTree t limits) v = .ok found ∧ AgreesAll nodes found := by
  simp only [encodeValue, bind_eq_ok_iff, exists_unit_iff, pure_eq_ok_iff] at hv
  obtain ⟨hdepth, members, hmembers, rfl⟩ := hv
  have sound := Context.sound_ofTree reachable limits
  have names := namesReadBack_ofTree reachable one limits
  have hgathered : Gathered (Context.ofTree t limits) none 1 nodes members := by
    apply Gathered.nil.encodeNodes hmembers
    apply homogeneous sound names
    intro a ha b hb hid
    obtain ⟨_, root, _, _, hsame⟩ := exists_root one conforms hb
    exact ⟨root, hsame a ha hid, hsame b hb rfl⟩
  have hgroup : ∀ member ∈ members, ∃ g,
      decodeTop (Context.ofTree t limits) member.1 member.2 = .ok g ∧
        List.Forall₂ Agrees (namedMember (Context.ofTree t limits) none member.1 nodes) g := by
    intro member hmember
    exact exists_decodeTop reachable one differ conforms hdepth hgathered hmember
  obtain ⟨gs, hwrites, hagrees⟩ := hgathered.exists_groups hgroup
  refine ⟨gs.flatten, ?_, hagrees⟩
  rw [decodeValue, mapM_eq_ok_iff.mpr hwrites]
  rfl

end Top

/-- A text is read back if its value does not nest too deep, and is not read
otherwise. -/
theorem read?_encodeValue (h : encodeValue c nodes = .ok v) (indented : Bool) :
    Value.read? (if indented then v.pretty else v.compact) =
      if v.nesting ≤ depthLimit then some v else none := by
  have hcanonical := canonical_encodeValue h
  cases indented with
  | true => exact read?_pretty hcanonical
  | false => exact read?_compact hcanonical

theorem decode_of_nesting_le (h : encodeValue c nodes = .ok v) (hdepth : v.nesting ≤ depthLimit)
    (indented : Bool) :
    decode c (if indented then v.pretty else v.compact) = decodeValue c v := by
  rw [decode, read?_encodeValue h, if_pos hdepth]

/-- What nests too deep is not decoded. The codec encodes it all the same, as it
counts the levels of data and not of its text. -/
theorem decode_of_depthLimit_lt (h : encodeValue c nodes = .ok v) (hdepth : depthLimit < v.nesting)
    (indented : Bool) :
    decode c (if indented then v.pretty else v.compact) = .error .malformedJson := by
  rw [decode, read?_encodeValue h, if_neg (Nat.not_le_of_lt hdepth)]

end Json

/-- Conforming data that is encoded as JSON is decoded to data that agrees,
unless the arrays and objects nest deeper than JSON texts may. -/
theorem decode_encode_json {t : Tree} {limits : Limits} (reachable : t.Reachable)
    (one : t.NamesNamespaces) (differ : t.ListNamesDiffer) {nodes : List DataNode}
    (conforms : ConformsAll (Context.ofTree t limits) nodes) {indented : Bool} {s : Stream}
    (h : (json indented).encode (Context.ofTree t limits) { nodes := nodes } = .ok s)
    (other : Bool) :
    ∃ v, Json.encodeValue (Context.ofTree t limits) nodes = .ok v ∧
      (v.nesting ≤ Yang.Json.depthLimit → ∃ found,
        (json other).decode (Context.ofTree t limits) s = .ok { nodes := found } ∧
          AgreesAll nodes found) ∧
      (Yang.Json.depthLimit < v.nesting →
        (json other).decode (Context.ofTree t limits) s = .error .malformedJson) := by
  obtain ⟨v, hv, rfl⟩ := (encode_json_eq_ok_iff _).mp h
  refine ⟨v, hv, ?_, ?_⟩
  · intro hdepth
    obtain ⟨found, hfound, hagrees⟩ := Json.exists_decodeValue reachable one differ conforms hv
    refine ⟨found, ?_, hagrees⟩
    rw [decode_json_ofText, Json.decode_of_nesting_le hv hdepth, hfound]
    rfl
  · intro hdepth
    rw [decode_json_ofText, Json.decode_of_depthLimit_lt hv hdepth]
    rfl

/-- Items that have a name and tags. -/
def inventory : Tree :=
  [.module "store" "urn:store" "s" none, .list 0 "item" ["name"],
    .leaf 1 "name" (.builtin .string none),
    .leafList 1 "tag" (.builtin .string none)].foldl Tree.after {}

def inventoryContext : Context where
  tree := ⟨#[
    ⟨⟨"store", "urn:store"⟩, .module ⟨"s", none, []⟩, none, [(⟨"item", "urn:store"⟩, 1)],
      [(⟨"item", "urn:store"⟩, ⟨1, none, false⟩)]⟩,
    ⟨⟨"item", "urn:store"⟩, .list ["name"], some 0,
      [(⟨"name", "urn:store"⟩, 2), (⟨"tag", "urn:store"⟩, 3)],
      [(⟨"name", "urn:store"⟩, ⟨2, none, false⟩), (⟨"tag", "urn:store"⟩, ⟨3, none, false⟩)]⟩,
    ⟨⟨"name", "urn:store"⟩, .leaf (.builtin .string none), some 1, [], []⟩,
    ⟨⟨"tag", "urn:store"⟩, .leafList (.builtin .string none), some 1, [], []⟩]⟩
  byName := [("store", 0)]
  byNamespace := [("urn:store", 0)]

/-- An item whose name stands between its tags. -/
def vase : DataNode :=
  .inner (.listEntry ⟨"item", "urn:store"⟩ [⟨⟨"name", "urn:store"⟩, .text "vase"⟩])
    [.leaf (.leafListEntry ⟨"tag", "urn:store"⟩ (.text "new")) (.text "new"),
      .leaf (.plain ⟨"name", "urn:store"⟩) (.text "vase"),
      .leaf (.leafListEntry ⟨"tag", "urn:store"⟩ (.text "blue")) (.text "blue")]

theorem ofTree_inventory : Context.ofTree inventory {} = inventoryContext := by
  with_unfolding_all rfl

theorem reachable_inventory : inventory.Reachable := Tree.Reachable.empty.foldl_after _

theorem tree_inventoryContext : inventoryContext.tree = inventory := by
  rw [← ofTree_inventory, Context.tree_ofTree]

theorem namesNamespaces_inventory : inventory.NamesNamespaces := by
  rw [← tree_inventoryContext, Tree.namesNamespaces_iff]
  rfl

theorem conformsAll_vase : ConformsAll inventoryContext [vase] := by
  refine ⟨?_, List.pairwise_singleton _ _⟩
  intro n hn
  obtain rfl := List.mem_singleton.mp hn
  refine ⟨"store", 0, rfl, rfl, .listEntry (e := ⟨1, none, false⟩) rfl rfl rfl ?_ ?_⟩
  · simp [PlainDiffer, Key.IsPlain, DataNode.key, Key.id]
  · simp only [List.forall_mem_cons]
    exact ⟨.leafListEntry (e := ⟨3, none, false⟩) rfl rfl rfl,
      .leaf (e := ⟨2, none, false⟩) rfl rfl rfl,
      .leafListEntry (e := ⟨3, none, false⟩) rfl rfl rfl, List.forall_mem_nil _⟩

/-- The item is read back, with its tags in order. -/
theorem decode_encode_json_vase :
    ∃ s found, (json false).encode (Context.ofTree inventory {}) { nodes := [vase] } = .ok s ∧
      (json true).decode (Context.ofTree inventory {}) s = .ok { nodes := found } ∧
      AgreesAll [vase] found := by
  have reachable : inventory.Reachable := Tree.Reachable.empty.foldl_after _
  have htree : inventory = inventoryContext.tree := by
    rw [← ofTree_inventory, Context.tree_ofTree]
  have one : inventory.NamesNamespaces := by
    rw [htree, Tree.namesNamespaces_iff]
    rfl
  have differ : inventory.ListNamesDiffer := by
    rw [htree, Tree.listNamesDiffer_iff]
    rfl
  have conforms : ConformsAll (Context.ofTree inventory {}) [vase] := by
    rw [ofTree_inventory]
    exact conformsAll_vase
  have hvalue : Json.encodeValue (Context.ofTree inventory {}) [vase] =
      .ok (.object [("store:item", .array [.object
        [("name", .string "vase"), ("tag", .array [.string "new", .string "blue"])]])]) := by
    rw [ofTree_inventory]
    with_unfolding_all rfl
  have hencode := (encode_json_eq_ok_iff false).mpr ⟨_, hvalue, rfl⟩
  obtain ⟨v, hv, hread, -⟩ := decode_encode_json reachable one differ conforms hencode true
  obtain rfl := Except.ok.inj (hv.symm.trans hvalue)
  obtain ⟨found, hfound, hagrees⟩ := hread (by decide)
  exact ⟨_, found, hencode, hfound, hagrees⟩

end Yang.Codec
