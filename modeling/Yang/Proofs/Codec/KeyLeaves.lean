import Yang.Proofs.Codec.ListKey
import Yang.Proofs.Codec.Soundness
import Yang.Proofs.Schema.KeyLeaves

/-!
# Keys of list entries and the nodes of other modules

The key of a list entry is to consist of the key leaves of the list. For each key the first
child of its name is taken, whatever its namespace, whereas a complete tree has the key leaf
in the namespace of the list. As long as no node of another module that has the name of a key
comes before the key leaf, the key is the right one, and it is there as soon as the key leaves
are. Otherwise the key has a leaf of the other module, or there is none, if the other node is
no leaf.
-/

namespace Yang.Codec

open Schema Instance

variable {c : Context} {list : NodeId} {children : List DataNode} {name : String}

/-- The children of a node that a codec decodes, from the members of an object
or from the content of an element. The depth and the namespace around them do
not matter. -/
inductive DecodedBelow (c : Context) (i : NodeId) : List DataNode → Prop
  | json {ns : Option String} {depth : Nat} {members : List (String × Yang.Json.Value)}
      {children : List DataNode} (h : Json.decodeMembers c i ns depth members = .ok children) :
      DecodedBelow c i children
  | xml {depth : Nat} {content : List Yang.Xml.Node} {children : List DataNode}
      (h : Xml.decodeNodes c i depth content = .ok children) : DecodedBelow c i children

/-- For every key the first child of its name, if there is one, is of the
namespace of the list. It is the condition under which looking up names alone
finds the key leaves. -/
def OwnFirst (c : Context) (list : NodeId) (children : List DataNode) : Prop :=
  ∀ name ∈ c.keys list, ∀ child, children.find? (·.id.name == name) = some child →
    child.id.ns = c.tree.ns list

/-- The leaf of a key is the child of its name in the namespace of the list.
Should such a child be there twice, the first one counts. -/
def IsOwnLeaf (c : Context) (list : NodeId) (children : List DataNode) (name : String)
    (leaf : KeyLeaf) : Prop :=
  leaf.id = ⟨name, c.tree.ns list⟩ ∧
    children.find? (·.id == leaf.id) = some (.leaf (.plain leaf.id) leaf.value)

/-- Decoded children stand below the node for which they are decoded, in
whatever form they were written. -/
theorem DecodedBelow.stands (sound : c.tree.Sound) (h : DecodedBelow c list children) :
    ∀ child ∈ children, Stands c (Produced c) list child := by
  cases h with
  | json h =>
      intro child hchild
      obtain ⟨member, -, id, i, v, -, hi, hread, -⟩ :=
        Json.exists_readNode_of_decodeMembers h hchild
      obtain ⟨e, he, rfl⟩ := Json.entry?_of_schemaNode sound hi
      exact (Json.stands_of_readNode sound he hread).2
  | xml h => exact Xml.stands_of_decodeNodes sound _ h

theorem keyLeaf_eq_ok_iff {leaf : KeyLeaf} :
    c.keyLeaf list children name = .ok leaf ↔
      ∃ key value, children.find? (·.id.name == name) = some (.leaf key value) ∧
        leaf = ⟨key.id, value⟩ := by
  rw [Context.keyLeaf]
  constructor
  · intro h
    split at h
    · rename_i key value hfound
      exact ⟨key, value, hfound, (Except.ok.inj h).symm⟩
    · cases h
  · rintro ⟨key, value, hfound, rfl⟩
    rw [hfound]

/-- A child stands as a leaf where its schema node is one. Its key is then plain
and has its identifier. -/
theorem Stands.eq_leaf {fits : NodeId → Value → Prop} {n : DataNode} (h : Stands c fits list n)
    {e : ContextEntry} (he : c.tree.entry? list n.id = some e)
    (hkind : c.tree.kind? e.node = some .leaf) : ∃ value, n = .leaf (.plain n.id) value := by
  cases h with
  | leaf _ _ _ => exact ⟨_, rfl⟩
  | leafListEntry he' hkind' _ | listEntry he' hkind' _ _ =>
      obtain rfl := Option.some.inj (he'.symm.trans he)
      rw [hkind] at hkind'
      cases hkind'
  | inner he' hkind' hinner _ =>
      obtain rfl := Option.some.inj (he'.symm.trans he)
      rw [hkind] at hkind'
      exact absurd (Option.some.inj hkind').symm hinner.1

/-- If the first node of a name is of a namespace, it is the first one of both. -/
theorem find?_name_eq_find?_id {ns : String}
    (h : ∀ n, children.find? (·.id.name == name) = some n → n.id.ns = ns) :
    children.find? (·.id.name == name) = children.find? (·.id == ⟨name, ns⟩) := by
  have hname : ∀ n : DataNode, (n.id.name == name) = false → (n.id == ⟨name, ns⟩) = false := by
    intro n hn
    rw [beq_eq_false_iff_ne] at hn ⊢
    exact fun hid => hn (congrArg SchemaId.name hid)
  cases hfound : children.find? (·.id.name == name) with
  | none =>
      refine (List.find?_eq_none.mpr fun n hn => ?_).symm
      have hother := List.find?_eq_none.mp hfound n hn
      rw [Bool.not_eq_true] at hother ⊢
      exact hname n hother
  | some n =>
      have hns := h n hfound
      rw [List.find?_eq_some_iff_append] at hfound
      obtain ⟨hn, before, after, rfl, others⟩ := hfound
      refine (List.find?_eq_some_iff_append.mpr ⟨?_, before, after, rfl, ?_⟩).symm
      · rw [beq_iff_eq] at hn ⊢
        rw [← hn, ← hns]
      · intro m hm
        have hother := others m hm
        rw [Bool.not_eq_true'] at hother ⊢
        exact hname m hother

theorem forall₂_of_mem {α β : Type} {R S : α → β → Prop} {as : List α} {bs : List β}
    (h : ∀ a ∈ as, ∀ b, R a b → S a b) (hR : List.Forall₂ R as bs) : List.Forall₂ S as bs := by
  induction hR with
  | nil => exact .nil
  | cons hab _ ih =>
      obtain ⟨hfirst, hrest⟩ := List.forall_mem_cons.mp h
      exact .cons (hfirst _ hab) (ih hrest)

theorem exists_node_of_mem_keys (h : name ∈ c.keys list) :
    ∃ n, c.tree.node? list = some n ∧ name ∈ n.keys := by
  rw [Context.keys] at h
  cases hn : c.tree.node? list with
  | none =>
      rw [hn] at h
      cases h
  | some n =>
      rw [hn] at h
      exact ⟨n, rfl, h⟩

section Complete

variable {statements : List Statement} {fits : NodeId → Value → Prop}

/-- In a complete tree the child that has the name of a key and the namespace of
the list is a leaf. Complete trees have passed the check of keys. -/
theorem exists_value_of_own (complete : Tree.ofStatements statements = .ok c.tree)
    (hname : name ∈ c.keys list) {child : DataNode} (stands : Stands c fits list child)
    (hid : child.id = ⟨name, c.tree.ns list⟩) :
    ∃ value, child = .leaf (.plain ⟨name, c.tree.ns list⟩) value := by
  obtain ⟨n, hn, hkey⟩ := exists_node_of_mem_keys hname
  have hns : c.tree.ns list = n.id.ns := by
    rw [Tree.ns, hn]
    rfl
  obtain ⟨leaf, he, hkind⟩ := Tree.exists_keyLeaf complete hn hkey
  rw [← hns, ← hid] at he
  rw [← hid]
  exact stands.eq_leaf he hkind

/-- The key leaf of a name is the leaf of the key, if the first child of the
name is of the namespace of the list. -/
theorem keyLeaf_eq_ok_iff_isOwnLeaf (complete : Tree.ofStatements statements = .ok c.tree)
    (stands : ∀ child ∈ children, Stands c fits list child)
    (own : OwnFirst c list children) (hname : name ∈ c.keys list) {leaf : KeyLeaf} :
    c.keyLeaf list children name = .ok leaf ↔ IsOwnLeaf c list children name leaf := by
  rw [keyLeaf_eq_ok_iff, find?_name_eq_find?_id (own name hname), IsOwnLeaf]
  constructor
  · rintro ⟨key, value, hfound, rfl⟩
    have hmatches := List.find?_some hfound
    have hid : key.id = ⟨name, c.tree.ns list⟩ := beq_iff_eq.mp hmatches
    obtain ⟨value', hleaf⟩ := exists_value_of_own complete hname
      (stands _ (List.mem_of_find?_eq_some hfound)) hid
    obtain ⟨rfl, rfl⟩ := DataNode.leaf.inj hleaf
    exact ⟨rfl, hfound⟩
  · rintro ⟨hid, hfound⟩
    rw [hid] at hfound
    refine ⟨_, _, hfound, ?_⟩
    rw [Key.id, ← hid]

/-- There is a key leaf of a name if the list entry has a child for it. That the
child is a leaf follows from the check of keys. -/
theorem exists_keyLeaf_iff (complete : Tree.ofStatements statements = .ok c.tree)
    (stands : ∀ child ∈ children, Stands c fits list child)
    (own : OwnFirst c list children) (hname : name ∈ c.keys list) :
    (∃ leaf, c.keyLeaf list children name = .ok leaf) ↔
      ∃ child ∈ children, child.id = ⟨name, c.tree.ns list⟩ := by
  constructor
  · rintro ⟨leaf, hleaf⟩
    obtain ⟨hid, hfound⟩ :=
      (keyLeaf_eq_ok_iff_isOwnLeaf complete stands own hname).mp hleaf
    exact ⟨_, List.mem_of_find?_eq_some hfound, hid⟩
  · rintro ⟨child, hchild, hid⟩
    have hsome : (children.find? (·.id == ⟨name, c.tree.ns list⟩)).isSome = true :=
      List.find?_isSome.mpr ⟨child, hchild, beq_iff_eq.mpr hid⟩
    obtain ⟨first, hfirst⟩ := Option.isSome_iff_exists.mp hsome
    have hmatches := List.find?_some hfirst
    obtain ⟨value, rfl⟩ := exists_value_of_own complete hname
      (stands first (List.mem_of_find?_eq_some hfirst)) (beq_iff_eq.mp hmatches)
    refine ⟨⟨⟨name, c.tree.ns list⟩, value⟩, ?_⟩
    exact (keyLeaf_eq_ok_iff_isOwnLeaf complete stands own hname).mpr ⟨rfl, hfirst⟩

/-- If no two data nodes below a list have a name in common, no other node can
come first. Only nodes of its own module have the name of a key then. -/
theorem ownFirst_of_listNamesDiffer (complete : Tree.ofStatements statements = .ok c.tree)
    (differ : c.tree.ListNamesDiffer) (stands : ∀ child ∈ children, Stands c fits list child) :
    OwnFirst c list children := by
  intro name hname child hchild
  obtain ⟨n, hn, hkey⟩ := exists_node_of_mem_keys hname
  obtain ⟨leaf, hleaf, -⟩ := Tree.exists_keyLeaf complete hn hkey
  obtain ⟨e, he⟩ := (stands child (List.mem_of_find?_eq_some hchild)).exists_entry
  have hmatches := List.find?_some hchild
  have hid := differ list (Tree.kind?_of_mem_keys hn hkey) (child.id, e)
    (Tree.mem_context_of_entry? he) (_, _) (Tree.mem_context_of_entry? hleaf)
    (beq_iff_eq.mp hmatches)
  rw [Tree.ns, hn]
  exact (congrArg SchemaId.ns hid :)

end Complete

/-- The key leaves that are found are those of the list only if no other node of
such a name comes first. -/
theorem ownFirst_of_forall₂ {leaves : List KeyLeaf}
    (found : List.Forall₂ (fun name leaf => c.keyLeaf list children name = .ok leaf)
      (c.keys list) leaves)
    (own : List.Forall₂ (IsOwnLeaf c list children) (c.keys list) leaves) :
    OwnFirst c list children := by
  intro name hname child hchild
  obtain ⟨leaf, hleaf, hfound⟩ := exists_mem_of_forall₂ found.flip hname
  obtain ⟨key, value, hfirst, rfl⟩ := keyLeaf_eq_ok_iff.mp hfound
  obtain ⟨other, -, hid, -⟩ := exists_mem_of_forall₂ own hleaf
  obtain rfl := Option.some.inj (hchild.symm.trans hfirst)
  exact congrArg SchemaId.ns hid

/-- The key of a decoded list entry of a complete tree consists of the key
leaves of the list, in the order of its keys, exactly if no node of another
module comes first that has the name of a key. Then there is a key exactly if
the entry has a child for every key and these are not too many. Where all data
nodes below a list differ in name, no such node can come first. -/
theorem listEntryKey_decoded {statements : List Statement}
    (complete : Tree.ofStatements statements = .ok c.tree)
    (decoded : DecodedBelow c list children) :
    (∀ key, c.listEntryKey list children = .ok key →
      ∃ leaves, key = .listEntry (c.id list) leaves ∧
        (List.Forall₂ (IsOwnLeaf c list children) (c.keys list) leaves ↔
          OwnFirst c list children)) ∧
    (OwnFirst c list children →
      ((∃ key, c.listEntryKey list children = .ok key) ↔
        (c.keys list).length ≤ c.limits.keyLeaves ∧
          ∀ name ∈ c.keys list, ∃ child ∈ children, child.id = ⟨name, c.tree.ns list⟩)) ∧
    (c.tree.ListNamesDiffer → OwnFirst c list children) := by
  have sound : c.tree.Sound := (Tree.Reachable.of_ofStatements complete).sound
  have stands := decoded.stands sound
  refine ⟨?_, ?_, fun differ => ownFirst_of_listNamesDiffer complete differ stands⟩
  · intro key h
    simp only [Context.listEntryKey, bind_eq_ok_iff, exists_unit_iff, pure_eq_ok_iff] at h
    obtain ⟨-, leaves, hleaves, rfl⟩ := h
    have found := mapM_eq_ok_iff.mp hleaves
    refine ⟨leaves, rfl, ownFirst_of_forall₂ found, fun own => ?_⟩
    exact forall₂_of_mem (fun name hname leaf =>
      (keyLeaf_eq_ok_iff_isOwnLeaf complete stands own hname).mp) found
  · intro own
    have hleaf : ∀ name ∈ c.keys list, (∃ leaf, c.keyLeaf list children name = .ok leaf) ↔
        ∃ child ∈ children, child.id = ⟨name, c.tree.ns list⟩ :=
      fun _ hname => exists_keyLeaf_iff complete stands own hname
    simp only [Context.listEntryKey, bind_eq_ok_iff, exists_unit_iff, pure_eq_ok_iff,
      Limits.check_eq_ok_iff]
    constructor
    · rintro ⟨key, hcount, leaves, hleaves, -⟩
      have found := exists_mapM_eq_ok_iff.mp ⟨leaves, hleaves⟩
      exact ⟨hcount, fun name hname => (hleaf name hname).mp (found name hname)⟩
    · rintro ⟨hcount, present⟩
      obtain ⟨leaves, hleaves⟩ := exists_mapM_eq_ok_iff.mpr fun name hname =>
        (hleaf name hname).mpr (present name hname)
      exact ⟨_, hcount, leaves, hleaves, rfl⟩

/-- Items that have a name, to which one module adds a label with the name of
the key and another one a crate. -/
def labelled : List Statement :=
  [.module "store" "urn:store" "s" none, .list 0 "item" ["name"],
    .leaf 1 "name" (.builtin .string none),
    .module "labels" "urn:labels" "l" none, .augment 3 "item-label" 1,
    .leaf 4 "name" (.builtin .string none),
    .module "crates" "urn:crates" "c" none, .augment 6 "item-crate" 1, .container 7 "name"]

def labelledContext : Context where
  tree := ⟨#[
    ⟨⟨"store", "urn:store"⟩, .module ⟨"s", none, []⟩, none, [(⟨"item", "urn:store"⟩, 1)],
      [(⟨"item", "urn:store"⟩, ⟨1, none, false⟩)]⟩,
    ⟨⟨"item", "urn:store"⟩, .list ["name"], some 0, [(⟨"name", "urn:store"⟩, 2)],
      [(⟨"name", "urn:store"⟩, ⟨2, none, false⟩), (⟨"name", "urn:labels"⟩, ⟨5, some 4, false⟩),
        (⟨"name", "urn:crates"⟩, ⟨8, some 7, false⟩)]⟩,
    ⟨⟨"name", "urn:store"⟩, .leaf (.builtin .string none), some 1, [], []⟩,
    ⟨⟨"labels", "urn:labels"⟩, .module ⟨"l", none, []⟩, none,
      [(⟨"item-label", "urn:labels"⟩, 4)], []⟩,
    ⟨⟨"item-label", "urn:labels"⟩, .augment 1, some 3, [(⟨"name", "urn:labels"⟩, 5)], []⟩,
    ⟨⟨"name", "urn:labels"⟩, .leaf (.builtin .string none), some 4, [], []⟩,
    ⟨⟨"crates", "urn:crates"⟩, .module ⟨"c", none, []⟩, none,
      [(⟨"item-crate", "urn:crates"⟩, 7)], []⟩,
    ⟨⟨"item-crate", "urn:crates"⟩, .augment 1, some 6, [(⟨"name", "urn:crates"⟩, 8)], []⟩,
    ⟨⟨"name", "urn:crates"⟩, .container, some 7, [], []⟩]⟩
  byName := [("store", 0), ("labels", 3), ("crates", 6)]
  byNamespace := [("urn:store", 0), ("urn:labels", 3), ("urn:crates", 6)]

theorem ofStatements_labelled : Tree.ofStatements labelled = .ok labelledContext.tree := by
  with_unfolding_all rfl

theorem ofTree_labelled : Context.ofTree labelledContext.tree {} = labelledContext := by
  with_unfolding_all rfl

def itemName : DataNode := .leaf (.plain ⟨"name", "urn:store"⟩) (.text "vase")

def itemLabel : DataNode := .leaf (.plain ⟨"name", "urn:labels"⟩) (.text "jar")

def itemCrate : DataNode := .inner (.plain ⟨"name", "urn:crates"⟩) []

theorem decodedBelow_name_label : DecodedBelow labelledContext 1 [itemName, itemLabel] := by
  have h : Xml.decodeNodes labelledContext 1 2
      [.element (some "urn:store") "name" [.text "vase"],
        .element (some "urn:labels") "name" [.text "jar"]] = .ok [itemName, itemLabel] := by
    decide +kernel
  exact .xml h

theorem decodedBelow_label_name : DecodedBelow labelledContext 1 [itemLabel, itemName] := by
  have h : Json.decodeMembers labelledContext 1 (some "urn:store") 2
      [("labels:name", .string "jar"), ("name", .string "vase")] = .ok [itemLabel, itemName] := by
    decide +kernel
  exact .json h

theorem decodedBelow_crate_name : DecodedBelow labelledContext 1 [itemCrate, itemName] := by
  have h : Json.decodeMembers labelledContext 1 (some "urn:store") 2
      [("crates:name", .object []), ("name", .string "vase")] = .ok [itemCrate, itemName] := by
    decide +kernel
  exact .json h

/-- An item whose name comes before its label has its name as the key. -/
theorem listEntryKey_decoded_label :
    Tree.ofStatements labelled = .ok labelledContext.tree ∧
      DecodedBelow labelledContext 1 [itemName, itemLabel] ∧
      OwnFirst labelledContext 1 [itemName, itemLabel] ∧
      ∃ leaves, labelledContext.listEntryKey 1 [itemName, itemLabel] =
          .ok (.listEntry ⟨"item", "urn:store"⟩ leaves) ∧
        List.Forall₂ (IsOwnLeaf labelledContext 1 [itemName, itemLabel]) ["name"] leaves := by
  have own : OwnFirst labelledContext 1 [itemName, itemLabel] := by
    intro name hname child hchild
    obtain rfl := List.mem_singleton.mp hname
    obtain rfl := Option.some.inj hchild
    rfl
  obtain ⟨hkey, hsuccess, -⟩ := listEntryKey_decoded ofStatements_labelled decodedBelow_name_label
  have present : ∀ name ∈ ["name"],
      ∃ child ∈ [itemName, itemLabel], child.id = ⟨name, "urn:store"⟩ :=
    List.forall_mem_singleton.mpr ⟨itemName, List.mem_cons_self .., rfl⟩
  obtain ⟨key, h⟩ := (hsuccess own).mpr ⟨by decide, present⟩
  obtain ⟨leaves, rfl, hleaves⟩ := hkey key h
  exact ⟨ofStatements_labelled, decodedBelow_name_label, own, leaves, h, hleaves.mpr own⟩

/-- A label before the name takes its place in the key, and a crate there leaves
the item without a key, though the item has its name. -/
theorem labels_instead_of_names :
    Tree.ofStatements labelled = .ok labelledContext.tree ∧
      Context.ofTree labelledContext.tree {} = labelledContext ∧
      DecodedBelow labelledContext 1 [itemLabel, itemName] ∧
      labelledContext.listEntryKey 1 [itemLabel, itemName] =
        .ok (.listEntry ⟨"item", "urn:store"⟩ [⟨⟨"name", "urn:labels"⟩, .text "jar"⟩]) ∧
      DecodedBelow labelledContext 1 [itemCrate, itemName] ∧
      labelledContext.listEntryKey 1 [itemCrate, itemName] =
        .error (.decode (.missingKeyLeaf "/store/item" "name")) := by
  have hcrate : labelledContext.listEntryKey 1 [itemCrate, itemName] =
      .error (.decode (.missingKeyLeaf "/store/item" "name")) := by
    decide +kernel
  exact ⟨ofStatements_labelled, ofTree_labelled, decodedBelow_label_name, rfl,
    decodedBelow_crate_name, hcrate⟩

end Yang.Codec
