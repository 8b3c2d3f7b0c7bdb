import Yang.Proofs.Schema.Forest
import Yang.Proofs.Table

/-!
# The key leaves of a list

A complete tree has a leaf for every key of a list, written in the list itself. This leaf has
the namespace of the list and an entry in its context. Augments of the list may add nodes of
the same name, in other namespaces.
-/

namespace Yang.Schema.Tree

def childrenOf (t : Tree) (i : NodeId) : List (SchemaId × NodeId) :=
  ((t.node? i).map Node.children).getD []

section Operations

variable (t : Tree) (i : NodeId)

theorem childrenOf_push {n : Node} (hn : n.children = []) :
    (t.push n).childrenOf i = t.childrenOf i := by
  rw [childrenOf, childrenOf, node?_push]
  split
  · rename_i hi
    have hnone : t.node? i = none := by simp [node?, hi, size]
    simp [hn, hnone]
  · rfl

theorem childrenOf_modify {f : Node → Node} (hf : ∀ n, (f n).children = n.children) (j : NodeId) :
    (t.modify j f).childrenOf i = t.childrenOf i := by
  rw [childrenOf, childrenOf, node?_modify]
  split
  · cases t.node? i <;> simp [hf]
  · rfl

/-- Only the node that is attached is newly written in a node, its parent. -/
theorem mem_childrenOf_attach {parent : NodeId} {id : SchemaId} {role : Role}
    {child : SchemaId × NodeId} (h : child ∈ (t.attach parent id role).childrenOf i) :
    child ∈ t.childrenOf i ∨ i = parent ∧ child.2 = t.size := by
  rw [attach, childrenOf_push, childrenOf, node?_modify] at h
  · split at h
    · rename_i hi
      cases hn : t.node? i with
      | none =>
          rw [hn] at h
          cases h
      | some n =>
          rw [hn] at h
          rcases List.mem_append.mp h with hold | hnew
          · refine .inl ?_
            rw [childrenOf, hn]
            exact hold
          · obtain rfl := List.mem_singleton.mp hnew
            exact .inr ⟨hi.symm, rfl⟩
    · exact .inl h
  · rfl

end Operations

variable {t t' : Tree}

theorem parent?_attach_size (parent : NodeId) (id : SchemaId) (role : Role) :
    (t.attach parent id role).parent? t.size = some parent := by
  rw [parent?_eq, outline?_attach, if_pos rfl]
  rfl

theorem Grows.mem_childrenOf (h : t.Grows t') {i : NodeId} {child : SchemaId × NodeId}
    (hchild : child ∈ t'.childrenOf i) :
    child ∈ t.childrenOf i ∨ t'.parent? child.2 = some i := by
  cases h with
  | module _ _ =>
      rw [childrenOf_push _ _ rfl] at hchild
      exact .inl hchild
  | imported _ _ _ =>
      rw [childrenOf_modify] at hchild
      · exact .inl hchild
      · exact fun _ => rfl
  | attached _ _ =>
      rcases mem_childrenOf_attach _ _ hchild with hold | ⟨rfl, hnew⟩
      · exact .inl hold
      · rw [hnew]
        exact .inr (parent?_attach_size _ _ _)
  | @entered parent name role _ _ _ =>
      rcases mem_childrenOf_attach _ _ hchild with hold | ⟨rfl, hnew⟩
      · rw [enter, childrenOf_modify] at hold
        · exact .inl hold
        · exact fun _ => rfl
      · rw [hnew]
        exact .inr (parent?_attach_size _ _ _)

/-- What is written in a node has the node as its parent. -/
theorem Reachable.parent?_of_mem_childrenOf (h : t.Reachable) :
    ∀ i, ∀ child ∈ t.childrenOf i, t.parent? child.2 = some i := by
  refine h.of_grows (p := fun t => ∀ i, ∀ child ∈ t.childrenOf i, t.parent? child.2 = some i) ?_ ?_
  · intro i child hchild
    cases hchild
  · intro t t' ih hgrows i child hchild
    rcases hgrows.mem_childrenOf hchild with hold | hnew
    · have hparent := ih i child hold
      rw [parent?_eq, Option.bind_eq_some_iff] at hparent
      obtain ⟨o, ho, hparent⟩ := hparent
      rw [parent?_eq, hgrows.outline? ho]
      exact hparent
    · exact hnew

/-- Every key of a list of a complete tree is the name of a leaf that is written
in the list. The final check of keys is needed only for this. -/
theorem exists_leaf_of_checkKeys (h : t.checkKeys = .ok ()) {list : NodeId} {n : Node}
    (hn : t.node? list = some n) {key : String} (hkey : key ∈ n.keys) :
    ∃ child ∈ t.childrenOf list, t.kind? child.2 = some .leaf ∧ t.name child.2 = key := by
  have hmem : n ∈ t.nodes.toList := Array.mem_toList_iff.mpr (Array.mem_of_getElem? hn)
  have hlist := forM_eq_ok_iff.mp h n hmem
  rw [checkKeysOf] at hlist
  split at hlist
  · cases hlist
  · rename_i hnone
    have hheld := List.find?_eq_none.mp hnone key hkey
    rw [Bool.not_eq_true, Bool.not_eq_false', holdsLeaf, List.any_eq_true] at hheld
    obtain ⟨child, hchild, hleaf⟩ := hheld
    rw [Bool.and_eq_true, beq_iff_eq, beq_iff_eq] at hleaf
    refine ⟨child, ?_, hleaf⟩
    rwa [childrenOf, hn]

theorem Rooted.ns_eq_of_parent (h : t.Rooted) {i j : NodeId} {n m : Node}
    (hn : t.node? i = some n) (hm : t.node? j = some m) (hparent : m.parent = some i) :
    m.id.ns = n.id.ns := by
  have hfits := h j m.outline (outline?_of_node? hm)
  generalize hoeq : m.outline = o at hfits
  cases hfits with
  | module _ =>
      obtain hp : m.parent = none := congrArg Outline.parent hoeq
      rw [hp] at hparent
      cases hparent
  | @node id _ _ parent above _ _ _ habove _ ns _ _ =>
      obtain hp : m.parent = some parent := congrArg Outline.parent hoeq
      obtain hid : m.id = id := congrArg Outline.id hoeq
      obtain rfl := Option.some.inj (hp.symm.trans hparent)
      obtain rfl := Option.some.inj ((outline?_of_node? hn).symm.trans habove)
      rw [hid]
      exact ns

theorem Sound.entry?_of_parent (h : t.Sound) {list j : NodeId} {n : Node}
    (hlist : t.kind? list = some .list) (hn : t.node? j = some n)
    (hparent : n.parent = some list) (hdata : n.kind.isData = true) :
    t.entry? list n.id = some ⟨j, none, false⟩ := by
  obtain ⟨parent, -, hp, -, -, registered⟩ := h.rooted.registered hn hdata
  obtain rfl := Option.some.inj (hp.symm.trans hparent)
  have hholder : t.holderOf parent = (parent, none) :=
    h.rooted.holderOf_of_heldBy (.here hlist (by simp))
  rw [placeOf, hholder] at registered
  exact (Table.lookup_eq_some_iff (h.nodup parent)).mpr
    ((h.mem_context_iff _ _ _).mpr registered)

theorem kind?_of_mem_keys {list : NodeId} {n : Node} (hn : t.node? list = some n) {key : String}
    (hkey : key ∈ n.keys) : t.kind? list = some .list := by
  rw [kind?_of_node? hn, Node.kind]
  rw [Node.keys] at hkey
  cases hrole : n.role with
  | list _ => rfl
  | _ => simp [hrole] at hkey

/-- For every key of a list of a complete tree the list has a leaf of its own
namespace. No switch leads to it, as it is written in the list itself. -/
theorem exists_keyLeaf {statements : List Statement} (h : ofStatements statements = .ok t)
    {list : NodeId} {n : Node} (hn : t.node? list = some n) {key : String} (hkey : key ∈ n.keys) :
    ∃ leaf, t.entry? list ⟨key, n.id.ns⟩ = some ⟨leaf, none, false⟩ ∧
      t.kind? leaf = some .leaf := by
  have reachable := Reachable.of_ofStatements h
  simp only [ofStatements, bind_eq_ok_iff, exists_unit_iff, pure_eq_ok_iff] at h
  obtain ⟨t, -, hcomplete, rfl⟩ := h
  obtain ⟨⟨id, leaf⟩, hchild, hkind, hname⟩ := exists_leaf_of_checkKeys hcomplete hn hkey
  have hparent := reachable.parent?_of_mem_childrenOf list _ hchild
  obtain ⟨m, hm, hleaf⟩ := Option.map_eq_some_iff.mp hkind
  rw [parent?_of_node? hm] at hparent
  have hlist := kind?_of_mem_keys hn hkey
  have hid : m.id = ⟨key, n.id.ns⟩ := by
    have hns := reachable.sound.rooted.ns_eq_of_parent hn hm hparent
    rw [name, hm] at hname
    rw [← hns, ← hname]
    rfl
  refine ⟨leaf, ?_, hkind⟩
  rw [← hid]
  exact reachable.sound.entry?_of_parent hlist hm hparent (by rw [hleaf]; rfl)

end Yang.Schema.Tree
