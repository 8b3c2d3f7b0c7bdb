import Mathlib.Data.List.Forall2
import Yang.Codec.Context
import Yang.Proofs.Schema.Modules

/-!
# Data that conforms to a schema

`Stands` describes the data nodes that have the form of instances of a schema node: each
is the instance of an entry of the context of its parent, and its key and its content are
those of the entry's kind; which values a leaf may have is left open. `Conforms` are the
data nodes whose values moreover are read back from their literals, and of which plain
siblings differ. `Agrees` is equality up to the order of siblings: nodes of one schema
node keep their order among each other, and nothing is said about the others.
-/

namespace Yang

open Schema

namespace Schema.Tree

/-- The names of the modules stand for their namespaces, one for one. JSON names
modules and XML their namespaces, so only then do both forms say the same. -/
def NamesNamespaces (t : Tree) : Prop :=
  ∀ i j, t.kind? i = some .module → t.kind? j = some .module →
    (t.name i = t.name j ↔ t.ns i = t.ns j)

/-- No two data nodes below a list have a name in common. The key leaves of a
list entry are looked up by name alone, so only then can no other node take
their place. -/
def ListNamesDiffer (t : Tree) : Prop :=
  ∀ i, t.kind? i = some .list → ∀ a ∈ t.context i, ∀ b ∈ t.context i,
    a.1.name = b.1.name → a.1 = b.1

theorem namesNamespaces_iff {t : Tree} :
    t.NamesNamespaces ↔ (t.modules.all fun i => t.modules.all fun j =>
      (t.name i == t.name j) == (t.ns i == t.ns j)) = true := by
  have hsame : ∀ i j, (t.name i == t.name j) = (t.ns i == t.ns j) ↔
      (t.name i = t.name j ↔ t.ns i = t.ns j) := by
    intro i j
    rw [Bool.eq_iff_iff, beq_iff_eq, beq_iff_eq]
  simp only [NamesNamespaces, List.all_eq_true, mem_modules_iff, beq_iff_eq, hsame]
  exact ⟨fun h i hi j hj => h i j hi hj, fun h i j hi hj => h i hi j hj⟩

theorem listNamesDiffer_iff {t : Tree} :
    t.ListNamesDiffer ↔ ((List.range t.size).all fun i => t.kind? i != some .list ||
      (t.context i).all fun a => (t.context i).all fun b =>
        a.1.name != b.1.name || a.1 == b.1) = true := by
  simp only [ListNamesDiffer, List.all_eq_true, List.mem_range, Bool.or_eq_true, bne_iff_ne,
    beq_iff_eq, ne_eq, or_iff_not_imp_left, not_not]
  refine ⟨fun h i _ => h i, fun h i hi => h i ?_ hi⟩
  obtain ⟨o, ho, _⟩ := exists_outline_of_kind? hi
  exact lt_size_of_outline? ho

instance (t : Tree) : Decidable t.NamesNamespaces := decidable_of_iff _ namesNamespaces_iff.symm

instance (t : Tree) : Decidable t.ListNamesDiffer := decidable_of_iff _ listNamesDiffer_iff.symm

end Schema.Tree

namespace Instance

/-- The key selects the only node of its schema node. -/
def Key.IsPlain (k : Key) : Prop := k = .plain k.id

/-- Nodes that are the only ones of their schema node are so among their
siblings. Entries of lists and leaf-lists may be repeated. -/
def PlainDiffer (nodes : List DataNode) : Prop :=
  nodes.Pairwise fun a b => a.key.IsPlain → b.key.IsPlain → a.id ≠ b.id

def siblings (id : SchemaId) (nodes : List DataNode) : List DataNode :=
  nodes.filter fun n => n.id == id

/-- Equal up to the order of siblings of different schema nodes. The entries of
one list or leaf-list keep their order. -/
inductive Agrees : DataNode → DataNode → Prop
  | leaf (key : Key) (value : Value) : Agrees (.leaf key value) (.leaf key value)
  | inner {key : Key} {as bs : List DataNode}
      (h : ∀ id, List.Forall₂ Agrees (siblings id as) (siblings id bs)) :
      Agrees (.inner key as) (.inner key bs)

def AgreesAll (as bs : List DataNode) : Prop :=
  ∀ id, List.Forall₂ Agrees (siblings id as) (siblings id bs)

theorem Agrees.key_eq {a b : DataNode} (h : Agrees a b) : b.key = a.key := by
  cases h <;> rfl

theorem Agrees.id_eq {a b : DataNode} (h : Agrees a b) : b.id = a.id :=
  congrArg Key.id h.key_eq

end Instance

namespace Codec

open Instance

/-- A data node stands below a schema node: it is an instance of an entry of its
context, and its key and its content are those of the kind of the entry. What a
value has to be is left open, as several properties of values are carried down a
tree in this way. -/
inductive Stands (c : Context) (fits : NodeId → Value → Prop) : NodeId → DataNode → Prop
  | leaf {parent : NodeId} {id : SchemaId} {e : ContextEntry} {value : Value}
      (he : c.tree.entry? parent id = some e) (hkind : c.tree.kind? e.node = some .leaf)
      (hvalue : fits e.node value) : Stands c fits parent (.leaf (.plain id) value)
  | leafListEntry {parent : NodeId} {id : SchemaId} {e : ContextEntry} {value : Value}
      (he : c.tree.entry? parent id = some e) (hkind : c.tree.kind? e.node = some .leafList)
      (hvalue : fits e.node value) : Stands c fits parent (.leaf (.leafListEntry id value) value)
  | listEntry {parent : NodeId} {id : SchemaId} {e : ContextEntry} {leaves : List KeyLeaf}
      {children : List DataNode} (he : c.tree.entry? parent id = some e)
      (hkind : c.tree.kind? e.node = some .list)
      (hkey : c.listEntryKey e.node children = .ok (.listEntry id leaves))
      (below : ∀ child ∈ children, Stands c fits e.node child) :
      Stands c fits parent (.inner (.listEntry id leaves) children)
  | inner {parent : NodeId} {id : SchemaId} {e : ContextEntry} {kind : NodeKind}
      {children : List DataNode} (he : c.tree.entry? parent id = some e)
      (hkind : c.tree.kind? e.node = some kind)
      (hinner : kind ≠ .leaf ∧ kind ≠ .leafList ∧ kind ≠ .list)
      (below : ∀ child ∈ children, Stands c fits e.node child) :
      Stands c fits parent (.inner (.plain id) children)

/-- What fits less strictly stands as well. Results with other demands on values
are compared by this. -/
theorem Stands.mono {c : Context} {fits fits' : NodeId → Value → Prop} {parent : NodeId}
    {n : DataNode} (h : Stands c fits parent n) (weaker : ∀ i v, fits i v → fits' i v) :
    Stands c fits' parent n := by
  induction h with
  | leaf he hkind hvalue => exact .leaf he hkind (weaker _ _ hvalue)
  | leafListEntry he hkind hvalue => exact .leafListEntry he hkind (weaker _ _ hvalue)
  | listEntry he hkind hkey _ ih => exact .listEntry he hkind hkey ih
  | inner he hkind hinner _ ih => exact .inner he hkind hinner ih

theorem Stands.exists_entry {c : Context} {fits : NodeId → Value → Prop} {parent : NodeId}
    {n : DataNode} (h : Stands c fits parent n) : ∃ e, c.tree.entry? parent n.id = some e := by
  cases h with
  | leaf he _ _ | leafListEntry he _ _ | listEntry he _ _ _ | inner he _ _ _ => exact ⟨_, he⟩

/-- The kind of a schema node tells whether the nodes that stand there have
plain keys. So siblings of one schema node are all plain or all entries. -/
theorem Stands.isPlain_iff {c : Context} {fits : NodeId → Value → Prop} {parent : NodeId}
    {n : DataNode} (h : Stands c fits parent n) {e : ContextEntry}
    (he : c.tree.entry? parent n.id = some e) :
    n.key.IsPlain ↔ c.tree.kind? e.node ≠ some .list ∧ c.tree.kind? e.node ≠ some .leafList := by
  cases h with
  | leaf he' hkind _ | leafListEntry he' hkind _ | listEntry he' hkind _ _ =>
      obtain rfl := Option.some.inj (he'.symm.trans he)
      simp [hkind, Key.IsPlain, DataNode.key, Key.id]
  | inner he' hkind hinner _ =>
      obtain rfl := Option.some.inj (he'.symm.trans he)
      simp [hkind, Key.IsPlain, DataNode.key, Key.id, hinner]

/-- Nodes at the top level stand below the newest revisions of their modules. -/
def StandsAll (c : Context) (fits : NodeId → Value → Prop) (nodes : List DataNode) : Prop :=
  ∀ n ∈ nodes, ∃ name root, c.tree.findModule? name none = some root ∧
    c.tree.ns root = n.id.ns ∧ Stands c fits root n

theorem StandsAll.mono {c : Context} {fits fits' : NodeId → Value → Prop} {nodes : List DataNode}
    (h : StandsAll c fits nodes) (weaker : ∀ i v, fits i v → fits' i v) :
    StandsAll c fits' nodes := by
  intro n hn
  obtain ⟨name, root, hroot, hns, hstands⟩ := h n hn
  exact ⟨name, root, hroot, hns, hstands.mono weaker⟩

theorem StandsAll.exists_parent {c : Context} {fits : NodeId → Value → Prop}
    {nodes : List DataNode} (h : StandsAll c fits nodes) :
    ∀ n ∈ nodes, ∃ parent, Stands c fits parent n := by
  intro n hn
  obtain ⟨_, root, _, _, hstands⟩ := h n hn
  exact ⟨root, hstands⟩

/-- A data node may stand below a schema node. A value is one that its type
reads back from its literal, and a list entry has the key that its children
give. -/
inductive Conforms (c : Context) : NodeId → DataNode → Prop
  | leaf {parent : NodeId} {id : SchemaId} {e : ContextEntry} {value : Value}
      (he : c.tree.entry? parent id = some e) (hkind : c.tree.kind? e.node = some .leaf)
      (stable : c.leafValue e.node value.literal = .ok value) :
      Conforms c parent (.leaf (.plain id) value)
  | leafListEntry {parent : NodeId} {id : SchemaId} {e : ContextEntry} {value : Value}
      (he : c.tree.entry? parent id = some e) (hkind : c.tree.kind? e.node = some .leafList)
      (stable : c.leafValue e.node value.literal = .ok value) :
      Conforms c parent (.leaf (.leafListEntry id value) value)
  | listEntry {parent : NodeId} {id : SchemaId} {e : ContextEntry} {leaves : List KeyLeaf}
      {children : List DataNode} (he : c.tree.entry? parent id = some e)
      (hkind : c.tree.kind? e.node = some .list)
      (hkey : c.listEntryKey e.node children = .ok (.listEntry id leaves))
      (plain : PlainDiffer children) (below : ∀ child ∈ children, Conforms c e.node child) :
      Conforms c parent (.inner (.listEntry id leaves) children)
  | inner {parent : NodeId} {id : SchemaId} {e : ContextEntry} {kind : NodeKind}
      {children : List DataNode} (he : c.tree.entry? parent id = some e)
      (hkind : c.tree.kind? e.node = some kind)
      (hinner : kind ≠ .leaf ∧ kind ≠ .leafList ∧ kind ≠ .list)
      (plain : PlainDiffer children) (below : ∀ child ∈ children, Conforms c e.node child) :
      Conforms c parent (.inner (.plain id) children)

/-- Data at the top level: each node stands below the newest revision of its
module. -/
structure ConformsAll (c : Context) (nodes : List DataNode) : Prop where
  below : ∀ n ∈ nodes, ∃ name root, c.tree.findModule? name none = some root ∧
    c.tree.ns root = n.id.ns ∧ Conforms c root n
  plain : PlainDiffer nodes

/-- What conforms stands, with values that are read back from their literals. -/
theorem Conforms.stands {c : Context} {parent : NodeId} {n : DataNode} (h : Conforms c parent n) :
    Stands c (fun i v => c.leafValue i v.literal = .ok v) parent n := by
  induction h with
  | leaf he hkind stable => exact .leaf he hkind stable
  | leafListEntry he hkind stable => exact .leafListEntry he hkind stable
  | listEntry he hkind hkey _ _ ih => exact .listEntry he hkind hkey ih
  | inner he hkind hinner _ _ ih => exact .inner he hkind hinner ih

theorem ConformsAll.exists_parent {c : Context} {nodes : List DataNode} (h : ConformsAll c nodes) :
    ∀ n ∈ nodes, ∃ parent, Conforms c parent n := by
  intro n hn
  obtain ⟨_, root, _, _, hbelow⟩ := h.below n hn
  exact ⟨root, hbelow⟩

end Codec

end Yang
