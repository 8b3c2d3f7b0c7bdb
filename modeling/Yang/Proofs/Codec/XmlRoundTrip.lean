import Yang.Codec
import Yang.Proofs.Codec.Context
import Yang.Proofs.Codec.JsonRoundTrip
import Yang.Proofs.Codec.Payload
import Yang.Proofs.Codec.Soundness
import Yang.Proofs.Codec.Standing
import Yang.Proofs.Xml.ReadBack

/-!
# Data written as XML and read back

Data that stands below a schema is read back from its XML form as it was, with all
siblings in order. The writer leaves out the declaration of a namespace that is in force
already, so the element of a node has its namespace in either case, and the reader finds
the schema node by it. What remains is the value of a leaf, which its type has to recover
from the text that the reader hands on.
-/

namespace Yang.Codec

open Schema Instance

namespace Xml

open Yang.Xml

/-- The type of a leaf reads the value back from the text that is handed on. For
strings this is the literal and for all others the trimmed one. -/
def Recovered (c : Context) (i : NodeId) (v : Value) : Prop :=
  c.leafValue i (if keepsBlanks c i then v.literal else Text.trim v.literal) = .ok v

variable {c : Context} {parent : NodeId} {parentNs around : Option String} {depth : Nat}
  {n : DataNode} {nodes : List DataNode} {m : Markup} {ms : List Markup}

/-- The namespace of an element is that of its node, declared or not. -/
theorem declared_or (within : ∀ uri ∈ parentNs, around = some uri) (ns : String) :
    (declared parentNs ns).or around = some ns := by
  rw [declared]
  split
  · rename_i hns
    exact within ns hns
  · rfl

/-- The text of a leaf is the literal that was written, trimmed for all but
strings. An empty literal leaves no text, which is read as an empty one. -/
theorem leafText_trees (c : Context) (around : Option String) (literal : String) (i : NodeId) :
    leafText c i (Markup.treesOfAll around [.text literal]) =
      if keepsBlanks c i then literal else Text.trim literal := by
  have hleading : Node.leadingText (Markup.treesOfAll around [.text literal]) = literal := by
    rw [Markup.treesOfAll, Markup.treesOfAll, Markup.trees, List.append_nil]
    split
    · rename_i hempty
      rw [hempty]
      rfl
    · rfl
  rw [leafText, hleading]

section Reading

variable {id : SchemaId} {e : ContextEntry} {children : List Xml.Node}

theorem decodeNode_leaf (sound : c.tree.Sound)
    (hdepth : c.limits.check .dataDepth depth = .ok ())
    (he : c.tree.entry? parent id = some e)
    (hkind : c.tree.kind? e.node = some .leaf ∨ c.tree.kind? e.node = some .leafList) :
    decodeNode c parent depth (.element (some id.ns) id.name children) =
      some <$> c.valueNode e.node (leafText c e.node children) := by
  rw [decodeNode, hdepth, sound.dataChild?_eq, he]
  refine (if_pos (isTerminal_iff.mpr hkind)).trans ?_
  cases c.valueNode e.node (leafText c e.node children) <;> rfl

theorem decodeNode_inner (sound : c.tree.Sound)
    (hdepth : c.limits.check .dataDepth depth = .ok ())
    (he : c.tree.entry? parent id = some e)
    (hkind : ¬(c.tree.kind? e.node = some .leaf ∨ c.tree.kind? e.node = some .leafList))
    (hnodes : decodeNodes c e.node (depth + 1) children = .ok nodes) :
    decodeNode c parent depth (.element (some id.ns) id.name children) =
      some <$> c.innerNode e.node nodes := by
  rw [decodeNode, hdepth, sound.dataChild?_eq, he]
  refine (if_neg (mt isTerminal_iff.mp hkind)).trans ?_
  rw [hnodes]
  change (c.innerNode e.node nodes >>= fun n => pure (some n)) = _
  cases c.innerNode e.node nodes <;> rfl

theorem valueNode_of_recovered (sound : c.tree.Sound) (he : c.tree.entry? parent id = some e)
    {value : Value} (recovered : Recovered c e.node value)
    (htext : leafText c e.node children =
      if keepsBlanks c e.node then value.literal else Text.trim value.literal) :
    c.valueNode e.node (leafText c e.node children) =
      .ok (.leaf (if c.tree.kind? e.node = some .leafList then .leafListEntry id value
        else .plain id) value) := by
  have hid := id_of_entry? sound he
  rw [Recovered] at recovered
  rw [Context.valueNode, htext, recovered, hid]
  change ite _ _ _ = _
  split <;> rfl

/-- The element is read as the node wherever the node stands. That it is an
element of its name is needed to find the entry. -/
def ReadAs (c : Context) (depth : Nat) (n : DataNode) (x : Xml.Node) : Prop :=
  (∃ children, x = .element (some n.id.ns) n.id.name children) ∧
    ∀ parent, Stands c (Recovered c) parent n → decodeNode c parent depth x = .ok (some n)

theorem readAs_leaf (sound : c.tree.Sound) (hdepth : c.limits.check .dataDepth depth = .ok ())
    (key : Key) (value : Value)
    (htext : ∀ i, leafText c i children =
      if keepsBlanks c i then value.literal else Text.trim value.literal) :
    ReadAs c depth (.leaf key value) (.element (some key.id.ns) key.id.name children) := by
  refine ⟨⟨children, rfl⟩, ?_⟩
  intro parent h
  cases h with
  | leaf he hkind recovered =>
      have hvalue := valueNode_of_recovered sound he recovered (htext _)
      rw [if_neg (by simp [hkind])] at hvalue
      refine (decodeNode_leaf sound hdepth he (.inl hkind)).trans ?_
      rw [hvalue]
      rfl
  | leafListEntry he hkind recovered =>
      have hvalue := valueNode_of_recovered sound he recovered (htext _)
      rw [if_pos hkind] at hvalue
      refine (decodeNode_leaf sound hdepth he (.inr hkind)).trans ?_
      rw [hvalue]
      rfl

/-- Elements that are read as siblings are read one after the other, and nothing
stands between them. -/
theorem decodeNodes_of_readAs {xs : List Xml.Node} (h : List.Forall₂ (ReadAs c depth) nodes xs)
    (below : ∀ n ∈ nodes, Stands c (Recovered c) parent n) :
    decodeNodes c parent depth xs = .ok nodes := by
  induction h with
  | nil => rw [decodeNodes]
  | @cons n x nodes xs hread _ ih =>
      obtain ⟨hn, hnodes⟩ := List.forall_mem_cons.mp below
      rw [decodeNodes, hread.2 parent hn, ih hnodes]
      rfl

theorem readAs_inner (sound : c.tree.Sound) (hdepth : c.limits.check .dataDepth depth = .ok ())
    (key : Key) (h : List.Forall₂ (ReadAs c (depth + 1)) nodes children) :
    ReadAs c depth (.inner key nodes) (.element (some key.id.ns) key.id.name children) := by
  refine ⟨⟨children, rfl⟩, ?_⟩
  intro parent hstands
  cases hstands with
  | listEntry he hkind hkey below =>
      refine (decodeNode_inner sound hdepth he (by simp [hkind])
        (decodeNodes_of_readAs h below)).trans ?_
      rw [Context.innerNode, if_pos hkind, hkey]
      rfl
  | inner he hkind hinner below =>
      have hid := id_of_entry? sound he
      refine (decodeNode_inner sound hdepth he (by simp [hkind, hinner])
        (decodeNodes_of_readAs h below)).trans ?_
      rw [Context.innerNode, if_neg (by simp [hkind, hinner]), hid]
      rfl

end Reading

mutual

/-- What is written for a node is an element that is read as the node. The
induction is on the node, for every namespace around it. -/
theorem readAs_of_encodeNode {c : Context} (sound : c.tree.Sound) {parentNs : Option String}
    (around : Option String) (within : ∀ uri ∈ parentNs, around = some uri)
    {depth : Nat} {m : Markup} : ∀ n, encodeNode c parentNs depth n = .ok m →
      ∃ x, m.trees around = [x] ∧ ReadAs c depth n x
  | .leaf key value, h => by
      simp only [encodeNode, bind_eq_ok_iff, exists_unit_iff] at h
      obtain ⟨hdepth, h⟩ := h
      split at h
      · rename_i hempty
        obtain rfl := pure_eq_ok_iff.mp h
        have htext : ∀ i, leafText c i [] =
            if keepsBlanks c i then value.literal else Text.trim value.literal := by
          subst hempty
          exact fun _ => rfl
        refine ⟨_, ?_, readAs_leaf sound hdepth key value htext⟩
        rw [Markup.trees, declared_or within]
      · obtain rfl := pure_eq_ok_iff.mp h
        have htext := leafText_trees c (some key.id.ns) value.literal
        refine ⟨_, ?_, readAs_leaf sound hdepth key value htext⟩
        rw [Markup.trees, declared_or within]
  | .inner key children, h => by
      simp only [encodeNode, bind_eq_ok_iff, exists_unit_iff, pure_eq_ok_iff] at h
      obtain ⟨hdepth, elements, helements, rfl⟩ := h
      have hread := readAs_of_encodeNodes sound (some key.id.ns) (fun _ huri => huri) children
        helements
      refine ⟨_, ?_, readAs_inner sound hdepth key hread⟩
      rw [Markup.trees, declared_or within]

/-- What is written for siblings are elements that are read as the siblings.
None of them declares anything for the others. -/
theorem readAs_of_encodeNodes {c : Context} (sound : c.tree.Sound) {parentNs : Option String}
    (around : Option String) (within : ∀ uri ∈ parentNs, around = some uri)
    {depth : Nat} {ms : List Markup} : ∀ nodes, encodeNodes c parentNs depth nodes = .ok ms →
      List.Forall₂ (ReadAs c depth) nodes (Markup.treesOfAll around ms)
  | [], h => by
      rw [encodeNodes] at h
      obtain rfl := Except.ok.inj h
      exact .nil
  | n :: rest, h => by
      simp only [encodeNodes, bind_eq_ok_iff, pure_eq_ok_iff] at h
      obtain ⟨first, hfirst, others, hothers, rfl⟩ := h
      obtain ⟨x, hx, hread⟩ := readAs_of_encodeNode sound around within n hfirst
      rw [Markup.treesOfAll, hx]
      exact .cons hread (readAs_of_encodeNodes sound around within rest hothers)

end

section Top

variable {t : Tree} {limits : Limits}

/-- A node at the top level is read below the newest revision of its module. -/
theorem decodeTop_of_readAs (reachable : t.Reachable) (one : t.NamesNamespaces) {x : Xml.Node}
    (hread : ReadAs (Context.ofTree t limits) 1 n x) {name : String} {root : NodeId}
    (hroot : t.findModule? name none = some root) (hns : t.ns root = n.id.ns)
    (below : Stands (Context.ofTree t limits) (Recovered (Context.ofTree t limits)) root n) :
    decodeTop (Context.ofTree t limits) x = .ok (some n) := by
  have hmodule : (Context.ofTree t limits).moduleByNamespace? (t.ns root) = some root :=
    Context.moduleByNamespace?_ofTree reachable.distinct one hroot
  rw [hns] at hmodule
  obtain ⟨⟨children, rfl⟩, hdecode⟩ := hread
  simp only [decodeTop, hmodule]
  exact hdecode root below

theorem topElements_wrapper {xs : List Xml.Node} (hxs : ∀ x ∈ xs, x.isElement = true)
    (unused : c.moduleByNamespace? wrapperNamespace = none) :
    topElements c (.element (some wrapperNamespace) wrapperName xs) = xs := by
  rw [topElements, if_pos ⟨rfl, by simp [unused]⟩]
  exact List.filter_eq_self.mpr hxs

theorem moduleByNamespace?_eq_none {ns : String}
    (unused : ∀ i, t.kind? i = some .module → t.ns i ≠ ns) :
    (Context.ofTree t limits).moduleByNamespace? ns = none := by
  rw [Option.eq_none_iff_forall_ne_some]
  intro root hroot
  obtain ⟨hkind, hns⟩ := Context.mem_of_moduleByNamespace? hroot
  exact unused root hkind hns

/-- The element tree of a document is read as the nodes for which it was
written. -/
theorem decodeRoot_of_encodeDocument (reachable : t.Reachable) (one : t.NamesNamespaces)
    (unused : ∀ i, t.kind? i = some .module → t.ns i ≠ wrapperNamespace)
    (below : StandsAll (Context.ofTree t limits) (Recovered (Context.ofTree t limits)) nodes)
    (hm : encodeDocument (Context.ofTree t limits) nodes = .ok m) :
    ∃ x, m.trees none = [x] ∧ decodeRoot (Context.ofTree t limits) x = .ok nodes := by
  simp only [encodeDocument, bind_eq_ok_iff, pure_eq_ok_iff] at hm
  obtain ⟨elements, helements, rfl⟩ := hm
  have hread := readAs_of_encodeNodes (Context.sound_ofTree reachable limits)
    (some wrapperNamespace) (fun _ huri => absurd huri (Option.not_mem_none _)) nodes helements
  refine ⟨.element (some wrapperNamespace) wrapperName
    (Markup.treesOfAll (some wrapperNamespace) elements), rfl, ?_⟩
  generalize Markup.treesOfAll (some wrapperNamespace) elements = xs at hread
  have helement : ∀ x ∈ xs, x.isElement = true := by
    intro x hx
    obtain ⟨n, -, ⟨children, rfl⟩, -⟩ := exists_mem_of_forall₂ hread hx
    rfl
  have hdecode : xs.mapM (decodeTop (Context.ofTree t limits)) = .ok (nodes.map some) := by
    rw [mapM_eq_ok_iff, List.forall₂_map_right_iff]
    refine List.Forall₂.flip (((List.forall₂_and_left _ _).mpr ⟨below, hread⟩).imp ?_)
    rintro n x ⟨⟨name, root, hroot, hns, hstands⟩, hx⟩
    rw [Context.tree_ofTree] at hroot hns
    exact decodeTop_of_readAs reachable one hx hroot hns hstands
  rw [decodeRoot, topElements_wrapper helement (moduleByNamespace?_eq_none unused), hdecode]
  change Except.ok ((nodes.map some).flatMap Option.toList) = _
  rw [List.flatMap_map]
  exact congrArg Except.ok (List.flatMap_singleton' nodes)

end Top

section Plain

theorem eq_of_mem_declared {ns uri : String} (h : uri ∈ declared parentNs ns) : uri = ns := by
  rw [declared] at h
  split at h
  · cases h
  · exact (Option.some.inj h).symm

/-- A node is named by an identifier, in the namespace of a module. Both come
from the entry below which it stands. -/
theorem named_of_stands (sound : c.tree.Sound)
    (spaces : ∀ i, c.tree.kind? i = some .module → IsPlainNamespace (c.tree.ns i))
    {fits : NodeId → Value → Prop} (h : Stands c fits parent n) (parentNs : Option String) :
    Name.isIdentifier n.id.name = true ∧
      ∀ uri ∈ declared parentNs n.id.ns, IsPlainNamespace uri := by
  obtain ⟨e, he⟩ := h.exists_entry
  refine ⟨sound.isIdentifier_of_mem (Tree.mem_context_of_entry? he), ?_⟩
  intro uri huri
  obtain ⟨module, hkind, hns⟩ := sound.exists_module he
  rw [eq_of_mem_declared huri, ← hns]
  exact spaces module hkind

mutual

/-- The element of a node is plain if the literals of its values are. -/
theorem isPlain_of_encodeNode {c : Context} (sound : c.tree.Sound)
    (spaces : ∀ i, c.tree.kind? i = some .module → IsPlainNamespace (c.tree.ns i))
    {parentNs : Option String} {depth : Nat} {parent : NodeId} {m : Markup} :
    ∀ n, Stands c (fun _ v => IsPlainText v.literal) parent n →
      encodeNode c parentNs depth n = .ok m → m.IsPlain
  | .leaf key value, hstands, h => by
      obtain ⟨hname, hdeclared⟩ := named_of_stands sound spaces hstands parentNs
      have hvalue : IsPlainText value.literal := by
        cases hstands with
        | leaf _ _ hvalue | leafListEntry _ _ hvalue => exact hvalue
      simp only [encodeNode, bind_eq_ok_iff, exists_unit_iff] at h
      obtain ⟨-, h⟩ := h
      split at h
      · obtain rfl := pure_eq_ok_iff.mp h
        exact .void hname hdeclared
      · obtain rfl := pure_eq_ok_iff.mp h
        exact .leaf hname hdeclared hvalue
  | .inner key children, hstands, h => by
      obtain ⟨hname, hdeclared⟩ := named_of_stands sound spaces hstands parentNs
      simp only [encodeNode, bind_eq_ok_iff, exists_unit_iff, pure_eq_ok_iff] at h
      obtain ⟨-, elements, helements, rfl⟩ := h
      cases hstands with
      | listEntry _ _ _ below | inner _ _ _ below =>
          exact .inner hname hdeclared (isPlain_of_encodeNodes sound spaces children
            (fun child hchild => ⟨_, below child hchild⟩) helements)

/-- The elements of siblings are plain if the literals of their values are.
Names and namespaces come from the schema and are plain there. -/
theorem isPlain_of_encodeNodes {c : Context} (sound : c.tree.Sound)
    (spaces : ∀ i, c.tree.kind? i = some .module → IsPlainNamespace (c.tree.ns i))
    {parentNs : Option String} {depth : Nat} {ms : List Markup} :
    ∀ nodes, (∀ n ∈ nodes, ∃ parent, Stands c (fun _ v => IsPlainText v.literal) parent n) →
      encodeNodes c parentNs depth nodes = .ok ms → ∀ m ∈ ms, m.IsPlain
  | [], _, h => by
      rw [encodeNodes] at h
      obtain rfl := Except.ok.inj h
      exact List.forall_mem_nil _
  | n :: rest, hstands, h => by
      simp only [encodeNodes, bind_eq_ok_iff, pure_eq_ok_iff] at h
      obtain ⟨first, hfirst, others, hothers, rfl⟩ := h
      obtain ⟨⟨parent, hn⟩, hrest⟩ := List.forall_mem_cons.mp hstands
      exact List.forall_mem_cons.mpr ⟨isPlain_of_encodeNode sound spaces n hn hfirst,
        isPlain_of_encodeNodes sound spaces rest hrest hothers⟩

end

theorem isPlainNamespace_wrapper : IsPlainNamespace wrapperNamespace := by
  decide

/-- A document of plain literals is read back, so for such data nothing has to
be assumed of the reader of documents. -/
theorem isReadBack_of_encodeDocument (sound : c.tree.Sound)
    (spaces : ∀ i, c.tree.kind? i = some .module → IsPlainNamespace (c.tree.ns i))
    (below : ∀ n ∈ nodes, ∃ parent, Stands c (fun _ v => IsPlainText v.literal) parent n)
    (hm : encodeDocument c nodes = .ok m) : m.IsReadBack := by
  simp only [encodeDocument, bind_eq_ok_iff, pure_eq_ok_iff] at hm
  obtain ⟨elements, helements, rfl⟩ := hm
  have hwrapper : ∀ uri ∈ some wrapperNamespace, IsPlainNamespace uri := by
    intro uri huri
    obtain rfl := Option.some.inj huri
    exact isPlainNamespace_wrapper
  exact (Markup.IsPlain.inner (by decide) hwrapper
    (isPlain_of_encodeNodes sound spaces nodes below helements)).isReadBack

end Plain

end Xml

section Texts

open Yang.Xml Codec.Xml

/-- The text of a document is read as the nodes for which it was written, if it
is read back as its element tree. -/
theorem decode_of_encode_xml {t : Tree} {limits : Limits} (reachable : t.Reachable)
    (one : t.NamesNamespaces) (unused : ∀ i, t.kind? i = some .module → t.ns i ≠ wrapperNamespace)
    {nodes : List DataNode}
    (below : StandsAll (Context.ofTree t limits) (Recovered (Context.ofTree t limits)) nodes)
    {m : Yang.Xml.Markup} (hm : encodeDocument (Context.ofTree t limits) nodes = .ok m)
    (hread : m.IsReadBack) :
    xml.decode (Context.ofTree t limits) (Stream.ofText m.written none) =
      .ok { nodes := nodes } := by
  obtain ⟨x, hx, hdecode⟩ := decodeRoot_of_encodeDocument reachable one unused below hm
  obtain ⟨root, hroot, hread⟩ := hread
  obtain rfl := List.singleton_inj.mp (hx.symm.trans hroot)
  rw [decode_xml_ofText, Xml.decode, hread]
  exact congrArg (ResourceData.mk none <$> ·) hdecode

/-- Conforming data that is encoded as XML is decoded to itself, siblings in
order, as far as a document that was written is read as its element tree. -/
theorem decode_encode_xml {t : Tree} {limits : Limits} (reachable : t.Reachable)
    (one : t.NamesNamespaces) (unused : ∀ i, t.kind? i = some .module → t.ns i ≠ wrapperNamespace)
    {nodes : List DataNode}
    (below : StandsAll (Context.ofTree t limits) (Recovered (Context.ofTree t limits)) nodes)
    (library : ∀ m, encodeDocument (Context.ofTree t limits) nodes = .ok m → m.IsReadBack)
    {s : Stream} (h : xml.encode (Context.ofTree t limits) { nodes := nodes } = .ok s) :
    xml.decode (Context.ofTree t limits) s = .ok { nodes := nodes } := by
  obtain ⟨m, hm, rfl⟩ := encode_xml_eq_ok_iff.mp h
  exact decode_of_encode_xml reachable one unused below hm (library m hm)

/-- Where the literals and the namespaces hold only what the reader does not
change, a document that was written is read as its element tree, and so data is
decoded to itself. -/
theorem decode_encode_xml_of_plain {t : Tree} {limits : Limits} (reachable : t.Reachable)
    (one : t.NamesNamespaces) (unused : ∀ i, t.kind? i = some .module → t.ns i ≠ wrapperNamespace)
    (spaces : ∀ i, t.kind? i = some .module → IsPlainNamespace (t.ns i)) {nodes : List DataNode}
    (below : StandsAll (Context.ofTree t limits)
      (fun i v => Recovered (Context.ofTree t limits) i v ∧ IsPlainText v.literal) nodes)
    {s : Stream} (h : xml.encode (Context.ofTree t limits) { nodes := nodes } = .ok s) :
    xml.decode (Context.ofTree t limits) s = .ok { nodes := nodes } := by
  obtain ⟨m, hm, rfl⟩ := encode_xml_eq_ok_iff.mp h
  have recovered := below.mono fun _ _ hvalue => hvalue.1
  have plain := below.mono fun _ _ hvalue => hvalue.2
  have hread : m.IsReadBack := by
    refine isReadBack_of_encodeDocument (Context.sound_ofTree reachable limits) ?_
      plain.exists_parent hm
    rwa [Context.tree_ofTree]
  exact decode_of_encode_xml reachable one unused recovered hm hread

/-- An item whose name has signs of XML in it and a blank at its end. -/
def glass : DataNode :=
  .inner (.listEntry ⟨"item", "urn:store"⟩ [⟨⟨"name", "urn:store"⟩, .text "glass & <thin> "⟩])
    [.leaf (.leafListEntry ⟨"tag", "urn:store"⟩ (.text "")) (.text ""),
      .leaf (.plain ⟨"name", "urn:store"⟩) (.text "glass & <thin> ")]

theorem standsAll_glass : StandsAll inventoryContext
    (fun i v => Recovered inventoryContext i v ∧ IsPlainText v.literal) [glass] := by
  intro n hn
  obtain rfl := List.mem_singleton.mp hn
  refine ⟨"store", 0, rfl, rfl, .listEntry (e := ⟨1, none, false⟩) rfl rfl rfl ?_⟩
  simp only [List.forall_mem_cons]
  exact ⟨.leafListEntry (e := ⟨3, none, false⟩) rfl rfl ⟨rfl, by decide⟩,
    .leaf (e := ⟨2, none, false⟩) rfl rfl ⟨rfl, by decide⟩, List.forall_mem_nil _⟩

def glassDocument : Markup :=
  .element "data" (some "urn:ietf:params:xml:ns:netconf:base:1.0")
    [.element "item" (some "urn:store")
      [.element "tag" none [.text ""], .element "name" none [.text "glass & <thin> "]]]

/-- The item is read back, with the signs of XML and the blank. -/
theorem decode_encode_xml_glass :
    ∃ s, xml.encode (Context.ofTree inventory {}) { nodes := [glass] } = .ok s ∧
      xml.decode (Context.ofTree inventory {}) s = .ok { nodes := [glass] } := by
  have hmodule : ∀ i, inventory.kind? i = some .module → inventory.ns i = "urn:store" := by
    intro i hi
    have hmem := Tree.mem_modules_iff.mpr hi
    rw [← tree_inventoryContext] at hmem ⊢
    obtain rfl : i = 0 := List.mem_singleton.mp hmem
    rfl
  have unused : ∀ i, inventory.kind? i = some .module → inventory.ns i ≠ wrapperNamespace := by
    intro i hi
    rw [hmodule i hi]
    decide
  have hdocument : encodeDocument (Context.ofTree inventory {}) [glass] = .ok glassDocument := by
    rw [ofTree_inventory]
    with_unfolding_all rfl
  have spaces : ∀ i, inventoryContext.tree.kind? i = some .module →
      IsPlainNamespace (inventoryContext.tree.ns i) := by
    rw [tree_inventoryContext]
    intro i hi
    rw [hmodule i hi]
    decide
  have library : ∀ m, encodeDocument (Context.ofTree inventory {}) [glass] = .ok m →
      m.IsReadBack := by
    rw [ofTree_inventory]
    intro m hm
    have sound : inventoryContext.tree.Sound := tree_inventoryContext ▸ reachable_inventory.sound
    have plain := standsAll_glass.mono fun _ _ hvalue => hvalue.2
    exact isReadBack_of_encodeDocument sound spaces plain.exists_parent hm
  have below : StandsAll (Context.ofTree inventory {}) (Recovered (Context.ofTree inventory {}))
      [glass] := by
    rw [ofTree_inventory]
    exact standsAll_glass.mono fun _ _ hvalue => hvalue.1
  have hencode := encode_xml_eq_ok_iff.mpr ⟨_, hdocument, rfl⟩
  exact ⟨_, hencode, decode_encode_xml reachable_inventory namesNamespaces_inventory unused below
    library hencode⟩

end Texts

end Yang.Codec
