import Yang.Proofs.Codec.DepthLimit
import Yang.Proofs.Codec.Namespaces
import Yang.Proofs.Codec.XmlRoundTrip

/-!
# The wrapper of a document

The writer puts the elements of all nodes at the top level into a wrapper. The reader takes the
root of a document for a wrapper by its name, unless its namespace leads to a module: then the
root is a node of this module. So the wrapper that was written is recognised exactly as long as
no module is entered under its namespace. Once one is, the root is all that is ever read, and
the nodes for which the document was written are not.
-/

namespace Yang.Codec

open Schema Instance

namespace Xml

open Yang.Xml

variable {c : Context} {parent : NodeId} {depth : Nat} {n : DataNode} {nodes : List DataNode}

def wrapped (nodes : List DataNode) : List Xml.Node :=
  Markup.treesOfAll (some wrapperNamespace) (elements none nodes)

def documentRoot (nodes : List DataNode) : Xml.Node :=
  .element (some wrapperNamespace) wrapperName (wrapped nodes)

def NamedAfter (n : DataNode) (x : Xml.Node) : Prop :=
  ∃ children, x = .element (some n.id.ns) n.id.name children

/-- What is written for a node is one element, named after it. Its namespace is
declared or comes from the element around it. -/
theorem exists_trees_element {parentNs around : Option String}
    (within : ∀ uri ∈ parentNs, around = some uri) (n : DataNode) :
    ∃ x, (element parentNs n).trees around = [x] ∧ NamedAfter n x := by
  cases n with
  | leaf key value =>
      rw [element]
      split
      · refine ⟨_, ?_, [], rfl⟩
        rw [Markup.trees, declared_or within]
        rfl
      · refine ⟨_, ?_, Markup.treesOfAll (some key.id.ns) [.text value.literal], rfl⟩
        rw [Markup.trees, declared_or within]
        rfl
  | inner key children =>
      refine ⟨_, ?_, Markup.treesOfAll (some key.id.ns) (elements (some key.id.ns) children), rfl⟩
      rw [element, Markup.trees, declared_or within]
      rfl

theorem forall₂_wrapped (nodes : List DataNode) :
    List.Forall₂ NamedAfter nodes (wrapped nodes) := by
  induction nodes with
  | nil => exact .nil
  | cons n rest ih =>
      have hnone : ∀ uri ∈ (none : Option String), some wrapperNamespace = some uri :=
        fun _ huri => absurd huri (Option.not_mem_none _)
      obtain ⟨x, hx, hn⟩ := exists_trees_element hnone n
      rw [wrapped, elements, Markup.treesOfAll, hx]
      exact .cons hn ih

theorem isElement_of_mem_wrapped : ∀ x ∈ wrapped nodes, x.isElement = true := by
  intro x hx
  obtain ⟨n, -, children, rfl⟩ := exists_mem_of_forall₂ (forall₂_wrapped nodes) hx
  rfl

/-- A root with the namespace of a module is a node of it. -/
theorem topElements_of_module {root : NodeId}
    (h : c.moduleByNamespace? wrapperNamespace = some root) (nodes : List DataNode) :
    topElements c (documentRoot nodes) = [documentRoot nodes] := by
  have hmodule : ¬((some wrapperNamespace).bind c.moduleByNamespace?).isNone = true := by
    simp [h]
  rw [documentRoot, topElements, if_neg fun hwrapper => hmodule hwrapper.2]

theorem ne_wrapped (nodes : List DataNode) : [documentRoot nodes] ≠ wrapped nodes := by
  intro hself
  have hsize := congrArg sizeOf hself
  rw [documentRoot, List.cons.sizeOf_spec, Node.element.sizeOf_spec] at hsize
  omega

/-- The root is read as the wrapper exactly if its namespace leads to no module. -/
theorem topElements_eq_wrapped_iff : topElements c (documentRoot nodes) = wrapped nodes ↔
    c.moduleByNamespace? wrapperNamespace = none := by
  constructor
  · intro hwrapped
    rw [Option.eq_none_iff_forall_ne_some]
    intro root hroot
    exact ne_wrapped nodes ((topElements_of_module hroot nodes).symm.trans hwrapped)
  · exact topElements_wrapper isElement_of_mem_wrapped

/-- The node of an element has its name and its namespace, and an element that
is decoded always gives one. -/
theorem id_of_decodeNode (sound : c.tree.Sound) {uri name : String} {children : List Xml.Node}
    {found : Option DataNode}
    (h : decodeNode c parent depth (.element (some uri) name children) = .ok found) :
    ∃ n, found = some n ∧ n.id = ⟨name, uri⟩ := by
  simp only [decodeNode, bind_eq_ok_iff, exists_unit_iff] at h
  obtain ⟨-, h⟩ := h
  split at h
  · cases h
  · rename_i e hchild
    obtain ⟨hname, hns, he⟩ := sound.entry?_of_dataChild? hchild
    rw [hname, hns uri rfl] at he
    split at h
    · rename_i hkind
      simp only [bind_eq_ok_iff, pure_eq_ok_iff] at h
      obtain ⟨n, hn, rfl⟩ := h
      exact ⟨n, rfl, (Stands.of_valueNode sound he (isTerminal_iff.mp hkind) hn).1⟩
    · rename_i hkind
      simp only [bind_eq_ok_iff, pure_eq_ok_iff] at h
      obtain ⟨below, hbelow, n, hn, rfl⟩ := h
      exact ⟨n, rfl, (Stands.of_innerNode sound he (mt isTerminal_iff.mpr hkind)
        (stands_of_decodeNodes sound children hbelow) hn).1⟩

/-- Where the root is not the wrapper, nothing but a node of its name is read,
whatever the document was written for. -/
theorem decodeRoot_of_module (sound : c.tree.Sound) {root : NodeId}
    (hroot : c.moduleByNamespace? wrapperNamespace = some root) {found : List DataNode}
    (h : decodeRoot c (documentRoot nodes) = .ok found) :
    ∃ n, found = [n] ∧ n.id = ⟨wrapperName, wrapperNamespace⟩ := by
  simp only [decodeRoot, topElements_of_module hroot, bind_eq_ok_iff, pure_eq_ok_iff,
    mapM_eq_ok_iff, List.forall₂_cons_left_iff, List.forall₂_nil_left_iff] at h
  obtain ⟨_, ⟨top, _, htop, rfl, rfl⟩, rfl⟩ := h
  rw [documentRoot, decodeTop, hroot] at htop
  obtain ⟨n, rfl, hid⟩ := id_of_decodeNode sound htop
  exact ⟨n, rfl, hid⟩

/-- Nothing at all is read if the module has no node of that name at its top.
The error names the element that was taken for a node. -/
theorem decodeRoot_of_no_node {root : NodeId}
    (hroot : c.moduleByNamespace? wrapperNamespace = some root)
    (hdepth : c.limits.check .dataDepth 1 = .ok ())
    (hchild : c.tree.dataChild? root wrapperName (some wrapperNamespace) = none)
    (nodes : List DataNode) :
    decodeRoot c (documentRoot nodes) =
      .error (.decode (.unknownElement wrapperName (c.tree.pathOf root))) := by
  have htop : decodeTop c (documentRoot nodes) =
      .error (.decode (.unknownElement wrapperName (c.tree.pathOf root))) := by
    rw [documentRoot, decodeTop, hroot]
    simp only
    rw [decodeNode, hdepth, hchild]
    rfl
  rw [decodeRoot, topElements_of_module hroot, List.mapM_cons, htop]
  rfl

end Xml

open Codec.Xml

/-- A document that was written is read as its wrapper with the elements of all
nodes in it, one for each, exactly if no module of the namespace of the wrapper
is newer than those of its name before it. If there is one, the root is read as
a node itself, and the only thing that can come of it is one node with the name
of the wrapper. -/
theorem decode_written_document {t : Tree} {limits : Limits} (reachable : t.Reachable)
    {d : ResourceData} {s : Stream} (library : (document d.nodes).IsReadBack)
    (h : xml.encode (Context.ofTree t limits) d = .ok s) :
    List.Forall₂ NamedAfter d.nodes (wrapped d.nodes) ∧
      xml.decode (Context.ofTree t limits) s =
        ResourceData.mk none <$> decodeRoot (Context.ofTree t limits) (documentRoot d.nodes) ∧
      (topElements (Context.ofTree t limits) (documentRoot d.nodes) = wrapped d.nodes ↔
        ∀ m, t.Advances m → t.ns m ≠ wrapperNamespace) ∧
      ∀ m, t.Advances m → t.ns m = wrapperNamespace →
        topElements (Context.ofTree t limits) (documentRoot d.nodes) = [documentRoot d.nodes] ∧
        ∀ found, xml.decode (Context.ofTree t limits) s = .ok found →
          ∃ n, found.nodes = [n] ∧ n.id = ⟨wrapperName, wrapperNamespace⟩ := by
  have hdecode : xml.decode (Context.ofTree t limits) s =
      ResourceData.mk none <$> decodeRoot (Context.ofTree t limits) (documentRoot d.nodes) := by
    obtain ⟨root, hroot, hread⟩ := library
    obtain rfl := List.singleton_inj.mp hroot
    rw [encode_xml_limited, within] at h
    split at h
    · obtain rfl := Except.ok.inj h
      rw [decode_xml_ofText, Xml.decode, hread]
      rfl
    · cases h
  refine ⟨forall₂_wrapped d.nodes, hdecode, ?_, ?_⟩
  · rw [topElements_eq_wrapped_iff]
    exact Context.moduleByNamespace?_ofTree_eq_none_iff reachable.distinct
  · intro m hm hns
    have htaken : (Context.ofTree t limits).moduleByNamespace? wrapperNamespace ≠ none := by
      intro hnone
      exact (Context.moduleByNamespace?_ofTree_eq_none_iff reachable.distinct).mp hnone m hm hns
    obtain ⟨root, hroot⟩ := Option.ne_none_iff_exists'.mp htaken
    refine ⟨topElements_of_module hroot d.nodes, ?_⟩
    intro found hfound
    rw [hdecode, map_eq_ok_iff] at hfound
    obtain ⟨nodes, hnodes, rfl⟩ := hfound
    exact decodeRoot_of_module (Context.sound_ofTree reachable limits) hroot hnodes

def label (ns : String) : DataNode := .leaf (.plain ⟨"label", ns⟩) (.text "vase")

theorem isReadBack_label {ns : String} (plain : Yang.Xml.IsPlainNamespace ns) :
    (document [label ns]).IsReadBack := by
  have hwrapper : ∀ uri ∈ some wrapperNamespace, Yang.Xml.IsPlainNamespace uri := by
    intro uri huri
    obtain rfl := Option.some.inj huri
    exact isPlainNamespace_wrapper
  have hlabel : ∀ uri ∈ some ns, Yang.Xml.IsPlainNamespace uri := by
    intro uri huri
    obtain rfl := Option.some.inj huri
    exact plain
  have hname : Name.isIdentifier "label" = true := by decide
  have htext : Yang.Xml.IsPlainText "vase" := by decide
  refine (Yang.Xml.Markup.IsPlain.inner (by decide) hwrapper ?_).isReadBack
  exact List.forall_mem_singleton.mpr (.leaf hname hlabel htext)

/-- A label is written over every schema. -/
theorem encode_label (t : Tree) (ns : String) :
    xml.encode (Context.ofTree t {}) { nodes := [label ns] } =
      .ok (Stream.ofText (document [label ns]).written none) := by
  have hdepth : 1 + DataNode.depthOfAll [label ns] ≤ ({} : Limits).dataDepth + 1 :=
    Nat.le_of_ble_eq_true rfl
  rw [encode_xml_limited]
  exact within_of_le hdepth

/-- A module that had the namespace of the wrapper until it got another one. -/
def renamed : Tree :=
  [.module "netconf" "urn:netconf" "n" (some "2011-06-01"),
    .leaf 0 "label" (.builtin .string none),
    .module "netconf" "urn:ietf:params:xml:ns:netconf:base:1.0" "nc" (some "2006-12-01")].foldl
      Tree.after {}

/-- The old module does not count, as the new one comes first. -/
theorem decode_written_document_renamed :
    renamed.Reachable ∧ (document [label "urn:netconf"]).IsReadBack ∧
      ∃ s, xml.encode (Context.ofTree renamed {}) { nodes := [label "urn:netconf"] } = .ok s ∧
        renamed.ns 2 = wrapperNamespace ∧
        topElements (Context.ofTree renamed {}) (documentRoot [label "urn:netconf"]) =
          wrapped [label "urn:netconf"] := by
  have reachable : renamed.Reachable := Tree.Reachable.empty.foldl_after _
  have library : (document [label "urn:netconf"]).IsReadBack := isReadBack_label (by decide)
  have hencode := encode_label renamed "urn:netconf"
  obtain ⟨-, -, hwrapped, -⟩ := decode_written_document reachable library hencode
  have hold : renamed.ns 2 = wrapperNamespace := by decide +kernel
  refine ⟨reachable, library, _, hencode, hold, hwrapped.mpr ?_⟩
  have hmodules : ∀ m ∈ renamed.modules, renamed.Advances m → renamed.ns m ≠ wrapperNamespace := by
    decide +kernel
  exact fun m hm => hmodules m (Tree.mem_modules_iff.mpr hm.1) hm

/-- A label in a module that has the namespace of the wrapper. -/
def managed : Tree :=
  [.module "netconf" "urn:ietf:params:xml:ns:netconf:base:1.0" "nc" none,
    .leaf 0 "label" (.builtin .string none)].foldl Tree.after {}

def managedContext : Context where
  tree := ⟨#[
    ⟨⟨"netconf", "urn:ietf:params:xml:ns:netconf:base:1.0"⟩, .module ⟨"nc", none, []⟩, none,
      [(⟨"label", "urn:ietf:params:xml:ns:netconf:base:1.0"⟩, 1)],
      [(⟨"label", "urn:ietf:params:xml:ns:netconf:base:1.0"⟩, ⟨1, none, false⟩)]⟩,
    ⟨⟨"label", "urn:ietf:params:xml:ns:netconf:base:1.0"⟩, .leaf (.builtin .string none), some 0,
      [], []⟩]⟩
  byName := [("netconf", 0)]
  byNamespace := [("urn:ietf:params:xml:ns:netconf:base:1.0", 0)]

theorem ofTree_managed : Context.ofTree managed {} = managedContext := by with_unfolding_all rfl

/-- The label is written, but the document is not read: its root is looked up in
the module. -/
theorem wrapper_read_as_node :
    managed.Reachable ∧ (document [label wrapperNamespace]).IsReadBack ∧
      ∃ s, xml.encode (Context.ofTree managed {}) { nodes := [label wrapperNamespace] } = .ok s ∧
        topElements (Context.ofTree managed {}) (documentRoot [label wrapperNamespace]) =
          [documentRoot [label wrapperNamespace]] ∧
        xml.decode (Context.ofTree managed {}) s =
          .error (.decode (.unknownElement "data" "/netconf")) := by
  have library := isReadBack_label isPlainNamespace_wrapper
  have hroot : managedContext.moduleByNamespace? wrapperNamespace = some 0 := by decide +kernel
  have hchild : managedContext.tree.dataChild? 0 wrapperName (some wrapperNamespace) = none := by
    decide +kernel
  have hpath : managedContext.tree.pathOf 0 = "/netconf" := by decide +kernel
  have hdecode := decodeRoot_of_no_node hroot rfl hchild [label wrapperNamespace]
  refine ⟨Tree.Reachable.empty.foldl_after _, library, _, encode_label managed wrapperNamespace,
    ?_, ?_⟩
  · rw [ofTree_managed]
    exact topElements_of_module hroot _
  · obtain ⟨root, hroot, hread⟩ := library
    obtain rfl := List.singleton_inj.mp hroot
    rw [decode_xml_ofText, Xml.decode, hread, ofTree_managed, ← hpath]
    exact congrArg (ResourceData.mk none <$> ·) hdecode

end Yang.Codec
