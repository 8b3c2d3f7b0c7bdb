import Yang.Proofs.Codec.Payload
import Yang.Proofs.Codec.Soundness
import Yang.Proofs.Xml.ReadBack

/-!
# Nodes that are repeated

A node with a plain key ought to be the only one of its schema node among its siblings.
The JSON encoder compares siblings, and among data that was decoded it refuses what is
repeated and nothing else on that ground. The decoders compare nothing, so a document that
repeats such a node is decoded to siblings with one key; an object repeats a node without
repeating a name when it qualifies one of the names.
-/

namespace Yang

namespace Instance

/-- Plain siblings differ at every level below a node. -/
inductive DataNode.Differs : DataNode → Prop
  | leaf (key : Key) (value : Value) : Differs (.leaf key value)
  | inner {key : Key} {children : List DataNode} (plain : PlainDiffer children)
      (below : ∀ child ∈ children, Differs child) : Differs (.inner key children)

/-- Plain siblings differ at the top level and below, so no node but the entries
of lists and leaf-lists is repeated. -/
structure DiffersAll (nodes : List DataNode) : Prop where
  plain : PlainDiffer nodes
  below : ∀ n ∈ nodes, n.Differs

end Instance

namespace Codec

open Schema Instance

namespace Json

open Yang.Json

variable {c : Context} {parent : NodeId} {parentNs : Option String} {depth : Nat}
  {nodes : List DataNode} {n : DataNode} {key : Key} {name : String} {v : Json.Value}
  {members next : List (String × Json.Value)}

section Members

theorem lookup_putMember {α : Type} (name other : String) (v : α) (members : List (String × α)) :
    (putMember name v members).lookup other =
      if other = name then some v else members.lookup other := by
  induction members with
  | nil => rw [putMember, Table.lookup_cons_eq_ite]
  | cons member rest ih =>
      obtain ⟨first, w⟩ := member
      rw [putMember]
      split
      · rw [Table.lookup_cons_eq_ite]
      · split
        · rename_i heq
          subst heq
          rw [Table.lookup_cons_eq_ite, Table.lookup_cons_eq_ite]
          split <;> rfl
        · rename_i hne
          rw [Table.lookup_cons_eq_ite, Table.lookup_cons_eq_ite, ih]
          split
          · rename_i heq
            rw [if_neg fun h => hne (h.symm.trans heq)]
          · rfl

/-- Putting a node puts a member of its name, which is new if the node is plain. -/
theorem exists_of_putNode (h : putNode members key name v = .ok next) :
    (∃ w, next = putMember name w members) ∧ (key.IsPlain → members.lookup name = none) := by
  rw [putNode.eq_def] at h
  split at h
  · split at h
    · cases h
    · rename_i hfree
      exact ⟨⟨v, (Except.ok.inj h).symm⟩, fun _ => Option.not_isSome_iff_eq_none.mp hfree⟩
  · rename_i hentry
    refine ⟨?_, fun hplain => absurd hplain (hentry key.id)⟩
    split at h
    · exact ⟨_, (Except.ok.inj h).symm⟩
    · exact ⟨_, (Except.ok.inj h).symm⟩
    · cases h

theorem putNode_eq_repeated {member : String}
    (h : putNode members key name v = .error (.encode (.repeatedMember member))) :
    key.IsPlain ∧ ∃ w, members.lookup name = some w := by
  rw [putNode.eq_def] at h
  split at h
  · split at h
    · rename_i hthere
      exact ⟨rfl, Option.isSome_iff_exists.mp hthere⟩
    · cases h
  · split at h <;> cases h

end Members

section Accepted

mutual

theorem differs_of_encodeNode {c : Context} {depth : Nat} {v : Json.Value} :
    ∀ n, encodeNode c depth n = .ok v → n.Differs
  | .leaf key value, _ => .leaf key value
  | .inner key children, h => by
      simp only [encodeNode, bind_eq_ok_iff, exists_unit_iff, pure_eq_ok_iff] at h
      obtain ⟨-, members, hmembers, rfl⟩ := h
      obtain ⟨hdiffers, -⟩ := differsAll_of_encodeNodes children hmembers
      exact .inner hdiffers.plain hdiffers.below

/-- What is encoded repeats no node, and plain nodes have members of their own.
The second part is what the induction over siblings needs. -/
theorem differsAll_of_encodeNodes {c : Context} {parentNs : Option String} {depth : Nat}
    {members final : List (String × Json.Value)} :
    ∀ nodes, encodeNodes c parentNs depth members nodes = .ok final →
      DiffersAll nodes ∧ ∀ n ∈ nodes, n.key.IsPlain → ∀ name,
        memberName c parentNs n.id = .ok name → members.lookup name = none
  | [], _ => ⟨⟨List.Pairwise.nil, List.forall_mem_nil _⟩, List.forall_mem_nil _⟩
  | n :: rest, h => by
      simp only [encodeNodes, bind_eq_ok_iff] at h
      obtain ⟨name, hname, v, hv, next, hnext, h⟩ := h
      obtain ⟨hrest, hfree⟩ := differsAll_of_encodeNodes rest h
      obtain ⟨⟨w, rfl⟩, hnew⟩ := exists_of_putNode hnext
      have hother : ∀ m ∈ rest, m.key.IsPlain → ∀ other, memberName c parentNs m.id = .ok other →
          other ≠ name ∧ members.lookup other = none := by
        intro m hm hplain other hother
        have hlookup := hfree m hm hplain other hother
        rw [lookup_putMember] at hlookup
        split at hlookup
        · cases hlookup
        · rename_i hne
          exact ⟨hne, hlookup⟩
      refine ⟨⟨List.pairwise_cons.mpr ⟨?_, hrest.plain⟩, ?_⟩, ?_⟩
      · intro m hm _ hplain hid
        exact (hother m hm hplain name (hid ▸ hname)).1 rfl
      · exact List.forall_mem_cons.mpr ⟨differs_of_encodeNode n hv, hrest.below⟩
      · refine List.forall_mem_cons.mpr ⟨?_, ?_⟩
        · intro hplain other hother
          rw [hname] at hother
          exact Except.ok.inj hother ▸ hnew hplain
        · intro m hm hplain other hname'
          exact (hother m hm hplain other hname').2

end

end Accepted

section Refused

/-- No plain node has the member name of a node before it. A node before it may
be an entry or plain. -/
def OwnMembers (c : Context) (parentNs : Option String) (nodes : List DataNode) : Prop :=
  nodes.Pairwise fun a b => b.key.IsPlain → ∀ name, memberName c parentNs a.id = .ok name →
    memberName c parentNs b.id ≠ .ok name

theorem memberName_ne_repeated {id : SchemaId} {member : String} :
    memberName c parentNs id ≠ .error (.encode (.repeatedMember member)) := by
  intro h
  cases memberName_eq_error h

theorem check_ne_repeated {limits : Limits} {q : Quantity} {size : Nat} {member : String} :
    limits.check q size ≠ .error (.encode (.repeatedMember member)) := by
  intro h
  obtain ⟨-, hlimit⟩ := Limits.check_eq_error_iff.mp h
  cases hlimit

/-- Siblings with members of their own are not refused as repeated, if nothing
below them is. The members at the start come from the siblings before. -/
theorem encodeNodes_ne_repeated (seen : List DataNode)
    (hown : OwnMembers c parentNs (seen ++ nodes))
    (covered : ∀ name w, members.lookup name = some w →
      ∃ m ∈ seen, memberName c parentNs m.id = .ok name) {member : String}
    (below : ∀ n ∈ nodes, encodeNode c depth n ≠ .error (.encode (.repeatedMember member))) :
    encodeNodes c parentNs depth members nodes ≠ .error (.encode (.repeatedMember member)) := by
  induction nodes generalizing seen members with
  | nil => nofun
  | cons n rest ih =>
      obtain ⟨hn, hrest⟩ := List.forall_mem_cons.mp below
      intro h
      simp only [encodeNodes, bind_eq_error_iff] at h
      rcases h with hname | ⟨name, hname, hencode | ⟨v, hv, hput | ⟨next, hnext, h⟩⟩⟩
      · exact memberName_ne_repeated hname
      · exact hn hencode
      · obtain ⟨hplain, w, hw⟩ := putNode_eq_repeated hput
        obtain ⟨m, hm, hm'⟩ := covered name w hw
        have hother := (List.pairwise_append.mp hown).2.2 m hm n (List.mem_cons_self ..)
        exact hother hplain name hm' hname
      · have hsplit : seen ++ n :: rest = seen ++ [n] ++ rest := by simp
        rw [hsplit] at hown
        refine ih (seen ++ [n]) hown ?_ hrest h
        intro other w hw
        obtain ⟨⟨w', rfl⟩, -⟩ := exists_of_putNode hnext
        rw [lookup_putMember] at hw
        split at hw
        · rename_i heq
          exact ⟨n, by simp, heq ▸ hname⟩
        · obtain ⟨m, hm, hm'⟩ := covered other w hw
          exact ⟨m, List.mem_append_left _ hm, hm'⟩

section Stood

variable {fits : NodeId → Yang.Value → Prop} (sound : c.tree.Sound) (names : NamesReadBack c)

include sound names

/-- Where the names of members are read back, plain siblings that differ have
members of their own, since one member name is that of one schema node. -/
theorem ownMembers_of_plainDiffer
    (same : ∀ a ∈ nodes, ∀ b ∈ nodes, a.id = b.id →
      ∃ parent, Stands c fits parent a ∧ Stands c fits parent b)
    (h : PlainDiffer nodes) : OwnMembers c parentNs nodes := by
  refine List.Pairwise.imp_of_mem ?_ h
  intro a b ha hb hdiffer hplain name hname hname'
  obtain ⟨_, ha', -⟩ := same a ha a ha rfl
  obtain ⟨_, hb', -⟩ := same b hb b hb rfl
  have hid := names.injective (isIdentifier_of_stands sound ha')
    (isIdentifier_of_stands sound hb') hname hname'
  obtain ⟨parent, ha', hb'⟩ := same a ha b hb hid
  obtain ⟨e, he⟩ := hb'.exists_entry
  have hplain' := (ha'.isPlain_iff (hid ▸ he)).mpr ((hb'.isPlain_iff he).mp hplain)
  exact hdiffer hplain' hplain hid

theorem encodeNode_inner_ne_repeated {i : NodeId} {children : List DataNode}
    (stand : ∀ child ∈ children, Stands c fits i child) (plain : PlainDiffer children)
    {member : String} (below : ∀ child ∈ children, encodeNode c (depth + 1) child ≠
      .error (.encode (.repeatedMember member))) :
    encodeNode c depth (.inner key children) ≠ .error (.encode (.repeatedMember member)) := by
  intro h
  simp only [encodeNode, bind_eq_error_iff, exists_unit_iff] at h
  rcases h with hcheck | ⟨-, hnodes | ⟨members, -, hpure⟩⟩
  · exact check_ne_repeated hcheck
  · have same : ∀ a ∈ children, ∀ b ∈ children, a.id = b.id →
        ∃ parent, Stands c fits parent a ∧ Stands c fits parent b := by
      intro a ha b hb _
      exact ⟨i, stand a ha, stand b hb⟩
    have hown : OwnMembers c (some key.id.ns) children :=
      ownMembers_of_plainDiffer sound names same plain
    exact encodeNodes_ne_repeated [] hown (by simp) below hnodes
  · cases hpure

/-- A node below which no node is repeated is not refused as repeated. The
induction is on how the node stands in the schema. -/
theorem encodeNode_ne_repeated (h : Stands c fits parent n) (hdiffers : n.Differs)
    {member : String} : encodeNode c depth n ≠ .error (.encode (.repeatedMember member)) := by
  induction h generalizing depth with
  | leaf _ _ _ | leafListEntry _ _ _ =>
      rw [encodeNode]
      intro hrefused
      cases hrefused
  | listEntry _ _ _ stand ih | inner _ _ _ stand ih =>
      cases hdiffers with
      | inner plain below =>
          refine encodeNode_inner_ne_repeated sound names stand plain ?_
          intro child hchild
          exact ih child hchild (below child hchild)

/-- Data is refused as repeated only if a node is repeated. -/
theorem not_differsAll_of_repeated
    (same : ∀ a ∈ nodes, ∀ b ∈ nodes, a.id = b.id →
      ∃ parent, Stands c fits parent a ∧ Stands c fits parent b)
    {indented : Bool} {member : String}
    (h : encode c indented nodes = .error (.encode (.repeatedMember member))) :
    ¬DiffersAll nodes := by
  intro hdiffers
  simp only [encode, encodeValue, bind_eq_error_iff, exists_unit_iff] at h
  rcases h with (hcheck | ⟨-, hnodes | ⟨members, -, hpure⟩⟩) | ⟨v, -, hpure⟩
  · exact check_ne_repeated hcheck
  · have hown : OwnMembers c none nodes :=
      ownMembers_of_plainDiffer sound names same hdiffers.plain
    refine encodeNodes_ne_repeated [] hown (by simp) ?_ hnodes
    intro n hn
    obtain ⟨_, hstands, -⟩ := same n hn n hn rfl
    exact encodeNode_ne_repeated sound names hstands (hdiffers.below n hn)
  · cases hpure
  · cases hpure

end Stood

end Refused

/-- Data that is encoded repeats no node, at the top level or below. -/
theorem differsAll_of_encode {indented : Bool} {text : String}
    (h : encode c indented nodes = .ok text) : DiffersAll nodes := by
  simp only [encode, encodeValue, bind_eq_ok_iff, exists_unit_iff, pure_eq_ok_iff] at h
  obtain ⟨v, ⟨-, members, hmembers, -⟩, -⟩ := h
  exact (differsAll_of_encodeNodes nodes hmembers).1

end Json

variable {t : Tree} {limits : Limits} {codec : Codec} {s : Stream} {d : ResourceData}

/-- Nodes at the top level of one schema node are decoded below one module. -/
theorem LooksUp.unique (reachable : t.Reachable) (one : t.NamesNamespaces) {a b : DataNode}
    {i j : NodeId} (ha : codec.LooksUp (Context.ofTree t limits) a i)
    (hb : codec.LooksUp (Context.ofTree t limits) b j) (hid : a.id = b.id) : i = j := by
  cases codec with
  | json indented =>
      obtain ⟨module, hmodule, hns⟩ := ha
      obtain ⟨module', hmodule', hns'⟩ := hb
      rw [Context.moduleByName?_ofTree reachable.distinct] at hmodule hmodule'
      rw [Context.tree_ofTree] at hns hns'
      exact Context.findModule?_injective one hmodule hmodule' (by rw [hns, hns', hid])
  | xml =>
      have hns : (Context.ofTree t limits).moduleByNamespace? a.id.ns = some j := by
        rw [hid]
        exact hb
      exact Option.some.inj (ha.symm.trans hns)

/-- The decoders take what is repeated, but the JSON encoder does not: of
decoded data it takes only what repeats no node, and it refuses as repeated only
what repeats one. -/
theorem encode_json_decoded (reachable : t.Reachable) (one : t.NamesNamespaces)
    (h : codec.decode (Context.ofTree t limits) s = .ok d) (indented : Bool) :
    (∀ s', (json indented).encode (Context.ofTree t limits) d = .ok s' → DiffersAll d.nodes) ∧
      ∀ member, (json indented).encode (Context.ofTree t limits) d =
        .error (.encode (.repeatedMember member)) → ¬DiffersAll d.nodes := by
  have sound := Context.sound_ofTree reachable limits
  have names := Json.namesReadBack_ofTree reachable one limits
  obtain ⟨-, hroots⟩ := exists_root_of_decode sound h
  constructor
  · intro s' hs'
    obtain ⟨text, htext, -⟩ := bind_eq_ok_iff.mp hs'
    exact Json.differsAll_of_encode htext
  · intro member herror
    rcases bind_eq_error_iff.mp herror with htext | ⟨text, -, hpure⟩
    · have same : ∀ a ∈ d.nodes, ∀ b ∈ d.nodes, a.id = b.id →
          ∃ root, Stands (Context.ofTree t limits) (Produced (Context.ofTree t limits)) root a ∧
            Stands (Context.ofTree t limits) (Produced (Context.ofTree t limits)) root b := by
        intro a ha b hb hid
        obtain ⟨i, hi, ha⟩ := hroots a ha
        obtain ⟨j, hj, hb⟩ := hroots b hb
        obtain rfl := hi.unique reachable one hj hid
        exact ⟨i, ha, hb⟩
      exact Json.not_differsAll_of_repeated sound names same htext
    · cases hpure

def aliased : DataNode :=
  .inner (.listEntry ⟨"item", "urn:store"⟩ [⟨⟨"name", "urn:store"⟩, .text "vase"⟩])
    [.leaf (.plain ⟨"name", "urn:store"⟩) (.text "vase"),
      .leaf (.plain ⟨"name", "urn:store"⟩) (.text "jar")]

/-- The name is qualified the second time. -/
def aliasedValue : Yang.Json.Value :=
  .object [("store:item", .array [.object
    [("name", .string "vase"), ("store:name", .string "jar")]])]

def aliasedDocument : Yang.Xml.Markup :=
  .element "item" (some "urn:store")
    [.element "name" none [.text "vase"], .element "name" none [.text "jar"]]

theorem canonical_aliasedValue : aliasedValue.Canonical := by
  refine .object (List.pairwise_singleton _ _) ?_
  simp only [List.forall_mem_singleton]
  refine .array ?_
  simp only [List.forall_mem_singleton]
  refine .object (by decide) ?_
  simp only [List.forall_mem_cons]
  exact ⟨.string _, .string _, List.forall_mem_nil _⟩

theorem isPlain_aliasedDocument : aliasedDocument.IsPlain := by
  refine .inner (by decide) (by simp; decide) ?_
  simp only [List.forall_mem_cons]
  exact ⟨.leaf (by decide) (by simp) (by decide), .leaf (by decide) (by simp) (by decide),
    List.forall_mem_nil _⟩

theorem not_differsAll_aliased : ¬DiffersAll [aliased] := by
  intro hdiffers
  cases hdiffers.below aliased (List.mem_singleton_self _) with
  | inner plain _ =>
      obtain ⟨hfirst, -⟩ := List.pairwise_cons.mp plain
      exact hfirst _ (List.mem_singleton_self _) rfl rfl rfl

theorem decode_json_aliasedValue :
    (json false).decode (Context.ofTree inventory {}) (Stream.ofText aliasedValue.compact none) =
      .ok { nodes := [aliased] } := by
  have hread : Yang.Json.Value.read? aliasedValue.compact = some aliasedValue :=
    (Yang.Json.read?_compact canonical_aliasedValue).trans (if_pos (by decide))
  have hvalue : Json.decodeValue inventoryContext aliasedValue = .ok [aliased] := by
    decide +kernel
  rw [decode_json_ofText, Json.decode, hread, ofTree_inventory]
  exact congrArg (ResourceData.mk none <$> ·) hvalue

theorem decode_xml_aliasedDocument :
    xml.decode (Context.ofTree inventory {}) (Stream.ofText aliasedDocument.written none) =
      .ok { nodes := [aliased] } := by
  obtain ⟨root, hroot, hread⟩ := isPlain_aliasedDocument.isReadBack
  obtain rfl : Yang.Xml.Node.element (some "urn:store") "item"
      [.element (some "urn:store") "name" [.text "vase"],
        .element (some "urn:store") "name" [.text "jar"]] = root := by
    rw [← List.singleton_inj, ← hroot]
    rfl
  have hdecode : Xml.decodeRoot inventoryContext (.element (some "urn:store") "item"
      [.element (some "urn:store") "name" [.text "vase"],
        .element (some "urn:store") "name" [.text "jar"]]) = .ok [aliased] := by
    decide +kernel
  rw [decode_xml_ofText, Xml.decode, hread, ofTree_inventory]
  exact congrArg (ResourceData.mk none <$> ·) hdecode

theorem encode_json_aliased :
    (json false).encode (Context.ofTree inventory {}) { nodes := [aliased] } =
      .error (.encode (.repeatedMember "name")) := by
  have hencode : Json.encode inventoryContext false [aliased] =
      .error (.encode (.repeatedMember "name")) := by
    decide +kernel
  rw [ofTree_inventory]
  change (Json.encode inventoryContext false [aliased] >>= _) = _
  rw [hencode]
  rfl

/-- Both decoders take the item with two names, and the JSON encoder refuses it. -/
theorem decode_aliased :
    (json false).decode (Context.ofTree inventory {}) (Stream.ofText aliasedValue.compact none) =
        .ok { nodes := [aliased] } ∧
      xml.decode (Context.ofTree inventory {}) (Stream.ofText aliasedDocument.written none) =
        .ok { nodes := [aliased] } ∧
      ¬DiffersAll [aliased] ∧
      (json false).encode (Context.ofTree inventory {}) { nodes := [aliased] } =
        .error (.encode (.repeatedMember "name")) :=
  ⟨decode_json_aliasedValue, decode_xml_aliasedDocument, not_differsAll_aliased,
    encode_json_aliased⟩

/-- The item with two names was decoded and is not encoded again, indented or
not. -/
theorem encode_json_decoded_aliased :
    (json false).decode (Context.ofTree inventory {}) (Stream.ofText aliasedValue.compact none) =
        .ok { nodes := [aliased] } ∧
      ∀ indented s, (json indented).encode (Context.ofTree inventory {}) { nodes := [aliased] } ≠
        .ok s := by
  refine ⟨decode_json_aliasedValue, ?_⟩
  intro indented s hs
  obtain ⟨hdiffers, -⟩ := encode_json_decoded reachable_inventory namesNamespaces_inventory
    decode_json_aliasedValue indented
  exact not_differsAll_aliased (hdiffers s hs)

end Codec

end Yang
