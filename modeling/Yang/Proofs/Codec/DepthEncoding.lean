import Yang.Codec.Xml
import Yang.Proofs.Codec.JsonMembers
import Yang.Proofs.Codec.Levels

/-!
# How far down encoding goes

Every node is written on the level of its parent's children, and the level is compared with
the limit before anything below it is written. So XML is written down to the deepest node.
JSON is written down to the innermost object, unless another fault is met before: two members
of one name, or an entry that has the name of a single node.
-/

namespace Yang.Codec

open Schema Instance DataNode

namespace Xml

open Yang.Xml

mutual

/-- The element of a node, however deep it is. Encoding gives this element or an
error of the limit, and nothing else. -/
def element (parentNs : Option String) : DataNode → Markup
  | .leaf key value =>
    if value = .empty then .void key.id.name (declared parentNs key.id.ns)
    else .element key.id.name (declared parentNs key.id.ns) [.text value.literal]
  | .inner key children =>
    .element key.id.name (declared parentNs key.id.ns) (elements (some key.id.ns) children)

def elements (parentNs : Option String) : List DataNode → List Markup
  | [] => []
  | n :: ns => element parentNs n :: elements parentNs ns

end

def document (nodes : List DataNode) : Markup :=
  .element wrapperName (some wrapperNamespace) (elements none nodes)

variable {c : Context}

mutual

/-- A node is written as far down as it is deep. The depth at which it stands
may be one past the limit, where it is refused at once. -/
theorem encodeNode_eq (c : Context) (parentNs : Option String) {depth : Nat}
    (hdepth : depth ≤ c.limits.dataDepth + 1) :
    ∀ n : DataNode, encodeNode c parentNs depth n =
      within c.limits.dataDepth (depth + n.depth) (element parentNs n)
  | .leaf key value => by
      rw [encodeNode, check_dataDepth hdepth, DataNode.depth, element]
      refine within_bind_ok ?_
      split <;> rfl
  | .inner key children => by
      have hstop : depth + (inner key children).depth =
          max (depth + 1) (depth + 1 + depthOfAll children) := by
        rw [DataNode.depth]
        omega
      rw [encodeNode, check_dataDepth hdepth, hstop, element]
      refine within_bind fun hreached => ?_
      rw [encodeNodes_eq c (some key.id.ns) hreached children]
      exact within_bind_ok rfl

theorem encodeNodes_eq (c : Context) (parentNs : Option String) {depth : Nat}
    (hdepth : depth ≤ c.limits.dataDepth + 1) :
    ∀ nodes : List DataNode, encodeNodes c parentNs depth nodes =
      within c.limits.dataDepth (depth + depthOfAll nodes) (elements parentNs nodes)
  | [] => (within_of_le hdepth).symm
  | n :: ns => by
      rw [encodeNodes, encodeNode_eq c parentNs hdepth n, encodeNodes_eq c parentNs hdepth ns,
        depthOfAll, ← Nat.add_max_add_left, elements]
      exact within_bind fun _ => within_bind_ok rfl

end

/-- Nothing but their depth keeps data from being written. -/
theorem encode_eq (c : Context) (nodes : List DataNode) :
    encode c nodes =
      within c.limits.dataDepth (1 + depthOfAll nodes) (document nodes).written := by
  have hfirst : 1 ≤ c.limits.dataDepth + 1 := Nat.le_add_left 1 _
  have hdocument : encodeDocument c nodes =
      within c.limits.dataDepth (1 + depthOfAll nodes) (document nodes) := by
    rw [encodeDocument, encodeNodes_eq c none hfirst]
    exact within_bind_ok rfl
  rw [encode, hdocument]
  exact within_bind_ok rfl

end Xml

namespace Json

open Yang.Json

variable {c : Context} {parentNs : Option String} {bound depth : Nat} {nodes : List DataNode}

section Within

mutual

/-- A node is written as far down as it has objects. It is said of nodes that
are written under some limit, since JSON may refuse a node for other reasons. -/
theorem encodeNode_within {depth : Nat} (hdepth : depth ≤ bound) :
    ∀ (n : DataNode) {v : Json.Value}, encodeNode c depth n = .ok v →
      encodeNode (c.withDepth bound) depth n = within bound (depth + n.objectDepth) v
  | .leaf key value, v, h => by
      obtain rfl := Except.ok.inj h
      exact (within_of_le (Nat.succ_le_succ hdepth)).symm
  | .inner key children, v, h => by
      simp only [encodeNode, bind_eq_ok_iff, exists_unit_iff, pure_eq_ok_iff] at h
      obtain ⟨-, members, hmembers, rfl⟩ := h
      have hstop : depth + (inner key children).objectDepth =
          max (depth + 1 + 1) (depth + 1 + objectDepthOfAll children) := by
        rw [objectDepth]
        omega
      rw [encodeNode, check_dataDepth (Nat.succ_le_succ hdepth), hstop]
      refine within_bind fun hreached => ?_
      have hbelow : depth + 1 ≤ bound := Nat.le_of_succ_le_succ hreached
      rw [Context.dataDepth_withDepth, encodeNodes_within hbelow children hmembers]
      exact within_bind_ok rfl

/-- Nodes are written as far down as the one with the most objects. The members
at the start have been written before. -/
theorem encodeNodes_within {depth : Nat} (hdepth : depth ≤ bound)
    {parentNs : Option String} {members found : List (String × Json.Value)} :
    ∀ nodes : List DataNode, encodeNodes c parentNs depth members nodes = .ok found →
      encodeNodes (c.withDepth bound) parentNs depth members nodes =
        within bound (depth + objectDepthOfAll nodes) found
  | [], h => by
      obtain rfl := Except.ok.inj h
      exact (within_of_le (Nat.le_succ_of_le hdepth)).symm
  | n :: ns, h => by
      simp only [encodeNodes, bind_eq_ok_iff] at h
      obtain ⟨member, hmember, v, hv, next, hnext, hrest⟩ := h
      have hmember' : memberName (c.withDepth bound) parentNs n.id = .ok member := hmember
      rw [encodeNodes, bind_of_ok hmember', encodeNode_within hdepth n hv, objectDepthOfAll,
        ← Nat.add_max_add_left]
      refine within_bind fun _ => ?_
      rw [bind_of_ok hnext]
      exact encodeNodes_within hdepth ns hrest

end

theorem encodeValue_within {v : Json.Value} (h : encodeValue c nodes = .ok v) :
    encodeValue (c.withDepth bound) nodes =
      within bound (1 + max 1 (objectDepthOfAll nodes)) v := by
  simp only [encodeValue, bind_eq_ok_iff, exists_unit_iff, pure_eq_ok_iff] at h
  obtain ⟨-, members, hmembers, rfl⟩ := h
  rw [encodeValue, check_dataDepth (Nat.le_add_left 1 _), ← Nat.add_max_add_left]
  refine within_bind fun hreached => ?_
  have hbelow : 1 ≤ bound := Nat.le_of_succ_le_succ hreached
  rw [Context.dataDepth_withDepth, encodeNodes_within hbelow nodes hmembers]
  exact within_bind_ok rfl

theorem encode_within {indented : Bool} {text : String} (h : encode c indented nodes = .ok text) :
    encode (c.withDepth bound) indented nodes =
      within bound (1 + max 1 (objectDepthOfAll nodes)) text := by
  simp only [encode, bind_eq_ok_iff, pure_eq_ok_iff] at h
  obtain ⟨v, hv, rfl⟩ := h
  rw [encode, encodeValue_within hv]
  exact within_bind_ok rfl

end Within

section Refused

mutual

/-- A node that is refused for its depth has more objects than the limit leaves.
It holds also if the node could be refused for something else. -/
theorem lt_of_encodeNode {depth level limit : Nat} :
    ∀ n : DataNode, encodeNode c depth n = .error (.limitExceeded .dataDepth level limit) →
      c.limits.dataDepth + 1 < depth + n.objectDepth
  | .leaf key value, h => by cases h
  | .inner key children, h => by
      simp only [encodeNode, bind_eq_error_iff, exists_unit_iff] at h
      rw [objectDepth]
      rcases h with hcheck | ⟨-, hchildren | ⟨members, -, hpure⟩⟩
      · have hlevel : c.limits.dataDepth < depth + 1 := (Limits.check_eq_error_iff.mp hcheck).1
        omega
      · have hbelow := lt_of_encodeNodes children hchildren
        omega
      · cases hpure

theorem lt_of_encodeNodes {depth level limit : Nat} {parentNs : Option String}
    {members : List (String × Json.Value)} :
    ∀ nodes : List DataNode, encodeNodes c parentNs depth members nodes =
        .error (.limitExceeded .dataDepth level limit) →
      c.limits.dataDepth + 1 < depth + objectDepthOfAll nodes
  | [], h => by cases h
  | n :: ns, h => by
      simp only [encodeNodes, bind_eq_error_iff] at h
      rw [objectDepthOfAll]
      -- Names and repeated members can be at fault too, but not for their depth.
      rcases h with hname | ⟨member, -, hnode | ⟨v, -, hput | ⟨next, -, hrest⟩⟩⟩
      · cases memberName_eq_error hname
      · have hfirst := lt_of_encodeNode n hnode
        omega
      · rcases putNode_eq_error hput with hrepeated | hmixed
        · cases hrepeated
        · cases hmixed
      · have hothers := lt_of_encodeNodes ns hrest
        omega

end

/-- Data that is refused for its depth has more objects than the limit allows. -/
theorem lt_of_encode {indented : Bool} {level limit : Nat}
    (h : encode c indented nodes = .error (.limitExceeded .dataDepth level limit)) :
    c.limits.dataDepth < max 1 (objectDepthOfAll nodes) := by
  simp only [encode, encodeValue, bind_eq_error_iff, exists_unit_iff] at h
  rcases h with (hcheck | ⟨-, hnodes | ⟨members, -, hpure⟩⟩) | ⟨v, -, hpure⟩
  · have hlevel : c.limits.dataDepth < 1 := (Limits.check_eq_error_iff.mp hcheck).1
    omega
  · have hbelow := lt_of_encodeNodes nodes hnodes
    omega
  · cases hpure
  · cases hpure

end Refused

end Json

end Yang.Codec
