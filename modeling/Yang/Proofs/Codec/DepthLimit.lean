import Yang.Proofs.Codec.DepthDecoding
import Yang.Proofs.Codec.DepthEncoding
import Yang.Proofs.Codec.JsonDepth
import Yang.Proofs.Xml.ReadBack

/-!
# The limit on the depth of data

A codec takes data exactly if it stays within the limit all the way down. What counts is
another thing in each format. For XML it is the nodes: a leaf at the top level is one level
deep. For JSON it is the objects that are open at once. A leaf is a member of the object of
its parent and counts like a node, but a node without children has an object of its own,
which counts as one level more. So does the object at the top level if it holds nothing.
-/

namespace Yang.Codec

open Schema Instance DataNode

section Bounds

variable {α : Type} {bound stop : Nat} {nodes : List DataNode}

theorem within_eq_ite {p : Prop} [Decidable p] (h : p ↔ bound + 1 < stop) (x : α) :
    within bound stop x = if p then .error (tooDeep bound) else .ok x := by
  rw [within]
  by_cases hp : p
  · rw [if_pos hp, if_neg (Nat.not_le_of_lt (h.mp hp))]
  · rw [if_neg hp, if_pos (Nat.le_of_not_lt (mt h.mpr hp))]

theorem within_depthOfAll (bound : Nat) (nodes : List DataNode) (x : α) :
    within bound (1 + depthOfAll nodes) x =
      if ∃ n ∈ nodes, bound < n.depth then .error (tooDeep bound) else .ok x := by
  apply within_eq_ite
  rw [← lt_depthOfAll_iff]
  omega

theorem lt_topDepth_iff :
    bound < max 1 (objectDepthOfAll nodes) ↔ bound = 0 ∨ ∃ n ∈ nodes, bound < n.objectDepth := by
  rw [lt_max_iff, lt_objectDepthOfAll_iff, Nat.lt_one_iff]

/-- To go down all objects is too far if one is too deep, or if not even the
first is allowed. The first is the object that all data stands in. -/
theorem within_objectDepthOfAll (bound : Nat) (nodes : List DataNode) (x : α) :
    within bound (1 + max 1 (objectDepthOfAll nodes)) x =
      if bound = 0 ∨ ∃ n ∈ nodes, bound < n.objectDepth then .error (tooDeep bound)
      else .ok x := by
  apply within_eq_ite
  rw [← lt_topDepth_iff]
  omega

end Bounds

variable {t : Tree} {limits : Limits} {loose : Nat} {s : Stream} {d : ResourceData}

def Json.NoMembers (s : Stream) : Prop :=
  ∃ text, s.text = .ok text ∧ Yang.Json.Value.read? text = some (.object [])

theorem decode_xml_limited
    (h : xml.decode (Context.ofTree t (limits.withBound loose .dataDepth)) s = .ok d) :
    xml.decode (Context.ofTree t limits) s =
      within limits.dataDepth (1 + depthOfAll d.nodes) d := by
  obtain ⟨text, htext, hd⟩ := bind_eq_ok_iff.mp h
  obtain ⟨nodes, hnodes, hdata⟩ := bind_eq_ok_iff.mp hd
  obtain rfl := pure_eq_ok_iff.mp hdata
  rw [Context.ofTree_eq_withDepth t limits loose, decode, bind_of_ok htext]
  change (Xml.decode _ text >>= _) = _
  rw [Xml.decode_within hnodes]
  exact within_bind_ok rfl

theorem encode_xml_limited (t : Tree) (limits : Limits) (d : ResourceData) :
    xml.encode (Context.ofTree t limits) d =
      within limits.dataDepth (1 + depthOfAll d.nodes)
        (Stream.ofText (Xml.document d.nodes).written (d.resource.map ResourceId.text)) := by
  change (Xml.encode _ d.nodes >>= _) = _
  rw [Xml.encode_eq, Context.limits_ofTree]
  exact within_bind_ok rfl

theorem decode_json_limited {indented : Bool} (hmembers : ¬Json.NoMembers s)
    (h : (json indented).decode (Context.ofTree t (limits.withBound loose .dataDepth)) s = .ok d) :
    (json indented).decode (Context.ofTree t limits) s =
      within limits.dataDepth (1 + max 1 (objectDepthOfAll d.nodes)) d := by
  obtain ⟨text, htext, hd⟩ := bind_eq_ok_iff.mp h
  obtain ⟨nodes, hnodes, hdata⟩ := bind_eq_ok_iff.mp hd
  obtain rfl := pure_eq_ok_iff.mp hdata
  have hvalue : Yang.Json.Value.read? text ≠ some (.object []) :=
    fun hread => hmembers ⟨text, htext, hread⟩
  rw [Context.ofTree_eq_withDepth t limits loose, decode, bind_of_ok htext]
  change (Json.decode _ text >>= _) = _
  rw [Json.decode_within hvalue hnodes]
  exact within_bind_ok rfl

theorem decode_json_noMembers (c : Context) (indented : Bool) (h : Json.NoMembers s) :
    (json indented).decode c s = .ok {} := by
  obtain ⟨text, htext, hread⟩ := h
  rw [decode, bind_of_ok htext]
  change (Json.decode c text >>= _) = _
  rw [Json.decode, hread]
  rfl

theorem encode_json_limited {indented : Bool}
    (h : (json indented).encode (Context.ofTree t (limits.withBound loose .dataDepth)) d = .ok s) :
    (json indented).encode (Context.ofTree t limits) d =
      within limits.dataDepth (1 + max 1 (objectDepthOfAll d.nodes)) s := by
  obtain ⟨text, htext, hs⟩ := bind_eq_ok_iff.mp h
  obtain rfl := pure_eq_ok_iff.mp hs
  rw [Context.ofTree_eq_withDepth t limits loose]
  change (Json.encode _ indented d.nodes >>= _) = _
  rw [Json.encode_within htext]
  exact within_bind_ok rfl

/-- XML is decoded and encoded exactly if no node is deeper than the limit. In
JSON the objects count, and data within the limit may have one more of them: the
object of a node without children, or that of data without nodes. Where every
node that may have children has some, the two count the same. -/
theorem depth_limit_of_codecs (t : Tree) (limits : Limits) :
    (∀ loose s d,
      xml.decode (Context.ofTree t (limits.withBound loose .dataDepth)) s = .ok d →
        xml.decode (Context.ofTree t limits) s =
          if ∃ n ∈ d.nodes, limits.dataDepth < n.depth then .error (tooDeep limits.dataDepth)
          else .ok d) ∧
    (∀ d, xml.encode (Context.ofTree t limits) d =
      if ∃ n ∈ d.nodes, limits.dataDepth < n.depth then .error (tooDeep limits.dataDepth)
      else .ok (Stream.ofText (Xml.document d.nodes).written
        (d.resource.map ResourceId.text))) ∧
    (∀ indented loose s d,
      (json indented).decode (Context.ofTree t (limits.withBound loose .dataDepth)) s = .ok d →
        (Json.NoMembers s → (json indented).decode (Context.ofTree t limits) s = .ok d) ∧
        (¬Json.NoMembers s → (json indented).decode (Context.ofTree t limits) s =
          if limits.dataDepth = 0 ∨ ∃ n ∈ d.nodes, limits.dataDepth < n.objectDepth then
            .error (tooDeep limits.dataDepth)
          else .ok d)) ∧
    (∀ indented loose d s,
      (json indented).encode (Context.ofTree t (limits.withBound loose .dataDepth)) d = .ok s →
        (json indented).encode (Context.ofTree t limits) d =
          if limits.dataDepth = 0 ∨ ∃ n ∈ d.nodes, limits.dataDepth < n.objectDepth then
            .error (tooDeep limits.dataDepth)
          else .ok s) ∧
    (∀ indented d level limit,
      (json indented).encode (Context.ofTree t limits) d =
          .error (.limitExceeded .dataDepth level limit) →
        limits.dataDepth = 0 ∨ ∃ n ∈ d.nodes, limits.dataDepth < n.objectDepth) ∧
    ∀ n : DataNode, n.depth ≤ n.objectDepth ∧ n.objectDepth ≤ n.depth + 1 ∧
      (n.Filled → n.objectDepth = n.depth) := by
  refine ⟨?_, ?_, ?_, ?_, ?_, ?_⟩
  · intro loose s d h
    rw [decode_xml_limited h, within_depthOfAll]
  · intro d
    rw [encode_xml_limited, within_depthOfAll]
  · intro indented loose s d h
    constructor
    · intro hnone
      rw [decode_json_noMembers _ indented hnone] at h ⊢
      exact h
    · intro hmembers
      rw [decode_json_limited hmembers h, within_objectDepthOfAll]
  · intro indented loose d s h
    rw [encode_json_limited h, within_objectDepthOfAll]
  · intro indented d level limit h
    rcases bind_eq_error_iff.mp h with htext | ⟨text, -, hpure⟩
    · have hdeep := Json.lt_of_encode htext
      rw [Context.limits_ofTree] at hdeep
      exact lt_topDepth_iff.mp hdeep
    · cases hpure
  · intro n
    obtain ⟨hlower, hupper⟩ := objectDepth_bounds n
    exact ⟨hlower, hupper, Filled.objectDepth_eq⟩

def boxText : Stream := Stream.ofText (writtenCrates 0).compact none

def boxElement : Yang.Xml.Markup := .void "box" (some "urn:crate")

theorem read?_boxText :
    Yang.Json.Value.read? (writtenCrates 0).compact = some (writtenCrates 0) := by
  have hvalue : Json.encodeValue (Context.ofTree (boxes 1) {}) [crate 0] = .ok (writtenCrates 0) :=
    encodeValue_crate 1 (by decide)
  have hnesting : (writtenCrates 0).nesting ≤ Yang.Json.depthLimit := by
    rw [nesting_writtenCrates]
    decide
  exact (Json.read?_encodeValue hvalue false).trans (if_pos hnesting)

theorem decode_boxText :
    (json false).decode (Context.ofTree (boxes 1) {}) boxText = .ok { nodes := [crate 0] } := by
  have hvalue : Json.decodeValue ⟨boxes 1, {}, [("crate", 0)], [("urn:crate", 0)]⟩
      (writtenCrates 0) = .ok [crate 0] := by
    decide +kernel
  rw [boxText, decode_json_ofText, Json.decode, read?_boxText, ofTree_boxes]
  exact congrArg (ResourceData.mk none <$> ·) hvalue

theorem decode_boxText_tooDeep :
    (json false).decode (Context.ofTree (boxes 1) { dataDepth := 1 }) boxText =
      .error (tooDeep 1) := by
  have hvalue : Json.decodeValue ⟨boxes 1, { dataDepth := 1 }, [("crate", 0)], [("urn:crate", 0)]⟩
      (writtenCrates 0) = .error (tooDeep 1) := by
    decide +kernel
  rw [boxText, decode_json_ofText, Json.decode, read?_boxText, ofTree_boxes]
  exact congrArg (ResourceData.mk none <$> ·) hvalue

theorem decode_boxElement :
    xml.decode (Context.ofTree (boxes 1) { dataDepth := 1 })
      (Stream.ofText boxElement.written none) = .ok { nodes := [crate 0] } := by
  have hplain : boxElement.IsPlain := .void (by decide) (by simp; decide)
  obtain ⟨root, hroot, hread⟩ := hplain.isReadBack
  obtain rfl : Yang.Xml.Node.element (some "urn:crate") "box" [] = root := by
    rw [← List.singleton_inj, ← hroot]
    rfl
  have hdecode : Xml.decodeRoot
      ⟨boxes 1, { dataDepth := 1 }, [("crate", 0)], [("urn:crate", 0)]⟩
      (.element (some "urn:crate") "box" []) = .ok [crate 0] := by
    decide +kernel
  rw [decode_xml_ofText, Xml.decode, hread, ofTree_boxes]
  exact congrArg (ResourceData.mk none <$> ·) hdecode

theorem encode_json_box :
    (json false).encode (Context.ofTree (boxes 1) { dataDepth := 1 }) { nodes := [crate 0] } =
      .error (tooDeep 1) := by
  have hencode : Json.encode ⟨boxes 1, { dataDepth := 1 }, [("crate", 0)], [("urn:crate", 0)]⟩
      false [crate 0] = .error (tooDeep 1) := by
    decide +kernel
  rw [ofTree_boxes]
  change (Json.encode _ false [crate 0] >>= _) = _
  rw [hencode]
  rfl

/-- The box is one level deep, and XML takes it within a limit of one level.
JSON neither decodes nor encodes it, and within a limit of no level not even
data without nodes. -/
theorem box_refused :
    (crate 0).depth = 1 ∧
      (json false).decode (Context.ofTree (boxes 1) {}) boxText = .ok { nodes := [crate 0] } ∧
      xml.decode (Context.ofTree (boxes 1) { dataDepth := 1 })
        (Stream.ofText boxElement.written none) = .ok { nodes := [crate 0] } ∧
      (json false).decode (Context.ofTree (boxes 1) { dataDepth := 1 }) boxText =
        .error (tooDeep 1) ∧
      (json false).encode (Context.ofTree (boxes 1) { dataDepth := 1 }) { nodes := [crate 0] } =
        .error (tooDeep 1) ∧
      (json false).encode (Context.ofTree (boxes 1) { dataDepth := 0 }) {} =
        .error (tooDeep 0) := by
  refine ⟨rfl, decode_boxText, decode_boxElement, decode_boxText_tooDeep, encode_json_box, ?_⟩
  rw [ofTree_boxes]
  rfl

theorem not_noMembers_boxText : ¬Json.NoMembers boxText := by
  rintro ⟨text, htext, hread⟩
  rw [boxText, text_ofText] at htext
  obtain rfl := Except.ok.inj htext
  rw [read?_boxText] at hread
  cases hread

/-- The box is decoded within a limit of two levels and of no fewer. -/
theorem depth_limit_of_codecs_box :
    (json false).decode (Context.ofTree (boxes 1) {}) boxText = .ok { nodes := [crate 0] } ∧
      (json false).decode (Context.ofTree (boxes 1) { dataDepth := 2 }) boxText =
        .ok { nodes := [crate 0] } ∧
      (json false).decode (Context.ofTree (boxes 1) { dataDepth := 1 }) boxText =
        .error (tooDeep 1) := by
  obtain ⟨-, -, hdeeper, -⟩ := depth_limit_of_codecs (boxes 1) { dataDepth := 2 }
  obtain ⟨-, -, htooDeep, -⟩ := depth_limit_of_codecs (boxes 1) { dataDepth := 1 }
  refine ⟨decode_boxText, ?_, ?_⟩
  · exact ((hdeeper false 512 boxText _ decode_boxText).2 not_noMembers_boxText).trans
      (if_neg (by decide))
  · exact ((htooDeep false 512 boxText _ decode_boxText).2 not_noMembers_boxText).trans
      (if_pos (by decide))

end Yang.Codec
