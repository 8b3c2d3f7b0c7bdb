import Yang.Proofs.Codec.JsonRoundTrip

/-!
# Data that nests too deep for JSON

Lists that stand in each other make up a schema of any depth. Each entry of such a list
is written as an object in an array, so at sixty-four levels the text nests deeper than
a JSON text may, although codecs accept data of five hundred levels by default.
-/

namespace Yang.Codec

open Schema Instance

def box : SchemaId := ⟨"box", "urn:crate"⟩

def boxChildren (last i : Nat) : List (SchemaId × NodeId) :=
  if i < last then [(box, i + 1)] else []

def boxContext (last i : Nat) : List (SchemaId × ContextEntry) :=
  if i < last then [(box, ⟨i + 1, none, false⟩)] else []

/-- A node of the schema of boxes: the module, or the list of boxes in another
one. -/
def boxNode (last : Nat) : Nat → Node
  | 0 => ⟨⟨"crate", "urn:crate"⟩, .module ⟨"c", none, []⟩, none, boxChildren last 0,
      boxContext last 0⟩
  | i + 1 => ⟨box, .list [], some i, boxChildren last (i + 1), boxContext last (i + 1)⟩

/-- A module with a list in which there is a list, and so on. The list is the
same at every level, so one proof serves all depths. -/
def boxes (last : Nat) : Tree := ⟨((List.range (last + 1)).map (boxNode last)).toArray⟩

/-- An entry of a list of boxes which holds the entries below it. -/
def crate : Nat → DataNode
  | 0 => .inner (.listEntry box []) []
  | n + 1 => .inner (.listEntry box []) [crate n]

section Schema

variable {last i : Nat}

theorem size_boxes : (boxes last).size = last + 1 := by
  simp [boxes, Tree.size]

theorem node?_boxes (i : Nat) :
    (boxes last).node? i = if i < last + 1 then some (boxNode last i) else none := by
  rw [boxes, Tree.node?, List.getElem?_toArray, List.getElem?_map]
  split
  · rename_i h
    rw [List.getElem?_range h, Option.map_some]
  · rename_i h
    rw [List.getElem?_eq_none (by simpa using h), Option.map_none]

theorem node?_boxes_of_le (h : i ≤ last) : (boxes last).node? i = some (boxNode last i) := by
  rw [node?_boxes, if_pos (Nat.lt_succ_of_le h)]

theorem children_boxNode (i : Nat) : (boxNode last i).children = boxChildren last i := by
  cases i <;> rfl

theorem context_boxNode (i : Nat) : (boxNode last i).context = boxContext last i := by
  cases i <;> rfl

theorem boxNode_succ_of_lt (h : i < last) : boxNode (last + 1) i = boxNode last i := by
  have hsucc := Nat.lt_succ_of_lt h
  cases i <;> simp [boxNode, boxChildren, boxContext, h, hsucc]

/-- A list below the last one, as a child and as an entry of its context, is one
level more. The last node is the only one of the others that changes. -/
theorem attach_enter_boxes (last : Nat) :
    ((boxes last).enter last box ⟨last + 1, none, false⟩).attach last box (.list []) =
      boxes (last + 1) := by
  apply Tree.ext_node?
  intro i
  rw [Tree.attach, Tree.node?_push, Tree.size_modify, Tree.size_enter, size_boxes,
    Tree.node?_modify, Tree.enter, Tree.node?_modify, node?_boxes, node?_boxes]
  rcases Nat.lt_trichotomy i last with hi | rfl | hi
  · simp [Nat.ne_of_lt (Nat.lt_succ_of_lt hi), Nat.ne_of_gt hi, Nat.lt_succ_of_lt hi,
      Nat.lt_succ_of_lt (Nat.lt_succ_of_lt hi), boxNode_succ_of_lt hi]
  · have hlater : i < i + 1 + 1 := Nat.lt_succ_of_lt (Nat.lt_succ_self i)
    cases i <;> simp [boxNode, boxChildren, boxContext, hlater]
  · have hnot : ¬i < last + 1 := Nat.not_lt_of_le hi
    by_cases hnew : i = last + 1
    · subst hnew
      simp [boxNode, boxChildren, boxContext]
    · have hafter : ¬i < last + 1 + 1 := fun h =>
        hnot (Nat.lt_of_le_of_ne (Nat.le_of_lt_succ h) hnew)
      simp [hnew, Nat.ne_of_lt hi, hnot, hafter]

/-- Another list can be put in the last one. By this the schema is reached by
statements, for every depth. -/
theorem add_boxes (reachable : (boxes last).Reachable) :
    (boxes last).add (.list last "box" []) = .ok (boxes (last + 1)) := by
  have hlast := node?_boxes_of_le (Nat.le_refl last)
  have hchildren : (boxNode last last).children = [] := by
    rw [children_boxNode, boxChildren, if_neg (Nat.lt_irrefl _)]
  have hcontext : (boxNode last last).context = [] := by
    rw [context_boxNode, boxContext, if_neg (Nat.lt_irrefl _)]
  have hidentifier : Name.checkIdentifier "box" = .ok () := by decide +kernel
  have hplacement : (boxes last).checkPlacement last .list = .ok () := by
    rw [Tree.checkPlacement, Tree.kindOf, Tree.kind?, hlast]
    cases last <;> rfl
  have hid : (boxes last).childId last "box" = box := by
    rw [Tree.childId, (reachable.sound.forest.module last _ hlast).2]
    cases last <;> rfl
  have hchild : (boxes last).checkNewChild last box = .ok () := by
    rw [Tree.checkNewChild, hlast, Option.bind_some, hchildren]
    rfl
  have hredirect : (boxes last).redirect? last = none := by
    rw [Tree.redirect?, hlast]
    cases last <;> rfl
  have hholder : (boxes last).holderOf last = (last, none) := by
    rw [Tree.holderOf, hredirect]
  have hentry : (boxes last).checkNewEntry last box = .ok () := by
    rw [Tree.checkNewEntry, Tree.entry?, Tree.context, hlast, Option.map_some, hcontext]
    rfl
  have hnext : (boxes last).nextEntry last none = ⟨last + 1, none, false⟩ := by
    rw [Tree.nextEntry, size_boxes]
    rfl
  rw [Tree.add, Tree.addNode, hidentifier]
  simp only [Role.kind, hplacement, hid, hchild, hholder, hentry, hnext]
  exact congrArg Except.ok (attach_enter_boxes last)

theorem reachable_boxes (last : Nat) : (boxes last).Reachable := by
  induction last with
  | zero =>
      refine .add .empty (s := .module "crate" "urn:crate" "c" none) ?_
      with_unfolding_all rfl
  | succ n ih => exact .add ih (add_boxes ih)

theorem name_boxes : (boxes last).name 0 = "crate" := by
  rw [Tree.name, node?_boxes_of_le (Nat.zero_le _)]
  rfl

theorem ns_boxes : (boxes last).ns 0 = "urn:crate" := by
  rw [Tree.ns, node?_boxes_of_le (Nat.zero_le _)]
  rfl

theorem kind?_boxes_eq_module_iff : (boxes last).kind? i = some .module ↔ i = 0 := by
  rw [Tree.kind?, node?_boxes]
  cases i with
  | zero => simp [boxNode, Node.kind, Role.kind]
  | succ i => split <;> simp [boxNode, Node.kind, Role.kind]

theorem modules_boxes : (boxes last).modules = [0] := by
  have hmodule : ∀ i, ((boxes last).kind? i == some .module) = (i == 0) := by
    intro i
    rw [Bool.eq_iff_iff, beq_iff_eq, beq_iff_eq, kind?_boxes_eq_module_iff]
  rw [Tree.modules, size_boxes, List.filter_congr fun i _ => hmodule i, List.range_succ_eq_map]
  simp

theorem namesNamespaces_boxes : (boxes last).NamesNamespaces := by
  intro i j hi hj
  rw [kind?_boxes_eq_module_iff.mp hi, kind?_boxes_eq_module_iff.mp hj]
  exact ⟨fun _ => rfl, fun _ => rfl⟩

theorem listNamesDiffer_boxes : (boxes last).ListNamesDiffer := by
  have hbox : ∀ i, ∀ a ∈ (boxes last).context i, a.1 = box := by
    intro i a ha
    rw [Tree.context, node?_boxes] at ha
    split at ha
    · rw [Option.map_some, Option.getD_some, context_boxNode, boxContext] at ha
      split at ha
      · rw [List.mem_singleton.mp ha]
      · cases ha
    · cases ha
  intro i _ a ha b hb _
  rw [hbox i a ha, hbox i b hb]

theorem entry?_boxes (h : i < last) :
    Tree.entry? (boxes last) i box = some ⟨i + 1, none, false⟩ := by
  rw [Tree.entry?, Tree.context, node?_boxes_of_le (Nat.le_of_lt h), Option.map_some,
    context_boxNode, boxContext, if_pos h]
  rfl

end Schema

section Data

variable {last : Nat} {limits : Limits}

theorem key_crate (n : Nat) : (crate n).key = .listEntry box [] := by
  cases n <;> rfl

/-- An entry may stand below every list but the last. Lists without keys have
entries without key leaves, so all children will do that conform. -/
theorem conforms_box {parent : Nat} {children : List DataNode} (h : parent < last)
    (plain : PlainDiffer children)
    (below : ∀ child ∈ children, Conforms (Context.ofTree (boxes last) limits) (parent + 1) child) :
    Conforms (Context.ofTree (boxes last) limits) parent (.inner (.listEntry box []) children) := by
  have hnode : (boxes last).node? (parent + 1) = some (boxNode last (parent + 1)) :=
    node?_boxes_of_le h
  have he : Tree.entry? (Context.ofTree (boxes last) limits).tree parent box =
      some ⟨parent + 1, none, false⟩ := by
    rw [Context.tree_ofTree]
    exact entry?_boxes h
  have hkind : (Context.ofTree (boxes last) limits).tree.kind? (parent + 1) = some .list := by
    rw [Context.tree_ofTree, Tree.kind?, hnode]
    rfl
  have hkeys : (Context.ofTree (boxes last) limits).keys (parent + 1) = [] := by
    rw [Context.keys, Context.tree_ofTree, hnode]
    rfl
  have hcheck : (Context.ofTree (boxes last) limits).limits.check .keyLeaves 0 = .ok () :=
    Limits.check_eq_ok_iff.mpr (Nat.zero_le _)
  have hid := id_of_entry? (Context.sound_ofTree (reachable_boxes last) limits) he
  have hkey : (Context.ofTree (boxes last) limits).listEntryKey (parent + 1) children =
      .ok (.listEntry box []) := by
    rw [Context.listEntryKey, hkeys, hid, List.length_nil, hcheck]
    rfl
  exact .listEntry he hkind hkey plain below

theorem conforms_crate {n parent : Nat} (h : parent + n < last) :
    Conforms (Context.ofTree (boxes last) limits) parent (crate n) := by
  induction n generalizing parent with
  | zero => exact conforms_box h List.Pairwise.nil nofun
  | succ n ih =>
      refine conforms_box (by omega) (List.pairwise_singleton _ _) ?_
      intro child hchild
      rw [List.mem_singleton.mp hchild]
      exact ih (by omega)

theorem conformsAll_crate {n : Nat} (h : n < last) :
    ConformsAll (Context.ofTree (boxes last) limits) [crate n] := by
  refine ⟨?_, List.pairwise_singleton _ _⟩
  intro m hm
  obtain rfl := List.mem_singleton.mp hm
  refine ⟨"crate", 0, ?_, ?_, conforms_crate (by omega)⟩
  · rw [Context.tree_ofTree, Tree.findModule?, Tree.modulesNamed, modules_boxes, List.filter_cons,
      name_boxes]
    rfl
  · rw [Context.tree_ofTree, ns_boxes, DataNode.id, key_crate]
    rfl

theorem ofTree_boxes :
    Context.ofTree (boxes last) limits =
      { tree := boxes last, limits := limits, byName := [("crate", 0)],
        byNamespace := [("urn:crate", 0)] } := by
  rw [Context.ofTree, modules_boxes, List.foldl_cons, List.foldl_nil, Context.enter,
    Context.isNews]
  simp only [name_boxes, ns_boxes]
  rfl

def writtenCrate : Nat → Yang.Json.Value
  | 0 => .object []
  | n + 1 => .object [("box", .array [writtenCrate n])]

def writtenCrates (n : Nat) : Yang.Json.Value :=
  .object [("crate:box", .array [writtenCrate n])]

theorem nesting_list (name : String) (v : Yang.Json.Value) :
    (Yang.Json.Value.object [(name, .array [v])]).nesting = v.nesting + 2 := by
  simp [Yang.Json.Value.nesting, Yang.Json.Value.written, Yang.Json.Value.writtenMembers,
    Yang.Json.Value.writtenItems, Yang.Json.Written.depth, Yang.Json.Written.depthOfMembers,
    Yang.Json.Written.depthOfItems]

theorem nesting_writtenCrate (n : Nat) : (writtenCrate n).nesting = 2 * n + 1 := by
  induction n with
  | zero => rfl
  | succ n ih =>
      rw [writtenCrate, nesting_list, ih]
      omega

theorem nesting_writtenCrates (n : Nat) : (writtenCrates n).nesting = 2 * n + 3 := by
  rw [writtenCrates, nesting_list, nesting_writtenCrate]

theorem encodeNodes_crate {c : Context} {parentNs : Option String} {n depth : Nat}
    {name : String} {v : Yang.Json.Value} (hname : Json.memberName c parentNs box = .ok name)
    (hv : Json.encodeNode c depth (crate n) = .ok v) :
    Json.encodeNodes c parentNs depth [] [crate n] = .ok [(name, .array [v])] := by
  rw [Json.encodeNodes, DataNode.id, key_crate, Key.id, hname, hv]
  rfl

theorem encodeNode_crate {c : Context} {n depth : Nat} (h : depth + n < c.limits.dataDepth) :
    Json.encodeNode c depth (crate n) = .ok (writtenCrate n) := by
  induction n generalizing depth with
  | zero =>
      have hcheck : c.limits.check .dataDepth (depth + 1) = .ok () := Limits.check_eq_ok_iff.mpr h
      rw [crate, Json.encodeNode, hcheck]
      rfl
  | succ n ih =>
      have hdepth : depth + 1 + n < c.limits.dataDepth := by omega
      have hcheck : c.limits.check .dataDepth (depth + 1) = .ok () :=
        Limits.check_eq_ok_iff.mpr (Nat.le_of_lt (Nat.lt_of_le_of_lt (Nat.le_add_right _ _) hdepth))
      have hmembers : Json.encodeNodes c (some (Key.listEntry box []).id.ns) (depth + 1) []
          [crate n] = .ok [("box", .array [writtenCrate n])] :=
        encodeNodes_crate (if_pos rfl) (ih hdepth)
      rw [crate, Json.encodeNode, hcheck, hmembers]
      rfl

/-- Boxes within the limit of data are encoded. -/
theorem encodeValue_crate (last : Nat) {n : Nat} (h : n + 1 < limits.dataDepth) :
    Json.encodeValue (Context.ofTree (boxes last) limits) [crate n] =
      .ok (writtenCrates n) := by
  have hlimits : (Context.ofTree (boxes last) limits).limits = limits := Context.limits_ofTree
  have hcheck : (Context.ofTree (boxes last) limits).limits.check .dataDepth 1 = .ok () := by
    rw [hlimits]
    exact Limits.check_eq_ok_iff.mpr (Nat.le_of_lt (Nat.lt_of_le_of_lt (Nat.le_add_left _ _) h))
  have hname : Json.memberName (Context.ofTree (boxes last) limits) none box = .ok "crate:box" := by
    have hmodule : (Context.ofTree (boxes last) limits).moduleNameFor box.ns = .ok "crate" := by
      rw [ofTree_boxes]
      exact congrArg Except.ok name_boxes
    rw [Json.memberName, if_neg (Option.some_ne_none _).symm, hmodule]
    rfl
  have hnode : Json.encodeNode (Context.ofTree (boxes last) limits) 1 (crate n) =
      .ok (writtenCrate n) := by
    apply encodeNode_crate
    rw [hlimits]
    omega
  rw [Json.encodeValue, hcheck, encodeNodes_crate hname hnode]
  rfl

/-- Boxes are decoded again if they stand in at most sixty-two others. -/
theorem decode_crate (last : Nat) (limits : Limits) {n : Nat} (h : n < last)
    (hdepth : n + 1 < limits.dataDepth) :
    ∃ s, (json false).encode (Context.ofTree (boxes last) limits) { nodes := [crate n] } = .ok s ∧
      (n ≤ 62 → ∃ found,
        (json false).decode (Context.ofTree (boxes last) limits) s = .ok { nodes := found } ∧
          AgreesAll [crate n] found) ∧
      (62 < n →
        (json false).decode (Context.ofTree (boxes last) limits) s = .error .malformedJson) := by
  have hvalue := encodeValue_crate last hdepth
  refine ⟨_, (encode_json_eq_ok_iff false).mpr ⟨_, hvalue, rfl⟩, ?_, ?_⟩
  · intro hn
    have hread : (writtenCrates n).nesting ≤ Yang.Json.depthLimit := by
      rw [nesting_writtenCrates, Yang.Json.depthLimit]
      omega
    obtain ⟨found, hfound, hagrees⟩ := Json.exists_decodeValue (reachable_boxes last)
      namesNamespaces_boxes listNamesDiffer_boxes (conformsAll_crate h) hvalue
    refine ⟨found, ?_, hagrees⟩
    rw [decode_json_ofText, Json.decode_of_nesting_le hvalue hread, hfound]
    rfl
  · intro hn
    have hdeep : Yang.Json.depthLimit < (writtenCrates n).nesting := by
      rw [nesting_writtenCrates, Yang.Json.depthLimit]
      omega
    rw [decode_json_ofText, Json.decode_of_depthLimit_lt hvalue hdeep]
    rfl

/-- Sixty-four boxes in each other are encoded but not decoded. -/
theorem boxes_not_decoded :
    (boxes 64).Reachable ∧ (boxes 64).NamesNamespaces ∧ (boxes 64).ListNamesDiffer ∧
      ConformsAll (Context.ofTree (boxes 64) {}) [crate 63] ∧
      ∃ s, (json false).encode (Context.ofTree (boxes 64) {}) { nodes := [crate 63] } = .ok s ∧
        (json false).decode (Context.ofTree (boxes 64) {}) s = .error .malformedJson := by
  obtain ⟨s, hs, -, hdeep⟩ := decode_crate 64 {} (n := 63) (by decide) (by decide)
  exact ⟨reachable_boxes 64, namesNamespaces_boxes, listNamesDiffer_boxes,
    conformsAll_crate (by decide), s, hs, hdeep (by decide)⟩

end Data

end Yang.Codec
