import Yang.Codec.Xml
import Yang.Proofs.Codec.JsonReading
import Yang.Proofs.Codec.Levels

/-!
# How far down decoding goes

What a payload writes does not depend on the limit on the depth of data, but decoding stops at
the first level past it. The lemmas take what was decoded within one limit and say what
becomes of it within another: the same, unless the other limit is passed on the way down. A
document goes down to its deepest node. A JSON text goes down to the innermost object that
stands for a node, though there may be nothing in it.
-/

namespace Yang.Codec

open Schema Instance DataNode

namespace Json

open Yang.Json

variable {c : Context} {parent i : NodeId} {parentNs : Option String} {ns : String}
  {bound depth : Nat} {v : Json.Value} {n : DataNode} {nodes : List DataNode}
  {members : List (String × Json.Value)}

section Decoding

theorem foldr_objectDepth (depth : Nat) (nodes : List DataNode) :
    (nodes.map fun n => depth + n.objectDepth).foldr max depth =
      depth + objectDepthOfAll nodes := by
  induction nodes with
  | nil => rfl
  | cons n ns ih =>
      rw [List.map_cons, List.foldr_cons, ih, objectDepthOfAll]
      omega

/-- The nodes of a member go as far down as the values that write them. What is
known of each value is assumed, since the values are those of the induction. -/
theorem memberNodes_within (hdepth : depth ≤ bound) {member : String}
    (each : ∀ w n, sizeOf w ≤ sizeOf v → readNode c i ns depth w = .ok n →
      readNode (c.withDepth bound) i ns depth w = within bound (depth + n.objectDepth) n)
    (h : memberNodes c i ns depth member v = .ok nodes) :
    memberNodes (c.withDepth bound) i ns depth member v =
      within bound (depth + objectDepthOfAll nodes) nodes := by
  rw [memberNodes.eq_def] at h ⊢
  rw [Context.tree_withDepth]
  split at h
  · rename_i hentries
    rw [if_pos hentries]
    split at h
    · rename_i items
      have hitem : ∀ w ∈ items, ∀ n, readNode c i ns depth w = .ok n →
          readNode (c.withDepth bound) i ns depth w = within bound (depth + n.objectDepth) n := by
        intro w hw n hn
        have hlt := List.sizeOf_lt_of_mem hw
        refine each w n ?_ hn
        rw [Json.Value.array.sizeOf_spec]
        omega
      have hreached : depth ≤ bound + 1 := Nat.le_succ_of_le hdepth
      rw [mapM_within hitem hreached h, foldr_objectDepth]
    · cases h
  · rename_i hsingle
    rw [if_neg hsingle]
    obtain ⟨n, hn, rfl⟩ := map_eq_ok_iff.mp h
    have hdeep : depth + objectDepthOfAll [n] = depth + n.objectDepth := by
      rw [objectDepthOfAll, objectDepthOfAll, Nat.max_zero]
    rw [hdeep, each v n (Nat.le_refl _) hn]
    exact within_bind_ok rfl

/-- The nodes of an object go as far down as the values of its members. A member
that writes no node adds nothing to it. -/
theorem decodeMembers_within (hdepth : depth ≤ bound)
    (each : ∀ member ∈ members, ∀ i ns w n, sizeOf w ≤ sizeOf member.2 →
      readNode c i ns depth w = .ok n →
      readNode (c.withDepth bound) i ns depth w = within bound (depth + n.objectDepth) n)
    (h : decodeMembers c parent parentNs depth members = .ok nodes) :
    decodeMembers (c.withDepth bound) parent parentNs depth members =
      within bound (depth + objectDepthOfAll nodes) nodes := by
  induction members generalizing nodes with
  | nil =>
      rw [decodeMembers] at h ⊢
      obtain rfl := Except.ok.inj h
      exact (within_of_le (Nat.le_succ_of_le hdepth)).symm
  | cons member rest ih =>
      obtain ⟨name, v⟩ := member
      rw [decodeMembers_cons] at h ⊢
      simp only [bind_eq_ok_iff, pure_eq_ok_iff] at h
      obtain ⟨id, hid, i, hi, group, hgroup, others, hothers, rfl⟩ := h
      rw [List.forall_mem_cons] at each
      have hid' : memberId (c.withDepth bound) parentNs name = .ok id := hid
      have hi' : schemaNode (c.withDepth bound) parent name id = .ok i := hi
      have hgroup' := memberNodes_within hdepth (each.1 i id.ns) hgroup
      rw [bind_of_ok hid', bind_of_ok hi', hgroup', ih each.2 hothers, objectDepthOfAll_append,
        ← Nat.add_max_add_left]
      exact within_bind fun _ => within_bind_ok rfl

/-- A node goes as far down as it has objects. The proof follows the decoder,
with one lemma for each of its functions. -/
theorem readNode_within (hdepth : depth ≤ bound) (h : readNode c i ns depth v = .ok n) :
    readNode (c.withDepth bound) i ns depth v = within bound (depth + n.objectDepth) n := by
  -- On the size of the value, since its entries and members come out of `mapM` and of pairs.
  induction hsize : sizeOf v using Nat.strongRecOn generalizing v i ns depth n with
  | ind size ih =>
      subst hsize
      rw [readNode] at h ⊢
      rw [Context.tree_withDepth]
      split at h
      · rename_i hkind
        rw [if_pos hkind]
        obtain ⟨raw, hraw, hnode⟩ := bind_eq_ok_iff.mp h
        obtain ⟨key, value, rfl⟩ := Context.exists_leaf_of_valueNode hnode
        rw [objectDepth, within_of_le (Nat.succ_le_succ hdepth), leafNode, hraw]
        exact (congrFun (congrFun (c.valueNode_withDepth bound) i) raw).trans hnode
      · rename_i hkind
        rw [if_neg hkind]
        cases v with
        | object members =>
            simp only [decodeInner, bind_eq_ok_iff, exists_unit_iff] at h
            obtain ⟨-, children, hchildren, hnode⟩ := h
            obtain ⟨key, rfl⟩ := Context.exists_inner_of_innerNode hnode
            have hstop : depth + (inner key children).objectDepth =
                max (depth + 1 + 1) (depth + 1 + objectDepthOfAll children) := by
              rw [objectDepth]
              omega
            rw [decodeInner, check_dataDepth (Nat.succ_le_succ hdepth), hstop]
            refine within_bind fun hreached => ?_
            -- The object itself is within the limit, so its members may be looked at.
            have hbelow : depth + 1 ≤ bound := Nat.le_of_succ_le_succ hreached
            have hmembers := decodeMembers_within hbelow (fun member hmember i ns w n hle hw =>
              ih _ (by
                have hlt := List.sizeOf_lt_of_mem hmember
                have hmemberSize : sizeOf member = 1 + sizeOf member.1 + sizeOf member.2 := rfl
                rw [Json.Value.object.sizeOf_spec]
                omega) hbelow hw rfl) hchildren
            rw [hmembers]
            exact within_bind_ok hnode
        | _ => cases h

/-- At the top level the object of all members counts, whatever they write. -/
theorem decodeTop_within {member : String} (h : decodeTop c member v = .ok nodes) :
    decodeTop (c.withDepth bound) member v =
      within bound (1 + max 1 (objectDepthOfAll nodes)) nodes := by
  simp only [decodeTop, bind_eq_ok_iff, exists_unit_iff] at h
  obtain ⟨root, hroot, -, hnodes⟩ := h
  have hroot' : topModule (c.withDepth bound) member = .ok root := hroot
  rw [decodeTop, bind_of_ok hroot', check_dataDepth (Nat.le_add_left 1 _),
    ← Nat.add_max_add_left]
  refine within_bind fun hreached => ?_
  have hbelow : 1 ≤ bound := Nat.le_of_succ_le_succ hreached
  exact decodeMembers_within hbelow
    (fun _ _ i ns w n _ hw => readNode_within hbelow hw) hnodes

/-- Of the members at the top level, one that writes no node still counts as an
object. The top level is checked once for each member. -/
theorem foldr_topDepth {groups : List (List DataNode)} (h : groups ≠ []) :
    (groups.map fun nodes => 1 + max 1 (objectDepthOfAll nodes)).foldr max 0 =
      1 + max 1 (objectDepthOfAll groups.flatten) := by
  induction groups with
  | nil => cases h rfl
  | cons group groups ih =>
      rw [List.map_cons, List.foldr_cons, List.flatten_cons, objectDepthOfAll_append]
      by_cases hgroups : groups = []
      · subst hgroups
        rw [List.map_nil, List.foldr_nil, List.flatten_nil, objectDepthOfAll]
        omega
      · rw [ih hgroups]
        omega

/-- Data goes as far down as it has objects, the one of all members included. -/
theorem decodeValue_within (hmembers : v ≠ .object []) (h : decodeValue c v = .ok nodes) :
    decodeValue (c.withDepth bound) v =
      within bound (1 + max 1 (objectDepthOfAll nodes)) nodes := by
  cases v with
  | object members =>
      obtain ⟨groups, hgroups, hnodes⟩ := bind_eq_ok_iff.mp h
      obtain rfl := pure_eq_ok_iff.mp hnodes
      have hne : groups ≠ [] := by
        rintro rfl
        obtain rfl := List.forall₂_nil_right_iff.mp (mapM_eq_ok_iff.mp hgroups)
        exact hmembers rfl
      have htop : ∀ member ∈ members, ∀ group, decodeTop c member.1 member.2 = .ok group →
          decodeTop (c.withDepth bound) member.1 member.2 =
            within bound (1 + max 1 (objectDepthOfAll group)) group :=
        fun _ _ _ hgroup => decodeTop_within hgroup
      have hall := mapM_within htop (Nat.zero_le (bound + 1)) hgroups
      rw [foldr_topDepth hne] at hall
      rw [decodeValue]
      refine (congrArg (· >>= fun groups => pure groups.flatten) hall).trans ?_
      exact within_bind_ok rfl
  | _ => cases h

/-- The text of data is read before any depth counts. -/
theorem decode_within {text : String} (hmembers : Value.read? text ≠ some (.object []))
    (h : decode c text = .ok nodes) :
    decode (c.withDepth bound) text = within bound (1 + max 1 (objectDepthOfAll nodes)) nodes := by
  rw [decode] at h ⊢
  cases hv : Value.read? text with
  | none =>
      rw [hv] at h
      cases h
  | some v =>
      rw [hv] at h hmembers
      exact decodeValue_within (mt (congrArg some) hmembers) h

end Decoding

end Json

namespace Xml

open Yang.Xml

variable {c : Context} {parent : NodeId} {bound depth : Nat}

mutual

/-- An element goes as far down as its node is deep. Elements count as levels
whether they are leaves or not. -/
theorem decodeNode_within {parent : NodeId} {depth : Nat} (hdepth : depth ≤ bound + 1) :
    ∀ (x : Xml.Node) {n? : Option DataNode}, decodeNode c parent depth x = .ok n? →
      decodeNode (c.withDepth bound) parent depth x =
        within bound (depth + depthOfAll n?.toList) n?
  | .element ns name children, n?, h => by
      rw [decodeNode] at h ⊢
      rw [check_dataDepth hdepth, Context.tree_withDepth, Context.dataDepth_withDepth,
        Context.valueNode_withDepth, Context.innerNode_withDepth]
      simp only [bind_eq_ok_iff, exists_unit_iff] at h
      obtain ⟨-, h⟩ := h
      cases hchild : c.tree.dataChild? parent name ns with
      | none =>
          rw [hchild] at h
          cases h
      | some e =>
          simp only [hchild] at h ⊢
          split at h
          · rename_i hterminal
            rw [if_pos hterminal]
            have hleaf := h
            simp only [bind_eq_ok_iff, pure_eq_ok_iff] at h
            obtain ⟨n, hn, rfl⟩ := h
            obtain ⟨key, value, rfl⟩ := Context.exists_leaf_of_valueNode hn
            exact within_bind_ok hleaf
          · rename_i hterminal
            rw [if_neg hterminal]
            simp only [bind_eq_ok_iff, pure_eq_ok_iff] at h
            obtain ⟨nodes, hnodes, n, hn, rfl⟩ := h
            obtain ⟨key, rfl⟩ := Context.exists_inner_of_innerNode hn
            have hstop : depth + depthOfAll (some (inner key nodes)).toList =
                max (depth + 1) (depth + 1 + depthOfAll nodes) := by
              rw [Option.toList_some, depthOfAll, depthOfAll, DataNode.depth]
              omega
            rw [hstop]
            refine within_bind fun hreached => ?_
            rw [decodeNodes_within hreached children hnodes]
            exact within_bind_ok (bind_eq_ok_iff.mpr ⟨_, hn, rfl⟩)
  | .text s, n?, h => by
      obtain rfl := Except.ok.inj h
      exact (within_of_le hdepth).symm
  | .aside, n?, h => by
      obtain rfl := Except.ok.inj h
      exact (within_of_le hdepth).symm

/-- Elements go as far down as the deepest of their nodes. Texts and asides
among them stand on the same level and do not count. -/
theorem decodeNodes_within {parent : NodeId} {depth : Nat} (hdepth : depth ≤ bound + 1) :
    ∀ (xs : List Xml.Node) {nodes : List DataNode}, decodeNodes c parent depth xs = .ok nodes →
      decodeNodes (c.withDepth bound) parent depth xs =
        within bound (depth + depthOfAll nodes) nodes
  | [], nodes, h => by
      obtain rfl := Except.ok.inj h
      exact (within_of_le hdepth).symm
  | x :: xs, nodes, h => by
      rw [decodeNodes] at h ⊢
      simp only [bind_eq_ok_iff, pure_eq_ok_iff] at h
      obtain ⟨first, hfirst, others, hothers, rfl⟩ := h
      rw [decodeNode_within hdepth x hfirst, decodeNodes_within hdepth xs hothers,
        depthOfAll_append, ← Nat.add_max_add_left]
      exact within_bind fun _ => within_bind_ok rfl

end

theorem decodeTop_within {x : Xml.Node} {n? : Option DataNode} (h : decodeTop c x = .ok n?) :
    decodeTop (c.withDepth bound) x = within bound (1 + depthOfAll n?.toList) n? := by
  have hfirst : 1 ≤ bound + 1 := Nat.le_add_left 1 bound
  cases x with
  | element ns name children =>
      cases ns with
      | none => cases h
      | some uri =>
          rw [decodeTop] at h ⊢
          rw [Context.moduleByNamespace?_withDepth]
          cases hroot : c.moduleByNamespace? uri with
          | none =>
              rw [hroot] at h
              cases h
          | some root =>
              rw [hroot] at h
              exact decodeNode_within hfirst _ h
  | _ =>
      obtain rfl := Except.ok.inj h
      exact (within_of_le hfirst).symm

theorem foldr_depth (found : List (Option DataNode)) :
    (found.map fun n? => 1 + depthOfAll n?.toList).foldr max 1 =
      1 + depthOfAll (found.flatMap Option.toList) := by
  induction found with
  | nil => rfl
  | cons n? found ih =>
      rw [List.map_cons, List.foldr_cons, ih, List.flatMap_cons, depthOfAll_append,
        Nat.add_max_add_left]

/-- A document goes as far down as the deepest of its nodes. A wrapper does not
count as a level. -/
theorem decodeRoot_within {root : Xml.Node} {nodes : List DataNode}
    (h : decodeRoot c root = .ok nodes) :
    decodeRoot (c.withDepth bound) root = within bound (1 + depthOfAll nodes) nodes := by
  obtain ⟨found, hfound, hnodes⟩ := bind_eq_ok_iff.mp h
  obtain rfl := pure_eq_ok_iff.mp hnodes
  have htop : ∀ x ∈ topElements c root, ∀ n?, decodeTop c x = .ok n? →
      decodeTop (c.withDepth bound) x = within bound (1 + depthOfAll n?.toList) n? :=
    fun _ _ _ hx => decodeTop_within hx
  have helements : topElements (c.withDepth bound) root = topElements c root := by
    cases root <;> rfl
  rw [decodeRoot, helements, mapM_within htop (Nat.le_add_left 1 bound) hfound, foldr_depth]
  exact within_bind_ok rfl

theorem decode_within {text : String} {nodes : List DataNode} (h : decode c text = .ok nodes) :
    decode (c.withDepth bound) text = within bound (1 + depthOfAll nodes) nodes := by
  rw [decode] at h ⊢
  cases hroot : Xml.Node.read? text with
  | none =>
      rw [hroot] at h
      cases h
  | some root =>
      rw [hroot] at h
      exact decodeRoot_within h

end Xml

end Yang.Codec
