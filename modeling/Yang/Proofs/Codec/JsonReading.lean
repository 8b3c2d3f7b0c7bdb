import Yang.Proofs.Codec.JsonMembers
import Yang.Proofs.Codec.JsonNames
import Yang.Proofs.Codec.ListKey

/-!
# Reading what was written as JSON

The members of an object hold the nodes in groups, one group for each name. Each group
is read back node by node, and the groups together are the nodes up to the order of
different schema nodes. The names of members matter here only in that they are read
back as the identifiers for which they were written.
-/

namespace Yang

theorem exists_forall₂ {α β γ : Type} {R : α → β → Prop} {S : β → γ → Prop} {T : α → γ → Prop}
    {as : List α} {bs : List β} (h : List.Forall₂ R as bs)
    (step : ∀ a ∈ as, ∀ b ∈ bs, R a b → ∃ x, S b x ∧ T a x) :
    ∃ xs, List.Forall₂ S bs xs ∧ List.Forall₂ T as xs := by
  induction h with
  | nil => exact ⟨[], .nil, .nil⟩
  | @cons a b as bs hab _ ih =>
      obtain ⟨x, hS, hT⟩ := step a (List.mem_cons_self ..) b (List.mem_cons_self ..) hab
      obtain ⟨xs, hSs, hTs⟩ := ih fun a' ha b' hb =>
        step a' (List.mem_cons_of_mem _ ha) b' (List.mem_cons_of_mem _ hb)
      exact ⟨x :: xs, .cons hS hSs, .cons hT hTs⟩

namespace Codec.Json

open Schema Instance Yang.Json

variable {c : Context} {parent i : NodeId} {parentNs : Option String} {ns name : String}
  {depth : Nat} {v : Json.Value} {nodes group : List DataNode} {n : DataNode}
  {members : List (String × Json.Value)}

theorem text_number (n : Int) : (Number.integer n).text = toString n := by
  apply String.toList_inj.mp
  rw [Number.text, text_integer, String.toList_ofList, toList_toString]

/-- The literal of a value is that of its JSON form. -/
theorem literal_json (v : Value) : literal v.json = .ok v.literal := by
  cases v with
  | integer t n holds =>
      rw [Value.json]
      split
      · exact congrArg Except.ok (text_number n)
      · rfl
  | flag b => rfl
  | empty => rfl
  | _ => rfl

section Equations

/-- The node that a JSON value writes for a schema node. -/
def readNode (c : Context) (i : NodeId) (ns : String) (depth : Nat) (v : Json.Value) :
    Except Error DataNode :=
  if c.tree.kind? i = some .leaf ∨ c.tree.kind? i = some .leafList then leafNode c i v
  else decodeInner c i ns depth v

def memberNodes (c : Context) (i : NodeId) (ns : String) (depth : Nat) (member : String)
    (v : Json.Value) : Except Error (List DataNode) :=
  if c.tree.kind? i = some .leafList ∨ c.tree.kind? i = some .list then
    match v with
    | .array items => items.mapM (readNode c i ns depth)
    | _ => throw (.decode (.notArray member))
  else (fun n => [n]) <$> readNode c i ns depth v

theorem decodeEntries_eq_mapM (items : List Json.Value) :
    decodeEntries c i ns depth items = items.mapM (decodeInner c i ns depth) := by
  induction items with
  | nil => rfl
  | cons v vs ih => rw [decodeEntries, List.mapM_cons, ih]

theorem readNode_of_leaf (h : c.tree.kind? i = some .leaf ∨ c.tree.kind? i = some .leafList) :
    readNode c i ns depth = leafNode c i :=
  funext fun _ => if_pos h

theorem readNode_of_inner (h : ¬(c.tree.kind? i = some .leaf ∨ c.tree.kind? i = some .leafList)) :
    readNode c i ns depth = decodeInner c i ns depth :=
  funext fun _ => if_neg h

theorem decodeMembers_cons (member : String) (v : Json.Value)
    (rest : List (String × Json.Value)) :
    decodeMembers c parent parentNs depth ((member, v) :: rest) = (do
      let id ← memberId c parentNs member
      let i ← schemaNode c parent member id
      let nodes ← memberNodes c i id.ns depth member v
      let others ← decodeMembers c parent parentNs depth rest
      return nodes ++ others) := by
  rw [decodeMembers]
  refine bind_congr (m := Except Error) fun id => bind_congr (m := Except Error) fun i => ?_
  rw [memberNodes.eq_def]
  split
  · rename_i hkind
    rw [readNode_of_leaf (.inl hkind), if_neg (by simp [hkind])]
    cases leafNode c i v <;> rfl
  · rename_i hkind
    rw [readNode_of_leaf (.inr hkind), if_pos (.inl hkind)]
    cases v <;> rfl
  · rename_i hkind
    rw [readNode_of_inner (by simp [hkind]), if_pos (.inr hkind)]
    simp only [decodeEntries_eq_mapM]
    cases v <;> rfl
  · rename_i hleaf hleafList hlist
    rw [readNode_of_inner (not_or.mpr ⟨hleaf, hleafList⟩), if_neg (not_or.mpr ⟨hleafList, hlist⟩)]
    cases decodeInner c i id.ns depth v <;> rfl

end Equations

section Groups

/-- A node is read back below a parent, up to the order of what it holds. This
is what the induction over a data tree proves of each node. -/
def ReadsBack (c : Context) (parent : NodeId) (depth : Nat) (n : DataNode) : Prop :=
  ∀ e v, c.tree.entry? parent n.id = some e → encodeNode c depth n = .ok v →
    ∃ m, readNode c e.node n.id.ns depth v = .ok m ∧ Agrees n m

/-- The names of members are read back as identifiers. -/
def NamesReadBack (c : Context) : Prop :=
  ∀ parentNs id name, Name.isIdentifier id.name = true → memberName c parentNs id = .ok name →
    memberId c parentNs name = .ok id

def Writes (c : Context) (parent : NodeId) (parentNs : Option String) (depth : Nat)
    (member : String × Json.Value) (nodes : List DataNode) : Prop :=
  ∃ id i, memberId c parentNs member.1 = .ok id ∧ schemaNode c parent member.1 id = .ok i ∧
    memberNodes c i id.ns depth member.1 member.2 = .ok nodes

/-- Members write what each of them writes, one after the other. So decoding an
object is a matter of its members alone. -/
theorem decodeMembers_eq_ok {gs : List (List DataNode)}
    (h : List.Forall₂ (Writes c parent parentNs depth) members gs) :
    decodeMembers c parent parentNs depth members = .ok gs.flatten := by
  induction h with
  | nil => rfl
  | @cons member g rest gs hmember _ ih =>
      obtain ⟨id, i, hid, hi, hg⟩ := hmember
      rw [decodeMembers_cons, hid, List.flatten_cons]
      simp only [bind_eq_ok_iff, pure_eq_ok_iff]
      exact ⟨id, rfl, i, hi, g, hg, gs.flatten, ih, rfl⟩

/-- Nodes of one schema node are read back from the value into which they were
merged. A plain node is read from its own value and entries from the items of an
array. -/
theorem Merged.exists_memberNodes (h : Merged c depth group v) {id : SchemaId} {e : ContextEntry}
    (he : c.tree.entry? parent id = some e) (hid : ∀ n ∈ group, n.id = id)
    (below : ∀ n ∈ group, Conforms c parent n) (reads : ∀ n ∈ group, ReadsBack c parent depth n)
    (member : String) :
    ∃ g, memberNodes c e.node id.ns depth member v = .ok g ∧ List.Forall₂ Agrees group g := by
  rw [memberNodes.eq_def]
  cases h with
  | @plain n _ hkey hv =>
      have hn : n ∈ [n] := List.mem_singleton_self n
      obtain rfl := hid n hn
      obtain ⟨m, hm, hagrees⟩ := reads n hn e v he hv
      obtain ⟨hlist, hleafList⟩ := ((below n hn).stands.isPlain_iff he).mp hkey
      rw [if_neg (not_or.mpr ⟨hleafList, hlist⟩), hm]
      exact ⟨[m], rfl, .cons hagrees .nil⟩
  | @entries _ items hne hkeys hitems =>
      have hkind : c.tree.kind? e.node = some .leafList ∨ c.tree.kind? e.node = some .list := by
        obtain ⟨n, hn⟩ := List.exists_mem_of_ne_nil _ hne
        have hplain := (below n hn).stands.isPlain_iff ((hid n hn).symm ▸ he)
        by_contra hnot
        obtain ⟨hleafList, hlist⟩ := not_or.mp hnot
        exact hkeys n hn (hplain.mpr ⟨hlist, hleafList⟩)
      have hstep : ∀ n ∈ group, ∀ w ∈ items, encodeNode c depth n = .ok w →
          ∃ m, readNode c e.node id.ns depth w = .ok m ∧ Agrees n m := by
        intro n hn w _ hw
        obtain rfl := hid n hn
        exact reads n hn e w he hw
      obtain ⟨g, hg, hagrees⟩ := exists_forall₂ hitems hstep
      rw [if_pos hkind]
      exact ⟨g, mapM_eq_ok_iff.mpr hg, hagrees⟩

theorem Merged.ne_nil (h : Merged c depth group v) : group ≠ [] := by
  cases h with
  | plain _ _ => exact List.cons_ne_nil _ _
  | entries hne _ _ => exact hne

/-- Different identifiers have different member names, because a name is read
back as one identifier. -/
theorem NamesReadBack.injective (names : NamesReadBack c) {a b : SchemaId}
    (ha : Name.isIdentifier a.name = true) (hb : Name.isIdentifier b.name = true)
    (hname : memberName c parentNs a = .ok name) (hname' : memberName c parentNs b = .ok name) :
    a = b := by
  have hread := names parentNs a name ha hname
  rw [names parentNs b name hb hname'] at hread
  exact (Except.ok.inj hread).symm

theorem isIdentifier_of_stands (sound : c.tree.Sound) {fits : NodeId → Yang.Value → Prop}
    (h : Stands c fits parent n) : Name.isIdentifier n.id.name = true := by
  obtain ⟨_, he⟩ := h.exists_entry
  exact sound.isIdentifier_of_mem (Tree.mem_context_of_entry? he)

/-- Nodes of one member are of one schema node. They can therefore be read back
from the value of the member. -/
theorem id_eq_of_mem_namedMember (sound : c.tree.Sound) (names : NamesReadBack c)
    (below : ∀ n ∈ nodes, ∃ parent, Conforms c parent n) {m : DataNode}
    (hm : m ∈ namedMember c parentNs name nodes) (hn : n ∈ namedMember c parentNs name nodes) :
    m.id = n.id := by
  obtain ⟨hm, hname⟩ := mem_namedMember_iff.mp hm
  obtain ⟨hn, hname'⟩ := mem_namedMember_iff.mp hn
  obtain ⟨_, hm⟩ := below m hm
  obtain ⟨_, hn⟩ := below n hn
  exact names.injective (isIdentifier_of_stands sound hm.stands)
    (isIdentifier_of_stands sound hn.stands) hname hname'

/-- The nodes of a member are read back from it, if all nodes of its name stand
below the parent. -/
theorem Gathered.exists_writes (sound : c.tree.Sound) (names : NamesReadBack c)
    (h : Gathered c parentNs depth nodes members) (hmember : (name, v) ∈ members)
    (hid : ∀ m ∈ namedMember c parentNs name nodes, ∀ n ∈ namedMember c parentNs name nodes,
      m.id = n.id)
    (below : ∀ n ∈ namedMember c parentNs name nodes, Conforms c parent n)
    (reads : ∀ n ∈ namedMember c parentNs name nodes, ReadsBack c parent depth n) :
    ∃ g, Writes c parent parentNs depth (name, v) g ∧
      List.Forall₂ Agrees (namedMember c parentNs name nodes) g := by
  have hmerged := h.merged name v hmember
  obtain ⟨n, hn⟩ := List.exists_mem_of_ne_nil _ hmerged.ne_nil
  obtain ⟨e, he⟩ := (below n hn).stands.exists_entry
  have hread := names parentNs n.id name (isIdentifier_of_stands sound (below n hn).stands)
    (mem_namedMember_iff.mp hn).2
  obtain ⟨g, hg, hagrees⟩ :=
    hmerged.exists_memberNodes he (fun m hm => hid m hm n hn) below reads name
  refine ⟨g, ⟨n.id, e.node, hread, ?_, hg⟩, hagrees⟩
  rw [schemaNode, sound.dataChild?_eq, he]

/-- The nodes of a schema node are all in one member. -/
theorem siblings_namedMember (id : SchemaId) :
    siblings id (namedMember c parentNs name nodes) =
      if (memberName c parentNs id).toOption = some name then siblings id nodes else [] := by
  rw [siblings, namedMember, List.filter_filter]
  split
  · rename_i hname
    refine List.filter_congr fun n _ => ?_
    by_cases hid : n.id = id
    · simp [hid, hname]
    · simp [hid]
  · rename_i hname
    refine List.filter_eq_nil_iff.mpr fun n _ => ?_
    by_cases hid : n.id = id
    · simp [hid, hname]
    · simp [hid]

theorem flatten_select {α : Type} {names : List String} (hnodup : names.Nodup)
    (name? : Option String) (as : List α) :
    (names.map fun other => if name? = some other then as else []).flatten =
      if name?.any (· ∈ names) then as else [] := by
  induction names with
  | nil => cases name? <;> rfl
  | cons other names ih =>
      obtain ⟨hother, hnodup⟩ := List.nodup_cons.mp hnodup
      rw [List.map_cons, List.flatten_cons, ih hnodup]
      cases name? with
      | none => simp
      | some name =>
          by_cases hname : name = other
          · simp [hname, hother]
          · simp [hname]

/-- The groups of the members hold the nodes of each schema node in order.
Sorting the members only moves groups. -/
theorem Gathered.siblings_flatten (h : Gathered c parentNs depth nodes members) (id : SchemaId) :
    siblings id (members.map fun member => namedMember c parentNs member.1 nodes).flatten =
      siblings id nodes := by
  have hnodup : (members.map Prod.fst).Nodup := h.sorted.imp String.ne_of_lt
  have hselect := flatten_select hnodup (memberName c parentNs id).toOption (siblings id nodes)
  rw [List.map_map] at hselect
  rw [siblings, List.filter_flatten, List.map_map]
  refine (congrArg List.flatten (List.map_congr_left fun member _ =>
    siblings_namedMember id)).trans (hselect.trans ?_)
  split
  · rfl
  · rename_i hnone
    refine (List.filter_eq_nil_iff.mpr fun n hn hid => hnone ?_).symm
    obtain ⟨name, v, hname, hmember⟩ := h.covered n hn
    rw [← beq_iff_eq.mp hid, hname]
    exact decide_eq_true (List.mem_map_of_mem hmember)

/-- What is read back of each group agrees with the nodes. Groups come in the
order of names, but siblings of one schema node are all in one group. -/
theorem Gathered.agreesAll (h : Gathered c parentNs depth nodes members)
    {gs : List (List DataNode)}
    (hgs : List.Forall₂
      (fun member g => List.Forall₂ Agrees (namedMember c parentNs member.1 nodes) g) members gs) :
    AgreesAll nodes gs.flatten := by
  intro id
  have hflatten := List.rel_flatten (List.forall₂_map_left_iff.mpr hgs)
  have hsame : ∀ ⦃a b⦄, Agrees a b → ((a.id == id) = true ↔ (b.id == id) = true) := by
    intro a b hab
    rw [hab.id_eq]
  have hsiblings := List.rel_filter (fun _ _ hab => hsame hab) hflatten
  have hnodes := h.siblings_flatten id
  rw [siblings] at hnodes
  rwa [hnodes] at hsiblings

/-- If every member writes nodes that agree with its group, the members write
nodes that agree with all. What writing means is left open, since it differs at
the top level. -/
theorem Gathered.exists_groups (h : Gathered c parentNs depth nodes members)
    {W : String × Json.Value → List DataNode → Prop}
    (step : ∀ member ∈ members, ∃ g, W member g ∧
      List.Forall₂ Agrees (namedMember c parentNs member.1 nodes) g) :
    ∃ gs, List.Forall₂ W members gs ∧ AgreesAll nodes gs.flatten := by
  have hself : List.Forall₂ (· = ·) members members := List.forall₂_refl members
  have hstep : ∀ member ∈ members, ∀ other ∈ members, member = other →
      ∃ g, W other g ∧ List.Forall₂ Agrees (namedMember c parentNs member.1 nodes) g := by
    rintro member hmember _ _ rfl
    exact step member hmember
  obtain ⟨gs, hwrites, hgs⟩ := exists_forall₂ hself hstep
  exact ⟨gs, hwrites, h.agreesAll hgs⟩

end Groups

end Codec.Json

end Yang
