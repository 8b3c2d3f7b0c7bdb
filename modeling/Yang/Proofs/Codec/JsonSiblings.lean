import Mathlib.Data.List.Pairwise
import Yang.Proofs.Codec.Repeats

/-!
# Siblings in any order

The encoder gathers entries of one name in one array and gives a plain node a member of its
own. Whether a member is that of entries is judged by its value, and a leaf of type `empty`
has an array for its value. So an entry that stands behind a plain leaf of this type and of the
same member name is added to the value of the leaf, and in the other order the leaf is refused.

Siblings are unmixed if there are no such two among them. Exactly then their object holds what
`Gathered` says, and exactly then it makes no difference in which order they stand.
-/

namespace Yang

/-- The value of a leaf of type `empty` is the only one that is an array. -/
theorem Value.exists_json_eq_array_iff (v : Value) :
    (∃ items, v.json = .array items) ↔ v = .empty := by
  cases v with
  | integer t n holds =>
      rw [json]
      split <;> simp
  | _ => simp [json]

namespace Instance

/-- Siblings are put into another order, at the top level or below, any number
of times. Nodes never move to another parent. -/
inductive Shuffled : List DataNode → List DataNode → Prop
  | siblings {nodes nodes' : List DataNode} (h : nodes.Perm nodes') : Shuffled nodes nodes'
  | inside {before after children children' : List DataNode} {key : Key}
      (h : Shuffled children children') :
      Shuffled (before ++ .inner key children :: after) (before ++ .inner key children' :: after)
  | trans {nodes nodes' nodes'' : List DataNode} (h : Shuffled nodes nodes')
      (h' : Shuffled nodes' nodes'') : Shuffled nodes nodes''

theorem Shuffled.symm {nodes nodes' : List DataNode} (h : Shuffled nodes nodes') :
    Shuffled nodes' nodes := by
  induction h with
  | siblings h => exact .siblings h.symm
  | inside _ ih => exact .inside ih
  | trans _ _ ih ih' => exact .trans ih' ih

end Instance

namespace Codec

open Instance

namespace Json

open Yang.Json

section Throughout

/-- A property of the siblings that make an object holds at this object and at
all objects below it. The namespace of the parent and the depth are handed down
as the encoder does. -/
inductive Throughout (P : Option String → Nat → List DataNode → Prop) :
    Option String → Nat → List DataNode → Prop
  | intro {parentNs : Option String} {depth : Nat} {nodes : List DataNode}
      (here : P parentNs depth nodes)
      (below : ∀ key children, DataNode.inner key children ∈ nodes →
        Throughout P (some key.id.ns) (depth + 1) children) : Throughout P parentNs depth nodes

variable {P Q : Option String → Nat → List DataNode → Prop} {parentNs : Option String}
  {depth : Nat} {nodes nodes' : List DataNode}

theorem throughout_iff :
    Throughout P parentNs depth nodes ↔
      P parentNs depth nodes ∧ ∀ key children, DataNode.inner key children ∈ nodes →
        Throughout P (some key.id.ns) (depth + 1) children := by
  constructor
  · rintro ⟨here, below⟩
    exact ⟨here, below⟩
  · rintro ⟨here, below⟩
    exact .intro here below

theorem Throughout.imp (h : Throughout P parentNs depth nodes)
    (himp : ∀ parentNs depth nodes, P parentNs depth nodes → Q parentNs depth nodes) :
    Throughout Q parentNs depth nodes := by
  induction h with
  | intro here _ ih => exact .intro (himp _ _ _ here) ih

theorem Throughout.and (hP : Throughout P parentNs depth nodes)
    (hQ : Throughout Q parentNs depth nodes) :
    Throughout (fun parentNs depth nodes => P parentNs depth nodes ∧ Q parentNs depth nodes)
      parentNs depth nodes := by
  induction hP with
  | intro here _ ih =>
      obtain ⟨here', below'⟩ := throughout_iff.mp hQ
      refine .intro ⟨here, here'⟩ ?_
      intro key children hmem
      exact ih key children hmem (below' key children hmem)

/-- A property holds throughout shuffled siblings too, if it depends neither on
the order of siblings nor on what is below them. -/
theorem Throughout.shuffled (hshuffled : Shuffled nodes nodes')
    (perm : ∀ parentNs depth (as bs : List DataNode), as.Perm bs → P parentNs depth as →
      P parentNs depth bs)
    (replace : ∀ parentNs depth (before after children children' : List DataNode) (key : Key),
      P parentNs depth (before ++ .inner key children :: after) →
        P parentNs depth (before ++ .inner key children' :: after))
    (h : Throughout P parentNs depth nodes) : Throughout P parentNs depth nodes' := by
  induction hshuffled generalizing parentNs depth with
  | siblings hperm =>
      obtain ⟨here, below⟩ := throughout_iff.mp h
      exact .intro (perm _ _ _ _ hperm here) fun key children hmem =>
        below key children (hperm.mem_iff.mpr hmem)
  | @inside before after children children' key _ ih =>
      obtain ⟨here, below⟩ := throughout_iff.mp h
      refine .intro (replace _ _ _ _ _ _ _ here) ?_
      intro key' children'' hmem
      rcases List.mem_append.mp hmem with hbefore | hmem
      · exact below key' children'' (List.mem_append_left _ hbefore)
      · rcases List.mem_cons.mp hmem with heq | hafter
        · obtain ⟨rfl, rfl⟩ := DataNode.inner.inj heq
          exact ih (below _ children (by simp))
        · exact below key' children'' (by simp [hafter])
  | trans _ _ ih ih' => exact ih' (ih h)

end Throughout

section Objects

variable (c : Context) (parentNs : Option String)

/-- A node can be put into an object in which another one was put before: they
have different member names, or it is an entry and is gathered with what was an
entry or looked like some. Only a leaf of type `empty` looks like that. -/
def Follows (a b : DataNode) : Prop :=
  ∀ name, memberName c parentNs a.id = .ok name → memberName c parentNs b.id = .ok name →
    ¬b.key.IsPlain ∧ (a.key.IsPlain → a.value? = some .empty)

def Interchangeable (a b : DataNode) : Prop :=
  Follows c parentNs a b ∧ Follows c parentNs b a

/-- The first is a plain leaf of type `empty` and the second an entry of the
same member name. The encoder takes them in this order and not in the other. -/
def Mixed (a b : DataNode) : Prop :=
  (a.key.IsPlain ∧ a.value? = some .empty) ∧ ¬b.key.IsPlain ∧
    ∃ name, memberName c parentNs a.id = .ok name ∧ memberName c parentNs b.id = .ok name

/-- What siblings have to do with each other if they make an object, apart from
what is below them. The encoder fails for other reasons only inside one of them. -/
structure FormsObject (depth : Nat) (nodes : List DataNode) : Prop where
  within : c.limits.check .dataDepth depth = .ok ()
  named : ∀ n ∈ nodes, ∃ name, memberName c parentNs n.id = .ok name
  follows : nodes.Pairwise (Follows c parentNs)

def UnmixedObject (_depth : Nat) (nodes : List DataNode) : Prop :=
  ∀ a ∈ nodes, ∀ b ∈ nodes, ¬Mixed c parentNs a b

/-- The siblings are encoded to an object that gathers them. -/
def GathersObject (depth : Nat) (nodes : List DataNode) : Prop :=
  ∃ members, encodeNodes c parentNs depth [] nodes = .ok members ∧
    Gathered c parentNs depth nodes members

def Admits (slot : Option Json.Value) (key : Key) : Prop :=
  slot = none ∨ ¬key.IsPlain ∧ ∃ items, slot = some (.array items)

end Objects

section Putting

variable {c : Context} {parentNs : Option String} {depth : Nat} {n : DataNode} {key : Key}
  {name : String} {v : Json.Value} {members : List (String × Json.Value)}

theorem admits_of_putNode {next : List (String × Json.Value)}
    (h : putNode members key name v = .ok next) : Admits (members.lookup name) key := by
  rw [putNode.eq_def] at h
  split at h
  · split at h
    · cases h
    · rename_i hfree
      exact .inl (Option.not_isSome_iff_eq_none.mp hfree)
  · rename_i hentry
    split at h
    · rename_i hnone
      exact .inl hnone
    · rename_i items hsome
      exact .inr ⟨hentry _, items, hsome⟩
    · cases h

/-- The new member is an array unless the node is plain and its value is none. -/
theorem putNode_of_admits (h : Admits (members.lookup name) key) :
    ∃ w, putNode members key name v = .ok (putMember name w members) ∧
      ((∃ items, w = .array items) ↔ (key.IsPlain → ∃ items, v = .array items)) := by
  rw [putNode.eq_def]
  split
  · rename_i id
    rcases h with hnone | ⟨hentry, _⟩
    · exact ⟨v, by rw [if_neg (by simp [hnone])], by simp [Key.IsPlain, Key.id]⟩
    · exact absurd rfl hentry
  · rename_i hentry
    have hkey : ¬key.IsPlain := hentry _
    rcases h with hnone | ⟨_, items, hsome⟩
    · exact ⟨.array [v], by rw [hnone], by simp [hkey]⟩
    · exact ⟨.array (items ++ [v]), by rw [hsome], by simp [hkey]⟩

/-- The form of a node is an array if it is a leaf of type `empty`. -/
theorem encodeNode_eq_array_iff (h : encodeNode c depth n = .ok v) :
    (∃ items, v = .array items) ↔ n.value? = some .empty := by
  cases n with
  | leaf key value =>
      rw [encodeNode] at h
      obtain rfl := Except.ok.inj h
      rw [Value.exists_json_eq_array_iff, DataNode.value?, Option.some.injEq]
  | inner key children =>
      simp only [encodeNode, bind_eq_ok_iff, exists_unit_iff, pure_eq_ok_iff] at h
      obtain ⟨-, _, -, rfl⟩ := h
      simp [DataNode.value?]

theorem follows_iff {a b : DataNode} (ha : memberName c parentNs a.id = .ok name)
    (hb : memberName c parentNs b.id = .ok name) :
    Follows c parentNs a b ↔ ¬b.key.IsPlain ∧ (a.key.IsPlain → a.value? = some .empty) := by
  constructor
  · exact fun h => h name ha hb
  · intro h other hother _
    exact h

/-- After a node is put among members, they admit what they admitted before if
it can follow the node. -/
theorem admits_putMember_iff {m : DataNode} {other : String} {w : Json.Value}
    (hname : memberName c parentNs n.id = .ok name) (hv : encodeNode c depth n = .ok v)
    (hadmits : Admits (members.lookup name) n.key)
    (hw : (∃ items, w = .array items) ↔ (n.key.IsPlain → ∃ items, v = .array items))
    (hother : memberName c parentNs m.id = .ok other) :
    Admits ((putMember name w members).lookup other) m.key ↔
      Admits (members.lookup other) m.key ∧ Follows c parentNs n m := by
  rw [lookup_putMember]
  by_cases heq : other = name
  · subst heq
    rw [encodeNode_eq_array_iff hv] at hw
    have hslot : Admits (some w) m.key ↔
        ¬m.key.IsPlain ∧ (n.key.IsPlain → n.value? = some .empty) := by
      rw [← hw]
      simp [Admits]
    rw [if_pos rfl, hslot, follows_iff hname hother, iff_and_self]
    rintro ⟨hentry, -⟩
    exact hadmits.imp_right (And.imp_left fun _ => hentry)
  · rw [if_neg heq, iff_self_and]
    intro _ name' hname' hother'
    rw [hname] at hname'
    rw [hother] at hother'
    exact absurd ((Except.ok.inj hother').trans (Except.ok.inj hname').symm) heq

/-- Nodes are put into members if each of them is encoded, its member admits it,
and it can follow the nodes before it. The members at the start are arbitrary,
as the induction needs. -/
theorem exists_encodeNodes_iff (nodes : List DataNode) :
    (∃ final, encodeNodes c parentNs depth members nodes = .ok final) ↔
      (∀ n ∈ nodes, ∃ v, encodeNode c depth n = .ok v) ∧
      (∀ n ∈ nodes, ∃ name, memberName c parentNs n.id = .ok name ∧
        Admits (members.lookup name) n.key) ∧
      nodes.Pairwise (Follows c parentNs) := by
  induction nodes generalizing members with
  | nil => simp [encodeNodes]
  | cons n rest ih =>
      rw [List.forall_mem_cons, List.forall_mem_cons, List.pairwise_cons]
      simp only [encodeNodes, bind_eq_ok_iff]
      -- The members after the first node admit the others that can follow it.
      have hnext {name : String} {v w : Json.Value} (hname : memberName c parentNs n.id = .ok name)
          (hv : encodeNode c depth n = .ok v) (hadmits : Admits (members.lookup name) n.key)
          (hw : (∃ items, w = .array items) ↔ (n.key.IsPlain → ∃ items, v = .array items)) :
          (∃ final, encodeNodes c parentNs depth (putMember name w members) rest = .ok final) ↔
            (∀ m ∈ rest, ∃ v, encodeNode c depth m = .ok v) ∧
            ((∀ m ∈ rest, ∃ other, memberName c parentNs m.id = .ok other ∧
              Admits (members.lookup other) m.key) ∧ ∀ m ∈ rest, Follows c parentNs n m) ∧
            rest.Pairwise (Follows c parentNs) := by
        rw [ih, ← forall₂_and]
        refine and_congr_right fun _ => and_congr_left fun _ => forall₂_congr fun m _ => ?_
        rw [← exists_and_right]
        refine exists_congr fun other => ?_
        rw [and_assoc]
        exact and_congr_right (admits_putMember_iff hname hv hadmits hw)
      constructor
      · rintro ⟨final, name, hname, v, hv, next, hput, hfinal⟩
        have hadmits := admits_of_putNode hput
        obtain ⟨w, hput', hw⟩ := putNode_of_admits (v := v) hadmits
        obtain rfl := Except.ok.inj (hput.symm.trans hput')
        obtain ⟨hforms, ⟨hothers, hfirst⟩, hrest⟩ := (hnext hname hv hadmits hw).mp ⟨final, hfinal⟩
        exact ⟨⟨⟨v, hv⟩, hforms⟩, ⟨⟨name, hname, hadmits⟩, hothers⟩, hfirst, hrest⟩
      · rintro ⟨⟨⟨v, hv⟩, hforms⟩, ⟨⟨name, hname, hadmits⟩, hothers⟩, hfirst, hrest⟩
        obtain ⟨w, hput, hw⟩ := putNode_of_admits (v := v) hadmits
        obtain ⟨final, hfinal⟩ :=
          (hnext hname hv hadmits hw).mpr ⟨hforms, ⟨hothers, hfirst⟩, hrest⟩
        exact ⟨final, name, hname, v, hv, _, hput, hfinal⟩

end Putting

section Encoding

variable {c : Context}

/-- Siblings of which each is encoded by itself make an object if they fit
together. What is below each of them is assumed, as the induction gives it. -/
theorem forms_iff {parentNs : Option String} {depth : Nat} {nodes : List DataNode}
    (below : ∀ n ∈ nodes, (∃ v, encodeNode c depth n = .ok v) ↔
      ∀ key children, n = .inner key children →
        Throughout (FormsObject c) (some key.id.ns) (depth + 1) children) :
    (c.limits.check .dataDepth depth = .ok () ∧
        ∃ final, encodeNodes c parentNs depth [] nodes = .ok final) ↔
      Throughout (FormsObject c) parentNs depth nodes := by
  rw [throughout_iff, exists_encodeNodes_iff]
  constructor
  · rintro ⟨within, encoded, admitted, follows⟩
    refine ⟨⟨within, ?_, follows⟩, ?_⟩
    · intro n hn
      obtain ⟨name, hname, _⟩ := admitted n hn
      exact ⟨name, hname⟩
    · intro key children hmem
      exact (below _ hmem).mp (encoded _ hmem) key children rfl
  · rintro ⟨⟨within, named, follows⟩, hbelow⟩
    refine ⟨within, ?_, ?_, follows⟩
    · intro n hn
      refine (below n hn).mpr ?_
      rintro key children rfl
      exact hbelow key children hn
    · intro n hn
      obtain ⟨name, hname⟩ := named n hn
      exact ⟨name, hname, .inl rfl⟩

mutual

/-- A node is encoded if the siblings below it make objects. A leaf has nothing
below it and is always encoded. -/
theorem exists_encodeNode_iff (depth : Nat) : ∀ n : DataNode,
    (∃ v, encodeNode c depth n = .ok v) ↔
      ∀ key children, n = .inner key children →
        Throughout (FormsObject c) (some key.id.ns) (depth + 1) children
  | .leaf key value => by simp [encodeNode]
  | .inner key children => by
      have hobject := @forms_iff c (some key.id.ns) _ _
        (forall_exists_encodeNode_iff (depth + 1) children)
      simp only [encodeNode, bind_eq_ok_iff, exists_unit_iff, pure_eq_ok_iff]
      constructor
      · rintro ⟨_, within, members, hmembers, _⟩ key' children' heq
        obtain ⟨rfl, rfl⟩ := DataNode.inner.inj heq
        exact hobject.mp ⟨within, members, hmembers⟩
      · intro h
        obtain ⟨within, members, hmembers⟩ := hobject.mpr (h key children rfl)
        exact ⟨.object members, within, members, hmembers, rfl⟩

theorem forall_exists_encodeNode_iff (depth : Nat) : ∀ nodes : List DataNode,
    ∀ n ∈ nodes, (∃ v, encodeNode c depth n = .ok v) ↔
      ∀ key children, n = .inner key children →
        Throughout (FormsObject c) (some key.id.ns) (depth + 1) children
  | [] => List.forall_mem_nil _
  | n :: rest => List.forall_mem_cons.mpr
      ⟨exists_encodeNode_iff depth n, forall_exists_encodeNode_iff depth rest⟩

end

/-- Siblings are encoded if everywhere the siblings of an object fit together.
So encoding data comes down to a property of pairs of siblings. -/
theorem exists_encodeNodes_iff_throughout {parentNs : Option String} {depth : Nat}
    {nodes : List DataNode} :
    (c.limits.check .dataDepth depth = .ok () ∧
        ∃ final, encodeNodes c parentNs depth [] nodes = .ok final) ↔
      Throughout (FormsObject c) parentNs depth nodes :=
  forms_iff (forall_exists_encodeNode_iff depth nodes)

end Encoding

section Unmixed

variable {c : Context} {parentNs : Option String} {depth : Nat} {nodes nodes' : List DataNode}
  {a b : DataNode}

/-- What can follow a node with which it is not mixed can stand before it. So
only mixed siblings tell the one order from the other. -/
theorem Follows.symm (h : Follows c parentNs a b) (unmixed : ¬Mixed c parentNs a b) :
    Follows c parentNs b a := by
  intro name hb ha
  obtain ⟨hentry, hempty⟩ := h name ha hb
  refine ⟨?_, fun hplain => absurd hplain hentry⟩
  intro hplain
  exact unmixed ⟨⟨hplain, hempty hplain⟩, hentry, name, ha, hb⟩

instance : Std.Symm (Interchangeable c parentNs) := ⟨fun _ _ => And.symm⟩

theorem FormsObject.interchangeable (h : FormsObject c parentNs depth nodes)
    (unmixed : UnmixedObject c parentNs depth nodes) :
    nodes.Pairwise (Interchangeable c parentNs) := by
  refine h.follows.imp_of_mem ?_
  intro a b ha hb hfollows
  exact ⟨hfollows, hfollows.symm (unmixed a ha b hb)⟩

/-- Siblings of which none are mixed make an object in any order, since any two
of them can change places. -/
theorem FormsObject.perm (h : FormsObject c parentNs depth nodes)
    (unmixed : UnmixedObject c parentNs depth nodes) (hperm : nodes.Perm nodes') :
    FormsObject c parentNs depth nodes' where
  within := h.within
  named n hn := h.named n (hperm.mem_iff.mpr hn)
  follows := ((h.interchangeable unmixed).perm hperm And.symm).imp And.left

theorem FormsObject.homogeneous (h : FormsObject c parentNs depth nodes)
    (unmixed : UnmixedObject c parentNs depth nodes) : Homogeneous c parentNs nodes := by
  intro a ha b hb name hname hname'
  by_cases heq : a = b
  · rw [heq]
  · obtain ⟨hab, hba⟩ := (h.interchangeable unmixed).forall ha hb heq
    exact iff_of_false (hba name hname' hname).1 (hab name hname hname').1

/-- An object that gathers siblings has no mixed ones among them. -/
theorem Gathered.unmixed {members : List (String × Json.Value)}
    (h : Gathered c parentNs depth nodes members) : UnmixedObject c parentNs depth nodes := by
  rintro a ha b hb ⟨⟨hplain, -⟩, hentry, name, hname, hname'⟩
  obtain ⟨other, v, hother, hmember⟩ := h.covered a ha
  obtain rfl := Except.ok.inj (hname.symm.trans hother)
  have hmerged := h.merged name v hmember
  have ha' := mem_namedMember_iff.mpr ⟨ha, hname⟩
  have hb' := mem_namedMember_iff.mpr ⟨hb, hname'⟩
  generalize namedMember c parentNs name nodes = group at hmerged ha' hb'
  cases hmerged with
  | @plain n _ hkey _ =>
      rw [List.mem_singleton.mp hb'] at hentry
      exact hentry hkey
  | entries _ hkeys _ => exact hkeys a ha' hplain

/-- If siblings make an object in this order and in the reverse one, none are
mixed. -/
theorem FormsObject.unmixed_of_reverse (h : FormsObject c parentNs depth nodes)
    (hreverse : FormsObject c parentNs depth nodes.reverse) :
    UnmixedObject c parentNs depth nodes := by
  have hboth : nodes.Pairwise (Interchangeable c parentNs) :=
    h.follows.and (List.pairwise_reverse.mp hreverse.follows)
  rintro a ha b hb ⟨⟨hplain, -⟩, hentry, name, hname, hname'⟩
  have hne : a ≠ b := by
    rintro rfl
    exact hentry hplain
  exact ((hboth.forall ha hb hne).2 name hname' hname).1 hplain

end Unmixed

section Shuffled

variable {c : Context} {parentNs : Option String} {depth : Nat} {nodes nodes' : List DataNode}

/-- What siblings have to do with each other does not depend on what is below
them. -/
theorem FormsObject.replace {before after children : List DataNode} {key : Key}
    (h : FormsObject c parentNs depth (before ++ .inner key children :: after))
    (children' : List DataNode) :
    FormsObject c parentNs depth (before ++ .inner key children' :: after) where
  within := h.within
  named := by
    have named := h.named
    simp only [List.forall_mem_append, List.forall_mem_cons] at named ⊢
    exact named
  follows := by
    have follows := h.follows
    simp only [List.pairwise_append, List.pairwise_cons, List.forall_mem_cons] at follows ⊢
    exact follows

theorem UnmixedObject.replace {before after children : List DataNode} {key : Key}
    (h : UnmixedObject c parentNs depth (before ++ .inner key children :: after))
    (children' : List DataNode) :
    UnmixedObject c parentNs depth (before ++ .inner key children' :: after) := by
  simp only [UnmixedObject, List.forall_mem_append, List.forall_mem_cons] at h ⊢
  exact h

theorem UnmixedObject.perm (h : UnmixedObject c parentNs depth nodes)
    (hperm : nodes.Perm nodes') : UnmixedObject c parentNs depth nodes' := by
  intro a ha b hb
  exact h a (hperm.mem_iff.mpr ha) b (hperm.mem_iff.mpr hb)

/-- Shuffled siblings fit together everywhere, if they did before and none are
mixed. Shuffling goes on below each node, and so does the proof. -/
theorem throughout_formsObject_shuffled (h : Shuffled nodes nodes')
    (forms : Throughout (FormsObject c) parentNs depth nodes)
    (unmixed : Throughout (UnmixedObject c) parentNs depth nodes) :
    Throughout (FormsObject c) parentNs depth nodes' := by
  refine ((forms.and unmixed).shuffled h ?_ ?_).imp fun _ _ _ => And.left
  · rintro _ _ as bs hperm ⟨hforms, hunmixed⟩
    exact ⟨hforms.perm hunmixed hperm, hunmixed.perm hperm⟩
  · rintro _ _ before after children children' key ⟨hforms, hunmixed⟩
    exact ⟨hforms.replace children', hunmixed.replace children'⟩

theorem throughout_unmixedObject_shuffled (h : Shuffled nodes nodes')
    (unmixed : Throughout (UnmixedObject c) parentNs depth nodes) :
    Throughout (UnmixedObject c) parentNs depth nodes' := by
  refine unmixed.shuffled h ?_ ?_
  · exact fun _ _ _ _ hperm hunmixed => hunmixed.perm hperm
  · exact fun _ _ _ _ _ children' _ hunmixed => hunmixed.replace children'

/-- Siblings that fit together however they are shuffled are nowhere mixed. -/
theorem throughout_unmixedObject (h : ∀ nodes', Shuffled nodes nodes' →
      Throughout (FormsObject c) parentNs depth nodes') :
    Throughout (UnmixedObject c) parentNs depth nodes := by
  have forms := h nodes (.siblings (.refl nodes))
  induction forms with
  | @intro parentNs depth nodes here _ ih =>
      refine .intro ?_ ?_
      · have hreverse := h nodes.reverse (.siblings (List.reverse_perm nodes).symm)
        exact here.unmixed_of_reverse (throughout_iff.mp hreverse).1
      · intro key children hmem
        refine ih key children hmem ?_
        intro children' hchildren
        obtain ⟨before, after, rfl⟩ := List.append_of_mem hmem
        have hinside := h _ (.inside hchildren)
        exact (throughout_iff.mp hinside).2 key children' (by simp)

/-- Where no siblings are mixed, the objects gather what they are made of. Mixed
siblings end up in an array that begins with the value of a plain node. -/
theorem throughout_gathersObject_iff (forms : Throughout (FormsObject c) parentNs depth nodes) :
    Throughout (GathersObject c) parentNs depth nodes ↔
      Throughout (UnmixedObject c) parentNs depth nodes := by
  constructor
  · intro h
    refine h.imp ?_
    rintro parentNs depth nodes ⟨members, -, hgathered⟩
    exact hgathered.unmixed
  · intro unmixed
    induction forms with
    | intro here below ih =>
        obtain ⟨-, members, hmembers⟩ := exists_encodeNodes_iff_throughout.mpr (.intro here below)
        obtain ⟨hunmixed, hbelow⟩ := throughout_iff.mp unmixed
        refine .intro ⟨members, hmembers, ?_⟩ fun key children hmem =>
          ih key children hmem (hbelow key children hmem)
        exact Gathered.nil.encodeNodes hmembers (here.homogeneous hunmixed)

end Shuffled

def Unmixed (c : Context) (nodes : List DataNode) : Prop :=
  Throughout (UnmixedObject c) none 1 nodes

/-- Every object that is written for data gathers the siblings that it is made
of. -/
def Gathers (c : Context) (nodes : List DataNode) : Prop :=
  Throughout (GathersObject c) none 1 nodes

end Json

variable {c : Context} {d : ResourceData}

/-- The stream of data is the text of the object that its nodes make. The codec
checks the top level before any node. -/
theorem encode_json_eq_ok_iff_members (indented : Bool) {s : Stream} :
    (json indented).encode c d = .ok s ↔
      c.limits.check .dataDepth 1 = .ok () ∧
        ∃ members, Json.encodeNodes c none 1 [] d.nodes = .ok members ∧
          s = Stream.ofText (if indented then (Yang.Json.Value.object members).pretty
            else (Yang.Json.Value.object members).compact) (d.resource.map ResourceId.text) := by
  change ((Json.encode c indented d.nodes) >>= fun text =>
    pure (Stream.ofText text (d.resource.map ResourceId.text))) = _ ↔ _
  simp only [Json.encode, Json.encodeValue, bind_eq_ok_iff, exists_unit_iff, pure_eq_ok_iff]
  constructor
  · rintro ⟨text, ⟨v, ⟨hcheck, members, hmembers, rfl⟩, rfl⟩, rfl⟩
    exact ⟨hcheck, members, hmembers, rfl⟩
  · rintro ⟨hcheck, members, hmembers, rfl⟩
    exact ⟨_, ⟨_, ⟨hcheck, members, hmembers, rfl⟩, rfl⟩, rfl⟩

/-- Data is encoded if everywhere the siblings of an object fit together. How
the text is laid out has no part in it. -/
theorem exists_encode_json_iff (indented : Bool) :
    (∃ s, (json indented).encode c d = .ok s) ↔
      Json.Throughout (Json.FormsObject c) none 1 d.nodes := by
  simp only [encode_json_eq_ok_iff_members, ← Json.exists_encodeNodes_iff_throughout]
  constructor
  · rintro ⟨_, hcheck, members, hmembers, _⟩
    exact ⟨hcheck, members, hmembers⟩
  · rintro ⟨hcheck, members, hmembers⟩
    exact ⟨_, hcheck, members, hmembers, rfl⟩

/-- Whether unmixed data is encoded does not depend on the order of siblings.
What is encoded is the text of an object, and every object gathers its siblings
just if the data is unmixed, which is just if it is encoded in every other order
too. -/
theorem encode_json_shuffled (c : Context) (indented : Bool) (d : ResourceData) :
    (Json.Unmixed c d.nodes → ∀ nodes', Shuffled d.nodes nodes' →
      ((∃ s, (json indented).encode c { d with nodes := nodes' } = .ok s) ↔
        ∃ s, (json indented).encode c d = .ok s)) ∧
    ∀ s, (json indented).encode c d = .ok s →
      (∃ members, Json.encodeNodes c none 1 [] d.nodes = .ok members ∧
        s = Stream.ofText (if indented then (Yang.Json.Value.object members).pretty
          else (Yang.Json.Value.object members).compact) (d.resource.map ResourceId.text)) ∧
      (Json.Gathers c d.nodes ↔ Json.Unmixed c d.nodes) ∧
      ((∀ nodes', Shuffled d.nodes nodes' →
          ∃ s', (json indented).encode c { d with nodes := nodes' } = .ok s') ↔
        Json.Unmixed c d.nodes) := by
  refine ⟨?_, ?_⟩
  · intro unmixed nodes' hshuffled
    rw [exists_encode_json_iff, exists_encode_json_iff]
    constructor
    · intro forms
      exact Json.throughout_formsObject_shuffled hshuffled.symm forms
        (Json.throughout_unmixedObject_shuffled hshuffled unmixed)
    · intro forms
      exact Json.throughout_formsObject_shuffled hshuffled forms unmixed
  · intro s hs
    have forms := (exists_encode_json_iff indented).mp ⟨s, hs⟩
    obtain ⟨-, hmembers⟩ := (encode_json_eq_ok_iff_members indented).mp hs
    refine ⟨hmembers, Json.throughout_gathersObject_iff forms, ?_⟩
    simp only [exists_encode_json_iff]
    constructor
    · exact Json.throughout_unmixedObject
    · exact fun unmixed nodes' hshuffled =>
        Json.throughout_formsObject_shuffled hshuffled forms unmixed

def tagEntry (text : String) : DataNode :=
  .leaf (.leafListEntry ⟨"tag", "urn:store"⟩ (.text text)) (.text text)

/-- A leaf of type `empty` between tags. -/
def wornTags : List DataNode :=
  [tagEntry "old", .leaf (.plain ⟨"worn", "urn:store"⟩) .empty, tagEntry "blue"]

def wornItem (tags : List DataNode) : DataNode := .inner (.plain ⟨"item", "urn:store"⟩) tags

theorem unmixedObject_wornTags (depth : Nat) :
    Json.UnmixedObject inventoryContext (some "urn:store") depth wornTags := by
  have apart {name : String} (hworn : Json.memberName inventoryContext (some "urn:store")
      ⟨"worn", "urn:store"⟩ = .ok name) : Json.memberName inventoryContext (some "urn:store")
      ⟨"tag", "urn:store"⟩ ≠ .ok name := by
    obtain rfl := Except.ok.inj hworn
    decide
  rintro a ha b hb ⟨⟨hplain, -⟩, hentry, name, hname, hname'⟩
  simp only [wornTags, tagEntry, List.mem_cons, List.not_mem_nil, or_false] at ha hb
  rcases ha with rfl | rfl | rfl
  · cases hplain
  · rcases hb with rfl | rfl | rfl
    · exact apart hname hname'
    · exact hentry rfl
    · exact apart hname hname'
  · cases hplain

theorem unmixed_wornItem : Json.Unmixed inventoryContext [wornItem wornTags] := by
  refine .intro ?_ ?_
  · rintro a ha b hb ⟨⟨hplain, -⟩, hentry, -⟩
    rw [List.mem_singleton.mp hb] at hentry
    exact hentry rfl
  · intro key children hmem
    obtain ⟨rfl, rfl⟩ := DataNode.inner.inj (List.mem_singleton.mp hmem)
    refine .intro (unmixedObject_wornTags 2) ?_
    intro key children hmem
    simp [wornTags, tagEntry] at hmem

theorem encode_json_shuffled_wornItem :
    Json.Unmixed inventoryContext [wornItem wornTags] ∧
      Shuffled [wornItem wornTags] [wornItem wornTags.reverse] ∧
      (∃ s, (json false).encode inventoryContext { nodes := [wornItem wornTags] } = .ok s) ∧
      (∃ s, (json false).encode inventoryContext
        { nodes := [wornItem wornTags.reverse] } = .ok s) ∧
      Json.Gathers inventoryContext [wornItem wornTags] := by
  have hmembers : Json.encodeNodes inventoryContext none 1 [] [wornItem wornTags] =
      .ok [("store:item", .object [("tag", .array [.string "old", .string "blue"]),
        ("worn", .array [.null])])] := by
    with_unfolding_all rfl
  have hs := (encode_json_eq_ok_iff_members (d := { nodes := [wornItem wornTags] }) false).mpr
    ⟨by decide, _, hmembers, rfl⟩
  have hshuffled : Shuffled [wornItem wornTags] [wornItem wornTags.reverse] :=
    @Shuffled.inside [] [] _ _ _ (.siblings (List.reverse_perm wornTags).symm)
  obtain ⟨horder, hobjects⟩ :=
    encode_json_shuffled inventoryContext false { nodes := [wornItem wornTags] }
  exact ⟨unmixed_wornItem, hshuffled, ⟨_, hs⟩,
    (horder unmixed_wornItem _ hshuffled).mpr ⟨_, hs⟩,
    (hobjects _ hs).2.1.mpr unmixed_wornItem⟩

/-- A tag is added to the value of a plain leaf before it, and before the leaf
it is refused. -/
theorem tag_after_empty_leaf :
    (json false).encode inventoryContext
        { nodes := [.leaf (.plain ⟨"tag", "urn:store"⟩) .empty, tagEntry "blue"] } =
      .ok (Stream.ofText
        (Yang.Json.Value.object [("store:tag", .array [.null, .string "blue"])]).compact none) ∧
    (json false).encode inventoryContext
        { nodes := [tagEntry "blue", .leaf (.plain ⟨"tag", "urn:store"⟩) .empty] } =
      .error (.encode (.repeatedMember "store:tag")) := by
  refine ⟨(encode_json_eq_ok_iff false).mpr ⟨_, by with_unfolding_all rfl, rfl⟩, ?_⟩
  have hencode : Json.encode inventoryContext false
      [tagEntry "blue", .leaf (.plain ⟨"tag", "urn:store"⟩) .empty] =
        .error (.encode (.repeatedMember "store:tag")) := by
    with_unfolding_all rfl
  change (Json.encode inventoryContext false _ >>= _) = _
  rw [hencode]
  rfl

end Codec

end Yang
