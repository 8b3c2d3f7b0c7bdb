import Yang.Codec.Json
import Yang.Proofs.Codec.Conforming
import Yang.Proofs.Json.ReadBack
import Yang.Proofs.Literal.Integer
import Yang.Proofs.Success

/-!
# What is written as JSON

Encoding siblings gathers them into the members of an object. `Gathered` says which
member holds which of them: a member of a plain node holds its value, and a member of
entries holds their values in order. This is so where no plain node has the member name
of an entry. Whatever is encoded is a canonical JSON value.
-/

namespace Yang.Codec.Json

open Schema Instance Yang.Json

section Members

variable {α : Type}

def SortedMembers (members : List (String × α)) : Prop :=
  (members.map Prod.fst).Pairwise (· < ·)

theorem SortedMembers.tail {member : String × α} {rest : List (String × α)}
    (h : SortedMembers (member :: rest)) : SortedMembers rest :=
  (List.pairwise_cons.mp h).2

theorem SortedMembers.head_lt {member : String × α} {rest : List (String × α)}
    (h : SortedMembers (member :: rest)) : ∀ other ∈ rest, member.1 < other.1 :=
  fun _ hother => (List.pairwise_cons.mp h).1 _ (List.mem_map_of_mem hother)

theorem SortedMembers.cons {member : String × α} {rest : List (String × α)}
    (h : SortedMembers rest) (hlt : ∀ other ∈ rest, member.1 < other.1) :
    SortedMembers (member :: rest) := by
  refine List.pairwise_cons.mpr ⟨?_, h⟩
  intro name hname
  obtain ⟨other, hother, rfl⟩ := List.mem_map.mp hname
  exact hlt other hother

private theorem lt_of_not_lt {a b : String} (hlt : ¬a < b) (hne : a ≠ b) : b < a :=
  String.not_le.mp fun hle => hne (String.le_antisymm hle (String.not_lt.mp hlt))

/-- Putting a member replaces what its name stood for and keeps the rest. -/
theorem mem_putMember_iff {members : List (String × α)} (h : SortedMembers members)
    {name other : String} {v w : α} :
    (other, w) ∈ putMember name v members ↔
      (other = name ∧ w = v) ∨ (other ≠ name ∧ (other, w) ∈ members) := by
  induction members with
  | nil => simp [putMember, Prod.ext_iff]
  | cons member rest ih =>
      obtain ⟨first, u⟩ := member
      have hrest : ∀ x, (first, x) ∉ rest :=
        fun x hx => String.lt_irrefl first (h.head_lt (first, x) hx)
      rw [putMember]
      split
      · rename_i hbefore
        have hnot : ∀ x, (name, x) ∉ (first, u) :: rest := by
          intro x hx
          rcases List.mem_cons.mp hx with heq | hmem
          · obtain rfl := (Prod.mk.inj heq).1
            exact String.lt_irrefl _ hbefore
          · exact String.lt_asymm hbefore (h.head_lt _ hmem)
        rw [List.mem_cons, Prod.mk.injEq]
        refine or_congr_right ?_
        constructor
        · intro hmem
          refine ⟨?_, hmem⟩
          rintro rfl
          exact hnot w hmem
        · exact fun hmem => hmem.2
      · split
        · rename_i heq
          subst heq
          rw [List.mem_cons, List.mem_cons, Prod.mk.injEq, Prod.mk.injEq]
          refine or_congr_right ?_
          constructor
          · intro hmem
            refine ⟨?_, .inr hmem⟩
            rintro rfl
            exact hrest w hmem
          · rintro ⟨hne, heq | hmem⟩
            · exact absurd heq.1 hne
            · exact hmem
        · rename_i hne
          rw [List.mem_cons, List.mem_cons, ih h.tail, Prod.mk.injEq]
          constructor
          · rintro (⟨rfl, rfl⟩ | hput | ⟨hother, hmem⟩)
            · exact .inr ⟨Ne.symm hne, .inl ⟨rfl, rfl⟩⟩
            · exact .inl hput
            · exact .inr ⟨hother, .inr hmem⟩
          · rintro (hput | ⟨hother, hfirst | hmem⟩)
            · exact .inr (.inl hput)
            · exact .inl hfirst
            · exact .inr (.inr ⟨hother, hmem⟩)

/-- Putting a member keeps members sorted, whether its name is there or not. -/
theorem SortedMembers.putMember {members : List (String × α)} (h : SortedMembers members)
    (name : String) (v : α) : SortedMembers (putMember name v members) := by
  induction members with
  | nil => exact List.pairwise_singleton _ _
  | cons member rest ih =>
      obtain ⟨first, u⟩ := member
      rw [Json.putMember]
      split
      · rename_i hbefore
        refine h.cons ?_
        intro other hother
        rcases List.mem_cons.mp hother with rfl | hmem
        · exact hbefore
        · exact String.lt_trans hbefore (h.head_lt other hmem)
      · rename_i hnot
        split
        · rename_i heq
          subst heq
          exact h.tail.cons h.head_lt
        · rename_i hne
          refine (ih h.tail).cons ?_
          rintro ⟨other, w⟩ hother
          rcases (mem_putMember_iff h.tail).mp hother with ⟨rfl, _⟩ | ⟨_, hmem⟩
          · exact lt_of_not_lt hnot hne
          · exact h.head_lt _ hmem

/-- A name is looked up among sorted members, where it stands once at most. -/
theorem SortedMembers.lookup_eq_some_iff {members : List (String × α)} (h : SortedMembers members)
    {name : String} {v : α} : members.lookup name = some v ↔ (name, v) ∈ members := by
  induction members with
  | nil => simp
  | cons member rest ih =>
      obtain ⟨first, u⟩ := member
      rw [List.lookup_cons, List.mem_cons, Prod.mk.injEq]
      split
      · rename_i heq
        obtain rfl := beq_iff_eq.mp heq
        have hrest : (name, v) ∉ rest :=
          fun hmem => String.lt_irrefl name (h.head_lt (name, v) hmem)
        simp [hrest, eq_comm]
      · rename_i hne
        have hne : name ≠ first := by simpa using hne
        simp [hne, ih h.tail]

end Members

section Gathering

variable (c : Context) (parentNs : Option String) (depth : Nat)

/-- The nodes whose member has a name. -/
def namedMember (name : String) (nodes : List DataNode) : List DataNode :=
  nodes.filter fun n => (memberName c parentNs n.id).toOption == some name

/-- The value is that of a plain node, or it holds the values of entries in
order. An array with one item is not taken for that item. -/
inductive Merged : List DataNode → Json.Value → Prop
  | plain {n : DataNode} {v : Json.Value} (hkey : n.key.IsPlain)
      (hv : encodeNode c depth n = .ok v) : Merged [n] v
  | entries {nodes : List DataNode} {items : List Json.Value} (hne : nodes ≠ [])
      (hkeys : ∀ n ∈ nodes, ¬n.key.IsPlain)
      (hitems : List.Forall₂ (fun n v => encodeNode c depth n = .ok v) nodes items) :
      Merged nodes (.array items)

/-- The members hold the nodes, each under its name. This is the invariant of
encoding siblings: it starts without members and is kept by each node that is
put. -/
structure Gathered (nodes : List DataNode) (members : List (String × Json.Value)) : Prop where
  sorted : SortedMembers members
  merged : ∀ name v, (name, v) ∈ members → Merged c depth (namedMember c parentNs name nodes) v
  covered : ∀ n ∈ nodes, ∃ name v, memberName c parentNs n.id = .ok name ∧ (name, v) ∈ members

/-- Nodes whose members have the same name are all plain or all entries. Of a
schema node this holds by its kind; names that stand for several schema nodes
could break it. -/
def Homogeneous (nodes : List DataNode) : Prop :=
  ∀ a ∈ nodes, ∀ b ∈ nodes, ∀ name, memberName c parentNs a.id = .ok name →
    memberName c parentNs b.id = .ok name → (a.key.IsPlain ↔ b.key.IsPlain)

variable {c : Context} {parentNs : Option String} {depth : Nat} {nodes : List DataNode}
  {members : List (String × Json.Value)} {n : DataNode} {name : String}

theorem mem_namedMember_iff :
    n ∈ namedMember c parentNs name nodes ↔ n ∈ nodes ∧ memberName c parentNs n.id = .ok name := by
  rw [namedMember, List.mem_filter, beq_iff_eq]
  refine and_congr_right fun _ => ?_
  cases memberName c parentNs n.id <;> simp [Except.toOption]

theorem namedMember_concat (hname : memberName c parentNs n.id = .ok name) (other : String) :
    namedMember c parentNs other (nodes ++ [n]) =
      namedMember c parentNs other nodes ++ if other = name then [n] else [] := by
  rw [namedMember, List.filter_append]
  refine congrArg (namedMember c parentNs other nodes ++ ·) ?_
  by_cases hother : other = name
  · simp [hname, hother, Except.toOption]
  · have hne : name ≠ other := Ne.symm hother
    simp [hname, hother, hne, Except.toOption]

theorem Gathered.namedMember_eq_nil (h : Gathered c parentNs depth nodes members)
    (hnone : members.lookup name = none) : namedMember c parentNs name nodes = [] := by
  apply List.eq_nil_iff_forall_not_mem.mpr
  intro m hm
  obtain ⟨hmem, hname⟩ := mem_namedMember_iff.mp hm
  obtain ⟨name', v, hname', hmember⟩ := h.covered m hmem
  obtain rfl := Except.ok.inj (hname.symm.trans hname')
  rw [h.sorted.lookup_eq_some_iff.mpr hmember] at hnone
  cases hnone

/-- One more node is gathered by putting the member of its name. -/
theorem Gathered.putMember (h : Gathered c parentNs depth nodes members)
    (hname : memberName c parentNs n.id = .ok name) {w : Json.Value}
    (hmerged : Merged c depth (namedMember c parentNs name nodes ++ [n]) w) :
    Gathered c parentNs depth (nodes ++ [n]) (putMember name w members) := by
  refine ⟨h.sorted.putMember name w, ?_, ?_⟩
  · intro other x hmem
    rw [namedMember_concat hname]
    rcases (mem_putMember_iff h.sorted).mp hmem with ⟨rfl, rfl⟩ | ⟨hne, hold⟩
    · rw [if_pos rfl]
      exact hmerged
    · rw [if_neg hne, List.append_nil]
      exact h.merged other x hold
  · intro m hm
    rcases List.mem_append.mp hm with hold | hnew
    · obtain ⟨other, x, hother, hmember⟩ := h.covered m hold
      by_cases heq : other = name
      · exact ⟨name, w, heq ▸ hother, (mem_putMember_iff h.sorted).mpr (.inl ⟨rfl, rfl⟩)⟩
      · exact ⟨other, x, hother, (mem_putMember_iff h.sorted).mpr (.inr ⟨heq, hmember⟩)⟩
    · rw [List.mem_singleton.mp hnew]
      exact ⟨name, w, hname, (mem_putMember_iff h.sorted).mpr (.inl ⟨rfl, rfl⟩)⟩

/-- Putting a node gathers it. If its member is there already, it is an entry
and comes behind the others of the member. -/
theorem Gathered.putNode (h : Gathered c parentNs depth nodes members)
    (hname : memberName c parentNs n.id = .ok name) {v : Json.Value}
    (hv : encodeNode c depth n = .ok v) {next : List (String × Json.Value)}
    (hnext : putNode members n.key name v = .ok next)
    (homogeneous : Homogeneous c parentNs (nodes ++ [n])) :
    Gathered c parentNs depth (nodes ++ [n]) next := by
  have entries : ¬n.key.IsPlain → Merged c depth [n] (.array [v]) := fun hkey =>
    .entries (by simp) (by simpa using hkey) (.cons hv .nil)
  rw [Json.putNode.eq_def] at hnext
  split at hnext
  · rename_i id hkey
    split at hnext
    · cases hnext
    · rename_i hfree
      obtain rfl := Except.ok.inj hnext
      refine h.putMember hname ?_
      rw [h.namedMember_eq_nil (Option.not_isSome_iff_eq_none.mp hfree), List.nil_append]
      exact .plain (by rw [Key.IsPlain, hkey]; rfl) hv
  · rename_i hentry
    have hkey : ¬n.key.IsPlain := fun hplain => hentry _ hplain
    split at hnext
    · rename_i hnone
      obtain rfl := Except.ok.inj hnext
      refine h.putMember hname ?_
      rw [h.namedMember_eq_nil hnone, List.nil_append]
      exact entries hkey
    · rename_i items hsome
      obtain rfl := Except.ok.inj hnext
      refine h.putMember hname ?_
      have hmember := h.sorted.lookup_eq_some_iff.mp hsome
      have hmerged := h.merged name _ hmember
      generalize hgroup : namedMember c parentNs name nodes = group at hmerged
      cases hmerged with
      | @plain m _ hplain _ =>
          -- A plain node with this name would be among entries.
          obtain ⟨hmem, hm⟩ := mem_namedMember_iff.mp (hgroup ▸ List.mem_singleton_self m)
          exact absurd ((homogeneous m (List.mem_append_left _ hmem) n (by simp) name hm hname).mp
            hplain) hkey
      | entries hne hkeys hitems =>
          refine .entries (by simp) ?_ (List.rel_append hitems (.cons hv .nil))
          intro m hm
          rcases List.mem_append.mp hm with hold | hnew
          · exact hkeys m hold
          · rw [List.mem_singleton.mp hnew]
            exact hkey
    · cases hnext

theorem Gathered.nil : Gathered c parentNs depth [] [] :=
  ⟨List.Pairwise.nil, nofun, nofun⟩

/-- Encoding siblings gathers them. The members at the start are those of the
siblings before. -/
theorem Gathered.encodeNodes {others : List DataNode}
    (h : Gathered c parentNs depth nodes members) {final : List (String × Json.Value)}
    (hfinal : encodeNodes c parentNs depth members others = .ok final)
    (homogeneous : Homogeneous c parentNs (nodes ++ others)) :
    Gathered c parentNs depth (nodes ++ others) final := by
  induction others generalizing nodes members with
  | nil =>
      rw [Json.encodeNodes] at hfinal
      obtain rfl := Except.ok.inj hfinal
      rwa [List.append_nil]
  | cons n rest ih =>
      simp only [Json.encodeNodes, bind_eq_ok_iff] at hfinal
      obtain ⟨name, hname, v, hv, next, hnext, hfinal⟩ := hfinal
      have hsplit : nodes ++ n :: rest = nodes ++ [n] ++ rest := by simp
      rw [hsplit] at homogeneous ⊢
      have hput := h.putNode hname hv hnext fun a ha b hb =>
        homogeneous a (List.mem_append_left _ ha) b (List.mem_append_left _ hb)
      exact ih hput hfinal homogeneous

end Gathering

section Canonical

theorem canonical_json (v : Value) : v.json.Canonical := by
  cases v with
  | integer t n holds =>
      obtain ⟨hleast, hgreatest⟩ := t.bounds
      rw [Value.json]
      split
      · exact .number (Int.le_trans hleast holds.1) (Int.lt_of_le_of_lt holds.2 hgreatest)
      · exact .string _
  | flag b => exact .boolean b
  | empty =>
      refine .array ?_
      intro v hv
      rw [List.mem_singleton.mp hv]
      exact .null
  | _ => exact .string _

def CanonicalMembers (members : List (String × Json.Value)) : Prop :=
  SortedMembers members ∧ ∀ member ∈ members, member.2.Canonical

theorem CanonicalMembers.nil : CanonicalMembers [] := ⟨List.Pairwise.nil, nofun⟩

theorem CanonicalMembers.putMember {members : List (String × Json.Value)}
    (h : CanonicalMembers members) (name : String) {v : Json.Value} (hv : v.Canonical) :
    CanonicalMembers (putMember name v members) := by
  refine ⟨h.1.putMember name v, ?_⟩
  rintro ⟨other, w⟩ hmem
  rcases (mem_putMember_iff h.1).mp hmem with ⟨_, rfl⟩ | ⟨_, hold⟩
  · exact hv
  · exact h.2 _ hold

theorem CanonicalMembers.putNode {members next : List (String × Json.Value)}
    (h : CanonicalMembers members) {key : Key} {name : String} {v : Json.Value} (hv : v.Canonical)
    (hnext : putNode members key name v = .ok next) : CanonicalMembers next := by
  have hsingle : (Json.Value.array [v]).Canonical := by
    refine .array ?_
    intro w hw
    rwa [List.mem_singleton.mp hw]
  rw [Json.putNode.eq_def] at hnext
  split at hnext
  · split at hnext
    · cases hnext
    · obtain rfl := Except.ok.inj hnext
      exact h.putMember name hv
  · split at hnext
    · obtain rfl := Except.ok.inj hnext
      exact h.putMember name hsingle
    · rename_i items hsome
      obtain rfl := Except.ok.inj hnext
      refine h.putMember name (.array ?_)
      cases h.2 _ (h.1.lookup_eq_some_iff.mp hsome) with
      | array hitems =>
          intro w hw
          rcases List.mem_append.mp hw with hold | hnew
          · exact hitems w hold
          · rwa [List.mem_singleton.mp hnew]
    · cases hnext

mutual

/-- Whatever is encoded is canonical. -/
theorem canonical_encodeNode {c : Context} {depth : Nat} {v : Json.Value} :
    ∀ n, encodeNode c depth n = .ok v → v.Canonical
  | .leaf _ value, h => by
      rw [encodeNode] at h
      obtain rfl := Except.ok.inj h
      exact canonical_json value
  | .inner key children, h => by
      simp only [encodeNode, bind_eq_ok_iff, exists_unit_iff, pure_eq_ok_iff] at h
      obtain ⟨-, members, hmembers, rfl⟩ := h
      have hcanonical := canonical_encodeNodes children .nil hmembers
      exact .object hcanonical.1 hcanonical.2

theorem canonical_encodeNodes {c : Context} {parentNs : Option String} {depth : Nat}
    {members final : List (String × Json.Value)} :
    ∀ nodes, CanonicalMembers members → encodeNodes c parentNs depth members nodes = .ok final →
      CanonicalMembers final
  | [], hmembers, h => by
      rw [encodeNodes] at h
      obtain rfl := Except.ok.inj h
      exact hmembers
  | n :: rest, hmembers, h => by
      simp only [encodeNodes, bind_eq_ok_iff] at h
      obtain ⟨name, _, v, hv, next, hnext, h⟩ := h
      have hvalue := canonical_encodeNode n hv
      exact canonical_encodeNodes rest (hmembers.putNode hvalue hnext) h

end

theorem canonical_encodeValue {c : Context} {nodes : List DataNode} {v : Json.Value}
    (h : encodeValue c nodes = .ok v) : v.Canonical := by
  simp only [encodeValue, bind_eq_ok_iff, exists_unit_iff, pure_eq_ok_iff] at h
  obtain ⟨-, members, hmembers, rfl⟩ := h
  have hcanonical := canonical_encodeNodes nodes .nil hmembers
  exact .object hcanonical.1 hcanonical.2

end Canonical

section Refused

variable {c : Context} {parentNs : Option String} {name : String} {e : Error}

/-- A name of a member cannot be formed only if the namespace is not known. -/
theorem memberName_eq_error {id : SchemaId} (h : memberName c parentNs id = .error e) :
    e = .encode (.unknownNamespace id.ns) := by
  rw [memberName] at h
  split at h
  · cases h
  · rcases bind_eq_error_iff.mp h with hmodule | ⟨module, -, hname⟩
    · rw [Context.moduleNameFor] at hmodule
      split at hmodule
      · cases hmodule
      · exact (Except.error.inj hmodule).symm
    · cases hname

/-- A value cannot be put into members only on account of the member of its
name: it is there already, or its form does not fit. -/
theorem putNode_eq_error {members : List (String × Json.Value)} {key : Key} {v : Json.Value}
    (h : putNode members key name v = .error e) :
    e = .encode (.repeatedMember name) ∨ e = .encode (.mixedMember name) := by
  rw [putNode.eq_def] at h
  split at h
  · split at h
    · exact .inl (Except.error.inj h).symm
    · cases h
  · split at h
    · cases h
    · cases h
    · exact .inr (Except.error.inj h).symm

end Refused

end Yang.Codec.Json
