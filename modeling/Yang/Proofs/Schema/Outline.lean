import Yang.Schema.Statement

/-!
# Outlines of schema nodes

A node may gain children, context entries and imports after it was added. The rest of
it, its outline, stays as it is: its identifier, its kind, the node in which it is
written and the target of an augment. Everything that climbs in a tree reads outlines
only, and climbing from a node meets no later node. So what is found by climbing does
not change while the tree grows.
-/

namespace Yang.Schema

/-- The part of a node that never changes. Children, contexts and imports are
what later statements add to a node. -/
structure Outline where
  id : SchemaId
  kind : NodeKind
  target : Option NodeId
  parent : Option NodeId

def Outline.redirect? (o : Outline) : Option NodeId :=
  match o.kind with
  | .choice | .case => o.parent
  | .augment => o.target
  | _ => none

theorem Outline.redirect?_eq_some_iff {o : Outline} {next : NodeId} :
    o.redirect? = some next ↔
      (o.kind = .choice ∧ o.parent = some next) ∨ (o.kind = .case ∧ o.parent = some next) ∨
        (o.kind = .augment ∧ o.target = some next) := by
  rw [redirect?]
  split <;> simp_all

def Node.outline (n : Node) : Outline := ⟨n.id, n.kind, n.target?, n.parent⟩

@[simp]
theorem Node.outline_addContext (n : Node) (context : List (SchemaId × ContextEntry)) :
    Node.outline { n with context := context } = n.outline := rfl

@[simp]
theorem Node.outline_addChildren (n : Node) (children : List (SchemaId × NodeId)) :
    Node.outline { n with children := children } = n.outline := rfl

@[simp]
theorem Node.outline_withImport (n : Node) (imported : NodeId) :
    Node.outline { n with role := n.role.withImport imported } = n.outline := by
  cases n with
  | mk id role parent children context => cases role <;> rfl

theorem Node.target_outline (n : Node) :
    n.outline.kind = .augment ↔ ∃ target, n.outline.target = some target := by
  cases n with
  | mk id role parent children context =>
      cases role <;> simp [outline, kind, Role.kind, target?]

namespace Tree

def outline? (t : Tree) (i : NodeId) : Option Outline := (t.node? i).map Node.outline

theorem outline?_of_node? {t : Tree} {i : NodeId} {n : Node} (h : t.node? i = some n) :
    t.outline? i = some n.outline := by
  rw [outline?, h, Option.map_some]

theorem kind?_of_node? {t : Tree} {i : NodeId} {n : Node} (h : t.node? i = some n) :
    t.kind? i = some n.kind := by
  rw [kind?, h, Option.map_some]

theorem kind?_eq (t : Tree) (i : NodeId) : t.kind? i = (t.outline? i).map Outline.kind := by
  rw [kind?, outline?, Option.map_map]
  rfl

theorem parent?_eq (t : Tree) (i : NodeId) : t.parent? i = (t.outline? i).bind Outline.parent := by
  cases h : t.node? i <;> simp [parent?, outline?, h, Node.outline]

theorem name_eq (t : Tree) (i : NodeId) : t.name i = ((t.outline? i).map (·.id.name)).getD "" := by
  cases h : t.node? i <;> simp [name, outline?, h, Node.outline]

theorem ns_eq (t : Tree) (i : NodeId) : t.ns i = ((t.outline? i).map (·.id.ns)).getD "" := by
  cases h : t.node? i <;> simp [ns, outline?, h, Node.outline]

theorem parent?_of_node? {t : Tree} {i : NodeId} {n : Node} (h : t.node? i = some n) :
    t.parent? i = n.parent := by
  rw [parent?, h, Option.bind_some]

theorem isSwitch_eq (t : Tree) (i : NodeId) :
    t.isSwitch i =
      ((t.outline? i).map fun o => o.kind == .case || o.kind == .augment).getD false := by
  cases h : t.outline? i <;> simp [isSwitch, kind?_eq, h]

theorem redirect?_eq (t : Tree) (i : NodeId) :
    t.redirect? i = (t.outline? i).bind Outline.redirect? := by
  cases h : t.node? i with
  | none => simp [redirect?, outline?, h]
  | some n =>
      cases hrole : n.role <;>
        simp [redirect?, outline?, h, hrole, parent?, Node.outline, Outline.redirect?, Node.kind,
          Role.kind, Node.target?]

theorem redirect?_of_node? {t : Tree} {i : NodeId} {n : Node} (h : t.node? i = some n) :
    t.redirect? i = n.outline.redirect? := by
  rw [redirect?_eq, outline?_of_node? h, Option.bind_some]

theorem outline?_eq_none_iff {t : Tree} {i : NodeId} : t.outline? i = none ↔ t.size ≤ i := by
  simp [outline?, node?, size]

theorem lt_size_of_outline? {t : Tree} {i : NodeId} {o : Outline} (h : t.outline? i = some o) :
    i < t.size := by
  apply Nat.lt_of_not_le
  intro hge
  rw [outline?_eq_none_iff.mpr hge] at h
  cases h

theorem outline?_ne_size {t : Tree} {i : NodeId} {o : Outline} (h : t.outline? i = some o) :
    i ≠ t.size :=
  Nat.ne_of_lt (lt_size_of_outline? h)

section Climbing

variable {t t' : Tree} {i : NodeId}

/-- Where the search for a context ends depends on the outlines up to the node,
so it stays the same when the tree grows. -/
theorem holderOf_congr (h : ∀ j, j ≤ i → t'.outline? j = t.outline? j) :
    t'.holderOf i = t.holderOf i := by
  induction i using Nat.strongRecOn with
  | ind i ih =>
      rw [holderOf, holderOf, redirect?_eq, redirect?_eq, h i (Nat.le_refl i), isSwitch_eq,
        isSwitch_eq, h i (Nat.le_refl i)]
      split
      · rename_i next _
        split
        · rename_i hlt
          rw [ih next hlt fun j hj => h j (Nat.le_trans hj (Nat.le_of_lt hlt))]
        · rfl
      · rfl

theorem holderOf_le (t : Tree) (i : NodeId) : (t.holderOf i).1 ≤ i := by
  induction i using Nat.strongRecOn with
  | ind i ih =>
      rw [holderOf]
      split
      · rename_i next _
        split
        · rename_i hlt
          exact Nat.le_trans (ih next hlt) (Nat.le_of_lt hlt)
        · exact Nat.le_refl _
      · exact Nat.le_refl _

end Climbing

section Operations

variable (t : Tree) (i : NodeId)

theorem ext_node? {t t' : Tree} (h : ∀ i, t.node? i = t'.node? i) : t = t' := by
  obtain ⟨nodes⟩ := t
  obtain ⟨nodes'⟩ := t'
  exact congrArg Tree.mk (Array.ext_getElem? h)

theorem node?_push (n : Node) :
    (t.push n).node? i = if i = t.size then some n else t.node? i := by
  simp only [push, node?, size, Array.getElem?_push]
  rfl

theorem node?_modify (j : NodeId) (f : Node → Node) :
    (t.modify j f).node? i = if j = i then (t.node? i).map f else t.node? i := by
  simp [modify, node?, Array.getElem?_modify]

@[simp]
theorem size_push (n : Node) : (t.push n).size = t.size + 1 := by
  simp [push, size]

@[simp]
theorem size_modify (j : NodeId) (f : Node → Node) : (t.modify j f).size = t.size := by
  simp [modify, size]

@[simp]
theorem size_enter (holder : NodeId) (id : SchemaId) (e : ContextEntry) :
    (t.enter holder id e).size = t.size :=
  size_modify t holder _

@[simp]
theorem size_attach (parent : NodeId) (id : SchemaId) (role : Role) :
    (t.attach parent id role).size = t.size + 1 := by
  rw [attach, size_push, size_modify]

theorem outline?_push (n : Node) :
    (t.push n).outline? i = if i = t.size then some n.outline else t.outline? i := by
  rw [outline?, node?_push]
  split <;> rfl

/-- Changing a node elsewhere than in its outline changes no outline. -/
theorem outline?_modify {f : Node → Node} (hf : ∀ n, (f n).outline = n.outline) (j : NodeId) :
    (t.modify j f).outline? i = t.outline? i := by
  rw [outline?, outline?, node?_modify]
  split
  · cases t.node? i <;> simp [hf]
  · rfl

@[simp]
theorem outline?_enter (holder : NodeId) (id : SchemaId) (e : ContextEntry) :
    (t.enter holder id e).outline? i = t.outline? i :=
  outline?_modify t i (fun _ => Node.outline_addContext _ _) holder

theorem outline?_attach (parent : NodeId) (id : SchemaId) (role : Role) :
    (t.attach parent id role).outline? i =
      if i = t.size then some (Node.outline ⟨id, role, some parent, [], []⟩)
      else t.outline? i := by
  rw [attach, outline?_push, size_modify,
    outline?_modify t i fun _ => Node.outline_addChildren _ _]

theorem context_push {n : Node} (hn : n.context = []) : (t.push n).context i = t.context i := by
  rw [context, context, node?_push]
  split
  · rename_i hi
    have hnone : t.node? i = none := by simp [node?, hi, size]
    simp [hn, hnone]
  · rfl

theorem context_modify {f : Node → Node} (hf : ∀ n, (f n).context = n.context) (j : NodeId) :
    (t.modify j f).context i = t.context i := by
  rw [context, context, node?_modify]
  split
  · cases t.node? i <;> simp [hf]
  · rfl

/-- A context gains the entry that is entered, and no other context changes. -/
theorem context_enter {holder : NodeId} (hholder : holder < t.size) (id : SchemaId)
    (e : ContextEntry) :
    (t.enter holder id e).context i =
      if i = holder then t.context i ++ [(id, e)] else t.context i := by
  rw [context, context, enter, node?_modify]
  by_cases hi : holder = i
  · subst hi
    obtain ⟨n, hn⟩ : ∃ n, t.node? holder = some n :=
      ⟨t.nodes[holder], Array.getElem?_eq_getElem hholder⟩
    simp [hn]
  · rw [if_neg hi, if_neg (Ne.symm hi)]

@[simp]
theorem context_attach (parent : NodeId) (id : SchemaId) (role : Role) :
    (t.attach parent id role).context i = t.context i := by
  rw [attach, context_push _ _ (by rfl), context_modify]
  exact fun _ => rfl

end Operations

end Tree

end Yang.Schema
