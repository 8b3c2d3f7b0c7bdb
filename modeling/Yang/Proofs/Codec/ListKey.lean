import Mathlib.Data.List.Find
import Yang.Proofs.Codec.Conforming
import Yang.Proofs.Schema.Forest
import Yang.Proofs.Success

/-!
# Keys of list entries and the order of children

The key of a list entry is put together from the first children of certain names. If no
two data nodes below the list share a name, these children are the first ones of their
schema nodes, and so the key does not depend on the order of different children.
-/

namespace Yang

namespace Codec

open Schema Instance

variable {c : Context} {list : NodeId} {as bs : List DataNode}

theorem mem_siblings_iff {id : SchemaId} {n : DataNode} :
    n ∈ siblings id as ↔ n ∈ as ∧ n.id = id := by
  rw [siblings, List.mem_filter, beq_iff_eq]

theorem exists_mem_of_agreesAll (h : AgreesAll as bs) {b : DataNode} (hb : b ∈ bs) :
    ∃ a ∈ as, a.id = b.id := by
  obtain ⟨a, ha, _⟩ := exists_mem_of_forall₂ (h b.id) (mem_siblings_iff.mpr ⟨hb, rfl⟩)
  exact ⟨a, mem_siblings_iff.mp ha⟩

/-- The first nodes of a name agree, if nodes of one name are of one schema
node. -/
theorem find?_name_agrees (h : AgreesAll as bs)
    (names : ∀ a ∈ as, ∀ b ∈ as, a.id.name = b.id.name → a.id = b.id) (name : String) :
    Option.Rel Agrees (as.find? fun n => n.id.name == name)
      (bs.find? fun n => n.id.name == name) := by
  by_cases hsome : ∃ a ∈ as, a.id.name = name
  · obtain ⟨a, ha, rfl⟩ := hsome
    have hsame : ∀ n ∈ as, (n.id.name == a.id.name) = (n.id == a.id) := by
      intro n hn
      rw [Bool.eq_iff_iff, beq_iff_eq, beq_iff_eq]
      exact ⟨names n hn a ha, congrArg SchemaId.name⟩
    have hsame' : ∀ n ∈ bs, (n.id.name == a.id.name) = (n.id == a.id) := by
      intro n hn
      obtain ⟨m, hm, hid⟩ := exists_mem_of_agreesAll h hn
      rw [← hid]
      exact hsame m hm
    rw [List.find?_congr hsame, List.find?_congr hsame', ← List.head?_filter, ← List.head?_filter]
    have hagrees := h a.id
    rw [siblings, siblings] at hagrees
    generalize as.filter (fun n => n.id == a.id) = first at hagrees ⊢
    generalize bs.filter (fun n => n.id == a.id) = second at hagrees ⊢
    cases hagrees with
    | nil => exact .none
    | cons hab _ => exact .some hab
  · have hnone : as.find? (fun n => n.id.name == name) = none := by
      rw [List.find?_eq_none]
      intro n hn heq
      exact hsome ⟨n, hn, beq_iff_eq.mp heq⟩
    have hnone' : bs.find? (fun n => n.id.name == name) = none := by
      rw [List.find?_eq_none]
      intro n hn heq
      obtain ⟨m, hm, hid⟩ := exists_mem_of_agreesAll h hn
      exact hsome ⟨m, hm, hid ▸ beq_iff_eq.mp heq⟩
    rw [hnone, hnone']
    exact .none

/-- The key of a list entry is that of children that agree, so it does not
change when data is read back with its members sorted. -/
theorem listEntryKey_congr (h : AgreesAll as bs)
    (names : ∀ a ∈ as, ∀ b ∈ as, a.id.name = b.id.name → a.id = b.id) :
    c.listEntryKey list bs = c.listEntryKey list as := by
  have hleaf : ∀ name, c.keyLeaf list bs name = c.keyLeaf list as name := by
    intro name
    have hfound := find?_name_agrees h names name
    rw [Context.keyLeaf, Context.keyLeaf]
    generalize as.find? (fun n => n.id.name == name) = a at hfound ⊢
    generalize bs.find? (fun n => n.id.name == name) = b at hfound ⊢
    cases hfound with
    | none => rfl
    | some hab => cases hab <;> rfl
  rw [Context.listEntryKey, Context.listEntryKey, funext hleaf]

/-- Below a list that names its data nodes differently, conforming nodes of one
name are of one schema node. -/
theorem names_of_conforms {children : List DataNode} (differ : c.tree.ListNamesDiffer)
    (hkind : c.tree.kind? list = some .list) (h : ∀ child ∈ children, Conforms c list child) :
    ∀ a ∈ children, ∀ b ∈ children, a.id.name = b.id.name → a.id = b.id := by
  intro a ha b hb hname
  obtain ⟨e, he⟩ := (h a ha).stands.exists_entry
  obtain ⟨e', he'⟩ := (h b hb).stands.exists_entry
  exact differ list hkind (a.id, e) (Tree.mem_context_of_entry? he) (b.id, e')
    (Tree.mem_context_of_entry? he') hname

end Codec

end Yang
