import Mathlib.Data.List.Nodup
import Yang.Table

/-!
# Looking up and removing keys

A look-up finds the first entry of a key, so in a table without repeated keys it finds
what is there. A value that is put replaces one value only, the one that was found.
Entries that were appended under new keys are taken out again by removing these keys.
-/

namespace Yang.Table

section Lookup

variable {α β : Type} [BEq α] [LawfulBEq α]

theorem lookup_cons_eq_ite [DecidableEq α] (j k : α) (v : β) (t : List (α × β)) :
    ((k, v) :: t).lookup j = if j = k then some v else t.lookup j := by
  rw [List.lookup_cons]
  by_cases h : j = k
  · rw [beq_iff_eq.mpr h, if_pos h]
  · rw [beq_eq_false_iff_ne.mpr h, if_neg h]

theorem mem_of_lookup {k : α} {v : β} {t : List (α × β)} (h : t.lookup k = some v) :
    (k, v) ∈ t := by
  obtain ⟨before, after, rfl, -⟩ := List.lookup_eq_some_iff.mp h
  simp

/-- In a table without repeated keys a look-up finds what is there. -/
theorem lookup_eq_some_iff {k : α} {v : β} {t : List (α × β)} (h : (t.map Prod.fst).Nodup) :
    t.lookup k = some v ↔ (k, v) ∈ t := by
  refine ⟨mem_of_lookup, ?_⟩
  induction t with
  | nil => nofun
  | cons entry rest ih =>
      obtain ⟨hnew, hrest⟩ := List.nodup_cons.mp h
      intro hmem
      rcases List.mem_cons.mp hmem with rfl | hmem
      · exact List.lookup_cons_self
      · have hne : (k == entry.1) = false := by
          rw [beq_eq_false_iff_ne]
          intro heq
          exact hnew (List.mem_map.mpr ⟨(k, v), hmem, heq⟩)
        rw [List.lookup_cons, hne]
        exact ih hrest hmem

theorem lookup_eq_none_iff {k : α} {t : List (α × β)} :
    t.lookup k = none ↔ k ∉ t.map Prod.fst := by
  rw [List.lookup_eq_none_iff, List.mem_map]
  constructor
  · rintro h ⟨entry, hmem, rfl⟩
    simpa using h entry hmem
  · intro h entry hmem
    rw [bne_iff_ne]
    rintro rfl
    exact h ⟨entry, hmem, rfl⟩

/-- A property that passes from the value found under a key to the one that is
put there holds of a value in the table afterwards if it did before, or if it
holds of the new one. -/
theorem exists_mem_put_iff {p : β → Prop} {j k : α} {v : β} {t : List (α × β)}
    (passes : ∀ w, t.lookup k = some w → p w → p v) :
    (∃ w, (j, w) ∈ put k v t ∧ p w) ↔ (∃ w, (j, w) ∈ t ∧ p w) ∨ j = k ∧ p v := by
  induction t with
  | nil =>
      rw [put]
      simp
  | cons entry rest ih =>
      obtain ⟨l, w⟩ := entry
      rw [put]
      by_cases hkey : k = l
      · subst hkey
        have hpasses : p w → p v := passes w List.lookup_cons_self
        rw [if_pos (beq_self_eq_true k)]
        simp only [List.mem_cons, Prod.mk.injEq, or_and_right, exists_or]
        grind
      · have hother : (k == l) = false := beq_eq_false_iff_ne.mpr hkey
        rw [List.lookup_cons, hother] at passes
        rw [hother, if_neg Bool.false_ne_true]
        simp only [List.mem_cons, or_and_right, exists_or, ih passes, or_assoc]

theorem put_eq_self {k : α} {v : β} {t : List (α × β)} (h : t.lookup k = some v) :
    put k v t = t := by
  induction t with
  | nil => cases h
  | cons entry rest ih =>
      obtain ⟨l, w⟩ := entry
      rw [put]
      by_cases hkey : k = l
      · subst hkey
        obtain rfl := Option.some.inj (List.lookup_cons_self.symm.trans h)
        exact if_pos (beq_self_eq_true k)
      · have hother : (k == l) = false := beq_eq_false_iff_ne.mpr hkey
        rw [List.lookup_cons, hother] at h
        rw [hother, if_neg Bool.false_ne_true, ih h]

theorem put_put (k : α) (v w : β) (t : List (α × β)) : put k w (put k v t) = put k w t := by
  induction t with
  | nil => simp [put]
  | cons entry rest ih =>
      obtain ⟨l, u⟩ := entry
      rw [put, put]
      split
      · simp [put]
      · rename_i hother
        rw [put, if_neg hother, ih]

end Lookup

theorem eq_or_mem_of_mem_put {α β : Type} [BEq α] {k : α} {v : β} {t : List (α × β)}
    {entry : α × β} (h : entry ∈ put k v t) : entry = (k, v) ∨ entry ∈ t := by
  induction t with
  | nil => exact .inl (List.mem_singleton.mp h)
  | cons first rest ih =>
      obtain ⟨l, u⟩ := first
      rw [put] at h
      split at h
      · exact (List.mem_cons.mp h).imp_right (List.mem_cons_of_mem _)
      · obtain rfl | hrest := List.mem_cons.mp h
        · exact .inr (List.mem_cons_self ..)
        · exact (ih hrest).imp_right (List.mem_cons_of_mem _)

theorem filter_append_eq_left {α : Type} {p : α → Bool} {t added : List α}
    (kept : ∀ a ∈ t, p a = true) (dropped : ∀ a ∈ added, p a = false) :
    (t ++ added).filter p = t := by
  have hadded : added.filter p = [] :=
    List.filter_eq_nil_iff.mpr fun a ha => Bool.eq_false_iff.mp (dropped a ha)
  rw [List.filter_append, List.filter_eq_self.mpr kept, hadded, List.append_nil]

section Erase

variable {α β : Type} [BEq α]

theorem erase_eq_self {k : α} {t : List (α × β)} (h : t.lookup k = none) : erase k t = t := by
  rw [erase, List.filter_eq_self]
  intro entry hmem
  exact List.lookup_eq_none_iff.mp h entry hmem

theorem erase_append (k : α) (t u : List (α × β)) : erase k (t ++ u) = erase k t ++ erase k u :=
  List.filter_append ..

/-- Removing keys one after the other takes out the entries that were appended
under them. -/
theorem foldl_erase_append [LawfulBEq α] {keys : List α} {t added : List (α × β)}
    (fresh : ∀ k ∈ keys, t.lookup k = none) (covered : ∀ entry ∈ added, entry.1 ∈ keys) :
    keys.foldl (fun t k => erase k t) (t ++ added) = t := by
  induction keys generalizing added with
  | nil =>
      have hnone : added = [] := List.eq_nil_iff_forall_not_mem.mpr fun entry hmem => by
        simpa using covered entry hmem
      rw [hnone, List.append_nil, List.foldl_nil]
  | cons k keys ih =>
      rw [List.foldl_cons, erase_append, erase_eq_self (fresh k (List.mem_cons_self ..))]
      apply ih
      · intro j hj
        exact fresh j (List.mem_cons_of_mem _ hj)
      · intro entry hmem
        obtain ⟨hmem, hother⟩ := List.mem_filter.mp hmem
        rcases List.mem_cons.mp (covered entry hmem) with heq | hkey
        · simp [heq] at hother
        · exact hkey

end Erase

end Yang.Table
