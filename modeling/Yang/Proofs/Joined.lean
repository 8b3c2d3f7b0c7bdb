import Mathlib.Data.List.Basic

/-!
# Texts that are joined of parts

What is joined of parts has the characters of the parts and of what stands between them. It ends
as its parts do, and the parts are split off from it again if they hold no separator.
-/

namespace Yang.Text

theorem mem_intercalate_iff {sep : List Char} {parts : List (List Char)} {c : Char} :
    c ∈ sep.intercalate parts ↔ (∃ part ∈ parts, c ∈ part) ∨ c ∈ sep ∧ 2 ≤ parts.length := by
  induction parts with
  | nil => simp
  | cons part rest ih =>
      cases rest with
      | nil => simp
      | cons next others =>
          have hlength : 2 ≤ (part :: next :: others).length := Nat.le_add_left 2 others.length
          rw [List.intercalate_cons_cons, List.mem_append, List.mem_append, ih,
            List.exists_mem_cons_iff _ part]
          grind

/-- Parts without separators are split off again from what they are joined to by
one. Parts of a text may not be empty, because empty ones are left out. -/
theorem filter_splitOnP_intercalate {p : Char → Bool} {sep : Char} (hsep : p sep = true)
    {parts : List (List Char)} (nonempty : ∀ part ∈ parts, part ≠ [])
    (solid : ∀ part ∈ parts, ∀ c ∈ part, p c = false) :
    (([sep].intercalate parts).splitOnP p).filter (fun part => !part.isEmpty) = parts := by
  induction parts with
  | nil => rfl
  | cons part rest ih =>
      obtain ⟨hpart, hrest⟩ := List.forall_mem_cons.mp solid
      obtain ⟨hne, hnes⟩ := List.forall_mem_cons.mp nonempty
      have hkept : part.isEmpty = false := List.isEmpty_eq_false_iff.mpr hne
      cases rest with
      | nil => simp [List.splitOnP_eq_singleton hpart, hne]
      | cons next others =>
          rw [List.intercalate_cons_cons, List.append_assoc, List.singleton_append,
            List.splitOnP_append_cons_of_forall_mem hpart sep hsep, List.filter_cons, hkept,
            ih hnes hrest]
          rfl

/-- What is joined of parts begins and ends with characters of parts. -/
theorem forall_mem_ends_intercalate {p : Char → Prop} (sep : List Char) {parts : List (List Char)}
    (nonempty : ∀ part ∈ parts, part ≠ []) (h : ∀ part ∈ parts, ∀ c ∈ part, p c) :
    (∀ c ∈ (sep.intercalate parts).head?, p c) ∧ ∀ c ∈ (sep.intercalate parts).getLast?, p c := by
  induction parts with
  | nil => simp
  | cons part rest ih =>
      obtain ⟨hpart, hrest⟩ := List.forall_mem_cons.mp h
      obtain ⟨hne, hnes⟩ := List.forall_mem_cons.mp nonempty
      cases rest with
      | nil =>
          rw [List.intercalate_singleton]
          exact ⟨fun c hc => hpart c (List.mem_of_mem_head? hc),
            fun c hc => hpart c (List.mem_of_getLast? hc)⟩
      | cons next others =>
          have hjoined : sep.intercalate (next :: others) ≠ [] := by
            have hnext := hnes next (List.mem_cons_self ..)
            cases others <;> simp [List.intercalate_cons_cons, hnext]
          rw [List.intercalate_cons_cons, List.getLast?_append_of_ne_nil _ hjoined,
            List.append_assoc, List.head?_append_of_ne_nil _ hne]
          exact ⟨fun c hc => hpart c (List.mem_of_mem_head? hc), (ih hnes hrest).2⟩

end Yang.Text
