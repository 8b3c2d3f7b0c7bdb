/-!
# Cutting texts at a mark

A qualified name is cut at its first colon and an interval at its first pair of
dots. `cut?` performs one cut and says when there is none; cutting everywhere is
`List.splitOn` on the characters.
-/

namespace Yang.Text

/-- Cut at the first occurrence of a mark. That occurrence belongs to neither
part, and without one there is no cut. -/
def cut? (mark : List Char) : List Char → Option (List Char × List Char)
  | [] => if mark.isEmpty then some ([], []) else none
  | c :: r =>
    if mark.isPrefixOf (c :: r) then some ([], (c :: r).drop mark.length)
    else (cut? mark r).map fun parts => (c :: parts.1, parts.2)

/-- A successful cut loses nothing but the mark. -/
theorem eq_of_cut? {mark s a b : List Char} (h : cut? mark s = some (a, b)) :
    s = a ++ mark ++ b := by
  induction s generalizing a with
  | nil =>
    simp only [cut?] at h
    split at h <;> simp_all
  | cons c r ih =>
    simp only [cut?] at h
    split at h
    · rename_i front
      obtain ⟨t, ht⟩ := List.isPrefixOf_iff_prefix.mp front
      obtain ⟨rfl, rfl⟩ := by simpa using h
      rw [← ht]
      simp
    · obtain ⟨⟨a', b'⟩, hcut, heq⟩ := Option.map_eq_some_iff.mp h
      obtain ⟨rfl, rfl⟩ := by simpa using heq
      rw [ih hcut]
      simp

def cutText? (mark s : String) : Option (String × String) :=
  (cut? mark.toList s.toList).map fun parts => (String.ofList parts.1, String.ofList parts.2)

/-- The parts between the occurrences of a character; one more than it occurs. -/
def parts (mark : Char) (s : String) : List String :=
  (s.toList.splitOn mark).map String.ofList

end Yang.Text
