import Yang.Text.Cut

/-!
# Where texts are cut

A text is cut at the first occurrence of a mark. What comes before the first character with
which the mark could begin stays in front of the cut, so a text is cut at the first occurrence
of a mark of one character, and is not cut if the mark does not occur.
-/

namespace Yang.Text

/-- Where a mark cannot begin no text is cut. -/
theorem cut?_append_of_not_mem {first : Char} {mark front : List Char} (h : first ∉ front)
    (rest : List Char) :
    cut? (first :: mark) (front ++ rest) =
      (cut? (first :: mark) rest).map fun p => (front ++ p.1, p.2) := by
  induction front with
  | nil => simp
  | cons c front ih =>
      rw [List.mem_cons, not_or] at h
      have hfront : (first :: mark).isPrefixOf (c :: (front ++ rest)) = false := by
        simp [List.isPrefixOf, h.1]
      rw [List.cons_append, cut?, hfront, ih h.2]
      simp [Function.comp_def]

theorem cut?_eq_none {mark : Char} {cs : List Char} (h : mark ∉ cs) : cut? [mark] cs = none := by
  rw [← List.append_nil cs, cut?_append_of_not_mem h]
  rfl

theorem cut?_append {mark : Char} {a : List Char} (h : mark ∉ a) (b : List Char) :
    cut? [mark] (a ++ mark :: b) = some (a, b) := by
  rw [cut?_append_of_not_mem h]
  simp [cut?]

theorem cutText?_eq_none {s : String} (h : ':' ∉ s.toList) : cutText? ":" s = none := by
  have hcut := cut?_eq_none h
  rw [cutText?]
  exact congrArg (Option.map _) hcut

theorem cutText?_append {a : String} (h : ':' ∉ a.toList) (b : String) :
    cutText? ":" (a ++ ":" ++ b) = some (a, b) := by
  have hcut := cut?_append h b.toList
  have hlist : (a ++ ":" ++ b).toList = a.toList ++ ':' :: b.toList := by simp
  rw [cutText?, hlist]
  exact (congrArg (Option.map _) hcut).trans (by simp)

end Yang.Text
