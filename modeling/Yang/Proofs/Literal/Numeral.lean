import Yang.Proofs.Blank
import Yang.Proofs.Cut
import Yang.Proofs.Literal.Decimal
import Yang.Value

/-!
# How numbers are written

The literals of integers and of decimal numbers have the same form: a sign at most, digits, and
behind a point more digits, if there is a point at all. So a number has no blanks, and the two
points between the bounds of an interval cannot be mistaken for a part of either bound.
-/

namespace Yang

namespace Text

def IsNumberChar (c : Char) : Prop := c = '-' ∨ c = '.' ∨ c.isDigit = true

/-- The form in which numbers are written: a front without points and, unless
there are none, digits behind a point. -/
def IsNumeral (cs : List Char) : Prop :=
  ∃ front fraction, cs = front ++ (if fraction = [] then [] else '.' :: fraction) ∧
    (∀ c ∈ front, c = '-' ∨ c.isDigit = true) ∧ ∀ c ∈ fraction, c.isDigit = true

theorem IsNumberChar.isBlank {c : Char} (h : IsNumberChar c) : isBlank c = false := by
  obtain rfl | rfl | hdigit := h
  · rfl
  · rfl
  · exact Name.isBlank_of_isDigit hdigit

theorem not_isNumberChar_of_mem : ∀ c ∈ ['|', 'm'], ¬IsNumberChar c := by
  simp [IsNumberChar]

variable {cs : List Char}

theorem IsNumeral.isNumberChar (h : IsNumeral cs) : ∀ c ∈ cs, IsNumberChar c := by
  obtain ⟨front, fraction, rfl, hfront, hfraction⟩ := h
  intro c hc
  obtain hc | hc := List.mem_append.mp hc
  · exact (hfront c hc).imp_right .inr
  · split at hc
    · cases hc
    · obtain rfl | hc := List.mem_cons.mp hc
      · exact .inr (.inl rfl)
      · exact .inr (.inr (hfraction c hc))

theorem IsNumeral.isBlank (h : IsNumeral cs) : ∀ c ∈ cs, isBlank c = false :=
  fun c hc => (h.isNumberChar c hc).isBlank

/-- No two points stand in a number, nor does it end in a point, so a text that
begins with a number is not cut before its end. -/
theorem IsNumeral.cut?_append (h : IsNumeral cs) (rest : List Char) :
    cut? ['.', '.'] (cs ++ rest) = (cut? ['.', '.'] rest).map fun p => (cs ++ p.1, p.2) := by
  obtain ⟨front, fraction, rfl, hfront, hfraction⟩ := h
  have hpoint : '.' ∉ front := by
    intro hmem
    obtain heq | heq := hfront '.' hmem <;> cases heq
  rw [List.append_assoc, cut?_append_of_not_mem hpoint]
  cases fraction with
  | nil => simp
  | cons d digits =>
      have hpoints : '.' ∉ d :: digits := fun hmem => nomatch hfraction '.' hmem
      have hfirst : ['.', '.'].isPrefixOf ('.' :: (d :: digits ++ rest)) = false := by
        simpa [List.isPrefixOf] using List.ne_of_not_mem_cons hpoints
      rw [if_neg (List.cons_ne_nil _ _), List.cons_append, cut?, hfirst,
        cut?_append_of_not_mem hpoints]
      simp [Function.comp_def]

theorem cutText?_numeral {s : String} (h : IsNumeral s.toList) : cutText? ".." s = none := by
  have hcut := h.cut?_append []
  rw [List.append_nil] at hcut
  exact congrArg (Option.map _) hcut

/-- What stands between two points and before them is cut there. -/
theorem cutText?_points {a : String} (h : IsNumeral a.toList) (b : String) :
    cutText? ".." (a ++ ".." ++ b) = some (a, b) := by
  have hlist : (a ++ ".." ++ b).toList = a.toList ++ '.' :: '.' :: b.toList := by simp
  have hcut : cut? ['.', '.'] ('.' :: '.' :: b.toList) = some ([], b.toList) := by
    simp [cut?, List.isPrefixOf]
  have hparts := h.cut?_append ('.' :: '.' :: b.toList)
  rw [hcut] at hparts
  rw [cutText?, hlist]
  exact (congrArg (Option.map _) hparts).trans (by simp)

end Text

theorem Value.isNumeral_literal {v : Value} (numeric : v.isNumeric = true) :
    Text.IsNumeral v.literal.toList := by
  have hsign : ∀ {negative : Prop} [Decidable negative], ∀ c ∈ (if negative then ['-'] else []),
      c = '-' ∨ c.isDigit = true := by
    intro negative _
    split <;> simp
  cases v with
  | integer t n holds =>
      refine ⟨(toString n).toList, [], by simp [literal], ?_, List.forall_mem_nil _⟩
      rw [Json.toList_toString, List.forall_mem_append]
      exact ⟨hsign, fun c hc => .inr (Json.isDigit_of_mem_decimalDigits c hc)⟩
  | decimal d =>
      obtain ⟨whole, fraction, htext, -, -, hdigits, -⟩ := d.exists_text
      obtain ⟨hwhole, hfraction⟩ := List.forall_mem_append.mp hdigits
      rw [← List.append_assoc] at htext
      refine ⟨_, fraction, htext, ?_, hfraction⟩
      rw [List.forall_mem_append]
      exact ⟨hsign, fun c hc => .inr (hwhole c hc)⟩
  | _ => cases numeric

theorem Value.trim_of_isNumeric {v : Value} (numeric : v.isNumeric = true) :
    Text.trim v.literal = v.literal :=
  Text.trim_of_forall (isNumeral_literal numeric).isBlank

end Yang
