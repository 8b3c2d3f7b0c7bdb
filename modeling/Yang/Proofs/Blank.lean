import Mathlib.Data.List.DropRight
import Yang.Proofs.Folding
import Yang.Proofs.Joined
import Yang.Text.Blank

/-!
# Blanks at the ends of texts

Trimming leaves a text alone exactly if it begins and ends with characters that are not blank,
and takes the blanks away that were put around a text without any.
-/

namespace Yang

namespace Text

/-- The text neither begins nor ends with a blank. -/
def HasSolidEnds (cs : List Char) : Prop :=
  (∀ c ∈ cs.head?, isBlank c = false) ∧ ∀ c ∈ cs.getLast?, isBlank c = false

/-- Trimming changes only the texts that begin or end with a blank. Blanks
inside a text are of no concern. -/
theorem trimChars_eq_self_iff {cs : List Char} : trimChars cs = cs ↔ HasSolidEnds cs := by
  have hfront : cs.dropWhile isBlank = cs ↔ ∀ c ∈ cs.head?, isBlank c = false := by
    cases cs with
    | nil => simp
    | cons c cs => simp [List.dropWhile_eq_self_iff]
  have hback : cs.rdropWhile isBlank = cs ↔ ∀ c ∈ cs.getLast?, isBlank c = false := by
    rcases List.eq_nil_or_concat cs with rfl | ⟨before, c, rfl⟩
    · simp
    · simp
  constructor
  · intro h
    have hprefix : trimChars cs <+: cs.dropWhile isBlank := List.rdropWhile_prefix isBlank _
    rw [h] at hprefix
    have hdrop : cs.dropWhile isBlank = cs :=
      (List.dropWhile_suffix isBlank).eq_of_length_le hprefix.length_le
    rw [trimChars, hdrop] at h
    exact ⟨hfront.mp hdrop, hback.mp h⟩
  · rintro ⟨front, back⟩
    rw [trimChars, hfront.mpr front]
    exact hback.mpr back

theorem trim_eq_self_iff {s : String} : trim s = s ↔ HasSolidEnds s.toList := by
  rw [← trimChars_eq_self_iff, trim, ← String.toList_inj, String.toList_ofList]

theorem HasSolidEnds.of_forall {cs : List Char} (solid : ∀ c ∈ cs, isBlank c = false) :
    HasSolidEnds cs :=
  ⟨fun c hc => solid c (List.mem_of_mem_head? hc), fun c hc => solid c (List.mem_of_getLast? hc)⟩

theorem trim_of_forall {s : String} (solid : ∀ c ∈ s.toList, isBlank c = false) : trim s = s :=
  trim_eq_self_iff.mpr (.of_forall solid)

theorem trimChars_append {before cs after : List Char} (hbefore : ∀ c ∈ before, isBlank c = true)
    (hafter : ∀ c ∈ after, isBlank c = true) (solid : ∀ c ∈ cs, isBlank c = false) :
    trimChars (before ++ (cs ++ after)) = cs := by
  have hfront : (cs ++ after).dropWhile isBlank =
      cs ++ if cs = [] then [] else after := by
    cases cs with
    | nil => simpa using hafter
    | cons c cs => simp [solid c (List.mem_cons_self ..)]
  have hback : ∀ blanks : List Char, (∀ c ∈ blanks, isBlank c = true) →
      (cs ++ blanks).rdropWhile isBlank = cs := by
    intro blanks hblanks
    have hsolid : cs.reverse.dropWhile isBlank = cs.reverse := by
      cases hcs : cs.reverse with
      | nil => rfl
      | cons c rest =>
          have hc : c ∈ cs := List.mem_reverse.mp (hcs ▸ List.mem_cons_self ..)
          simp [solid c hc]
    have hreverse : ∀ c ∈ blanks.reverse, isBlank c = true := by simpa using hblanks
    rw [List.rdropWhile, List.reverse_append, List.dropWhile_append_of_pos hreverse, hsolid,
      List.reverse_reverse]
  change ((before ++ (cs ++ after)).dropWhile isBlank).rdropWhile isBlank = cs
  rw [List.dropWhile_append_of_pos hbefore, hfront]
  apply hback
  split
  · exact List.forall_mem_nil _
  · exact hafter

/-- Texts that are joined by spaces keep their ends. -/
theorem HasSolidEnds.intercalate {names : List (List Char)} (nonempty : ∀ name ∈ names, name ≠ [])
    (solid : ∀ name ∈ names, ∀ c ∈ name, isBlank c = false) :
    HasSolidEnds ([' '].intercalate names) :=
  forall_mem_ends_intercalate [' '] nonempty solid

end Text

namespace Name

theorem isBlank_of_isDigit {c : Char} (h : c.isDigit = true) : Text.isBlank c = false := by
  have hascii : c.toNat < 0x80 := by
    have hle : c.toNat ≤ 57 := (Char.isDigit_iff_toNat.mp h).2
    omega
  exact of_ascii (p := fun c => c.isDigit = true → Text.isBlank c = false) (by decide) hascii h

end Name

end Yang
