import Yang.Proofs.Cut
import Yang.Xml.Markup
import Yang.Xml.Text

/-!
# Reading text that was escaped

An escaped text denotes the characters that were escaped, unless the reader changes white
space: in texts it changes carriage returns, and in attribute values also tabs and new
lines.
-/

namespace Yang.Xml

section Escaping

/-- A character is written as it is, or as a reference by name. All that is
proved of escaped texts goes back to these two cases. -/
theorem escapeChar_cases (c : Char) :
    (escapeChar c = [c] ∧ c ∉ ['<', '>', '&', '\'', '"']) ∨
      ∃ name, escapeChar c = '&' :: (name ++ [';']) ∧ (∀ d ∈ name, d.isAlpha = true) ∧
        referent? name = some c := by
  rw [escapeChar.eq_def]
  split
  · exact .inr ⟨['l', 't'], rfl, List.all_eq_true.mp rfl, rfl⟩
  · exact .inr ⟨['g', 't'], rfl, List.all_eq_true.mp rfl, rfl⟩
  · exact .inr ⟨['a', 'm', 'p'], rfl, List.all_eq_true.mp rfl, rfl⟩
  · exact .inr ⟨['a', 'p', 'o', 's'], rfl, List.all_eq_true.mp rfl, rfl⟩
  · exact .inr ⟨['q', 'u', 'o', 't'], rfl, List.all_eq_true.mp rfl, rfl⟩
  · refine .inl ⟨rfl, ?_⟩
    simp_all

/-- The characters that end texts and attribute values do not occur in what is
escaped, so a reader finds the end where it was written. -/
theorem notMem_escape {d : Char} (hd : d ∈ ['<', '>', '\'', '"']) (s : String) :
    d ∉ escape s := by
  intro hmem
  obtain ⟨c, -, hc⟩ := List.mem_flatMap.mp hmem
  rcases escapeChar_cases c with ⟨heq, hplain⟩ | ⟨name, heq, halpha, -⟩
  · rw [heq, List.mem_singleton] at hc
    subst hc
    simp_all
  · rw [heq, List.mem_cons, List.mem_append, List.mem_singleton] at hc
    simp only [List.mem_cons, List.not_mem_nil, or_false] at hd
    rcases hc with rfl | hname | rfl
    · simp at hd
    · have hd' := halpha d hname
      rcases hd with rfl | rfl | rfl | rfl <;> cases hd'
    · simp at hd

theorem escape_ne_nil {s : String} (hs : s ≠ "") : escape s ≠ [] := by
  intro hnil
  have hlist : s.toList = [] := by
    rw [List.eq_nil_iff_forall_not_mem]
    intro c hc
    have hempty := List.flatMap_eq_nil_iff.mp hnil c hc
    rcases escapeChar_cases c with ⟨heq, -⟩ | ⟨name, heq, -⟩ <;> simp [heq] at hempty
  exact hs (String.toList_eq_nil_iff.mp hlist)

end Escaping

section Pieces

def pieceOf (c : Char) : Piece := if escapeChar c = [c] then .plain c else .reference c

theorem splitOn_append {mark : Char} {a : List Char} (h : mark ∉ a) (b : List Char) :
    (a ++ b).splitOn mark = (b.splitOn mark).modifyHead (a ++ ·) := by
  induction a with
  | nil =>
      rw [List.nil_append]
      cases b.splitOn mark <;> rfl
  | cons c a ih =>
      rw [List.mem_cons, not_or] at h
      have hc : (c == mark) = false := beq_eq_false_iff_ne.mpr (Ne.symm h.1)
      rw [List.cons_append, List.splitOn_cons_eq_if_modifyHead, hc, ih h.2,
        if_neg Bool.false_ne_true, List.modifyHead_modifyHead]
      rfl

theorem pieces?_cons {c : Char} (h : c ≠ '&') (written : List Char) :
    pieces? (c :: written) = (pieces? written).map (.plain c :: ·) := by
  have hsplit : (c :: written).splitOn '&' = (written.splitOn '&').modifyHead (c :: ·) :=
    splitOn_append (a := [c]) (by simpa using h.symm) written
  rw [pieces?, pieces?, hsplit]
  cases hparts : written.splitOn '&' with
  | nil => exact absurd hparts (List.splitOn_ne_nil _ _)
  | cons first rest => simp [List.modifyHead, Function.comp_def]

theorem pieces?_reference {name : List Char} {c : Char} (hmark : '&' ∉ name) (hend : ';' ∉ name)
    (hname : referent? name = some c) (written : List Char) :
    pieces? ('&' :: (name ++ ';' :: written)) = (pieces? written).map (.reference c :: ·) := by
  have hsplit : ('&' :: (name ++ ';' :: written)).splitOn '&' =
      [] :: (written.splitOn '&').modifyHead (fun first => name ++ ';' :: first) := by
    have hfront : '&' ∉ name ++ [';'] := by simpa using hmark
    have happend := splitOn_append hfront written
    simp only [List.append_assoc, List.singleton_append] at happend
    rw [List.splitOn_cons_eq_if_modifyHead, beq_self_eq_true, if_pos rfl, happend]
  rw [pieces?, pieces?, hsplit]
  cases hparts : written.splitOn '&' with
  | nil => exact absurd hparts (List.splitOn_ne_nil _ _)
  | cons first rest =>
      have hfirst : afterAmpersand? (name ++ ';' :: first) =
          some (.reference c :: first.map .plain) := by
        rw [afterAmpersand?, Text.cut?_append hend]
        exact congrArg (Option.map _) hname
      simp only [List.modifyHead, List.mapM_cons, hfirst]
      cases rest.mapM afterAmpersand? <;> rfl

/-- The pieces of an escaped text are its characters. -/
theorem pieces?_escape (cs : List Char) :
    pieces? (cs.flatMap escapeChar) = some (cs.map pieceOf) := by
  induction cs with
  | nil => rfl
  | cons c cs ih =>
      rw [List.flatMap_cons, List.map_cons, pieceOf]
      rcases escapeChar_cases c with ⟨heq, hplain⟩ | ⟨name, heq, halpha, hname⟩
      · have hc : c ≠ '&' := by
          rintro rfl
          simp at hplain
        rw [heq, if_pos rfl, List.singleton_append, pieces?_cons hc, ih]
        rfl
      · have hmark : '&' ∉ name := fun hmem => absurd (halpha _ hmem) (by decide)
        have hend : ';' ∉ name := fun hmem => absurd (halpha _ hmem) (by decide)
        have hne : escapeChar c ≠ [c] := by
          intro hself
          have hlength := congrArg List.length (heq.symm.trans hself)
          simp at hlength
        rw [if_neg hne, heq, List.cons_append, List.append_assoc, List.singleton_append,
          pieces?_reference hmark hend hname, ih]
        rfl

end Pieces

section Denotation

theorem pushPlain_of_ne {c : Char} {out : List Char} (hc : c ≠ '\r')
    (hout : out.head? ≠ some '\r') (isLast : Bool) : pushPlain c isLast out = c :: out := by
  rw [pushPlain.eq_def]
  split
  · exact absurd rfl hout
  · simp [hc]

/-- Without carriage returns pieces denote their characters. -/
theorem denoteFrom_pieceOf {cs : List Char} (h : '\r' ∉ cs) {out : List Char}
    (hout : out.head? ≠ some '\r') (asIs : Bool) :
    denoteFrom out asIs (cs.map pieceOf) = out.reverse ++ cs := by
  induction cs generalizing out asIs with
  | nil => rw [List.map_nil, denoteFrom, List.append_nil]
  | cons c cs ih =>
      rw [List.mem_cons, not_or] at h
      have hc : c ≠ '\r' := Ne.symm h.1
      have hnext : (c :: out).head? ≠ some '\r' := by simpa using hc
      rw [List.map_cons, pieceOf]
      split
      · rw [denoteFrom, pushPlain_of_ne hc hout, ite_self, ih h.2 hnext]
        simp
      · rw [denoteFrom, ih h.2 hnext]
        simp

/-- A text without carriage returns is read back. -/
theorem content?_escape {s : String} (h : '\r' ∉ s.toList) : content? (escape s) = some s := by
  rw [content?, escape, pieces?_escape, Option.map_some,
    denoteFrom_pieceOf h (by simp) false]
  simp

/-- Without tabs and ends of lines pieces of an attribute value are its
characters. -/
theorem valueChars_pieceOf {cs : List Char} (h : ∀ c ∈ cs, c ∉ ['\t', '\n', '\r']) :
    valueChars (cs.map pieceOf) = cs := by
  induction cs with
  | nil => rfl
  | cons c cs ih =>
      obtain ⟨hc, hcs⟩ := List.forall_mem_cons.mp h
      simp only [List.mem_cons, List.not_mem_nil, or_false, not_or] at hc
      rw [List.map_cons, pieceOf]
      split
      · have hspace : (if isSpace c then ' ' else c) = c := by
          split
          · simp_all [isSpace]
          · rfl
        rw [valueChars, if_neg (by simp [hc]), hspace, ih hcs]
      · rw [valueChars, ih hcs]

/-- An attribute value without tabs and ends of lines is read back. A reader
would take these for blanks. -/
theorem value?_escape {s : String} (h : ∀ c ∈ s.toList, c ∉ ['\t', '\n', '\r']) :
    value? (escape s) = some s := by
  rw [value?, escape, pieces?_escape, Option.map_some, valueChars_pieceOf h]
  simp

end Denotation

end Yang.Xml
