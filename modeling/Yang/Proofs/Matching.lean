import Yang.Proofs.Folding
import Yang.Schema.Resolution

/-!
# What a segment and a name have in common when they match

Folding a name to its attribute name drops the separators, wherever they stand and however many
there are, and changes nothing else but the case of letters. So two ASCII names match if and only
if the same characters are left of them without separators, in the same order and in any case.
-/

namespace Yang

open Schema

namespace Name

/-- What counts when names are matched: the characters but the separators, in
small letters. Capitals after separators are lost again in this form. -/
def folded (cs : List Char) : List Char := (cs.filter fun c => !isSeparator c).map Char.toLower

section Characters

variable {c : Char} {cs : List Char}

theorem folded_cons_of_separator (h : isSeparator c = true) : folded (c :: cs) = folded cs := by
  rw [folded, List.filter_cons_of_neg (by simp [h]), folded]

theorem folded_cons_of_plain (h : isSeparator c = false) :
    folded (c :: cs) = c.toLower :: folded cs := by
  rw [folded, List.filter_cons_of_pos (by simp [h]), List.map_cons, folded]

theorem toLower_toUpper (hc : c.toNat < 0x80) : c.toUpper.toLower = c.toLower :=
  of_ascii (p := fun c => c.toUpper.toLower = c.toLower) (by decide) hc

/-- It does not count whether a capital is due, so separators leave no trace.
The induction is on the name, for both states of the reader at once. -/
theorem map_toLower_attributeRest (hcs : IsAscii cs) (capital : Bool) :
    (attributeRest capital cs).map Char.toLower = folded cs := by
  induction cs generalizing capital with
  | nil => rfl
  | cons d ds ih =>
      obtain ⟨hd, hds⟩ := List.forall_mem_cons.mp hcs
      cases hsep : isSeparator d with
      | true => rw [attributeRest, if_pos hsep, ih hds, folded_cons_of_separator hsep]
      | false =>
          have hfirst : (if capital then Text.upper d else [d]).map Char.toLower = [d.toLower] := by
            cases capital with
            | true =>
                rw [if_pos rfl, Text.upper_of_ascii hd, List.map_singleton, toLower_toUpper hd]
            | false => rfl
          rw [attributeRest, if_neg (Bool.eq_false_iff.mp hsep), List.map_append, hfirst, ih hds,
            folded_cons_of_plain hsep, List.singleton_append]

theorem map_toLower_attributeChars (hcs : IsAscii cs) :
    (attributeChars cs).map Char.toLower = folded cs := by
  induction cs with
  | nil => rfl
  | cons d ds ih =>
      obtain ⟨hd, hds⟩ := List.forall_mem_cons.mp hcs
      cases hsep : isSeparator d with
      | true => rw [attributeChars, if_pos hsep, ih hds, folded_cons_of_separator hsep]
      | false =>
          rw [attributeChars, if_neg (Bool.eq_false_iff.mp hsep), Text.lower_of_ascii hd,
            List.map_append, map_toLower_attributeRest hds, List.map_singleton,
            toLower_toLower hd, folded_cons_of_plain hsep, List.singleton_append]

end Characters

variable {segment name : String}

theorem segmentMatches_iff (hsegment : IsAscii segment.toList) (hname : IsAscii name.toList) :
    segmentMatches segment name = true ↔ folded segment.toList = folded name.toList := by
  rw [segmentMatches, beq_iff_eq, toList_attributeName, toList_attributeName,
    map_toLower_attributeChars hsegment, map_toLower_attributeChars hname]

end Name

namespace Schema.Tree

variable {t : Tree} {segment : String} {e : ContextEntry}

/-- A step on a path goes to data nodes, and compares the segment with their
attribute names. -/
theorem matchesEntry_iff_kind :
    t.matchesEntry segment e = true ↔
      (∃ k, t.kind? e.node = some k ∧ k.isData = true) ∧
        Name.segmentMatches segment (Name.attributeName (t.name e.node)) = true := by
  rw [matchesEntry, Bool.and_eq_true]
  cases t.kind? e.node <;> simp

end Schema.Tree

namespace Name

variable {segment name : String}

/-- Matching in ASCII is equality without separators and up to case. It makes no
difference to match a name or its attribute name, as a path is followed through
a tree, because folding a second time changes nothing. -/
theorem segmentMatches_iff_folded (hsegment : IsAscii segment.toList)
    (hname : IsAscii name.toList) :
    (segmentMatches segment name = true ↔ folded segment.toList = folded name.toList) ∧
    segmentMatches segment (attributeName name) = segmentMatches segment name ∧
    attributeName (attributeName name) = attributeName name ∧
    ∀ (t : Tree) (e : ContextEntry), t.name e.node = name →
      (t.matchesEntry segment e = true ↔
        (∃ k, t.kind? e.node = some k ∧ k.isData = true) ∧
          folded segment.toList = folded name.toList) := by
  refine ⟨segmentMatches_iff hsegment hname, segmentMatches_attributeName hname segment,
    attributeName_attributeName hname, ?_⟩
  rintro t e rfl
  rw [Tree.matchesEntry_iff_kind, segmentMatches_attributeName hname,
    segmentMatches_iff hsegment hname]

def interfaceName : Tree :=
  ⟨#[⟨⟨"interface-name", "urn:interfaces"⟩, .leaf (.builtin .string none), none, [], []⟩]⟩

/-- Separators at both ends and several of them in a row do not count, nor do
capitals. -/
theorem segmentMatches_iff_folded_interface :
    IsAscii "_INTERFACE. .name-".toList ∧ IsAscii "interface-name".toList ∧
      segmentMatches "_INTERFACE. .name-" "interface-name" = true ∧
      segmentMatches "_INTERFACE. .name-" (attributeName "interface-name") = true ∧
      attributeName (attributeName "interface-name") = "interfaceName" ∧
      interfaceName.matchesEntry "_INTERFACE. .name-" ⟨0, none, false⟩ = true := by
  have hsegment : IsAscii "_INTERFACE. .name-".toList := by
    have hall : ("_INTERFACE. .name-".toList.all fun c => decide (c.toNat < 0x80)) = true := rfl
    exact fun c hc => of_decide_eq_true (List.all_eq_true.mp hall c hc)
  have hname : IsAscii "interface-name".toList := isAscii_of_isIdentifier rfl
  obtain ⟨hfolded, hattribute, hagain, hentry⟩ := segmentMatches_iff_folded hsegment hname
  have hmatch := hfolded.mpr (by decide)
  refine ⟨hsegment, hname, hmatch, hattribute.trans hmatch, hagain.trans (by decide), ?_⟩
  exact (hentry interfaceName ⟨0, none, false⟩ rfl).mpr ⟨⟨.leaf, rfl, rfl⟩, by decide⟩

/-- A part of a name does not match it. -/
example : segmentMatches "interface" "interface-name" = false := by decide

end Name

end Yang
