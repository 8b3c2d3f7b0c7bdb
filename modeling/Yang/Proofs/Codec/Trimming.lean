import Yang.Proofs.Codec.XmlRoundTrip
import Yang.Proofs.Literal.Numeral
import Yang.Proofs.Rereading

/-!
# Blanks around the literals of leaves

The XML codec takes the blanks away around the text of a leaf, unless the type of the leaf is
`string`. The literals that values are written as have no blanks around them, so trimming does
not change these. There are two exceptions. A string can have any blanks, and if the type of
the leaf leads to a union, the union may have given the string. An instance identifier can end
in blanks, as it only has to begin as an absolute path. A value that is written with such
blanks is never read again from the trimmed text.
-/

namespace Yang

namespace Value

theorem hasSolidEnds_bits {raw : String} {names : List String}
    (h : Literal.bits raw = .ok names) :
    Text.HasSolidEnds (" ".intercalate names).toList := by
  obtain ⟨-, identifiers⟩ := Literal.collectBits_eq_ok h List.nodup_nil (List.forall_mem_nil _)
  have hnonempty : ∀ name ∈ names.map String.toList, name ≠ [] := by
    refine List.forall_mem_map.mpr fun name hname => ?_
    simpa using Name.ne_empty_of_isIdentifier (identifiers name hname)
  have hsolid : ∀ name ∈ names.map String.toList, ∀ c ∈ name, Text.isBlank c = false :=
    List.forall_mem_map.mpr fun name hname => Name.isBlank_of_isIdentifier (identifiers name hname)
  rw [String.toList_intercalate]
  exact .intercalate hnonempty hsolid

theorem isBlank_of_isIdentity {raw : String} (h : Literal.isIdentity raw = true) :
    ∀ c ∈ raw.toList, Text.isBlank c = false := by
  rw [Literal.isIdentity, Text.cutText?] at h
  split at h
  · rename_i hcut
    obtain ⟨⟨front, back⟩, hparts, heq⟩ := Option.map_eq_some_iff.mp hcut
    obtain ⟨rfl, rfl⟩ := Prod.mk.inj heq
    obtain ⟨hqualifier, hname⟩ := Bool.and_eq_true_iff.mp h
    rw [Text.eq_of_cut? hparts, List.forall_mem_append, List.forall_mem_append]
    have hfront := Name.isBlank_of_isIdentifier hqualifier
    have hback := Name.isBlank_of_isIdentifier hname
    rw [String.toList_ofList] at hfront hback
    exact ⟨⟨hfront, List.forall_mem_singleton.mpr rfl⟩, hback⟩
  · exact Name.isBlank_of_isIdentifier h

/-- Only strings and instance identifiers are written with blanks around them. -/
theorem trim_literal {raw : String} {t : Builtin} {v : Value} (h : parse raw t = .ok v) :
    t = .string ∧ v = .text raw ∨ t = .instanceIdentifier ∧ v = .instancePath raw ∨
      Text.trim v.literal = v.literal := by
  cases t with
  | string => exact .inl ⟨rfl, (Except.ok.inj h).symm⟩
  | instanceIdentifier =>
      simp only [parse, bind_eq_ok_iff, pure_eq_ok_iff] at h
      obtain ⟨-, -, rfl⟩ := h
      exact .inr (.inl ⟨rfl, rfl⟩)
  | integer t =>
      simp only [parse, bind_eq_ok_iff, pure_eq_ok_iff] at h
      obtain ⟨⟨n, holds⟩, -, rfl⟩ := h
      exact .inr (.inr (trim_of_isNumeric rfl))
  | decimal64 =>
      rw [parse, map_eq_ok_iff] at h
      obtain ⟨d, -, rfl⟩ := h
      exact .inr (.inr (trim_of_isNumeric rfl))
  | boolean =>
      rw [parse, map_eq_ok_iff] at h
      obtain ⟨b, -, rfl⟩ := h
      cases b <;> exact .inr (.inr (by decide))
  | binary =>
      rw [parse, map_eq_ok_iff] at h
      obtain ⟨bytes, -, rfl⟩ := h
      refine .inr (.inr (Text.trim_of_forall ?_))
      rw [literal, String.toList_ofList]
      exact Base64.forall_mem_encode (by decide) (by decide) bytes
  | bits =>
      rw [parse, map_eq_ok_iff] at h
      obtain ⟨names, hnames, rfl⟩ := h
      exact .inr (.inr (Text.trim_eq_self_iff.mpr (hasSolidEnds_bits hnames)))
  | enumeration =>
      simp only [parse, bind_eq_ok_iff, exists_unit_iff, pure_eq_ok_iff, Literal.checkEnumName] at h
      obtain ⟨hname, rfl⟩ := h
      split at hname
      · rename_i hends
        exact .inr (.inr hends.2)
      · cases hname
  | identityref =>
      simp only [parse, bind_eq_ok_iff, exists_unit_iff, pure_eq_ok_iff, Literal.checkIdentity] at h
      obtain ⟨hname, rfl⟩ := h
      split at hname
      · rename_i hidentity
        exact .inr (.inr (Text.trim_of_forall (isBlank_of_isIdentity hidentity)))
      · cases hname
  | empty =>
      rw [parse] at h
      split at h
      · obtain rfl := Except.ok.inj h
        exact .inr (.inr rfl)
      · split at h
        · rename_i b _
          obtain rfl := Except.ok.inj h
          cases b <;> exact .inr (.inr (by decide))
        · cases h
  | _ => cases h

end Value

namespace TypeSpec

variable {limits : Limits} {raw : String} {depth : Nat} {t : TypeSpec} {v : Value}

/-- Some built-in type reads what a type gives: the one at the end of the way on
which the value was given. -/
theorem Gives.exists_parse (h : Gives limits raw depth t v) :
    ∃ type, Value.parse raw type = .ok v := by
  induction h with
  | builtin parsed _ => exact ⟨_, parsed⟩
  | derived _ _ _ ih => exact ih
  | leafref _ ih => exact ih
  | union _ _ ih => exact ih

theorem Gives.parse_effective (h : Gives limits raw depth t v) (plain : t.Plain) :
    Value.parse raw t.effective = .ok v := by
  induction h with
  | builtin parsed _ => exact parsed
  | derived _ _ _ ih =>
      cases plain with
      | derived _ _ _ _ plain => exact ih plain
  | leafref _ ih =>
      cases plain with
      | leafref _ plain => exact ih plain
  | union _ _ _ => cases plain

/-- A value that is written with blanks around it is a string, of a string type
or of a type that leads to a union, or an instance identifier. -/
theorem cases_of_trim_ne (h : t.read raw limits = .ok v) (hends : Text.trim v.literal ≠ v.literal) :
    t.effective = .string ∨ (t.effective = .union ∧ ∃ s, v = .text s) ∨
      ∃ path, v = .instancePath path := by
  have gives := gives_of_read h
  by_cases hunion : t.effective = .union
  · obtain ⟨type, parsed⟩ := gives.exists_parse
    obtain ⟨-, rfl⟩ | ⟨-, rfl⟩ | hsolid := Value.trim_literal parsed
    · exact .inr (.inl ⟨hunion, _, rfl⟩)
    · exact .inr (.inr ⟨_, rfl⟩)
    · exact absurd hsolid hends
  · have parsed := gives.parse_effective (plain_of_effective_ne hunion)
    obtain ⟨hstring, -⟩ | ⟨-, rfl⟩ | hsolid := Value.trim_literal parsed
    · exact .inl hstring
    · exact .inr (.inr ⟨_, rfl⟩)
    · exact absurd hsolid hends

/-- Trimming loses the values that are written with blanks around them: such a
value is read from one literal only, which the trimmed text is not. -/
theorem read_trim_eq_ok_iff (stable : t.read v.literal limits = .ok v) :
    t.read (Text.trim v.literal) limits = .ok v ↔ Text.trim v.literal = v.literal := by
  constructor
  · intro h
    -- The two literals may have been read by different members of a union.
    obtain ⟨type, parsed⟩ := (gives_of_read stable).exists_parse
    obtain ⟨type', parsed'⟩ := (gives_of_read h).exists_parse
    obtain ⟨-, htext⟩ | ⟨-, hpath⟩ | hsolid := Value.trim_literal parsed
    · exact (Value.literal_of_isVerbatim parsed' (htext ▸ rfl)).symm
    · exact (Value.literal_of_isVerbatim parsed' (hpath ▸ rfl)).symm
    · exact hsolid
  · intro hsolid
    rwa [hsolid]

end TypeSpec

namespace Codec

open Schema Instance

namespace Xml

theorem keepsBlanks_iff {c : Context} {i : NodeId} {type : TypeSpec}
    (htype : c.type? i = some type) :
    keepsBlanks c i = true ↔ type.effective = .string := by
  rw [keepsBlanks, htype, Option.any_some, beq_iff_eq]

end Xml

open Codec.Xml

/-- The type of a leaf reads a value again from the text that an element hands
on which has just the literal of the value, if the type is a string or the
literal has no blanks around it. Else it does not. Only strings of leaves whose
type leads to a union and instance identifiers can be lost in this way. -/
theorem leafValue_leafText_iff {c : Context} {i : NodeId} {type : TypeSpec}
    (htype : c.type? i = some type) {v : Value} (stable : c.leafValue i v.literal = .ok v)
    {children : List Yang.Xml.Node} (whole : Yang.Xml.Node.leadingText children = v.literal) :
    (c.leafValue i (leafText c i children) = .ok v ↔
      type.effective = .string ∨ Text.trim v.literal = v.literal) ∧
    (Text.trim v.literal ≠ v.literal → type.effective ≠ .string →
      (type.effective = .union ∧ ∃ s, v = .text s) ∨ ∃ path, v = .instancePath path) := by
  rw [Context.leafValue, htype] at stable
  constructor
  · rw [Context.leafValue, htype, leafText, whole]
    by_cases hstring : type.effective = .string
    · rw [if_pos ((keepsBlanks_iff htype).mpr hstring)]
      exact iff_of_true stable (.inl hstring)
    · rw [if_neg (mt (keepsBlanks_iff htype).mp hstring), or_iff_right hstring]
      exact TypeSpec.read_trim_eq_ok_iff stable
  · intro hends hstring
    exact (TypeSpec.cases_of_trim_ne stable hends).resolve_left hstring

/-- A store with remarks, which are flags or else texts. -/
def remarks : List Statement :=
  [.module "store" "urn:store" "s" none,
    .leaf 0 "remark" (.union [.builtin .boolean none, .builtin .string none])]

def remarksContext : Context where
  tree := ⟨#[
    ⟨⟨"store", "urn:store"⟩, .module ⟨"s", none, []⟩, none, [(⟨"remark", "urn:store"⟩, 1)],
      [(⟨"remark", "urn:store"⟩, ⟨1, none, false⟩)]⟩,
    ⟨⟨"remark", "urn:store"⟩, .leaf (.union [.builtin .boolean none, .builtin .string none]),
      some 0, [], []⟩]⟩
  byName := [("store", 0)]
  byNamespace := [("urn:store", 0)]

theorem ofStatements_remarks : Tree.ofStatements remarks = .ok remarksContext.tree := by
  with_unfolding_all rfl

theorem ofTree_remarks : Context.ofTree remarksContext.tree {} = remarksContext := by
  with_unfolding_all rfl

/-- A flag is read again. -/
theorem leafValue_leafText_iff_flag :
    remarksContext.type? 1 = some (.union [.builtin .boolean none, .builtin .string none]) ∧
      remarksContext.leafValue 1 "true" = .ok (.flag true) ∧
      Yang.Xml.Node.leadingText [.text "true"] = "true" ∧
      remarksContext.leafValue 1 (leafText remarksContext 1 [.text "true"]) = .ok (.flag true) := by
  have htype : remarksContext.type? 1 =
      some (.union [.builtin .boolean none, .builtin .string none]) := rfl
  have stable : remarksContext.leafValue 1 (Value.flag true).literal = .ok (.flag true) := by decide
  have whole : Yang.Xml.Node.leadingText [.text "true"] = (Value.flag true).literal := rfl
  have hread := (leafValue_leafText_iff htype stable whole).1
  exact ⟨htype, stable, whole, hread.mpr (.inr (by decide))⟩

/-- A text with blanks around it is another text without them. -/
theorem blanks_of_union_lost :
    ¬ ∀ (t : Tree) (limits : Limits) (i : NodeId) (v : Value), t.Reachable →
      (Context.ofTree t limits).leafValue i v.literal = .ok v →
      (Context.ofTree t limits).leafValue i
        (leafText (Context.ofTree t limits) i [.text v.literal]) = .ok v := by
  intro claim
  have stable : remarksContext.leafValue 1 " tall " = .ok (.text " tall ") := by decide
  have htrimmed : remarksContext.leafValue 1 (leafText remarksContext 1 [.text " tall "]) =
      .ok (.text "tall") := by
    decide
  have h := claim remarksContext.tree {} 1 (.text " tall ")
    (Tree.Reachable.of_ofStatements ofStatements_remarks)
  rw [ofTree_remarks] at h
  have hsame : Value.text " tall " = .text "tall" :=
    Except.ok.inj ((h stable).symm.trans htrimmed)
  exact absurd (Value.text.inj hsame) (by decide)

end Codec

end Yang
