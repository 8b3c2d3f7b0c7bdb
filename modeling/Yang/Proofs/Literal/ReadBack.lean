import Yang.Proofs.Base64.Canonical
import Yang.Proofs.Codec.JsonReading
import Yang.Proofs.Folding
import Yang.Proofs.Joined
import Yang.Proofs.Literal.Decimal

/-!
# Values that are read back

The canonical literal of a value can differ from the literal that was read: a number is
written in base ten and without superfluous zeros in front, bytes are written without blanks,
and of bits each is named once. Read with the same type, the canonical literal gives the
value again, and it is also what codecs take from the JSON form of the value.
-/

namespace Yang

namespace Text

/-- Texts without blanks are the words of what they are joined to by spaces. -/
theorem words_intercalate {names : List String} (nonempty : ∀ name ∈ names, name ≠ "")
    (solid : ∀ name ∈ names, ∀ c ∈ name.toList, isBlank c = false) :
    words (" ".intercalate names) = names := by
  have hnonempty : ∀ name ∈ names.map String.toList, name ≠ [] := by
    simpa using nonempty
  have hsplit : (([' '].intercalate (names.map String.toList)).splitOnP isBlank).filter
      (fun w => !w.isEmpty) = names.map String.toList :=
    filter_splitOnP_intercalate rfl hnonempty (List.forall_mem_map.mpr solid)
  have hback : String.ofList ∘ String.toList = id := funext fun _ => String.ofList_toList
  have hspace : " ".toList = [' '] := rfl
  rw [words, String.toList_intercalate, hspace, hsplit, List.map_map, hback, List.map_id]

end Text

namespace Name

theorem isBlank_of_isIdentifier {s : String} (h : isIdentifier s = true) :
    ∀ c ∈ s.toList, Text.isBlank c = false := by
  intro c hc
  have hpart := isPart_of_isIdentifier h c hc
  exact of_ascii (p := fun c => isPart c = true → Text.isBlank c = false) (by decide)
    (toNat_lt_of_isPart hpart) hpart

theorem ne_empty_of_isIdentifier {s : String} (h : isIdentifier s = true) : s ≠ "" := by
  rintro rfl
  cases h

end Name

namespace Literal

theorem isDecimal64_of_decimal64 {raw : String} {d : Decimal} (h : decimal64 raw = .ok d) :
    IsDecimal64 d :=
  (decimal64_eq_ok_iff.mp h).2.2

theorem binary_encode (bytes : List UInt8) :
    binary (String.ofList (Base64.encode bytes)) = .ok bytes :=
  binary_eq_ok_iff.mpr (withoutBlanks_encode bytes).symm

/-- Collected names are identifiers, and none is there twice. So their text has
them as its words, and in the same order. -/
theorem collectBits_eq_ok {seen names found : List String} (h : collectBits seen names = .ok found)
    (distinct : seen.Nodup) (identifiers : ∀ name ∈ seen, Name.isIdentifier name = true) :
    found.Nodup ∧ ∀ name ∈ found, Name.isIdentifier name = true := by
  induction names generalizing seen with
  | nil =>
      obtain rfl := Except.ok.inj h
      exact ⟨distinct, identifiers⟩
  | cons name rest ih =>
      rw [collectBits] at h
      split at h
      · rename_i hname
        split at h
        · exact ih h distinct identifiers
        · rename_i hnew
          refine ih h (List.concat_eq_append ▸ List.Nodup.concat hnew distinct) ?_
          intro other hother
          rcases List.mem_append.mp hother with hseen | hlast
          · exact identifiers other hseen
          · rwa [List.mem_singleton.mp hlast]
      · cases h

theorem collectBits_of_nodup {seen names : List String} (distinct : (seen ++ names).Nodup)
    (identifiers : ∀ name ∈ names, Name.isIdentifier name = true) :
    collectBits seen names = .ok (seen ++ names) := by
  induction names generalizing seen with
  | nil => rw [List.append_nil, collectBits]
  | cons name rest ih =>
      obtain ⟨hname, hrest⟩ := List.forall_mem_cons.mp identifiers
      rw [List.append_cons] at distinct ⊢
      have hnew : name ∉ seen := by
        have hseen := List.Nodup.of_append_left distinct
        rw [← List.concat_eq_append, List.nodup_concat] at hseen
        exact hseen.1
      rw [collectBits, if_pos hname, if_neg hnew]
      exact ih distinct hrest

theorem bits_intercalate {raw : String} {names : List String} (h : bits raw = .ok names) :
    bits (" ".intercalate names) = .ok names := by
  obtain ⟨distinct, identifiers⟩ := collectBits_eq_ok h List.nodup_nil (List.forall_mem_nil _)
  have hwords : Text.words (" ".intercalate names) = names :=
    Text.words_intercalate
      (fun name hname => Name.ne_empty_of_isIdentifier (identifiers name hname))
      fun name hname => Name.isBlank_of_isIdentifier (identifiers name hname)
  rw [bits, hwords]
  exact collectBits_of_nodup distinct identifiers

end Literal

namespace Value

/-- A type reads the canonical literal of each of its values as that value. For
most types the literal is the text that was read, or its digits are. -/
theorem parse_literal {raw : String} {t : Builtin} {v : Value} (h : parse raw t = .ok v) :
    parse v.literal t = .ok v := by
  cases t with
  | integer t =>
      simp only [parse, bind_eq_ok_iff, pure_eq_ok_iff] at h
      obtain ⟨⟨n, holds⟩, -, rfl⟩ := h
      rw [literal, parse, Literal.integerOf_toString holds]
      rfl
  | decimal64 =>
      rw [parse, map_eq_ok_iff] at h
      obtain ⟨d, hd, rfl⟩ := h
      rw [literal, parse, Literal.decimal64_text (Literal.isDecimal64_of_decimal64 hd)]
      rfl
  | boolean =>
      rw [parse, map_eq_ok_iff] at h
      obtain ⟨b, -, rfl⟩ := h
      cases b <;> rfl
  | binary =>
      rw [parse, map_eq_ok_iff] at h
      obtain ⟨bytes, -, rfl⟩ := h
      rw [literal, parse, Literal.binary_encode]
      rfl
  | bits =>
      rw [parse, map_eq_ok_iff] at h
      obtain ⟨names, hnames, rfl⟩ := h
      rw [literal, parse, Literal.bits_intercalate hnames]
      rfl
  | empty =>
      -- the two truth values are written as the literals that the type takes for them
      rw [parse] at h
      split at h
      · obtain rfl := Except.ok.inj h
        rfl
      · split at h
        · rename_i b _
          obtain rfl := Except.ok.inj h
          cases b <;> rfl
        · cases h
  | string =>
      obtain rfl := Except.ok.inj h
      rfl
  | enumeration | identityref | instanceIdentifier =>
      -- such values keep their literal
      have hparse := h
      simp only [parse, bind_eq_ok_iff, exists_unit_iff, pure_eq_ok_iff] at h
      obtain ⟨-, rfl⟩ := h
      exact hparse
  | _ => cases h

/-- What a type reads from a literal, it reads again from the canonical literal
of the value, down to the scale of a decimal number and the order of bits; and
that literal is the one that codecs take from the JSON form of the value. -/
theorem read_back {raw : String} {t : Builtin} {v : Value} (h : parse raw t = .ok v) :
    parse v.literal t = .ok v ∧ Codec.Json.literal v.json = .ok v.literal :=
  ⟨parse_literal h, Codec.Json.literal_json v⟩

/-- A bit that is named twice is written once, and read back. -/
theorem read_back_bits :
    parse "up  running up" .bits = .ok (.bits ["up", "running"]) ∧
      parse "up running" .bits = .ok (.bits ["up", "running"]) ∧
      Codec.Json.literal (.string "up running") = .ok "up running" := by
  have h : parse "up  running up" .bits = .ok (.bits ["up", "running"]) := by decide
  exact ⟨h, read_back h⟩

end Value

end Yang
