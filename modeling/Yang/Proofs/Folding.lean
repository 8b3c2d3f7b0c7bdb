import Yang.Name

/-!
# Folding names

A segment of a path is compared with the attribute name of a node, and the comparison
folds both sides once more. For the names of schema nodes, which are identifiers and so
consist of ASCII characters, folding twice is folding once: a segment matches the
attribute name of a node if it matches the node's name.
-/

namespace Yang.Name

def IsAscii (cs : List Char) : Prop := ∀ c ∈ cs, c.toNat < 0x80

/-- What holds of the first characters holds of every ASCII character. Facts
about them are checked one by one. -/
theorem of_ascii {p : Char → Prop} (h : ∀ n, n < 0x80 → p (Char.ofNat n)) {c : Char}
    (hc : c.toNat < 0x80) : p c := by
  have hp := h c.toNat hc
  rwa [Char.ofNat_toNat] at hp

theorem isSeparator_toLower {c : Char} (hc : c.toNat < 0x80) :
    isSeparator c.toLower = isSeparator c :=
  of_ascii (p := fun c => isSeparator c.toLower = isSeparator c) (by decide) hc

theorem isSeparator_toUpper {c : Char} (hc : c.toNat < 0x80) :
    isSeparator c.toUpper = isSeparator c :=
  of_ascii (p := fun c => isSeparator c.toUpper = isSeparator c) (by decide) hc

theorem toLower_toLower {c : Char} (hc : c.toNat < 0x80) : c.toLower.toLower = c.toLower :=
  of_ascii (p := fun c => c.toLower.toLower = c.toLower) (by decide) hc

theorem toNat_toLower_lt {c : Char} (hc : c.toNat < 0x80) : c.toLower.toNat < 0x80 :=
  of_ascii (p := fun c => c.toLower.toNat < 0x80) (by decide) hc

theorem isSeparator_of_mem_attributeRest {cs : List Char} (hcs : IsAscii cs) {capital : Bool} :
    ∀ c ∈ attributeRest capital cs, isSeparator c = false := by
  induction cs generalizing capital with
  | nil => nofun
  | cons d ds ih =>
      have hd : d.toNat < 0x80 := hcs d (List.mem_cons_self ..)
      have hds : IsAscii ds := fun c hc => hcs c (List.mem_cons_of_mem d hc)
      rw [attributeRest]
      split
      · exact ih hds
      · rename_i hsep
        have hsep : isSeparator d = false := Bool.eq_false_iff.mpr hsep
        intro c hc
        rcases List.mem_append.mp hc with hfirst | hrest
        · split at hfirst
          · rw [Text.upper_of_ascii hd, List.mem_singleton] at hfirst
            rw [hfirst, isSeparator_toUpper hd, hsep]
          · rw [List.mem_singleton.mp hfirst, hsep]
        · exact ih hds c hrest

theorem attributeRest_of_plain {cs : List Char} (h : ∀ c ∈ cs, isSeparator c = false) :
    attributeRest false cs = cs := by
  induction cs with
  | nil => rfl
  | cons d ds ih =>
      have hd : isSeparator d = false := h d (List.mem_cons_self ..)
      rw [attributeRest, hd, ih fun c hc => h c (List.mem_cons_of_mem d hc)]
      rfl

/-- The attribute name of an attribute name is itself, since it has no
separators that could make a letter a capital. -/
theorem attributeChars_attributeChars {cs : List Char} (hcs : IsAscii cs) :
    attributeChars (attributeChars cs) = attributeChars cs := by
  induction cs with
  | nil => rfl
  | cons d ds ih =>
      have hd : d.toNat < 0x80 := hcs d (List.mem_cons_self ..)
      have hds : IsAscii ds := fun c hc => hcs c (List.mem_cons_of_mem d hc)
      rw [attributeChars]
      split
      · exact ih hds
      · rename_i hsep
        have hsep : isSeparator d.toLower = false := by
          rw [isSeparator_toLower hd]
          exact Bool.eq_false_iff.mpr hsep
        rw [Text.lower_of_ascii hd, List.singleton_append, attributeChars, hsep,
          Text.lower_of_ascii (toNat_toLower_lt hd), toLower_toLower hd,
          attributeRest_of_plain (isSeparator_of_mem_attributeRest hds)]
        rfl

theorem toNat_lt_of_isAlphanum {c : Char} (h : c.isAlphanum = true) : c.toNat < 0x80 := by
  change (decide ('A'.val ≤ c.val ∧ c.val ≤ 'Z'.val) ||
    (decide ('a'.val ≤ c.val) && decide (c.val ≤ 'z'.val)) ||
    (decide ('0'.val ≤ c.val) && decide (c.val ≤ '9'.val))) = true at h
  simp only [Bool.or_eq_true, Bool.and_eq_true, decide_eq_true_eq, UInt32.le_iff_toNat_le] at h
  change (((65 ≤ c.toNat ∧ c.toNat ≤ 90) ∨ (97 ≤ c.toNat ∧ c.toNat ≤ 122)) ∨
    (48 ≤ c.toNat ∧ c.toNat ≤ 57)) at h
  omega

theorem toNat_lt_of_isPart {c : Char} (h : isPart c = true) : c.toNat < 0x80 := by
  simp only [isPart, Bool.or_eq_true, beq_iff_eq] at h
  rcases h with ((halnum | rfl) | rfl) | rfl
  · exact toNat_lt_of_isAlphanum halnum
  · decide
  · decide
  · decide

theorem isPart_of_isStart {c : Char} (h : isStart c = true) : isPart c = true := by
  simp only [isStart, Bool.or_eq_true, beq_iff_eq] at h
  rcases h with halpha | rfl
  · simp [isPart, Char.isAlphanum, halpha]
  · decide

theorem isPart_of_isIdentifier {s : String} (h : isIdentifier s = true) :
    ∀ c ∈ s.toList, isPart c = true := by
  rw [isIdentifier] at h
  cases hs : s.toList with
  | nil => nofun
  | cons d ds =>
      rw [hs, Bool.and_eq_true, List.all_eq_true] at h
      intro c hc
      rcases List.mem_cons.mp hc with rfl | hrest
      · exact isPart_of_isStart h.1
      · exact h.2 c hrest

theorem notMem_of_isIdentifier {s : String} (h : isIdentifier s = true) {c : Char}
    (hc : isPart c = false) : c ∉ s.toList := by
  intro hmem
  rw [isPart_of_isIdentifier h c hmem] at hc
  cases hc

theorem isAscii_of_isIdentifier {s : String} (h : isIdentifier s = true) : IsAscii s.toList :=
  fun c hc => toNat_lt_of_isPart (isPart_of_isIdentifier h c hc)

theorem checkIdentifier_eq_ok_iff {s : String} :
    checkIdentifier s = .ok () ↔ isIdentifier s = true := by
  rw [checkIdentifier]
  split <;> simp_all

theorem attributeName_attributeName {name : String} (h : IsAscii name.toList) :
    attributeName (attributeName name) = attributeName name := by
  rw [attributeName, toList_attributeName, attributeChars_attributeChars h, attributeName]

/-- A segment matches the attribute name of a name if it matches the name.
Entries are compared in this form. -/
theorem segmentMatches_attributeName {name : String} (h : IsAscii name.toList)
    (segment : String) :
    segmentMatches segment (attributeName name) = segmentMatches segment name := by
  rw [segmentMatches, attributeName_attributeName h, segmentMatches]

end Yang.Name
