import Mathlib.Algebra.Ring.Nat
import Yang.Proofs.Base64
import Yang.Proofs.Folding
import Yang.Proofs.Literal.Faults

/-!
# Canonical Base64 texts

A text is canonical if it has whole groups of four characters of the alphabet, of which one or
two equal signs may take the last places, and if the bits that the padding leaves over are zero.
Canonical texts are those that byte sequences have, and those that are decoded. So a byte
sequence has one text, up to the blanks in it.
-/

namespace Yang

namespace Base64

/-- The characters that write six bits, in the order of the numbers that they
write. -/
def alphabet : List Char :=
  ['A', 'B', 'C', 'D', 'E', 'F', 'G', 'H', 'I', 'J', 'K', 'L', 'M',
    'N', 'O', 'P', 'Q', 'R', 'S', 'T', 'U', 'V', 'W', 'X', 'Y', 'Z',
    'a', 'b', 'c', 'd', 'e', 'f', 'g', 'h', 'i', 'j', 'k', 'l', 'm',
    'n', 'o', 'p', 'q', 'r', 's', 't', 'u', 'v', 'w', 'x', 'y', 'z',
    '0', '1', '2', '3', '4', '5', '6', '7', '8', '9', '+', '/']

/-- Characters of the alphabet and a padding up to a multiple of four. With each
equal sign of the padding the last character in front of it leaves over two
bits, which are zero. -/
def IsCanonical (cs : List Char) : Prop :=
  ∃ body padding, cs = body ++ List.replicate padding '=' ∧ padding ≤ 2 ∧ cs.length % 4 = 0 ∧
    (∀ c ∈ body, c ∈ alphabet) ∧ ∀ c ∈ body.getLast?, alphabet.idxOf c % 4 ^ padding = 0

section Alphabet

variable {c : Char} {n : Nat}

theorem mem_alphabet_iff : c ∈ alphabet ↔ ∃ n < 64, c = char n := by
  have halphabet : alphabet = (List.range 64).map char := by decide +kernel
  rw [halphabet, List.mem_map]
  simp only [List.mem_range, eq_comm]

theorem char_mem_alphabet (h : n < 64) : char n ∈ alphabet := mem_alphabet_iff.mpr ⟨n, h, rfl⟩

theorem idxOf_char (h : n < 64) : alphabet.idxOf (char n) = n := by
  have hall : ∀ n < 64, alphabet.idxOf (char n) = n := by decide +kernel
  exact hall n h

theorem value?_of_mem (h : c ∈ alphabet) : value? c = some (alphabet.idxOf c) := by
  obtain ⟨n, hn, rfl⟩ := mem_alphabet_iff.mp h
  rw [value?_char hn, idxOf_char hn]

theorem ne_padding_of_mem (h : c ∈ alphabet) : c ≠ '=' := by
  rintro rfl
  revert h
  decide

/-- The characters that have a value are ASCII. -/
theorem toNat_lt_of_value? (h : value? c = some n) : c.toNat < 0x80 := by
  have hle : ∀ last : Char, last.toNat < 0x80 → c ≤ last → c.toNat < 0x80 :=
    fun last hlast hc => Nat.lt_of_le_of_lt hc hlast
  rw [value?] at h
  split at h
  · rename_i hcapital
    exact hle 'Z' (by decide) hcapital.2
  · split at h
    · rename_i hsmall
      exact hle 'z' (by decide) hsmall.2
    · split at h
      · rename_i hdigit
        exact hle '9' (by decide) hdigit.2
      · split at h
        · rename_i hplus
          rw [hplus]
          decide
        · split at h
          · rename_i hslash
            rw [hslash]
            decide
          · cases h

/-- The characters that have a value are those by which it is written. -/
theorem value?_eq_some_iff : value? c = some n ↔ n < 64 ∧ c = char n := by
  constructor
  · intro h
    have hall : ∀ m ∈ value? c, m < 64 ∧ c = char m :=
      Name.of_ascii (p := fun c => ∀ m ∈ value? c, m < 64 ∧ c = char m) (by decide +kernel)
        (toNat_lt_of_value? h)
    exact hall n h
  · rintro ⟨hn, rfl⟩
    exact value?_char hn

end Alphabet

section Groups

variable {a b c d : Char} {bytes : List UInt8}

private theorem toNat_ofNat_of_lt {n : Nat} (h : n < 256) : (UInt8.ofNat n).toNat = n := by
  rw [UInt8.toNat_ofNat', Nat.mod_eq_of_lt h]

theorem encode_of_lastByte? (h : lastByte? a b = some bytes) : encode bytes = [a, b, '=', '='] := by
  simp only [lastByte?, Option.bind_eq_bind, Option.bind_eq_some_iff, value?_eq_some_iff] at h
  obtain ⟨x, ⟨hx, rfl⟩, y, ⟨hy, rfl⟩, h⟩ := h
  split at h
  · rename_i hzero
    obtain rfl := Option.some.inj h
    have hfirst : (x * 4 + y / 16) / 4 = x := by omega
    have hsecond : (x * 4 + y / 16) % 4 * 16 = y := by omega
    rw [encode, toNat_ofNat_of_lt (by omega), hfirst, hsecond]
  · cases h

theorem encode_of_lastBytes? (h : lastBytes? a b c = some bytes) :
    encode bytes = [a, b, c, '='] := by
  simp only [lastBytes?, Option.bind_eq_bind, Option.bind_eq_some_iff, value?_eq_some_iff] at h
  obtain ⟨x, ⟨hx, rfl⟩, y, ⟨hy, rfl⟩, z, ⟨hz, rfl⟩, h⟩ := h
  split at h
  · rename_i hzero
    obtain rfl := Option.some.inj h
    have hfirst : (x * 4 + y / 16) / 4 = x := by omega
    have hsecond : (x * 4 + y / 16) % 4 * 16 + (y % 16 * 16 + z / 4) / 16 = y := by omega
    have hthird : (y % 16 * 16 + z / 4) % 16 * 4 = z := by omega
    rw [encode, toNat_ofNat_of_lt (by omega), toNat_ofNat_of_lt (by omega), hfirst, hsecond, hthird]
  · cases h

theorem encode_of_group? (h : group? a b c d = some bytes) (others : List UInt8) :
    encode (bytes ++ others) = a :: b :: c :: d :: encode others := by
  simp only [group?, Option.bind_eq_bind, Option.bind_eq_some_iff, value?_eq_some_iff,
    Option.some.injEq] at h
  obtain ⟨x, ⟨hx, rfl⟩, y, ⟨hy, rfl⟩, z, ⟨hz, rfl⟩, w, ⟨hw, rfl⟩, rfl⟩ := h
  have hfirst : (x * 4 + y / 16) / 4 = x := by omega
  have hsecond : (x * 4 + y / 16) % 4 * 16 + (y % 16 * 16 + z / 4) / 16 = y := by omega
  have hthird : (y % 16 * 16 + z / 4) % 16 * 4 + (z % 4 * 64 + w) / 64 = z := by omega
  have hfourth : (z % 4 * 64 + w) % 64 = w := by omega
  simp only [List.cons_append, List.nil_append, encode]
  rw [toNat_ofNat_of_lt (by omega), toNat_ofNat_of_lt (by omega), toNat_ofNat_of_lt (by omega),
    hfirst, hsecond, hthird, hfourth]

/-- What is decoded is the text of the bytes. So no text is decoded that has
spare bits or a padding of its own. -/
theorem encode_of_decode? {cs : List Char} (h : decode? cs = some bytes) : encode bytes = cs := by
  fun_induction decode? cs generalizing bytes with
  | case1 =>
      obtain rfl := Option.some.inj h
      rfl
  | case2 a b => exact encode_of_lastByte? h
  | case3 a b c => exact encode_of_lastBytes? h
  | case4 a b c d =>
      rw [← List.append_nil bytes, encode_of_group? h]
      rfl
  | case5 a b c d rest ne ih =>
      simp only [Option.bind_eq_bind, Option.bind_eq_some_iff, Option.some.injEq] at h
      obtain ⟨first, hfirst, others, hothers, rfl⟩ := h
      rw [encode_of_group? hfirst, ih hothers]
  | case6 => cases h

theorem decode?_eq_some_iff {cs : List Char} : decode? cs = some bytes ↔ encode bytes = cs :=
  ⟨encode_of_decode?, fun h => h ▸ decode?_encode bytes⟩

end Groups

section Canonical

variable {a b c d : Char} {cs : List Char}

theorem isCanonical_nil : IsCanonical [] :=
  ⟨[], 0, rfl, by decide, rfl, List.forall_mem_nil _, by simp⟩

theorem getLast?_group (hne : cs ≠ []) : (a :: b :: c :: d :: cs).getLast? = cs.getLast? :=
  List.getLast?_append_of_ne_nil [a, b, c, d] hne

theorem IsCanonical.group (h : IsCanonical cs)
    (hgroup : ∀ x ∈ [a, b, c, d], x ∈ alphabet) : IsCanonical (a :: b :: c :: d :: cs) := by
  obtain ⟨body, padding, rfl, hpadding, hlength, hbody, hlast⟩ := h
  refine ⟨a :: b :: c :: d :: body, padding, rfl, hpadding, ?_, ?_, ?_⟩
  · simp only [List.length_cons]
    omega
  · exact List.forall_mem_append.mpr ⟨hgroup, hbody⟩
  · rcases eq_or_ne body [] with rfl | hne
    · obtain rfl : padding = 0 := by
        simp only [List.nil_append, List.length_replicate] at hlength
        omega
      intro x _
      exact Nat.mod_one _
    · rwa [getLast?_group hne]

/-- The text of a byte sequence is canonical. -/
theorem isCanonical_encode (bytes : List UInt8) : IsCanonical (encode bytes) := by
  fun_induction encode bytes with
  | case1 => exact isCanonical_nil
  | case2 a =>
      have ha : a.toNat < 256 := a.toNat_lt_size
      refine ⟨[char (a.toNat / 4), char (a.toNat % 4 * 16)], 2, rfl, by decide, by simp, ?_, ?_⟩
      · simp only [List.forall_mem_cons]
        exact ⟨char_mem_alphabet (by omega), char_mem_alphabet (by omega), List.forall_mem_nil _⟩
      · simp [idxOf_char (show a.toNat % 4 * 16 < 64 by omega)]
  | case3 a b =>
      have ha : a.toNat < 256 := a.toNat_lt_size
      have hb : b.toNat < 256 := b.toNat_lt_size
      refine ⟨[char (a.toNat / 4), char (a.toNat % 4 * 16 + b.toNat / 16),
        char (b.toNat % 16 * 4)], 1, rfl, by decide, by simp, ?_, ?_⟩
      · simp only [List.forall_mem_cons]
        exact ⟨char_mem_alphabet (by omega), char_mem_alphabet (by omega),
          char_mem_alphabet (by omega), List.forall_mem_nil _⟩
      · simp [idxOf_char (show b.toNat % 16 * 4 < 64 by omega)]
  | case4 a b c rest ih =>
      have ha : a.toNat < 256 := a.toNat_lt_size
      have hb : b.toNat < 256 := b.toNat_lt_size
      have hc : c.toNat < 256 := c.toNat_lt_size
      refine ih.group ?_
      simp only [List.forall_mem_cons]
      exact ⟨char_mem_alphabet (by omega), char_mem_alphabet (by omega),
        char_mem_alphabet (by omega), char_mem_alphabet (by omega), List.forall_mem_nil _⟩

theorem exists_lastByte? (ha : a ∈ alphabet) (hb : b ∈ alphabet)
    (hzero : alphabet.idxOf b % 16 = 0) : ∃ bytes, lastByte? a b = some bytes := by
  rw [lastByte?, value?_of_mem ha, value?_of_mem hb]
  exact ⟨_, if_pos hzero⟩

theorem exists_lastBytes? (ha : a ∈ alphabet) (hb : b ∈ alphabet) (hc : c ∈ alphabet)
    (hzero : alphabet.idxOf c % 4 = 0) : ∃ bytes, lastBytes? a b c = some bytes := by
  rw [lastBytes?, value?_of_mem ha, value?_of_mem hb, value?_of_mem hc]
  exact ⟨_, if_pos hzero⟩

theorem exists_group? (ha : a ∈ alphabet) (hb : b ∈ alphabet) (hc : c ∈ alphabet)
    (hd : d ∈ alphabet) : ∃ bytes, group? a b c d = some bytes := by
  rw [group?, value?_of_mem ha, value?_of_mem hb, value?_of_mem hc, value?_of_mem hd]
  exact ⟨_, rfl⟩

/-- Characters of the alphabet with a padding are decoded group by group. The
induction is on the number of groups, of which only the last one has the
padding. -/
theorem exists_decode? {body : List Char} {padding groups : Nat} (hpadding : padding ≤ 2)
    (hlength : body.length + padding = 4 * groups) (hbody : ∀ c ∈ body, c ∈ alphabet)
    (hlast : ∀ c ∈ body.getLast?, alphabet.idxOf c % 4 ^ padding = 0) :
    ∃ bytes, decode? (body ++ List.replicate padding '=') = some bytes := by
  induction groups generalizing body with
  | zero =>
      obtain ⟨rfl, rfl⟩ : body = [] ∧ padding = 0 :=
        ⟨List.eq_nil_of_length_eq_zero (by omega), by omega⟩
      exact ⟨[], rfl⟩
  | succ groups ih =>
      -- the padding leaves two characters of a group at least
      obtain _ | ⟨a, _ | ⟨b, _ | ⟨c, _ | ⟨d, body⟩⟩⟩⟩ := body <;>
        simp only [List.length_cons, List.length_nil] at hlength
      · omega
      · omega
      · obtain rfl : padding = 2 := by omega
        simp only [List.forall_mem_cons] at hbody
        obtain ⟨ha, hb, -⟩ := hbody
        exact exists_lastByte? ha hb (hlast b rfl)
      · obtain rfl : padding = 1 := by omega
        simp only [List.forall_mem_cons] at hbody
        obtain ⟨ha, hb, hc, -⟩ := hbody
        obtain ⟨bytes, hbytes⟩ := exists_lastBytes? ha hb hc (hlast c rfl)
        refine ⟨bytes, ?_⟩
        change decode? [a, b, c, '='] = some bytes
        rw [decode?, if_pos rfl, if_neg (ne_padding_of_mem hc), hbytes]
      · simp only [List.forall_mem_cons] at hbody
        obtain ⟨ha, hb, hc, hd, hbody⟩ := hbody
        obtain ⟨first, hfirst⟩ := exists_group? ha hb hc hd
        have hrest : ∀ e ∈ body.getLast?, alphabet.idxOf e % 4 ^ padding = 0 := by
          intro e he
          have hne : body ≠ [] := by
            rintro rfl
            cases he
          exact hlast e (getLast?_group hne ▸ he)
        obtain ⟨others, hothers⟩ := ih (by omega) hbody hrest
        simp only [List.cons_append]
        rw [decode?_cons (ne_padding_of_mem hd), hfirst, hothers]
        exact ⟨_, rfl⟩

/-- The canonical texts are those of byte sequences: the description of the form
and the encoder agree. -/
theorem isCanonical_iff : IsCanonical cs ↔ ∃ bytes, encode bytes = cs := by
  constructor
  · rintro ⟨body, padding, rfl, hpadding, hlength, hbody, hlast⟩
    rw [List.length_append, List.length_replicate] at hlength
    obtain ⟨groups, hgroups⟩ := Nat.dvd_of_mod_eq_zero hlength
    obtain ⟨bytes, hbytes⟩ := exists_decode? hpadding hgroups hbody hlast
    exact ⟨bytes, encode_of_decode? hbytes⟩
  · rintro ⟨bytes, rfl⟩
    exact isCanonical_encode bytes

end Canonical

end Base64

def Text.withoutBlanks (s : String) : List Char := s.toList.filter fun c => !isBlank c

namespace Literal

theorem withoutBlanks_encode (bytes : List UInt8) :
    Text.withoutBlanks (String.ofList (Base64.encode bytes)) = Base64.encode bytes := by
  have hsolid : ∀ x ∈ Base64.encode bytes, Text.isBlank x = false :=
    Base64.forall_mem_encode (by decide) (by decide) bytes
  rw [Text.withoutBlanks, String.toList_ofList, List.filter_eq_self]
  intro x hx
  rw [hsolid x hx]
  rfl

theorem binary_eq_ok_iff {raw : String} {bytes : List UInt8} :
    binary raw = .ok bytes ↔ Base64.encode bytes = Text.withoutBlanks raw := by
  rw [← Base64.decode?_eq_some_iff, binary, Text.withoutBlanks]
  split
  · rename_i found hfound
    rw [hfound, Except.ok.injEq, Option.some.injEq]
  · rename_i hnone
    simp [hnone]

/-- A text is accepted as bytes exactly if it is canonical without its blanks,
and is no Base64 otherwise. Then the bytes are those that have it for their
text, so two texts are accepted as the same bytes exactly if they differ in
blanks only. The text of any bytes is accepted as them. -/
theorem binary_canonical (raw : String) :
    ((∃ bytes, binary raw = .ok bytes) ↔ Base64.IsCanonical (Text.withoutBlanks raw)) ∧
    (binary raw = .error (.literal .notBase64) ↔ ¬Base64.IsCanonical (Text.withoutBlanks raw)) ∧
    (∀ bytes, binary raw = .ok bytes ↔
      (Value.binary bytes).literal.toList = Text.withoutBlanks raw) ∧
    (∀ other, (∃ bytes, binary raw = .ok bytes ∧ binary other = .ok bytes) ↔
      Base64.IsCanonical (Text.withoutBlanks raw) ∧
        Text.withoutBlanks raw = Text.withoutBlanks other) ∧
    ∀ bytes, binary (Value.binary bytes).literal = .ok bytes := by
  have haccepted : (∃ bytes, binary raw = .ok bytes) ↔
      Base64.IsCanonical (Text.withoutBlanks raw) := by
    simp only [binary_eq_ok_iff, Base64.isCanonical_iff]
  refine ⟨haccepted, ?_, ?_, ?_, ?_⟩
  · rw [← haccepted]
    cases hraw : binary raw with
    | ok bytes => simp
    | error e =>
        have he : e = .literal .notBase64 := by
          rw [binary] at hraw
          split at hraw
          · cases hraw
          · exact (Except.error.inj hraw).symm
        simp [he]
  · intro bytes
    rw [binary_eq_ok_iff, Value.literal, String.toList_ofList]
  · intro other
    simp only [binary_eq_ok_iff, Base64.isCanonical_iff]
    constructor
    · rintro ⟨bytes, hraw, hother⟩
      exact ⟨⟨bytes, hraw⟩, hraw.symm.trans hother⟩
    · rintro ⟨⟨bytes, hraw⟩, heq⟩
      exact ⟨bytes, hraw, hraw.trans heq⟩
  · intro bytes
    rw [binary_eq_ok_iff, Value.literal, withoutBlanks_encode]

/-- Blanks are passed over, and bits left over that are not zero are refused. -/
example :
    binary "SGVs\n bG8=" = .ok [72, 101, 108, 108, 111] ∧
      binary "SGVsbG9=" = .error (.literal .notBase64) :=
  ⟨rfl, rfl⟩

end Literal

end Yang
