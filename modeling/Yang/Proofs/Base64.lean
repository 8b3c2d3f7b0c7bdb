import Yang.Base64

/-!
# Base64 texts are decoded

The sixty-four characters of the alphabet stand for the numbers of six bits, and the
padding is none of them. Cutting bytes into groups of six bits and putting the groups
together again gives back the bytes, in a full group and in both padded ones, so the text of
a byte sequence is decoded to it.
-/

namespace Yang.Base64

theorem value?_char {n : Nat} (h : n < 64) : value? (char n) = some n := by
  have hall : ∀ n < 64, value? (char n) = some n := by decide
  exact hall n h

theorem char_ne_padding {n : Nat} (h : n < 64) : char n ≠ '=' := by
  intro heq
  have hvalue := value?_char h
  rw [heq] at hvalue
  cases hvalue

section Groups

variable (a b c : UInt8)

private theorem ofNat_eq {n : Nat} {byte : UInt8} (h : n = byte.toNat) : UInt8.ofNat n = byte := by
  rw [h, UInt8.ofNat_toNat]

theorem group?_chars :
    group? (char (a.toNat / 4)) (char (a.toNat % 4 * 16 + b.toNat / 16))
      (char (b.toNat % 16 * 4 + c.toNat / 64)) (char (c.toNat % 64)) = some [a, b, c] := by
  have ha : a.toNat < 256 := a.toNat_lt_size
  have hb : b.toNat < 256 := b.toNat_lt_size
  have hc : c.toNat < 256 := c.toNat_lt_size
  rw [group?, value?_char (by omega), value?_char (by omega), value?_char (by omega),
    value?_char (by omega)]
  simp only [Option.bind_eq_bind, Option.bind_some, Option.some.injEq, List.cons.injEq, and_true]
  exact ⟨ofNat_eq (by omega), ofNat_eq (by omega), ofNat_eq (by omega)⟩

theorem lastBytes?_chars :
    lastBytes? (char (a.toNat / 4)) (char (a.toNat % 4 * 16 + b.toNat / 16))
      (char (b.toNat % 16 * 4)) = some [a, b] := by
  have ha : a.toNat < 256 := a.toNat_lt_size
  have hb : b.toNat < 256 := b.toNat_lt_size
  rw [lastBytes?, value?_char (by omega), value?_char (by omega), value?_char (by omega)]
  simp only [Option.bind_eq_bind, Option.bind_some, Nat.mul_mod_left, if_true, Option.some.injEq,
    List.cons.injEq, and_true]
  exact ⟨ofNat_eq (by omega), ofNat_eq (by omega)⟩

theorem lastByte?_chars :
    lastByte? (char (a.toNat / 4)) (char (a.toNat % 4 * 16)) = some [a] := by
  have ha : a.toNat < 256 := a.toNat_lt_size
  rw [lastByte?, value?_char (by omega), value?_char (by omega)]
  simp only [Option.bind_eq_bind, Option.bind_some, Nat.mul_mod_left, if_true, Option.some.injEq,
    List.cons.injEq, and_true]
  exact ofNat_eq (by omega)

end Groups

/-- A full group is decoded apart from what follows. It is the step of all
proofs by induction on the groups of a text. -/
theorem decode?_cons {a b c d : Char} (hd : d ≠ '=') (rest : List Char) :
    decode? (a :: b :: c :: d :: rest) =
      (group? a b c d).bind fun first => (decode? rest).map (first ++ ·) := by
  cases rest with
  | nil => cases h : group? a b c d <;> simp [decode?, hd, h]
  | cons e es =>
      rw [decode?]
      · cases group? a b c d with
        | none => rfl
        | some first => cases decode? (e :: es) <;> rfl
      · exact List.cons_ne_nil e es

/-- The text of a byte sequence is decoded to it. -/
theorem decode?_encode (bytes : List UInt8) : decode? (encode bytes) = some bytes := by
  fun_induction encode bytes with
  | case1 => rfl
  | case2 a =>
      rw [decode?, if_pos rfl, if_pos rfl, lastByte?_chars]
  | case3 a b =>
      have hb : b.toNat < 256 := b.toNat_lt_size
      rw [decode?, if_pos rfl, if_neg (char_ne_padding (by omega)), lastBytes?_chars]
  | case4 a b c rest ih =>
      have hc : c.toNat % 64 < 64 := Nat.mod_lt _ (by decide)
      rw [decode?_cons (char_ne_padding hc), group?_chars, ih]
      rfl

theorem forall_mem_encode {p : Char → Prop} (alphabet : ∀ n < 64, p (char n)) (padding : p '=')
    (bytes : List UInt8) : ∀ x ∈ encode bytes, p x := by
  fun_induction encode bytes with
  | case1 => exact List.forall_mem_nil _
  | case2 a =>
      have ha : a.toNat < 256 := a.toNat_lt_size
      simp only [List.forall_mem_cons]
      exact ⟨alphabet _ (by omega), alphabet _ (by omega), padding, padding, List.forall_mem_nil _⟩
  | case3 a b =>
      have ha : a.toNat < 256 := a.toNat_lt_size
      have hb : b.toNat < 256 := b.toNat_lt_size
      simp only [List.forall_mem_cons]
      exact ⟨alphabet _ (by omega), alphabet _ (by omega), alphabet _ (by omega), padding,
        List.forall_mem_nil _⟩
  | case4 a b c rest ih =>
      have ha : a.toNat < 256 := a.toNat_lt_size
      have hb : b.toNat < 256 := b.toNat_lt_size
      have hc : c.toNat < 256 := c.toNat_lt_size
      simp only [List.forall_mem_cons]
      exact ⟨alphabet _ (by omega), alphabet _ (by omega), alphabet _ (by omega),
        alphabet _ (by omega), ih⟩

end Yang.Base64
