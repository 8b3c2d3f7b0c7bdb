import Yang.Json.Printer
import Yang.Text.Digit

/-!
# Digits that are written and read

A number below the base is read back from its digit, so a number is read back from its
decimal digits, and a code unit from its four hexadecimal ones.
-/

namespace Yang

namespace Text

theorem hexDigit?_digitChar {d : Nat} (h : d < 16) : hexDigit? d.digitChar = some d := by
  have hall : ∀ d < 16, hexDigit? d.digitChar = some d := by decide
  exact hall d h

theorem digit?_digitChar {base d : Nat} (hd : d < base) (hbase : base ≤ 16) :
    digit? base d.digitChar = some d := by
  rw [digit?, hexDigit?_digitChar (Nat.lt_of_lt_of_le hd hbase), Option.filter_some_pos]
  exact decide_eq_true hd

theorem digit?_of_isDigit {c : Char} (h : c.isDigit = true) :
    digit? 10 c = some (c.toNat - 48) := by
  have hbound : c.toNat - 48 < 10 := by
    have hle : c.toNat ≤ 57 := (Char.isDigit_iff_toNat.mp h).2
    omega
  rw [digit?, hexDigit?, if_pos h, Option.filter_some_pos]
  exact decide_eq_true hbound

end Text

namespace Json

theorem digitsValue_concat (cs : List Char) (c : Char) :
    digitsValue (cs ++ [c]) = digitsValue cs * 10 + digitValue c := by
  rw [digitsValue, List.map_append, List.map_singleton, Text.ofDigits_concat]
  rfl

theorem digitsValue_decimalDigits (n : Nat) : digitsValue (decimalDigits n) = n := by
  have hdigit : ∀ d, d < 10 → digitValue d.digitChar = d := by
    intro d hd
    rw [digitValue, Text.digit?_digitChar hd (by decide)]
    rfl
  induction n using Nat.strongRecOn with
  | ind n ih =>
      rw [decimalDigits, Nat.toDigits_eq_if (by decide)]
      split
      · rename_i hn
        rw [← List.nil_append [n.digitChar], digitsValue_concat, hdigit n hn]
        exact Nat.zero_add n
      · rename_i hn
        have hlt : n / 10 < n := Nat.div_lt_self (by omega) (by decide)
        rw [digitsValue_concat, ← decimalDigits, ih (n / 10) hlt,
          hdigit (n % 10) (Nat.mod_lt n (by decide))]
        exact Nat.div_add_mod' n 10

theorem digit?_eq_digitValue {c : Char} (h : c.isDigit = true) :
    Text.digit? 10 c = some (digitValue c) := by
  rw [digitValue, Text.digit?_of_isDigit h]
  rfl

theorem number?_of_isDigit {cs : List Char} (h : ∀ c ∈ cs, c.isDigit = true) :
    Text.number? 10 cs = some (digitsValue cs) := by
  have hdigits : cs.mapM (Text.digit? 10) = some (cs.map digitValue) := by
    induction cs with
    | nil => rfl
    | cons c cs ih =>
        obtain ⟨hc, hcs⟩ := List.forall_mem_cons.mp h
        rw [List.mapM_cons, digit?_eq_digitValue hc, ih hcs]
        rfl
  rw [Text.number?, hdigits]
  rfl

theorem isDigit_of_mem_decimalDigits {n : Nat} : ∀ c ∈ decimalDigits n, c.isDigit = true :=
  fun _ hc => Nat.isDigit_of_mem_toDigits (by decide) (by decide) hc

theorem decimalDigits_ne_nil (n : Nat) : decimalDigits n ≠ [] := Nat.toDigits_ne_nil

/-- Only zero begins with the digit zero. So no number is taken for one in base
eight when it is read back. -/
theorem head?_decimalDigits_of_pos {n : Nat} (h : 0 < n) : (decimalDigits n).head? ≠ some '0' := by
  induction n using Nat.strongRecOn with
  | ind n ih =>
      rw [decimalDigits, Nat.toDigits_eq_if (by decide)]
      split
      · simp
        omega
      · rename_i hn
        have hlt : n / 10 < n := Nat.div_lt_self (by omega) (by decide)
        have hhead := ih (n / 10) hlt (Nat.div_pos (by omega) (by decide))
        obtain ⟨c, cs, hcs⟩ := List.exists_cons_of_ne_nil (decimalDigits_ne_nil (n / 10))
        rw [← decimalDigits, hcs]
        rw [hcs] at hhead
        exact hhead

/-- A number is read back from its decimal digits. -/
theorem number?_decimalDigits (n : Nat) : Text.number? 10 (decimalDigits n) = some n := by
  rw [number?_of_isDigit isDigit_of_mem_decimalDigits, digitsValue_decimalDigits]

/-- A number has its decimal digits for its text. -/
theorem toString_eq_decimalDigits (n : Nat) : (toString n).toList = decimalDigits n :=
  Nat.toList_repr

/-- The text of an integer is a minus if it is negative, and its digits. -/
theorem toList_toString (n : Int) :
    (toString n).toList = (if n < 0 then ['-'] else []) ++ decimalDigits n.natAbs := by
  cases n with
  | ofNat n =>
      rw [if_neg (by simp)]
      exact toString_eq_decimalDigits n
  | negSucc n =>
      rw [if_pos (Int.negSucc_lt_zero n)]
      change ("-" ++ toString (n + 1)).toList = '-' :: decimalDigits (n + 1)
      rw [String.toList_append, toString_eq_decimalDigits]
      rfl

theorem hexUnit?_hexDigit {n : Nat} (h : n < 0x10000) :
    hexUnit? (hexDigit (n / 4096 % 16)) (hexDigit (n / 256 % 16)) (hexDigit (n / 16 % 16))
      (hexDigit (n % 16)) = some n := by
  have hdigit : ∀ d, Text.digit? 16 (hexDigit (d % 16)) = some (d % 16) :=
    fun d => Text.digit?_digitChar (Nat.mod_lt d (by decide)) (by decide)
  simp only [hexUnit?, Text.number?, List.mapM_cons, List.mapM_nil, hdigit, Option.pure_def,
    Option.bind_eq_bind, Option.bind_some, Option.map_some, Text.ofDigits, List.foldl_cons,
    List.foldl_nil, Option.some.injEq]
  omega

end Json

end Yang
