import Mathlib.Data.List.Induction
import Mathlib.Tactic.Ring
import Yang.Proofs.Literal.Faults
import Yang.Proofs.Literal.Integer

/-!
# The grammar of integer literals

An integer literal is a sign or none and a numeral, in one of three bases. `Numeral` and
`Denotes` say so of the characters and tell the integer that they denote, whatever its size,
without going through the wide range into which literals are read. Within the width of a type
the two agree: the literals of the type are those that denote a number of its width.
-/

namespace Yang

def IntegerType.Fits (t : IntegerType) (n : Int) : Prop :=
  if t.isSigned then -2 ^ (t.width - 1) ≤ n ∧ n < 2 ^ (t.width - 1) else 0 ≤ n ∧ n < 2 ^ t.width

theorem IntegerType.holds_iff_fits {t : IntegerType} {n : Int} : t.Holds n ↔ t.Fits n := by
  have hpower : ∀ k, (twoTo k : Int) = 2 ^ k := fun k => Int.natCast_pow 2 k
  simp only [Holds, Fits, least, greatest, hpower]
  split
  · rw [Int.le_sub_one_iff]
  · rw [Int.le_sub_one_iff]

namespace Literal

/-- A digit of a base and its value. Letters may be small or capital. -/
def IsDigit (base : Nat) (c : Char) (d : Nat) : Prop :=
  d < base ∧ (c = d.digitChar ∨ c = d.digitChar.toUpper)

instance (base : Nat) (c : Char) (d : Nat) : Decidable (IsDigit base c d) :=
  inferInstanceAs (Decidable (_ ∧ _))

/-- The digits write a number, the first of them counting most. No digits write
zero, so numerals ask for one digit at least. -/
inductive Writes (base : Nat) : List Char → Nat → Prop
  | nil : Writes base [] 0
  | cons {c : Char} {cs : List Char} {d n : Nat} (first : IsDigit base c d)
      (rest : Writes base cs n) : Writes base (c :: cs) (d * base ^ cs.length + n)

/-- A numeral and the number that it writes. The mark of its base decides how
its digits count; a single zero has no mark. -/
inductive Numeral : List Char → Nat → Prop
  | decimal {cs : List Char} {n : Nat} (ne : cs ≠ []) (noMark : cs.head? = some '0' → cs = ['0'])
      (digits : Writes 10 cs n) : Numeral cs n
  | hexadecimal {x : Char} {cs : List Char} {n : Nat} (mark : x = 'x' ∨ x = 'X') (ne : cs ≠ [])
      (digits : Writes 16 cs n) : Numeral ('0' :: x :: cs) n
  | octal {cs : List Char} {n : Nat} (ne : cs ≠ []) (digits : Writes 8 cs n) :
      Numeral ('0' :: cs) n

/-- A literal and the integer that it denotes. -/
inductive Denotes : List Char → Int → Prop
  | unsigned {cs : List Char} {n : Nat} (h : Numeral cs n) : Denotes cs n
  | plus {cs : List Char} {n : Nat} (h : Numeral cs n) : Denotes ('+' :: cs) n
  | minus {cs : List Char} {n : Nat} (h : Numeral cs n) : Denotes ('-' :: cs) (-n)

section Digits

variable {base d n : Nat} {c : Char} {cs : List Char} {ds : List Nat}

theorem of_code {p : Char → Nat → Prop} {first last shift : Nat}
    (h : ∀ k, first ≤ k → k ≤ last → p (Char.ofNat k) (k - shift)) (hfirst : first ≤ c.toNat)
    (hlast : c.toNat ≤ last) : p c (c.toNat - shift) := by
  have hc := h c.toNat hfirst hlast
  rwa [Char.ofNat_toNat] at hc

theorem hexDigit?_eq_some_iff : Text.hexDigit? c = some d ↔ IsDigit 16 c d := by
  constructor
  · intro h
    rw [Text.hexDigit?] at h
    split at h
    · rename_i hdigit
      obtain rfl := Option.some.inj h
      obtain ⟨hfirst, hlast⟩ := Char.isDigit_iff_toNat.mp hdigit
      exact of_code (p := IsDigit 16) (by decide) hfirst hlast
    · split at h
      · rename_i hletter
        obtain rfl := Option.some.inj h
        exact of_code (p := IsDigit 16) (by decide) hletter.1 hletter.2
      · split at h
        · rename_i hletter
          obtain rfl := Option.some.inj h
          exact of_code (p := IsDigit 16) (by decide) hletter.1 hletter.2
        · cases h
  · have hwritten : ∀ d < 16, Text.hexDigit? d.digitChar = some d ∧
        Text.hexDigit? d.digitChar.toUpper = some d := by decide
    rintro ⟨hd, rfl | rfl⟩
    · exact (hwritten d hd).1
    · exact (hwritten d hd).2

/-- The digits that are read are those of the base. -/
theorem digit?_eq_some_iff (hbase : base ≤ 16) :
    Text.digit? base c = some d ↔ IsDigit base c d := by
  rw [Text.digit?, Option.filter_eq_some_iff, decide_eq_true_eq, hexDigit?_eq_some_iff]
  constructor
  · rintro ⟨⟨-, heq⟩, hd⟩
    exact ⟨hd, heq⟩
  · rintro ⟨hd, heq⟩
    exact ⟨⟨Nat.lt_of_lt_of_le hd hbase, heq⟩, hd⟩

theorem not_isDigit_of_mark (hbase : base ≤ 16) (mark : c ∈ ['-', '+', 'x', 'X']) :
    ¬IsDigit base c d := by
  have hmarks : ∀ d < 16, c ≠ d.digitChar ∧ c ≠ d.digitChar.toUpper := by
    simp only [List.mem_cons, List.not_mem_nil, or_false] at mark
    rcases mark with rfl | rfl | rfl | rfl <;> decide
  rintro ⟨hd, heq⟩
  obtain ⟨hsmall, hcapital⟩ := hmarks d (Nat.lt_of_lt_of_le hd hbase)
  exact heq.elim hsmall hcapital

theorem ofDigits_cons (base d : Nat) (ds : List Nat) :
    Text.ofDigits base (d :: ds) = d * base ^ ds.length + Text.ofDigits base ds := by
  induction ds using List.reverseRecOn with
  | nil => simp [Text.ofDigits]
  | append_singleton ds e ih =>
      rw [← List.cons_append, Text.ofDigits_concat, Text.ofDigits_concat, ih, List.length_append,
        List.length_singleton]
      ring

theorem writes_of_mapM (hbase : base ≤ 16) (h : cs.mapM (Text.digit? base) = some ds) :
    ds.length = cs.length ∧ Writes base cs (Text.ofDigits base ds) := by
  induction cs generalizing ds with
  | nil =>
      obtain rfl := Option.some.inj h
      exact ⟨rfl, .nil⟩
  | cons c cs ih =>
      simp only [List.mapM_cons, Option.bind_eq_bind, Option.bind_eq_some_iff, Option.pure_def,
        Option.some.injEq] at h
      obtain ⟨d, hd, ds, hds, rfl⟩ := h
      obtain ⟨hlength, hwrites⟩ := ih hds
      rw [ofDigits_cons, hlength]
      exact ⟨congrArg Nat.succ hlength, .cons ((digit?_eq_some_iff hbase).mp hd) hwrites⟩

theorem Writes.exists_mapM (hbase : base ≤ 16) (h : Writes base cs n) :
    ∃ ds, cs.mapM (Text.digit? base) = some ds ∧ ds.length = cs.length ∧
      Text.ofDigits base ds = n := by
  induction h with
  | nil => exact ⟨[], rfl, rfl, rfl⟩
  | @cons c cs d n first rest ih =>
      obtain ⟨ds, hds, hlength, rfl⟩ := ih
      refine ⟨d :: ds, ?_, congrArg Nat.succ hlength, by rw [ofDigits_cons, hlength]⟩
      rw [List.mapM_cons, (digit?_eq_some_iff hbase).mpr first, hds]
      rfl

/-- The number that is read from digits is the one that they write. -/
theorem number?_eq_some_iff (hbase : base ≤ 16) :
    Text.number? base cs = some n ↔ Writes base cs n := by
  rw [Text.number?, Option.map_eq_some_iff]
  constructor
  · rintro ⟨ds, hds, rfl⟩
    exact (writes_of_mapM hbase hds).2
  · intro h
    obtain ⟨ds, hds, -, hn⟩ := h.exists_mapM hbase
    exact ⟨ds, hds, hn⟩

end Digits

section Numerals

variable {n : Nat} {cs : List Char}

/-- The mark of a base, and what stands behind it. The three cases exclude each
other. -/
theorem radix_cases (cs : List Char) :
    (∃ x r, cs = '0' :: x :: r ∧ (x = 'x' ∨ x = 'X') ∧ radix cs = (16, r)) ∨
      (∃ d r, cs = '0' :: d :: r ∧ radix cs = (8, d :: r)) ∨
        (cs.head? = some '0' → cs = ['0']) ∧ radix cs = (10, cs) := by
  rw [radix.eq_def]
  split
  · rename_i r
    exact .inl ⟨'x', r, rfl, .inl rfl, rfl⟩
  · rename_i r
    exact .inl ⟨'X', r, rfl, .inr rfl, rfl⟩
  · rename_i d r _ _
    exact .inr (.inl ⟨d, r, rfl, rfl⟩)
  · rename_i hnone
    refine .inr (.inr ⟨?_, rfl⟩)
    intro hzero
    obtain ⟨r, rfl⟩ := List.head?_eq_some_iff.mp hzero
    cases r with
    | nil => rfl
    | cons d r => exact absurd rfl (hnone d r)

theorem radix_of_noMark (noMark : cs.head? = some '0' → cs = ['0']) : radix cs = (10, cs) := by
  rw [radix.eq_def]
  split
  · cases noMark rfl
  · cases noMark rfl
  · cases noMark rfl
  · rfl

theorem radix_of_octal (ne : cs ≠ []) (digits : Writes 8 cs n) : radix ('0' :: cs) = (8, cs) := by
  cases digits with
  | nil => exact absurd rfl ne
  | @cons d cs _ _ first _ =>
      rw [radix.eq_def]
      split
      · rename_i heq
        obtain ⟨rfl, -⟩ := List.cons.inj (List.cons.inj heq).2
        exact absurd first (not_isDigit_of_mark (by decide) (by decide))
      · rename_i heq
        obtain ⟨rfl, -⟩ := List.cons.inj (List.cons.inj heq).2
        exact absurd first (not_isDigit_of_mark (by decide) (by decide))
      · rename_i heq
        rw [← (List.cons.inj heq).2]
      · rename_i hnone
        exact absurd rfl (hnone d cs)

/-- The digits of a numeral are those behind the mark of its base, and there are
some. -/
theorem numeral_iff : Numeral cs n ↔ (radix cs).2 ≠ [] ∧ Writes (radix cs).1 (radix cs).2 n := by
  constructor
  · rintro (⟨ne, noMark, digits⟩ | ⟨rfl | rfl, ne, digits⟩ | ⟨ne, digits⟩)
    · rw [radix_of_noMark noMark]
      exact ⟨ne, digits⟩
    · exact ⟨ne, digits⟩
    · exact ⟨ne, digits⟩
    · rw [radix_of_octal ne digits]
      exact ⟨ne, digits⟩
  · rintro ⟨ne, digits⟩
    obtain ⟨x, r, rfl, mark, hradix⟩ | ⟨d, r, rfl, hradix⟩ | ⟨noMark, hradix⟩ := radix_cases cs
    · rw [hradix] at ne digits
      exact .hexadecimal mark ne digits
    · rw [hradix] at ne digits
      exact .octal ne digits
    · rw [hradix] at ne digits
      exact .decimal ne noMark digits

theorem numeral?_eq_some_iff : numeral? cs = some n ↔ Numeral cs n := by
  have hbase : (radix cs).1 ≤ 16 := by
    obtain ⟨_, _, _, _, hradix⟩ | ⟨_, _, _, hradix⟩ | ⟨_, hradix⟩ := radix_cases cs
    all_goals simp [hradix]
  rw [numeral_iff, ← number?_eq_some_iff hbase]
  simp only [numeral?, List.isEmpty_iff]
  split
  · rename_i hempty
    simp [hempty]
  · rename_i hne
    simp [hne]

end Numerals

section Signs

variable {raw : String} {n : Int} {k : Nat} {cs : List Char}

theorem unsign_of_numeral (h : Numeral cs k) : unsign cs = (false, cs) := by
  have hfirst : ∀ x ∈ ['-', '+'], ∀ r, cs ≠ x :: r := by
    rintro x hx r rfl
    have hmark : x ∈ ['-', '+', 'x', 'X'] := List.mem_append_left ['x', 'X'] hx
    cases h with
    | decimal _ _ digits =>
        cases digits with
        | cons first _ => exact not_isDigit_of_mark (by decide) hmark first
    | hexadecimal _ _ _ | octal _ _ => simp at hx
  rw [unsign.eq_def]
  split
  · exact absurd rfl (hfirst '-' (by decide) _)
  · exact absurd rfl (hfirst '+' (by decide) _)
  · rfl

/-- What is denoted is the number of the numeral with the sign. -/
theorem denotes_iff : Denotes cs n ↔
    ∃ k, Numeral (unsign cs).2 k ∧ n = if (unsign cs).1 then -(k : Int) else k := by
  constructor
  · rintro (⟨numeral⟩ | ⟨numeral⟩ | ⟨numeral⟩)
    · rw [unsign_of_numeral numeral]
      exact ⟨_, numeral, rfl⟩
    · exact ⟨_, numeral, rfl⟩
    · exact ⟨_, numeral, rfl⟩
  · rintro ⟨k, numeral, rfl⟩
    rw [unsign.eq_def] at numeral ⊢
    split at numeral
    · exact .minus numeral
    · exact .plus numeral
    · exact .unsigned numeral

/-- A literal denotes one integer at most, whichever of the bases and signs it
has. -/
theorem Denotes.unique {m : Int} (hn : Denotes cs n) (hm : Denotes cs m) : n = m := by
  obtain ⟨k, hk, rfl⟩ := denotes_iff.mp hn
  obtain ⟨j, hj, rfl⟩ := denotes_iff.mp hm
  rw [← numeral?_eq_some_iff] at hk hj
  obtain rfl := Option.some.inj (hk.symm.trans hj)
  rfl

/-- An integer is read in the wide range if it is denoted and lies in this
range. -/
theorem integer_eq_ok_iff :
    integer raw = .ok n ↔ Denotes raw.toList n ∧ n.natAbs ≤ magnitudeBound := by
  rw [denotes_iff]
  simp only [integer, ← numeral?_eq_some_iff]
  cases hk : numeral? (unsign raw.toList).2 with
  | none => simp
  | some k =>
      have hsize : (if (unsign raw.toList).1 then -(k : Int) else k).natAbs = k := by
        split <;> simp
      simp only [Option.some.injEq, exists_eq_left']
      constructor
      · intro h
        split at h
        · rename_i hbound
          obtain rfl := Except.ok.inj h
          exact ⟨rfl, hsize.trans_le hbound⟩
        · cases h
      · rintro ⟨rfl, hbound⟩
        rw [if_pos (hsize.symm.trans_le hbound)]

/-- The literals of a type are those that denote a number of its width. -/
theorem integerOf_eq_ok_iff {t : IntegerType} {x : { n : Int // t.Holds n }} :
    integerOf t raw = .ok x ↔ Denotes raw.toList x.1 := by
  constructor
  · intro h
    rw [integerOf] at h
    split at h
    · cases h
    · rename_i n hn
      split at h
      · obtain rfl := Except.ok.inj h
        exact (integer_eq_ok_iff.mp hn).1
      · cases h
  · intro h
    have hbound : x.1.natAbs ≤ magnitudeBound :=
      Nat.le_trans (IntegerType.natAbs_le x.2) (by decide)
    rw [integerOf, integer_eq_ok_iff.mpr ⟨h, hbound⟩]
    exact dif_pos x.2

end Signs

end Literal

/-- The value that a literal of an integer type has is the number that it
denotes, a numeral in one of three bases with a sign or none, if this has no
more bits than the type. Any other text is at fault as a literal. -/
theorem Value.parse_integer_denotes (t : IntegerType) (raw : String) :
    (∀ v, parse raw (.integer t) = .ok v ↔
      ∃ n, Literal.Denotes raw.toList n ∧ t.Fits n ∧ ∃ holds, v = .integer t n holds) ∧
    (∀ n m, Literal.Denotes raw.toList n → Literal.Denotes raw.toList m → n = m) ∧
    ((¬∃ n, Literal.Denotes raw.toList n ∧ t.Fits n) →
      ∃ e, parse raw (.integer t) = .error e ∧ e.kind = .literalFormat) := by
  have hok : ∀ v, parse raw (.integer t) = .ok v ↔
      ∃ n, Literal.Denotes raw.toList n ∧ t.Fits n ∧ ∃ holds, v = .integer t n holds := by
    intro v
    simp only [parse, bind_eq_ok_iff, pure_eq_ok_iff, Literal.integerOf_eq_ok_iff]
    constructor
    · rintro ⟨⟨n, holds⟩, hn, rfl⟩
      exact ⟨n, hn, IntegerType.holds_iff_fits.mp holds, holds, rfl⟩
    · rintro ⟨n, hn, -, holds, rfl⟩
      exact ⟨⟨n, holds⟩, hn, rfl⟩
  refine ⟨hok, fun n m => Literal.Denotes.unique, ?_⟩
  intro hnone
  cases hparse : parse raw (.integer t) with
  | error e => exact ⟨e, rfl, faultsOnly_parse raw _ e hparse⟩
  | ok v =>
      obtain ⟨n, hn, hfits, -⟩ := (hok v).mp hparse
      exact absurd ⟨n, hn, hfits⟩ hnone

/-- The least number of eight bits is read from its hexadecimal digits, and its
opposite is not a number of eight bits. -/
theorem Value.parse_integer_denotes_octet :
    (∃ holds, parse "-0x80" (.integer .int8) = .ok (.integer .int8 (-128) holds)) ∧
      (¬∃ n, Literal.Denotes "0x80".toList n ∧ IntegerType.int8.Fits n) ∧
      ∃ e, parse "0x80" (.integer .int8) = .error e ∧ e.kind = .literalFormat := by
  have hleast : Literal.Denotes "-0x80".toList (-128) :=
    Literal.denotes_iff.mpr ⟨128, Literal.numeral?_eq_some_iff.mp rfl, rfl⟩
  have hopposite : Literal.Denotes "0x80".toList 128 :=
    Literal.denotes_iff.mpr ⟨128, Literal.numeral?_eq_some_iff.mp rfl, rfl⟩
  have holds : IntegerType.int8.Holds (-128) := by decide
  have houtside : ¬∃ n, Literal.Denotes "0x80".toList n ∧ IntegerType.int8.Fits n := by
    rintro ⟨n, hn, hfits⟩
    obtain rfl := hn.unique hopposite
    exact absurd (IntegerType.holds_iff_fits.mpr hfits) (by decide)
  refine ⟨⟨holds, ?_⟩, houtside, (parse_integer_denotes .int8 "0x80").2.2 houtside⟩
  exact ((parse_integer_denotes .int8 "-0x80").1 _).mpr
    ⟨-128, hleast, IntegerType.holds_iff_fits.mp holds, holds, rfl⟩

end Yang
