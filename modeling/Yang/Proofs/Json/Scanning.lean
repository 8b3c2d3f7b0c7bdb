import Yang.Proofs.Digits

/-!
# Reading tokens that were written

Each token is read back from its text, whatever follows. Only a number could go on in
the text behind it, so what follows a number must not continue it. A text in which
tokens stand one after the other, with white space between them or without, is cut into
these tokens.
-/

namespace Yang.Json

section Strings

theorem escapeLetter?_eq_some {c e : Char} (h : escapeLetter? c = some e) :
    (c, e) ∈ [('"', '"'), ('\\', '\\'), ('\x08', 'b'), ('\x0c', 'f'), ('\n', 'n'), ('\r', 'r'),
      ('\t', 't')] := by
  rw [escapeLetter?] at h
  split at h
  · rename_i hc
    obtain rfl := Option.some.inj h
    rcases hc with rfl | rfl <;> simp
  · repeat' split at h
    all_goals cases h <;> simp_all

theorem pieces?_escapeLetter {c e : Char} (h : escapeLetter? c = some e) (seen : List Piece)
    (rest : List Char) : pieces? seen ('\\' :: e :: rest) = pieces? (.char c :: seen) rest := by
  have hmem := escapeLetter?_eq_some h
  simp only [List.mem_cons, Prod.mk.injEq, List.not_mem_nil, or_false] at hmem
  rcases hmem with ⟨rfl, rfl⟩ | ⟨rfl, rfl⟩ | ⟨rfl, rfl⟩ | ⟨rfl, rfl⟩ | ⟨rfl, rfl⟩ | ⟨rfl, rfl⟩ |
    ⟨rfl, rfl⟩ <;> rfl

theorem pieces?_plain {c : Char} (hletter : escapeLetter? c = none) (hc : 0x20 ≤ c.toNat)
    (seen : List Piece) (rest : List Char) :
    pieces? seen (c :: rest) = pieces? (.char c :: seen) rest := by
  have hquote : c ≠ '"' := by
    rintro rfl
    cases hletter
  have hbackslash : c ≠ '\\' := by
    rintro rfl
    cases hletter
  rw [pieces?.eq_def]
  split
  case h_5 d r _ _ _ heq =>
    obtain ⟨rfl, rfl⟩ := List.cons.inj heq
    have hstays : ¬(c = '\\' ∨ c.toNat < 0x20) := by simp [hbackslash, hc]
    exact if_neg hstays
  all_goals simp_all

/-- A character of a string is read back from what is written for it: itself, an
escape of one letter or a code unit. -/
theorem pieces?_ofChar (c : Char) (seen : List Piece) (rest : List Char) :
    pieces? seen ((Piece.ofChar c).text ++ rest) = pieces? (Piece.ofChar c :: seen) rest := by
  rw [Piece.ofChar]
  split
  · rename_i h
    have hunit := hexUnit?_hexDigit (n := c.toNat) (by omega)
    simp only [Piece.text, List.cons_append, List.nil_append]
    rw [pieces?, hunit]
  · rename_i h
    rw [Piece.text]
    cases hletter : escapeLetter? c with
    | some e => exact pieces?_escapeLetter hletter seen rest
    | none =>
        have hc : 0x20 ≤ c.toNat := by
          apply Nat.not_lt.mp
          intro hlt
          exact h ⟨hlt, by rw [hletter]; rfl⟩
        exact pieces?_plain hletter hc seen rest

/-- The characters of a string are read back up to the closing quote. -/
theorem pieces?_flatMap (cs : List Char) (seen : List Piece) (rest : List Char) :
    pieces? seen ((cs.map Piece.ofChar).flatMap Piece.text ++ '"' :: rest) =
      some (seen.reverse ++ cs.map Piece.ofChar, rest) := by
  induction cs generalizing seen with
  | nil => simp [pieces?]
  | cons c cs ih =>
      rw [List.map_cons, List.flatMap_cons, List.append_assoc, pieces?_ofChar, ih]
      simp

end Strings

section Numbers

/-- What follows does not continue a number. -/
def EndsNumber (cs : List Char) : Prop :=
  ∀ c, cs.head? = some c → c.isDigit = false ∧ c ≠ '.' ∧ c ≠ 'e' ∧ c ≠ 'E'

theorem EndsNumber.nil : EndsNumber [] := nofun

theorem EndsNumber.cons {c : Char} {cs : List Char}
    (h : c.isDigit = false ∧ c ≠ '.' ∧ c ≠ 'e' ∧ c ≠ 'E') : EndsNumber (c :: cs) := by
  intro d hd
  obtain rfl := Option.some.inj hd
  exact h

theorem digits?_append {ds rest : List Char} (hds : ∀ c ∈ ds, c.isDigit = true) (hne : ds ≠ [])
    (hrest : EndsNumber rest) : digits? (ds ++ rest) = some (ds, rest) := by
  have hfront : rest.takeWhile Char.isDigit = [] ∧ rest.dropWhile Char.isDigit = rest := by
    cases rest with
    | nil => exact ⟨rfl, rfl⟩
    | cons c cs =>
        have hc := (hrest c rfl).1
        simp [hc]
  have htake : (ds ++ rest).takeWhile Char.isDigit = ds := by
    rw [List.takeWhile_append_of_pos hds, hfront.1, List.append_nil]
  have hdrop : (ds ++ rest).dropWhile Char.isDigit = rest := by
    rw [List.dropWhile_append_of_pos hds, hfront.2]
  rw [digits?, htake, hdrop]
  cases ds with
  | nil => exact absurd rfl hne
  | cons c cs => rfl

theorem fraction?_of_endsNumber {rest : List Char} (h : EndsNumber rest) :
    fraction? rest = some ([], rest) := by
  rw [fraction?.eq_def]
  split
  · exact absurd rfl (h _ rfl).2.1
  · rfl

theorem exponent?_of_endsNumber {rest : List Char} (h : EndsNumber rest) :
    exponent? rest = some (none, rest) := by
  rw [exponent?.eq_def]
  split
  · exact absurd rfl (h _ rfl).2.2.1
  · exact absurd rfl (h _ rfl).2.2.2
  · rfl

theorem readUnsigned?_decimalDigits (negative : Bool) (n : Nat) {rest : List Char}
    (h : EndsNumber rest) :
    Numeral.readUnsigned? negative (decimalDigits n ++ rest) =
      some (⟨negative, decimalDigits n, [], none⟩, rest) := by
  have hzero : ¬((decimalDigits n).head? = some '0' ∧ (decimalDigits n).length ≠ 1) := by
    rintro ⟨hhead, hlength⟩
    rcases Nat.eq_zero_or_pos n with rfl | hpos
    · exact hlength rfl
    · exact head?_decimalDigits_of_pos hpos hhead
  have hdigits := digits?_append isDigit_of_mem_decimalDigits (decimalDigits_ne_nil n) h
  simp only [Numeral.readUnsigned?, hdigits, Option.bind_eq_bind, Option.bind_some, if_neg hzero,
    fraction?_of_endsNumber h, exponent?_of_endsNumber h]

theorem text_integer (n : Int) :
    (Number.integer n).numeral.text =
      (if n < 0 then ['-'] else []) ++ decimalDigits n.natAbs := by
  simp [Number.numeral, Numeral.text]

theorem exists_cons_text_integer (n : Int) :
    ∃ c cs, (Number.integer n).numeral.text = c :: cs ∧ (c = '-' ∨ c.isDigit = true) := by
  rw [text_integer]
  split
  · exact ⟨'-', _, rfl, .inl rfl⟩
  · obtain ⟨c, cs, hcs⟩ := List.exists_cons_of_ne_nil (decimalDigits_ne_nil n.natAbs)
    have hc : c ∈ decimalDigits n.natAbs := hcs ▸ List.mem_cons_self ..
    exact ⟨c, cs, hcs, .inr (isDigit_of_mem_decimalDigits c hc)⟩

theorem read?_integer (n : Int) {rest : List Char} (h : EndsNumber rest) :
    Numeral.read? ((Number.integer n).numeral.text ++ rest) =
      some ((Number.integer n).numeral, rest) := by
  have hunsigned := fun negative => readUnsigned?_decimalDigits negative n.natAbs h
  rw [text_integer, Number.numeral]
  by_cases hn : n < 0
  · rw [if_pos hn, decide_eq_true hn]
    exact hunsigned true
  · rw [if_neg hn, decide_eq_false hn, List.nil_append]
    rw [Numeral.read?.eq_def]
    split
    · rename_i r heq
      obtain ⟨c, cs, hcs⟩ := List.exists_cons_of_ne_nil (decimalDigits_ne_nil n.natAbs)
      have hc := isDigit_of_mem_decimalDigits c (hcs ▸ List.mem_cons_self ..)
      rw [hcs, List.cons_append] at heq
      obtain ⟨rfl, _⟩ := List.cons.inj heq
      cases hc
    · exact hunsigned false

end Numbers

section Tokens

/-- A token that is written: its strings have the pieces of characters and its
numbers are integers. -/
inductive Token.IsWritten : Token → Prop
  | openBrace : IsWritten .openBrace
  | closeBrace : IsWritten .closeBrace
  | openBracket : IsWritten .openBracket
  | closeBracket : IsWritten .closeBracket
  | colon : IsWritten .colon
  | comma : IsWritten .comma
  | null : IsWritten .null
  | boolean (b : Bool) : IsWritten (.boolean b)
  | number (n : Int) : IsWritten (.number (Number.integer n).numeral)
  | string (s : String) : IsWritten (.ofString s)

/-- A token is read back from its text. What follows a number must not continue
it, and all other tokens have an end of their own. -/
theorem Token.read?_text {t : Token} (ht : t.IsWritten) {rest : List Char}
    (hrest : ∀ n, t = .number n → EndsNumber rest) :
    Token.read? (t.text ++ rest) = some (t, rest) := by
  cases ht with
  | boolean b => cases b <;> rfl
  | string s =>
      have hpieces := pieces?_flatMap s.toList [] rest
      simp only [Token.ofString, Token.text, List.cons_append, List.append_assoc,
        List.nil_append, Token.read?, hpieces, List.reverse_nil, Option.map_some]
  | number n =>
      obtain ⟨c, cs, hcs, hc⟩ := exists_cons_text_integer n
      have hread := read?_integer n (hrest _ rfl)
      rw [Token.text, hcs, List.cons_append] at *
      rw [Token.read?.eq_def]
      split
      case h_11 => rw [hread, Option.map_some]
      all_goals simp_all
  | _ => rfl

theorem Token.exists_cons_text {t : Token} (ht : t.IsWritten) :
    ∃ c cs, t.text = c :: cs ∧ isSpace c = false := by
  cases ht with
  | boolean b => cases b <;> exact ⟨_, _, rfl, rfl⟩
  | string s => exact ⟨'"', _, rfl, rfl⟩
  | number n =>
      obtain ⟨c, cs, hcs, hc⟩ := exists_cons_text_integer n
      refine ⟨c, cs, hcs, ?_⟩
      rcases hc with rfl | hdigit
      · rfl
      · rw [Bool.eq_false_iff]
        intro hspace
        simp only [isSpace, Bool.or_eq_true, beq_iff_eq] at hspace
        rcases hspace with ((rfl | rfl) | rfl) | rfl <;> cases hdigit
  | _ => exact ⟨_, _, rfl, rfl⟩

/-- Cutting goes on behind the token at the front. -/
theorem tokensFrom?_eq (seen : List Token) (cs : List Char) :
    tokensFrom? seen cs =
      match cs.dropWhile isSpace with
      | [] => some seen.reverse
      | c :: r => (Token.read? (c :: r)).bind fun read => tokensFrom? (read.1 :: seen) read.2 := by
  rw [tokensFrom?]
  split
  · rename_i hnil
    rw [hnil]
  · rename_i c r hcons
    split
    · rename_i hnone
      simp only [hcons, hnone, Option.bind_none]
    · rename_i t rest hsome
      simp only [hcons, hsome, Option.bind_some]

/-- Cutting the text, whatever tokens were found before, gives these tokens and
leaves nothing over. White space between them leaves no trace. -/
def Cuts (cs : List Char) (ts : List Token) : Prop :=
  ∀ seen, tokensFrom? seen cs = some (seen.reverse ++ ts)

theorem Cuts.nil : Cuts [] [] := by
  intro seen
  rw [tokensFrom?]
  simp

theorem Cuts.space {c : Char} {cs : List Char} {ts : List Token} (hc : isSpace c = true)
    (h : Cuts cs ts) : Cuts (c :: cs) ts := by
  intro seen
  rw [← h seen, tokensFrom?_eq, tokensFrom?_eq, List.dropWhile_cons_of_pos hc]

theorem Cuts.spaces {cs rest : List Char} {ts : List Token} (hcs : ∀ c ∈ cs, isSpace c = true)
    (h : Cuts rest ts) : Cuts (cs ++ rest) ts := by
  induction cs with
  | nil => exact h
  | cons c cs ih =>
      have hrest := ih fun d hd => hcs d (List.mem_cons_of_mem c hd)
      exact hrest.space (hcs c (List.mem_cons_self ..))

theorem Cuts.token {t : Token} {rest : List Char} {ts : List Token} (ht : t.IsWritten)
    (hrest : ∀ n, t = .number n → EndsNumber rest) (h : Cuts rest ts) :
    Cuts (t.text ++ rest) (t :: ts) := by
  intro seen
  obtain ⟨c, cs, hcs, hspace⟩ := Token.exists_cons_text ht
  have hread := Token.read?_text ht hrest
  have hdrop : (t.text ++ rest).dropWhile isSpace = c :: (cs ++ rest) := by
    simp [hcs, hspace]
  rw [hcs, List.cons_append] at hread
  rw [tokensFrom?_eq]
  simp only [hdrop, hread, Option.bind_some]
  rw [h, List.reverse_cons, List.append_assoc, List.singleton_append]

theorem Cuts.tokens? {cs : List Char} {ts : List Token} (h : Cuts cs ts) :
    tokens? (String.ofList cs) = some ts := by
  rw [Json.tokens?, String.toList_ofList, h]
  rfl

end Tokens

end Yang.Json
