/-!
# Digits and powers of a base

Numbers are written in bases up to sixteen, with the letters up to `f`, small or
capital, for the digits past nine. The first digit counts most, and there is no sign
and no mark of the base. The powers of two and ten are the units of binary and of
decimal numbers.
-/

namespace Yang

def twoTo (n : Nat) : Nat := Nat.pow 2 n

def tenTo (n : Nat) : Nat := Nat.pow 10 n

@[simp] theorem tenTo_zero : tenTo 0 = 1 := rfl

theorem tenTo_succ (n : Nat) : tenTo (n + 1) = 10 * tenTo n := Nat.mul_comm _ _

theorem tenTo_pos (n : Nat) : 0 < tenTo n := by
  induction n with
  | zero => decide
  | succ n ih => rw [tenTo_succ]; omega

namespace Text

def hexDigit? (c : Char) : Option Nat :=
  if c.isDigit then some (c.toNat - 48)
  else if 'a' ≤ c ∧ c ≤ 'f' then some (c.toNat - 87)
  else if 'A' ≤ c ∧ c ≤ 'F' then some (c.toNat - 55)
  else none

def digit? (base : Nat) (c : Char) : Option Nat := (hexDigit? c).filter (· < base)

def ofDigits (base : Nat) (digits : List Nat) : Nat :=
  digits.foldl (fun n d => n * base + d) 0

/-- The number written by digits; no digits write zero. -/
def number? (base : Nat) (cs : List Char) : Option Nat :=
  (cs.mapM (digit? base)).map (ofDigits base)

theorem digit?_lt {base d : Nat} {c : Char} (h : digit? base c = some d) : d < base := by
  simp only [digit?, Option.filter_eq_some_iff, decide_eq_true_eq] at h
  exact h.2

@[simp] theorem ofDigits_nil (base : Nat) : ofDigits base [] = 0 := rfl

theorem ofDigits_concat (base d : Nat) (ds : List Nat) :
    ofDigits base (ds ++ [d]) = ofDigits base ds * base + d := by
  simp [ofDigits]

end Text

end Yang
