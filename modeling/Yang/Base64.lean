/-!
# Base64

Three bytes are written as four characters of six bits each. A last group of one or
two bytes is padded with equal signs to four characters, and the bits that are then
left over are zero. Decoding accepts nothing else, so every byte sequence has exactly
one text.
-/

namespace Yang.Base64

def char (n : Nat) : Char :=
  if n < 26 then Char.ofNat (65 + n)
  else if n < 52 then Char.ofNat (71 + n)
  else if n < 62 then Char.ofNat (n - 4)
  else if n = 62 then '+'
  else '/'

/-- The number of a character; none outside the alphabet. -/
def value? (c : Char) : Option Nat :=
  if 'A' ≤ c ∧ c ≤ 'Z' then some (c.toNat - 65)
  else if 'a' ≤ c ∧ c ≤ 'z' then some (c.toNat - 71)
  else if '0' ≤ c ∧ c ≤ '9' then some (c.toNat + 4)
  else if c = '+' then some 62
  else if c = '/' then some 63
  else none

def encode : List UInt8 → List Char
  | [] => []
  | [a] => [char (a.toNat / 4), char (a.toNat % 4 * 16), '=', '=']
  | [a, b] =>
    [char (a.toNat / 4), char (a.toNat % 4 * 16 + b.toNat / 16), char (b.toNat % 16 * 4), '=']
  | a :: b :: c :: rest =>
    char (a.toNat / 4) :: char (a.toNat % 4 * 16 + b.toNat / 16) ::
      char (b.toNat % 16 * 4 + c.toNat / 64) :: char (c.toNat % 64) :: encode rest

/-- The byte of a padded last group of two characters. -/
def lastByte? (a b : Char) : Option (List UInt8) := do
  let x ← value? a
  let y ← value? b
  if y % 16 = 0 then some [UInt8.ofNat (x * 4 + y / 16)] else none

/-- The bytes of a padded last group of three characters. -/
def lastBytes? (a b c : Char) : Option (List UInt8) := do
  let x ← value? a
  let y ← value? b
  let z ← value? c
  if z % 4 = 0 then some [UInt8.ofNat (x * 4 + y / 16), UInt8.ofNat (y % 16 * 16 + z / 4)]
  else none

def group? (a b c d : Char) : Option (List UInt8) := do
  let x ← value? a
  let y ← value? b
  let z ← value? c
  let w ← value? d
  some [UInt8.ofNat (x * 4 + y / 16), UInt8.ofNat (y % 16 * 16 + z / 4),
    UInt8.ofNat (z % 4 * 64 + w)]

/-- The byte sequence of a text, if the text is the one of a byte sequence. Only
the last group may be padded, and the bits that padding leaves over have to be
zero, so no byte sequence has two texts. -/
def decode? : List Char → Option (List UInt8)
  | [] => some []
  | [a, b, c, d] =>
    if d = '=' then if c = '=' then lastByte? a b else lastBytes? a b c
    else group? a b c d
  | a :: b :: c :: d :: rest => do
    let first ← group? a b c d
    let others ← decode? rest
    some (first ++ others)
  | _ => none

end Yang.Base64
