import Yang.Text.Digit

/-!
# Numeric host addresses

A host whose last label is a number has to be an IPv4 address: up to four numbers in
decimal, octal or hexadecimal form, the last of which fills the bytes that the others
leave. A host in brackets has to be an IPv6 address: eight groups of hexadecimal
digits, of which one run may be left out, and of which the last two may be written as
an IPv4 address in plain decimal.
-/

namespace Yang.Uri

def isHexDigit (c : Char) : Bool := (Text.hexDigit? c).isSome

namespace IPv4

/-- The number written by one part of an address: hexadecimal after `0x`, octal
after another leading zero. The mark alone denotes zero. -/
def number? : List Char → Option Nat
  | [] => none
  | '0' :: 'x' :: r => Text.number? 16 r
  | '0' :: 'X' :: r => Text.number? 16 r
  | '0' :: c :: r => Text.number? 8 (c :: r)
  | cs => Text.number? 10 cs

/-- The parts between the points; a last point closes the last part. -/
def parts (cs : List Char) : List (List Char) :=
  let all := cs.splitOn '.'
  if all.getLast? = some [] then all.dropLast else all

/-- The last part is a number, so the host must be an address. -/
def endsInNumber (cs : List Char) : Bool :=
  match (parts cs).getLast? with
  | some last => (!last.isEmpty && last.all Char.isDigit) || (number? last).isSome
  | none => false

/-- All but the last number fit in a byte, and the last in the bytes that are
left. -/
def isAddress (cs : List Char) : Bool :=
  let ps := parts cs
  match ps.mapM number? with
  | none => false
  | some numbers =>
    numbers.length ≤ 4 && numbers.dropLast.all (· ≤ 255) &&
      (numbers.getLast?.getD 0) < twoTo (8 * (5 - numbers.length))

end IPv4

namespace IPv6

def isByte (cs : List Char) : Bool :=
  !cs.isEmpty && (Text.number? 10 cs).any (· ≤ 255) &&
    (cs.length == 1 || cs.head? != some '0')

def isDotted (cs : List Char) : Bool :=
  let ps := cs.splitOn '.'
  ps.length == 4 && ps.all isByte

/-- The rest of an address after `count` groups. A run of groups may be left out
once, which is recorded in `skipped`. -/
def groups (count : Nat) (skipped : Bool) (cs : List Char) : Bool :=
  match cs with
  | [] => skipped || count == 8
  | c :: r =>
    if count == 8 then false
    else if c == ':' then !skipped && groups (count + 1) true r
    else
      match h : ((c :: r).take 4).dropWhile isHexDigit ++ (c :: r).drop 4 with
      | [] => groups (count + 1) skipped []
      | d :: rest =>
        if d == ':' then
          !rest.isEmpty && groups (count + 1) skipped rest
        else
          d == '.' && isHexDigit c && count ≤ 6 && isDotted (c :: r) &&
            (skipped || count == 6)
termination_by cs.length
decreasing_by
  all_goals simp_wf
  have bound : (((c :: r).take 4).dropWhile isHexDigit ++ (c :: r).drop 4).length ≤
      (c :: r).length := by
    have first := (List.dropWhile_suffix (l := (c :: r).take 4) isHexDigit).length_le
    rw [List.length_append, List.length_drop]
    rw [List.length_take] at first
    omega
  rw [h] at bound
  simp only [List.length_cons] at bound
  omega

def isAddress : List Char → Bool
  | ':' :: ':' :: r => groups 1 true r
  | ':' :: _ => false
  | [] => false
  | [_] => false
  | cs => groups 0 false cs

end IPv6

end Yang.Uri
