/-!
# Faults in byte sequences

A payload is text only if its bytes are well-formed UTF-8. When they are not, the
message says where the first fault begins and how many bytes belong to it: the
longest start of a well-formed character counts as one fault, and a start that the
end of the payload cuts off is incomplete rather than invalid.
-/

namespace Yang.Text.Utf8

/-- The first position at which a byte sequence stops being well-formed UTF-8. -/
inductive Fault
  /-- The bytes at this index cannot be continued to a character. -/
  | invalid (length index : Nat)
  /-- The sequence ends inside the character that starts at this index. -/
  | incomplete (index : Nat)
deriving DecidableEq, Repr

def Fault.message : Fault → String
  | .invalid length index => s!"invalid utf-8 sequence of {length} bytes from index {index}"
  | .incomplete index => s!"incomplete utf-8 byte sequence from index {index}"

/-- A byte that continues a character. -/
def isTail (b : UInt8) : Bool := 0x80 ≤ b && b ≤ 0xBF

/-- The second bytes that may follow a first byte; none for a byte that starts
no character of several bytes. The narrow ranges exclude overlong forms,
surrogates and numbers past the last code point. -/
def seconds? (first : UInt8) : Option (UInt8 × UInt8) :=
  if 0xC2 ≤ first && first ≤ 0xDF then some (0x80, 0xBF)
  else if first == 0xE0 then some (0xA0, 0xBF)
  else if first == 0xED then some (0x80, 0x9F)
  else if 0xE1 ≤ first && first ≤ 0xEF then some (0x80, 0xBF)
  else if first == 0xF0 then some (0x90, 0xBF)
  else if 0xF1 ≤ first && first ≤ 0xF3 then some (0x80, 0xBF)
  else if first == 0xF4 then some (0x80, 0x8F)
  else none

def width (first : UInt8) : Nat :=
  if first < 0x80 then 1 else if first < 0xE0 then 2 else if first < 0xF0 then 3 else 4

/-- Read the remaining continuation bytes of a character that starts at `index`
and of which `seen` bytes are read. The result is the rest of the bytes. -/
def tails? (index : Nat) : Nat → Nat → List UInt8 → Except Fault (List UInt8)
  | 0, _, bytes => .ok bytes
  | _ + 1, _, [] => .error (.incomplete index)
  | n + 1, seen, b :: bytes =>
    if isTail b then tails? index n (seen + 1) bytes else .error (.invalid seen index)

/-- Read one character that starts at `index` with the byte `first`. -/
def character? (index : Nat) (first : UInt8) (bytes : List UInt8) :
    Except Fault (List UInt8) :=
  if first < 0x80 then .ok bytes
  else
    match seconds? first, bytes with
    | none, _ => .error (.invalid 1 index)
    | some _, [] => .error (.incomplete index)
    | some (low, high), second :: rest =>
      if low ≤ second && second ≤ high then tails? index (width first - 2) 2 rest
      else .error (.invalid 1 index)

theorem tails?_length {index n seen : Nat} {bytes rest : List UInt8}
    (h : tails? index n seen bytes = .ok rest) : rest.length ≤ bytes.length := by
  induction n generalizing seen bytes with
  | zero => simp_all [tails?]
  | succ n ih =>
    cases bytes with
    | nil => simp [tails?] at h
    | cons b bytes =>
      simp only [tails?] at h
      split at h
      · exact Nat.le_succ_of_le (ih h)
      · cases h

theorem character?_length {index : Nat} {first : UInt8} {bytes rest : List UInt8}
    (h : character? index first bytes = .ok rest) : rest.length ≤ bytes.length := by
  unfold character? at h
  split at h
  · cases h; exact Nat.le_refl _
  · split at h
    · cases h
    · cases h
    · split at h
      · exact Nat.le_succ_of_le (tails?_length h)
      · cases h

/-- The first fault at or after `index`, if there is one. The position counts
bytes, as a message about the fault does. -/
def fault? (index : Nat) : List UInt8 → Option Fault
  | [] => none
  | b :: bytes =>
    match h : character? index b bytes with
    | .error fault => some fault
    | .ok rest =>
      have : rest.length ≤ bytes.length := character?_length h
      fault? (index + width b) rest
termination_by bytes => bytes.length
decreasing_by exact Nat.lt_succ_of_le this

/-- The text of a byte sequence. A sequence that is refused by the validity test
has a fault; the fallback at its end keeps the function total. -/
def decode (bytes : ByteArray) : Except Fault String :=
  if h : bytes.IsValidUTF8 then .ok (String.ofByteArray bytes h)
  else .error ((fault? 0 bytes.toList).getD (.incomplete bytes.size))

/-- Text that was written as bytes is read back unchanged. -/
@[simp] theorem decode_toByteArray (s : String) : decode s.toByteArray = .ok s := by
  simp [decode, s.isValidUTF8]

end Yang.Text.Utf8
