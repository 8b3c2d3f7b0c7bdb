import Yang.Text.Category

/-!
# Quoted texts

A text is shown between quotes so that every character of it can be seen. A quote and a
backslash follow a backslash, and the common control characters have letters. A
character without an image of its own is shown by its code point: controls, format
characters, separators other than the space, private use, code points without a
character, and marks that would combine with the character before them.
-/

namespace Yang.Text

/-- Characters without an image that their category does not tell: spacing marks
that extend the character before them, separators, fillers, and private use. -/
def imagelessCodes : CodeSet :=
  .ofText
    "A0 9BE 9D7 B3E B57 BBE BD7 CC0 CC2 CC7-CC8 CCA-CCB CD5-CD6 D3E D57 DCF DDF 115F-1160 1680
    1715 1734 1B35 1B3B 1B3D 1B43-1B44 1BAA 1BF2-1BF3 2000-200A 2028-2029 202F 205F 3000
    302E-302F 3164 A953 A9C0 E000-F8FF FF9E-FFA0 111C0 11235 1133E 1134D 11357 113B8 113C2 113C5
    113C7-113C9 113CF 114B0 114BD 115AF 116B6 11930 1193D 11F41 16FF0-16FF1 1D165-1D166
    1D16D-1D172 F0000-FFFFD 100000-10FFFD"

/-- The character has no image of its own. -/
def isUnseen (c : Char) : Bool :=
  if c.toNat < 0xA0 then c.toNat < 0x20 || 0x7F ≤ c.toNat
  else isUnassigned c || isAttachedMark c || isFormat c || imagelessCodes.holds c

def shownChar (c : Char) : List Char :=
  if c = '"' ∨ c = '\\' then ['\\', c]
  else if c = '\n' then ['\\', 'n']
  else if c = '\r' then ['\\', 'r']
  else if c = '\t' then ['\\', 't']
  else if c = '\x00' then ['\\', '0']
  else if isUnseen c then '\\' :: 'u' :: '\x7b' :: Nat.toDigits 16 c.toNat ++ ['\x7d']
  else [c]

def quoted (s : String) : String :=
  String.ofList ('"' :: s.toList.flatMap shownChar ++ ['"'])

end Yang.Text
