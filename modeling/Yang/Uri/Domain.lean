import Yang.Text.Direction
import Yang.Text.Joining
import Yang.Uri.Composition
import Yang.Uri.Folding
import Yang.Uri.Punycode

/-!
# Domain names

A host name is folded and composed before it is judged, and what remains may hold no
character that separates parts of a URI. Its labels stand between full stops. A label
that announces an encoded form stands for the characters it decodes to, and these have
to be folded and composed already. A label begins with no mark, and an invisible joiner
stands only where the script needs it. Once one label of a name runs to the left, every
label has to keep one direction throughout.
-/

namespace Yang.Uri.Domain

open Yang.Text (Direction Joining isMark)

def isForbidden (c : Char) : Bool :=
  c.toNat ≤ 0x20 || c.toNat == 0x7F || "%#/:<>?@[\\]^|".toList.contains c

def isForeign (c : Char) : Bool := 0x80 ≤ c.toNat

/-- Folding and composing leave the text as it is. -/
def isSettled (cs : List Char) : Bool :=
  (cs.all fun c => fold? c == some [c]) && composed cs == cs

/-- What an encoded label stands for, given without its mark: settled text that
needed the encoding. Labels of excessive length are not read. -/
def decoded? (cs : List Char) : Option (List Char) :=
  if cs.any isForeign || cs.getLast? == some '-' || 2000 < cs.length then none
  else (Punycode.decode? cs).filter fun text => text.any isForeign && isSettled text

def meaning? : List Char → Option (List Char)
  | 'x' :: 'n' :: '-' :: '-' :: cs => decoded? cs
  | cs => some cs

/-- The first character that is not passed over joins as asked. -/
def reaches (joins : Joining → Bool) (cs : List Char) : Bool :=
  ((cs.map Joining.of).dropWhile (· == .transparent)).head?.any joins

/-- A joiner may stand between these characters, of which those before it are in
reverse order: after a mark that silences a vowel, or, if it keeps letters
apart, between letters that would join. -/
def admitsJoiner (separates : Bool) (before after : List Char) : Bool :=
  before.head?.any (combiningClass · == 9) ||
    (separates && reaches Joining.joinsNext before && reaches Joining.joinsPrevious after)

/-- Every joiner in the rest of a label stands where it may. The characters
before the rest are given in reverse order. -/
def joinersFit (before : List Char) : List Char → Bool
  | [] => true
  | c :: after =>
    (if c.toNat == 0x200C then admitsJoiner true before after
      else if c.toNat == 0x200D then admitsJoiner false before after
      else true) &&
      joinersFit (c :: before) after

/-- The label can be written: it begins with no mark, its joiners fit, and it is
not of excessive length if it has to be encoded. -/
def isWritable (label : List Char) : Bool :=
  label.head?.all (!isMark ·) && joinersFit [] label &&
    (!label.any isForeign || label.length ≤ 1000)

/-- The label holds a character that runs to the left. Such characters begin
with the Hebrew ones. -/
def runsLeft (label : List Char) : Bool :=
  label.any fun c => 0x590 ≤ c.toNat && (Direction.of c).isLeftward

/-- The classes of a label that keeps one direction. A label that runs to the
right begins with such a letter and ends with one or a digit, and one that runs
to the left likewise; marks at the end do not count. Neither holds a letter of
the other direction, nor both kinds of digits. -/
def keepsDirection (classes : List Direction) : Bool :=
  let last := (classes.reverse.dropWhile (· == .mark)).head?
  match classes.head? with
  | none => true
  | some .rightward =>
    (last == some .rightward || last == some .europeanNumber) &&
      classes.all fun d => !d.isLeftward && d != .separator
  | some .leftward =>
    (last == some .leftward || last == some .europeanNumber || last == some .arabicNumber) &&
      (classes.all fun d => d != .rightward && d != .separator) &&
      !(classes.contains .europeanNumber && classes.contains .arabicNumber)
  | some _ => false

def areLabels (labels : List (List Char)) : Bool :=
  labels.all isWritable &&
    (!labels.any runsLeft || labels.all fun label => keepsDirection (label.map Direction.of))

def folded? (cs : List Char) : Option (List Char) :=
  match cs.mapM fold? with
  | none => none
  | some images =>
    let text := composed images.flatten
    if text.any isForbidden then none
    else
      match (text.splitOn '.').mapM meaning? with
      | none => none
      | some labels => if areLabels labels then some text else none

end Yang.Uri.Domain
