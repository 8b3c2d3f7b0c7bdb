/-!
# Blank characters

Literals are trimmed, and lists of names are split, at the characters with the
property `White_Space`. There are twenty-five of them, so the property is written
out as ranges of code points. Trimming works on both ends alike; `words` yields the
maximal blank-free runs and therefore never an empty one.
-/

namespace Yang.Text

/-- The character has the property `White_Space`. -/
def isBlank (c : Char) : Bool :=
  let n := c.toNat
  (0x09 ≤ n && n ≤ 0x0D) || n == 0x20 || n == 0x85 || n == 0xA0 || n == 0x1680 ||
    (0x2000 ≤ n && n ≤ 0x200A) || n == 0x2028 || n == 0x2029 || n == 0x202F ||
    n == 0x205F || n == 0x3000

def trimChars (cs : List Char) : List Char :=
  ((cs.dropWhile isBlank).reverse.dropWhile isBlank).reverse

def trim (s : String) : String :=
  String.ofList (trimChars s.toList)

/-- The maximal runs of characters that are not blank, in order. -/
def words (s : String) : List String :=
  ((s.toList.splitOnP isBlank).filter (fun w => !w.isEmpty)).map String.ofList

end Yang.Text
