set_option autoImplicit false

/-!
# Text: white space and words

Story text treats white space as the 25 characters with the Unicode property
`White_Space`.  This module fixes that class once and defines on it the two
operations every line of output goes through: trimming, and collapsing a text
into its words joined by single spaces.
-/

namespace Skein.Text

/-- White space: the characters with the Unicode property `White_Space`. -/
def isBlank (c : Char) : Bool :=
  let n := c.toNat
  (0x09 ≤ n && n ≤ 0x0D) || n == 0x20 || n == 0x85 || n == 0xA0 || n == 0x1680 ||
    (0x2000 ≤ n && n ≤ 0x200A) || n == 0x2028 || n == 0x2029 || n == 0x202F ||
    n == 0x205F || n == 0x3000

/-- Drops white space at both ends. -/
def trimChars (cs : List Char) : List Char :=
  ((cs.dropWhile isBlank).reverse.dropWhile isBlank).reverse

/-- Drops white space at both ends of a string. -/
def trim (s : String) : String :=
  String.ofList (trimChars s.toList)

/-- Whether a text shows nothing: it has only white space. -/
def isInvisible (s : String) : Bool :=
  s.toList.all isBlank

/-! ## Words -/

/-- Puts the word in front of the words, unless it is empty. -/
def consWord (word : List Char) (words : List (List Char)) : List (List Char) :=
  if word.isEmpty then words else word :: words

/-- Reads one more character in front of a text whose first word (possibly
empty, when the text starts with white space) and further words are known. -/
def stepWord (c : Char) : List Char × List (List Char) → List Char × List (List Char)
  | (word, rest) => if isBlank c then ([], consWord word rest) else (c :: word, rest)

/-- The maximal runs of characters that are not white space, in order. -/
def words (cs : List Char) : List (List Char) :=
  let (word, rest) := cs.foldr stepWord ([], [])
  consWord word rest

/-- The words of a text joined by single spaces. -/
def collapse (s : String) : String :=
  String.ofList (List.intercalate [' '] (words s.toList))

end Skein.Text
