/-!
# Blank characters

Three classes of white space. `isSpace` is the Unicode property White_Space. `isBlank` is the class
of query texts; it also has the four information separators U+001C to U+001F. `isGap` is the class
of the four characters that separate the tokens of JSON and of the query language.
-/

namespace LogQuery.Text

/-- The code points of the Unicode property White_Space, as closed ranges. -/
def spaceRanges : List (Nat × Nat) :=
  [(0x09, 0x0D), (0x20, 0x20), (0x85, 0x85), (0xA0, 0xA0), (0x1680, 0x1680), (0x2000, 0x200A),
    (0x2028, 0x2029), (0x202F, 0x202F), (0x205F, 0x205F), (0x3000, 0x3000)]

def isSpace (c : Char) : Bool :=
  spaceRanges.any fun r => r.1 ≤ c.toNat && c.toNat ≤ r.2

/-- White space and the information separators. -/
def isBlank (c : Char) : Bool :=
  isSpace c || (0x1C ≤ c.toNat && c.toNat ≤ 0x1F)

/-- The white space that may stand between tokens. -/
def isGap (c : Char) : Bool :=
  c = ' ' || c = '\t' || c = '\n' || c = '\r'

end LogQuery.Text
