/-!
# Cutting and joining texts

Trimming at both ends, and the alternatives of a regular expression `a|b|c` as a list of texts.
-/

namespace LogQuery.Text

/-- `cs` without the members of the class at its two ends. -/
def trim (inClass : Char → Bool) (cs : List Char) : List Char :=
  ((cs.dropWhile inClass).reverse.dropWhile inClass).reverse

/-- The texts between the bars of `s`; there is one more than there are bars. -/
def alternatives (s : String) : List String :=
  (s.toList.splitOn '|').map String.ofList

/-- The texts with a bar between each two. -/
def alternation (parts : List String) : String :=
  "|".intercalate parts

/-- The texts that are not empty, with a space between each two. -/
def joinNonEmpty (parts : List String) : String :=
  " ".intercalate (parts.filter (· ≠ ""))

end LogQuery.Text
