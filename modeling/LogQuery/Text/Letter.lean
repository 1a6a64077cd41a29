/-!
# Lower case

Lower-casing as far as ASCII names can tell. Besides `A` to `Z` one character of Unicode has an
ASCII letter alone as its lower case, the Kelvin sign U+212A; the capital dotted I becomes an `i`
with a combining dot. So `lower s` is a given ASCII name, or holds a given ASCII phrase without the
letter i, exactly if the full lower-casing of `s` is it or holds it.
-/

namespace LogQuery.Text

def lowerChar (c : Char) : Char :=
  if c.toNat = 0x212A then 'k' else c.toLower

def lower (s : String) : String :=
  String.ofList (s.toList.map lowerChar)

end LogQuery.Text
