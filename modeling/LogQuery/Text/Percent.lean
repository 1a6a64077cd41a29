import LogQuery.Text.Hex
import LogQuery.Text.Utf8
/-!
# Percent-encoding

Octets written as a percent sign and two hexadecimal digits are decoded; a percent sign without
them stands for itself.
-/

namespace LogQuery.Text.Percent

/-- The octets of a text, those of its escapes included. -/
def octets : List Char → List Nat
  | [] => []
  | '%' :: a :: b :: cs =>
    match hexValue? a, hexValue? b with
    | some m, some n => (16 * m + n) :: octets cs
    | _, _ => 0x25 :: octets (a :: b :: cs)
  | c :: cs => Utf8.encodeChar c ++ octets cs

def decode (s : String) : String := String.ofList (Utf8.decode (octets s.toList))

end LogQuery.Text.Percent
