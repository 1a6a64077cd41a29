import LogQuery.Json.Basic
import LogQuery.Text.Hex
/-!
# Writing JSON

One printer with two layouts. The compact layout leaves every character as it is that a reader
accepts raw; the spaced layout writes ASCII alone.
-/

namespace LogQuery.Json

structure Layout where
  comma : String
  colon : String
  ascii : Bool

def compact : Layout := ⟨",", ":", false⟩

def spaced : Layout := ⟨", ", ": ", true⟩

/-- A code unit of sixteen bits as an escape. -/
def escapeUnit (n : Nat) : List Char :=
  '\\' :: 'u' :: Text.hexDigits 4 n

/-- Outside the basic plane an escape takes the two units of a surrogate pair. -/
def escapeCode (n : Nat) : List Char :=
  if n < 0x10000 then escapeUnit n
  else escapeUnit (0xD800 + (n - 0x10000) / 0x400) ++ escapeUnit (0xDC00 + (n - 0x10000) % 0x400)

def escapeChar (ascii : Bool) (c : Char) : List Char :=
  if c = '"' then ['\\', '"']
  else if c = '\\' then ['\\', '\\']
  else if c = '\n' then ['\\', 'n']
  else if c = '\r' then ['\\', 'r']
  else if c = '\t' then ['\\', 't']
  else if c = '\x08' then ['\\', 'b']
  else if c = '\x0c' then ['\\', 'f']
  else if c.toNat < 0x20 || (ascii && 0x7F ≤ c.toNat) then escapeCode c.toNat
  else [c]

def quote (l : Layout) (s : String) : String :=
  String.ofList ('"' :: s.toList.flatMap (escapeChar l.ascii) ++ ['"'])

/-- Code points in quotes; those that are surrogates as escapes. -/
def quotePoints (l : Layout) (points : List Nat) : String :=
  String.ofList ('"' :: points.flatMap (fun n =>
    if n.isValidChar then escapeChar l.ascii (Char.ofNat n) else escapeUnit n) ++ ['"'])

/-- A decimal without trailing zeros in its coefficient; `fuel` bounds their number. -/
def reduceDecimal : (fuel : Nat) → (m e : Int) → Int × Int
  | 0, m, e => (m, e)
  | fuel + 1, m, e => if m != 0 && m % 10 = 0 then reduceDecimal fuel (m / 10) (e + 1) else (m, e)

/-- A decimal is written out from 10^-4 to below 10^16, and with an exponent elsewhere. -/
def decimalText (m e : Int) : String :=
  let (m, e) := reduceDecimal m.natAbs.log2 m e
  let sign := if m < 0 then "-" else ""
  let digits := Nat.toDigits 10 m.natAbs
  let point := digits.length + e
  if m = 0 then "0.0"
  else if -4 < point ∧ point ≤ 0 then
    sign ++ "0." ++ String.ofList (List.replicate (-point).toNat '0' ++ digits)
  else if 0 < point ∧ point ≤ 16 then
    let k := point.toNat
    let whole := digits.take k ++ List.replicate (k - digits.length) '0'
    let fraction := if digits.length ≤ k then ['0'] else digits.drop k
    sign ++ String.ofList (whole ++ '.' :: fraction)
  else
    let power := point - 1
    let fraction := if digits.length ≤ 1 then [] else '.' :: digits.drop 1
    let width := if power.natAbs < 10 then "0" else ""
    sign ++ String.ofList (digits.take 1 ++ fraction) ++ "e" ++ (if power < 0 then "-" else "+")
      ++ width ++ toString power.natAbs

def numberText : Number → String
  | .int n => toString n
  | .decimal m e => decimalText m e
  | .nan => "NaN"
  | .infinity negative => if negative then "-Infinity" else "Infinity"

mutual

def render (l : Layout) : Json → String
  | null => "null"
  | bool b => if b then "true" else "false"
  | number n => numberText n
  | string s => quote l s
  | unpaired points => quotePoints l points
  | array items => "[" ++ l.comma.intercalate (renderItems l items) ++ "]"
  | object members => "\x7b" ++ l.comma.intercalate (renderMembers l members) ++ "\x7d"

def renderItems (l : Layout) : List Json → List String
  | [] => []
  | v :: vs => render l v :: renderItems l vs

def renderMembers (l : Layout) : List (String × Json) → List String
  | [] => []
  | (name, v) :: ms => (quote l name ++ l.colon ++ render l v) :: renderMembers l ms

end

end LogQuery.Json
