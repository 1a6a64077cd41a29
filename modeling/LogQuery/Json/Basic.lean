/-!
# JSON values

Members keep their order and may repeat a name; `find?` is where the last one counts.
-/

namespace LogQuery

/-- A number as it was written: whole, with a point or an exponent (`coefficient * 10 ^ exponent`),
or one of the three values that are no numbers of mathematics. -/
inductive Number
  | int (value : Int)
  | decimal (coefficient exponent : Int)
  | nan
  | infinity (negative : Bool)
  deriving DecidableEq, Repr

inductive Json
  | null
  | bool (value : Bool)
  | number (value : Number)
  | string (value : String)
  /-- A string with surrogates outside of pairs, which is no text, by its code points. -/
  | unpaired (points : List Nat)
  | array (items : List Json)
  | object (members : List (String × Json))
  deriving Repr, Inhabited

namespace Json

abbrev Members := List (String × Json)

/-- The value of the last member of that name. -/
def Members.find? (ms : Members) (name : String) : Option Json :=
  ms.reverse.lookup name

/-- The members with each name once, in the order in which the names are first seen. -/
def Members.distinct (ms : Members) : Members :=
  (ms.map Prod.fst).eraseDups.filterMap fun name => (find? ms name).map fun v => (name, v)

/-- `ms` with the member `name` set, in its old place if it has one. -/
def Members.set (ms : Members) (name : String) (v : Json) : Members :=
  if ms.any (·.1 == name) then ms.map fun m => if m.1 == name then (name, v) else m
  else ms ++ [(name, v)]

def int (n : Int) : Json := .number (.int n)

def strings (xs : List String) : Json := .array (xs.map .string)

def isUnpaired : Json → Bool
  | unpaired _ => true
  | _ => false

def isNull : Json → Bool
  | null => true
  | _ => false

mutual

/-- Whether every string in a value is a text. -/
def isUnicode : Json → Bool
  | unpaired _ => false
  | array items => itemsUnicode items
  | object members => membersUnicode members
  | _ => true

def itemsUnicode : List Json → Bool
  | [] => true
  | v :: vs => isUnicode v && itemsUnicode vs

def membersUnicode : List (String × Json) → Bool
  | [] => true
  | (_, v) :: ms => isUnicode v && membersUnicode ms

end

end Json

end LogQuery
