import LogQuery.Proofs.Json.Spelling
import Mathlib.Algebra.Group.Nat.Defs
/-!
# The grammar of JSON

`Spells cs v` says that the characters `cs` are a text of the value `v`.  A value
has many texts: any white space may stand between the tokens, any character of a
string or a name may be written in any of its ways (`SpellsChar`), and a member of
an object may be followed by another one of its name.
-/

namespace LogQuery.Json

/-- White space between tokens. -/
def Gap (cs : List Char) : Prop := ∀ c ∈ cs, Text.isGap c = true

/-! ### Numbers -/

/-- One digit or more. -/
def Digits (ds : List Char) : Prop := ds ≠ [] ∧ ∀ d ∈ ds, d.isDigit = true

/-- Digits of which the first is a zero only if it is alone. -/
structure Whole (ds : List Char) : Prop where
  digits : Digits ds
  zero : ds.head? = some '0' → ds = ['0']

/-- A sign, and whether it is a minus. -/
inductive SpellsSign : List Char → Bool → Prop
  | none : SpellsSign [] false
  | minus : SpellsSign ['-'] true

/-- A fraction and its digits. -/
inductive SpellsFraction : List Char → List Char → Prop
  | none : SpellsFraction [] []
  | point {ds : List Char} (h : Digits ds) : SpellsFraction ('.' :: ds) ds

inductive SpellsExponent : List Char → Int → Prop
  | none : SpellsExponent [] 0
  | bare {e : Char} {ds : List Char} (he : e = 'e' ∨ e = 'E') (h : Digits ds) :
      SpellsExponent (e :: ds) (ofDigits ds)
  | plus {e : Char} {ds : List Char} (he : e = 'e' ∨ e = 'E') (h : Digits ds) :
      SpellsExponent (e :: '+' :: ds) (ofDigits ds)
  | minus {e : Char} {ds : List Char} (he : e = 'e' ∨ e = 'E') (h : Digits ds) :
      SpellsExponent (e :: '-' :: ds) (-(ofDigits ds : Int))

def signed (negative : Bool) (n : Nat) : Int := if negative then -n else n

/-- A number is whole if it has neither a fraction nor an exponent. -/
inductive SpellsNumber : List Char → Number → Prop
  | int {sign ds : List Char} {negative : Bool} (hsign : SpellsSign sign negative)
      (hds : Whole ds) : SpellsNumber (sign ++ ds) (.int (signed negative (ofDigits ds)))
  | decimal {sign ds fraction fs exponent : List Char} {negative : Bool} {e : Int}
      (hsign : SpellsSign sign negative) (hds : Whole ds) (hfraction : SpellsFraction fraction fs)
      (hexponent : SpellsExponent exponent e) (hsome : fraction ≠ [] ∨ exponent ≠ []) :
      SpellsNumber (sign ++ (ds ++ (fraction ++ exponent)))
        (.decimal (signed negative (ofDigits (ds ++ fs))) (e - fs.length))

/-! ### Values -/

/-- A string in its quotes, with the gaps around it. -/
inductive SpellsName : List Char → String → Prop
  | padded {before cs after : List Char} {text : String} (hbefore : Gap before)
      (h : SpellsText cs text.toList) (hafter : Gap after) :
      SpellsName (before ++ '"' :: (cs ++ '"' :: after)) text

mutual

/-- A value from its first character to its last. The numbers in it are such as the reader takes. -/
inductive SpellsBare (l : Limits) : List Char → Json → Prop
  | null : SpellsBare l "null".toList .null
  | true : SpellsBare l "true".toList (.bool true)
  | false : SpellsBare l "false".toList (.bool false)
  | number {cs : List Char} {n : Number} (h : SpellsNumber cs n) (hadmits : l.admits cs = true) :
      SpellsBare l cs (.number n)
  | string {cs : List Char} {text : String} (h : SpellsText cs text.toList) :
      SpellsBare l ('"' :: (cs ++ ['"'])) (.string text)
  | noItems {cs : List Char} (h : Gap cs) : SpellsBare l ('[' :: (cs ++ [']'])) (.array [])
  | items {cs : List Char} {vs : List Json} (h : SpellsItems l cs vs) :
      SpellsBare l ('[' :: (cs ++ [']'])) (.array vs)
  | noMembers {cs : List Char} (h : Gap cs) :
      SpellsBare l ('\x7b' :: (cs ++ ['\x7d'])) (.object [])
  | members {cs : List Char} {ms : Members} (h : SpellsMembers l cs ms) :
      SpellsBare l ('\x7b' :: (cs ++ ['\x7d'])) (.object ms)

/-- A value with the gaps around it. -/
inductive Spells (l : Limits) : List Char → Json → Prop
  | padded {before cs after : List Char} {v : Json} (hbefore : Gap before)
      (h : SpellsBare l cs v) (hafter : Gap after) : Spells l (before ++ (cs ++ after)) v

/-- One item or more, with a comma between each two. -/
inductive SpellsItems (l : Limits) : List Char → List Json → Prop
  | single {cs : List Char} {v : Json} (h : Spells l cs v) : SpellsItems l cs [v]
  | cons {cs ds : List Char} {v : Json} {vs : List Json} (h : Spells l cs v)
      (h' : SpellsItems l ds vs) : SpellsItems l (cs ++ ',' :: ds) (v :: vs)

/-- One member or more, with a comma between each two. -/
inductive SpellsMembers (l : Limits) : List Char → Members → Prop
  | single {ns cs : List Char} {name : String} {v : Json} (hname : SpellsName ns name)
      (h : Spells l cs v) : SpellsMembers l (ns ++ ':' :: cs) [(name, v)]
  | cons {ns cs ds : List Char} {name : String} {v : Json} {ms : Members}
      (hname : SpellsName ns name) (h : Spells l cs v) (h' : SpellsMembers l ds ms) :
      SpellsMembers l (ns ++ ':' :: (cs ++ ',' :: ds)) ((name, v) :: ms)

end

/-! ### Limits -/

mutual

/-- How many containers stand in each other, empty ones not counted. -/
def depth : Json → Nat
  | .array vs => itemsDepth vs
  | .object ms => membersDepth ms
  | _ => 0

def itemsDepth : List Json → Nat
  | [] => 0
  | v :: vs => max (v.depth + 1) (itemsDepth vs)

def membersDepth : List (String × Json) → Nat
  | [] => 0
  | (_, v) :: ms => max (v.depth + 1) (membersDepth ms)

end

mutual

/-- How many containers stand in each other, empty ones counted. -/
def height : Json → Nat
  | .array vs => itemsHeight vs + 1
  | .object ms => membersHeight ms + 1
  | _ => 0

def itemsHeight : List Json → Nat
  | [] => 0
  | v :: vs => max v.height (itemsHeight vs)

def membersHeight : List (String × Json) → Nat
  | [] => 0
  | (_, v) :: ms => max v.height (membersHeight ms)

end

/-- A value that the limits allow inside of `n` containers. -/
structure Within (l : Limits) (n : Nat) (v : Json) : Prop where
  depth : ∀ d ∈ l.depth, n + v.depth ≤ d
  stack : ∀ d ∈ l.stack, n + v.height ≤ d

end LogQuery.Json
