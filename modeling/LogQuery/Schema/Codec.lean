import LogQuery.Json.Basic
import LogQuery.Schema.Checked
/-!
# Codecs between JSON and the models

A codec reads a value with all its issues and writes it back. A model is a codec of its fields:
`Fields` are put side by side with `pair` and turned into the model's own type with `map`.
-/

namespace LogQuery.Schema

open Json (Members)

/-- How a model is written: under the aliases or the plain names, with or without nulls. -/
structure Style where
  aliases : Bool := true
  nulls : Bool := true

structure Codec (α : Type) where
  read : Json → Checked α
  write : Style → α → Json

namespace Codec

variable {α β : Type}

/-- Texts. A string that is none does not come this far; what holds values is checked before. -/
def string : Codec String where
  read
    | .string s => .ok s
    | _ => .reject .notString
  write _ s := .string s

/-- Any value, kept as it is. -/
def any : Codec Json where
  read := .ok
  write _ v := v

def nullable (c : Codec α) : Codec (Option α) where
  read
    | .null => .ok none
    | v => (c.read v).map some
  write style
    | none => .null
    | some a => c.write style a

def list (c : Codec α) : Codec (List α) where
  read
    | .array items => Checked.items c.read items
    | _ => .reject .notList
  write style as := .array (as.map (c.write style))

/-- A list with at least one item. -/
def nonEmptyList (c : Codec α) : Codec (List α) where
  read v := (c.list.read v).andThen fun as => if as.isEmpty then .reject .tooShort else .ok as
  write := c.list.write

/-- One of finitely many values, told apart by their names. -/
def choice (all : List α) (name : α → String) : Codec α where
  read
    | .string s => .ofOption .notChoice (all.find? fun a => name a == s)
    | _ => .reject .notChoice
  write _ a := .string (name a)

/-- Texts under names; a name that occurs twice has its last value. -/
def dictionary : Codec (List (String × String)) where
  read
    | .object ms => (Members.distinct ms).foldr
        (fun m rest => (((string.read m.2).within m.1).both rest).map fun p => (m.1, p.1) :: p.2)
        (.ok [])
    | _ => .reject .notDictionary
  write _ entries := .object (entries.map fun e => (e.1, .string e.2))

def map (f : α → β) (g : β → α) (c : Codec α) : Codec β where
  read v := (c.read v).map f
  write style b := c.write style (g b)

end Codec

/-- The name of a field, and the alias that takes precedence over it. -/
structure Name where
  plain : String
  alias? : Option String := none

namespace Name

def shown (n : Name) : String := n.alias?.getD n.plain

def written (style : Style) (n : Name) : String := if style.aliases then n.shown else n.plain

/-- The value that the members have for the field, with the spelling under which it was found. -/
def find? (n : Name) (ms : Members) : Option (String × Json) :=
  match Members.find? ms n.shown with
  | some v => some (n.shown, v)
  | none => (Members.find? ms n.plain).map fun v => (n.plain, v)

end Name

structure Fields (α : Type) where
  read : Members → Checked α
  /-- The spellings that `read` looks at. -/
  used : Members → List String
  write : Style → α → Members

namespace Fields

variable {α β : Type}

/-- A field that may be left out where it has a default. -/
def field (n : Name) (c : Codec α) (default : Option α) : Fields α where
  read ms := match n.find? ms with
    | some (spelling, v) => (c.read v).within spelling
    | none => match default with
      | some a => .ok a
      | none => .rejected [⟨.missing, [n.shown]⟩]
  used ms := ((n.find? ms).map Prod.fst).toList
  write style a :=
    let v := c.write style a
    if v.isNull && !style.nulls then [] else [(n.written style, v)]

def required (name : String) (c : Codec α) : Fields α := field ⟨name, none⟩ c none

def optional (name : String) (c : Codec α) (default : α) : Fields α :=
  field ⟨name, none⟩ c (some default)

/-- An optional field with an alias. -/
def aliased (name aliasName : String) (c : Codec α) (default : α) : Fields α :=
  field ⟨name, some aliasName⟩ c (some default)

def pair (fa : Fields α) (fb : Fields β) : Fields (α × β) where
  read ms := (fa.read ms).both (fb.read ms)
  used ms := fa.used ms ++ fb.used ms
  write style p := fa.write style p.1 ++ fb.write style p.2

def map (f : α → β) (g : β → α) (fa : Fields α) : Fields β where
  read ms := (fa.read ms).map f
  used := fa.used
  write style b := fa.write style (g b)

/-- The names that no field looks at, each as an issue. -/
def unknown (fa : Fields α) (ms : Members) : Checked Unit :=
  match (Members.distinct ms).filter fun m => m.1 ∉ fa.used ms with
  | [] => .ok ()
  | extra => .rejected (extra.map fun m => ⟨.unknownName, [m.1]⟩)

/-- A model that ignores unknown names. -/
def model (fa : Fields α) : Codec α where
  read
    | .object ms => fa.read ms
    | _ => .reject .notModel
  write style a := .object (fa.write style a)

/-- A model that rejects unknown names. -/
def closedModel (fa : Fields α) : Codec α where
  read
    | .object ms => ((fa.read ms).both (fa.unknown ms)).map Prod.fst
    | _ => .reject .notModel
  write style a := .object (fa.write style a)

end Fields

end LogQuery.Schema
