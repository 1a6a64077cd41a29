/-!
# Checked values

What comes of checking an input: a value, or every issue that was found, in order. Two checks side
by side keep the issues of both (`both`), a check that needs a value waits for it (`andThen`).
-/

namespace LogQuery.Schema

inductive IssueKind
  | missing
  | unknownName
  | notString
  | notList
  | notDictionary
  | notModel
  | notChoice
  | tooShort
  | notInteger
  | fractional
  | notFinite
  | unreadableInteger
  | oversizedInteger
  | tooSmall
  | tooLarge
  | notTime
  | unreadableTime
  | impossibleTime
  | unreadableBool
  deriving DecidableEq, Repr

/-- Who asks: a service that takes any object with the right attributes calls a value that is none
by another name. -/
inductive Audience
  | caller
  | service
  deriving DecidableEq, Repr

def IssueKind.code (audience : Audience) : IssueKind → String
  | missing => "missing"
  | unknownName => "extra_forbidden"
  | notString => "string_type"
  | notList => "list_type"
  | notDictionary => "dict_type"
  | notModel => match audience with
    | .caller => "model_type"
    | .service => "model_attributes_type"
  | notChoice => "literal_error"
  | tooShort => "too_short"
  | notInteger => "int_type"
  | fractional => "int_from_float"
  | notFinite => "finite_number"
  | unreadableInteger => "int_parsing"
  | oversizedInteger => "int_parsing_size"
  | tooSmall => "greater_than_equal"
  | tooLarge => "less_than_equal"
  | notTime => "datetime_type"
  | unreadableTime => "datetime_from_date_parsing"
  | impossibleTime => "datetime_parsing"
  | unreadableBool => "bool_parsing"

/-- An issue and where it was found: names, and positions in lists as numerals. -/
structure Issue where
  kind : IssueKind
  path : List String
  deriving DecidableEq, Repr

def Issue.within (step : String) (i : Issue) : Issue := { i with path := step :: i.path }

inductive Checked (α : Type)
  | ok (value : α)
  | rejected (issues : List Issue)
  deriving DecidableEq, Repr

namespace Checked

variable {α β : Type}

def reject (kind : IssueKind) : Checked α := .rejected [⟨kind, []⟩]

def map (f : α → β) : Checked α → Checked β
  | ok a => ok (f a)
  | rejected is => rejected is

def both : Checked α → Checked β → Checked (α × β)
  | ok a, ok b => ok (a, b)
  | ok _, rejected js => rejected js
  | rejected is, ok _ => rejected is
  | rejected is, rejected js => rejected (is ++ js)

def andThen (f : α → Checked β) : Checked α → Checked β
  | ok a => f a
  | rejected is => rejected is

/-- The same outcome, found one step further down. -/
def within (step : String) : Checked α → Checked α
  | ok a => ok a
  | rejected is => rejected (is.map (Issue.within step))

def ofOption (kind : IssueKind) : Option α → Checked α
  | some a => ok a
  | none => reject kind

/-- Checks the items from number `n` on. -/
def itemsFrom (check : β → Checked α) : Nat → List β → Checked (List α)
  | _, [] => ok []
  | n, x :: xs => (((check x).within (toString n)).both (itemsFrom check (n + 1) xs)).map
      fun p => p.1 :: p.2

def items (check : β → Checked α) : List β → Checked (List α) := itemsFrom check 0

/-- Checks one item after another and stops at the first that is rejected. -/
def sequence (check : β → Checked α) : List β → Checked (List α)
  | [] => ok []
  | x :: xs => (check x).andThen fun a => (sequence check xs).map (a :: ·)

@[simp] theorem both_ok (a : α) (b : β) : (ok a).both (ok b) = ok (a, b) := rfl

@[simp] theorem map_ok (f : α → β) (a : α) : (ok a).map f = ok (f a) := rfl

@[simp] theorem within_ok (step : String) (a : α) : (ok a).within step = ok a := rfl

@[simp] theorem andThen_ok (f : α → Checked β) (a : α) : (ok a).andThen f = f a := rfl

end Checked

end LogQuery.Schema
