import LogQuery.Json.Printer
import LogQuery.Text.Quoted
import LogQuery.Schema.Integer
/-!
# Messages with arguments

A message may have places for arguments: `%s` takes any value, `%d` a number, and `%%` is a percent
sign. A message without arguments is taken as it is.
-/

namespace LogQuery.Log

mutual

/-- A value as it is shown inside another one. -/
def shownInside : Json → String
  | .null => "None"
  | .bool b => if b then "True" else "False"
  | .number .nan => "nan"
  | .number (.infinity negative) => if negative then "-inf" else "inf"
  | .number n => Json.numberText n
  | .string s => Text.quoted s
  | .unpaired points => Text.quotedPoints points
  | .array items => "[" ++ ", ".intercalate (shownItems items) ++ "]"
  | .object ms => "\x7b" ++ ", ".intercalate (shownMembers ms) ++ "\x7d"

def shownItems : List Json → List String
  | [] => []
  | v :: vs => shownInside v :: shownItems vs

def shownMembers : List (String × Json) → List String
  | [] => []
  | (name, v) :: ms => (Text.quoted name ++ ": " ++ shownInside v) :: shownMembers ms

end

/-- A value as it is shown in a message; a string that is no text as it is shown inside a value. -/
def shown : Json → String
  | .string s => s
  | v => shownInside v

inductive MessageError
  | leftOver
  | tooFew
  /-- A value of the kind named where a number is due. -/
  | notNumber (kind : String)
  deriving DecidableEq, Repr

def MessageError.message : MessageError → String
  | leftOver => "not all arguments converted during string formatting"
  | tooFew => "not enough arguments for format string"
  | notNumber kind => "%d format: a real number is required, not " ++ kind

def shownNumber : Json → Except MessageError String
  | .number (.int n) => .ok (toString n)
  | .number (.decimal m e) => .ok (toString (Binary64.truncate (Decimal.value m e)))
  | .number _ => .error (.notNumber "float")
  | .bool b => .ok (if b then "1" else "0")
  | .null => .error (.notNumber "NoneType")
  | .string _ | .unpaired _ => .error (.notNumber "str")
  | .array _ => .error (.notNumber "list")
  | .object _ => .error (.notNumber "dict")

/-- The message with its places filled, and the arguments left over. -/
def fill : List Char → List Json → Except MessageError (List Char × List Json)
  | [], args => .ok ([], args)
  | '%' :: '%' :: cs, args => (fill cs args).map fun r => ('%' :: r.1, r.2)
  | '%' :: 's' :: cs, args => match args with
    | [] => .error .tooFew
    | v :: args => (fill cs args).map fun r => ((shown v).toList ++ r.1, r.2)
  | '%' :: 'd' :: cs, args => match args with
    | [] => .error .tooFew
    | v :: args => do
      let text ← shownNumber v
      (fill cs args).map fun r => (text.toList ++ r.1, r.2)
  | c :: cs, args => (fill cs args).map fun r => (c :: r.1, r.2)

/-- Whether the arguments are a single object with members; it need not be used. -/
def isSingleObject : List Json → Bool
  | [.object (_ :: _)] => true
  | _ => false

def message (text : String) (args : List Json) : Except MessageError String :=
  if args.isEmpty then .ok text
  else do
    let (cs, rest) ← fill text.toList args
    if rest.isEmpty || isSingleObject args then .ok (String.ofList cs) else .error .leftOver

/-- An error to be noted in a log line. -/
structure Exception where
  type : String
  args : List Json

/-- What an error says. A missing key is shown as it is inside a value. -/
def Exception.details (e : Exception) : String :=
  match e.args with
  | [] => ""
  | [v] => if e.type = "KeyError" then shownInside v else shown v
  | vs => "(" ++ ", ".intercalate (shownItems vs) ++ ")"

def Exception.text (e : Exception) : String :=
  if e.details = "" then e.type else e.type ++ ": " ++ e.details

end LogQuery.Log
