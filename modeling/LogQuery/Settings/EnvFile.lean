import LogQuery.Text.Blank
import LogQuery.Text.Split
/-!
# Environment files

Lines of the form `NAME=value`. Quotes around a value are dropped; blank lines, comments and lines
without a name are passed over. In a value `${NAME}` stands for the value of that name.
-/

namespace LogQuery.Settings

def trimBlanks (cs : List Char) : List Char := Text.trim Text.isBlank cs

/-- What an escape in double quotes stands for. -/
def unescape (c : Char) : List Char :=
  if c = '\\' ∨ c = '\'' ∨ c = '"' then [c]
  else if c = 'a' then ['\x07']
  else if c = 'b' then ['\x08']
  else if c = 'f' then ['\x0c']
  else if c = 'n' then ['\n']
  else if c = 'r' then ['\r']
  else if c = 't' then ['\t']
  else if c = 'v' then ['\x0b']
  else ['\\', c]

/-- The text up to the closing quote, without its escapes; none if there is no closing quote. -/
def quoted? (quote : Char) (escape : Char → List Char) : List Char → Option (List Char)
  | [] => none
  | c :: cs =>
    if c = quote then some []
    else if c = '\\' then match cs with
      | [] => none
      | d :: ds => (quoted? quote escape ds).map (escape d ++ ·)
    else (quoted? quote escape cs).map (c :: ·)

/-- The text before a comment, which a number sign after a blank begins. -/
def beforeComment : List Char → List Char
  | [] => []
  | c :: cs => match cs with
    | '#' :: _ => if Text.isBlank c then [] else c :: beforeComment cs
    | _ => c :: beforeComment cs

def envValue (cs : List Char) : Option (List Char) :=
  match cs with
  | '\'' :: rest => quoted? '\'' (fun c => if c = '\\' ∨ c = '\'' then [c] else ['\\', c]) rest
  | '"' :: rest => quoted? '"' unescape rest
  | '#' :: _ => some []
  | cs => some (trimBlanks (beforeComment cs))

/-- The name and the value that a line sets. -/
def envLine? (line : List Char) : Option (String × String) :=
  let cs := trimBlanks line
  let cs := if "export ".toList.isPrefixOf cs then trimBlanks (cs.drop 7) else cs
  match cs.dropWhile (· ≠ '=') with
  | '=' :: rest =>
    let name := trimBlanks (cs.takeWhile (· ≠ '='))
    if name = [] ∨ name.head? = some '#' then none
    else (envValue (trimBlanks rest)).map fun v => (String.ofList name, String.ofList v)
  | _ => none

/-- A line ends with a line feed, a carriage return, or both. -/
def envLines (text : String) : List (List Char) :=
  (text.toList.map fun c => if c = '\r' then '\n' else c).splitOn '\n'

/-! ## References -/

/-- A reference to a name, what stands for it if it is not set, and how many characters it takes. -/
structure Reference where
  name : List Char
  otherwise : List Char
  length : Nat

/-- The reference that the characters begin with: `${name}` or `${name:-otherwise}`. -/
def reference? : List Char → Option Reference
  | '$' :: '\x7b' :: cs =>
    let name := cs.takeWhile fun c => c ≠ '\x7d' && c ≠ ':'
    match cs.drop name.length with
    | '\x7d' :: _ => some ⟨name, [], name.length + 3⟩
    | ':' :: '-' :: cs =>
      let otherwise := cs.takeWhile (· ≠ '\x7d')
      if otherwise.length < cs.length then
        some ⟨name, otherwise, name.length + otherwise.length + 5⟩
      else none
    | _ => none
  | _ => none

/-- The characters with their references resolved, the first `skip` of them left out. -/
def resolveFrom (value? : String → Option String) : (skip : Nat) → List Char → List Char
  | _, [] => []
  | skip + 1, _ :: cs => resolveFrom value? skip cs
  | 0, c :: cs => match reference? (c :: cs) with
    | some r =>
      let value := match value? (String.ofList r.name) with
        | some s => s.toList
        | none => r.otherwise
      value ++ resolveFrom value? (r.length - 1) cs
    | none => c :: resolveFrom value? 0 cs

def resolve (value? : String → Option String) (s : String) : String :=
  String.ofList (resolveFrom value? 0 s.toList)

/-- The names set by a file, with their values, in the order of the lines. A value may refer to what
stands before it in the file, and otherwise to the environment. -/
def readEnvFile (env : List (String × String)) (text : String) : List (String × String) :=
  let lines := (envLines text).filterMap envLine?
  (lines.foldl (fun done l =>
    (l.1, resolve (fun name => (done.lookup name).or (env.lookup name)) l.2) :: done) []).reverse

end LogQuery.Settings
