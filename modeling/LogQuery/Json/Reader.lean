import LogQuery.Json.Number
import LogQuery.Text.Blank
import LogQuery.Text.Hex
/-!
# Reading JSON

The reader is a machine that takes one character at a time: `State.step`. It keeps the containers
that are still open, what may come next, and the lexeme in progress. Reading a text is the fold of
`step` over its characters, so what it does on `s ++ t` is what it does on `t` after `s`.
-/

namespace LogQuery.Json

/-- What a reader accepts beyond the grammar, and where it stops. -/
structure Limits where
  /-- How many non-empty containers may stand in each other. -/
  depth : Option Nat := none
  /-- For how many open containers there is room on the stack. -/
  stack : Option Nat := none
  /-- Whether a number of these characters is taken. -/
  admits : List Char → Bool := fun _ => true
  /-- Whether a surrogate in a string may be half of no pair. -/
  unpaired : Bool := false
  /-- Whether a byte order mark may stand in front. -/
  mark : Bool := false

inductive ReadError
  | malformed
  /-- A number that is not taken. -/
  | unbounded
  /-- No room on the stack for a list, or else an object. -/
  | tooDeep (isList : Bool)
  deriving DecidableEq, Repr

/-- The outcome of reading a text as JSON. -/
abbrev Reading := Except ReadError Json

/-- A container that is still open, its latest entry first. -/
inductive Frame
  | array (items : List Json)
  | object (members : Members)
  /-- An object whose latest member has no value yet. Its name may be no text. -/
  | member (members : Members) (name : Option String)

inductive Expects
  | value
  | firstItem
  | firstName
  | name
  | colon
  | separator
  | nothing (result : Json)

/-- Where a string stands after a backslash. -/
inductive Escape
  | none
  | letter
  /-- In `\u`: the surrogate before it, the digits read, and their value. -/
  | unit (high : Option Nat) (digits value : Nat)
  /-- After a leading surrogate: whether the backslash of the trailing one has been read. -/
  | pair (high : Nat) (backslash : Bool)

/-- The lexeme in progress, its latest character or code point first. -/
inductive Lexeme
  | none
  | bare (chars : List Char)
  | quoted (points : List Nat) (escape : Escape)

structure State where
  frames : List Frame
  expects : Expects
  lexeme : Lexeme

def isPunctuation (c : Char) : Bool :=
  c = '[' || c = ']' || c = '\x7b' || c = '\x7d' || c = ',' || c = ':' || c = '"'

/-- The text of code points, if none of them is a surrogate. -/
def text? (points : List Nat) : Option String :=
  if points.all fun n => n.isValidChar then some (String.ofList (points.map Char.ofNat)) else none

def ofPoints (points : List Nat) : Json :=
  match text? points with
  | some text => .string text
  | none => .unpaired points

namespace State

def start : State := ⟨[], .value, .none⟩

/-! ## Between lexemes -/

/-- A value has been read. Nobody can ask for a member whose name is no text; it is left out. -/
def put (v : Json) : List Frame → Except ReadError State
  | [] => .ok ⟨[], .nothing v, .none⟩
  | .array items :: fs => .ok ⟨.array (v :: items) :: fs, .separator, .none⟩
  | .member ms (some name) :: fs => .ok ⟨.object ((name, v) :: ms) :: fs, .separator, .none⟩
  | .member ms none :: fs => .ok ⟨.object ms :: fs, .separator, .none⟩
  | .object _ :: _ => .error .malformed

/-- The first entry of the innermost container makes it non-empty. -/
def enter (l : Limits) (s : State) : Except ReadError Unit :=
  match s.expects with
  | .value => .ok ()
  | .firstItem => if l.depth.all (s.frames.length ≤ ·) then .ok () else .error .malformed
  | _ => .error .malformed

/-- A container is opened. -/
def descend (l : Limits) (isList : Bool) (s : State) : Except ReadError Unit :=
  if l.stack.all (s.frames.length < ·) then .ok () else .error (.tooDeep isList)

/-- A string has been read; it is a value or a name. -/
def putString (l : Limits) (points : List Nat) (s : State) : Except ReadError State :=
  let named : Except ReadError State := match s.frames with
    | .object ms :: fs => .ok ⟨.member ms (text? points) :: fs, .colon, .none⟩
    | _ => .error .malformed
  match s.expects with
  | .name => named
  | .firstName => if l.depth.all (s.frames.length ≤ ·) then named else .error .malformed
  | _ => do s.enter l; put (ofPoints points) s.frames

/-- The value of a word or number. -/
def bareValue (l : Limits) (cs : List Char) : Except ReadError Json :=
  if cs = "null".toList then .ok .null
  else if cs = "true".toList then .ok (.bool true)
  else if cs = "false".toList then .ok (.bool false)
  else if cs = "NaN".toList then .ok (.number .nan)
  else if cs = "Infinity".toList then .ok (.number (.infinity false))
  else if cs = "-Infinity".toList then .ok (.number (.infinity true))
  else match Number.ofChars? cs with
    | none => .error .malformed
    | some n => if l.admits cs then .ok (.number n) else .error .unbounded

def putBare (l : Limits) (cs : List Char) (s : State) : Except ReadError State := do
  s.enter l
  let v ← bareValue l cs
  put v s.frames

/-- Closes the innermost container. -/
def close (square : Bool) (s : State) : Except ReadError State :=
  match square, s.expects, s.frames with
  | true, .firstItem, .array _ :: fs => put (.array []) fs
  | true, .separator, .array items :: fs => put (.array items.reverse) fs
  | false, .firstName, .object _ :: fs => put (.object []) fs
  | false, .separator, .object ms :: fs => put (.object ms.reverse) fs
  | _, _, _ => .error .malformed

def comma (s : State) : Except ReadError State :=
  match s.expects, s.frames with
  | .separator, .array _ :: _ => .ok { s with expects := .value }
  | .separator, .object _ :: _ => .ok { s with expects := .name }
  | _, _ => .error .malformed

/-- A character that is in no lexeme, or opens one. -/
def structural (l : Limits) (c : Char) (s : State) : Except ReadError State :=
  if Text.isGap c then .ok s
  else if c = '"' then .ok { s with lexeme := .quoted [] .none }
  else if c = '[' then do
    s.enter l
    s.descend l true
    .ok ⟨.array [] :: s.frames, .firstItem, .none⟩
  else if c = '\x7b' then do
    s.enter l
    s.descend l false
    .ok ⟨.object [] :: s.frames, .firstName, .none⟩
  else if c = ']' then s.close true
  else if c = '\x7d' then s.close false
  else if c = ',' then s.comma
  else if c = ':' then
    match s.expects with
    | .colon => .ok { s with expects := .value }
    | _ => .error .malformed
  else .ok { s with lexeme := .bare [c] }

/-! ## Inside a string -/

def escaped? (c : Char) : Option Char :=
  if c = '"' ∨ c = '\\' ∨ c = '/' then some c
  else if c = 'b' then some '\x08'
  else if c = 'f' then some '\x0c'
  else if c = 'n' then some '\n'
  else if c = 'r' then some '\r'
  else if c = 't' then some '\t'
  else none

/-- The code point of a surrogate pair. -/
def pairPoint (high low : Nat) : Nat := 0x10000 + (high - 0xD800) * 0x400 + (low - 0xDC00)

def isHigh (n : Nat) : Bool := 0xD800 ≤ n && n < 0xDC00

def isLow (n : Nat) : Bool := 0xDC00 ≤ n && n < 0xE000

/-- The code points after a surrogate that is half of no pair. -/
def alone (l : Limits) (ps : List Nat) (surrogate : Nat) : Except ReadError (List Nat) :=
  if l.unpaired then .ok (surrogate :: ps) else .error .malformed

/-- A code unit has been read that no leading surrogate stands before. -/
def firstUnit (l : Limits) (ps : List Nat) (n : Nat) : Except ReadError Lexeme :=
  if isHigh n then .ok (.quoted ps (.pair n false))
  else if isLow n then do
    let ps ← alone l ps n
    .ok (.quoted ps .none)
  else .ok (.quoted (n :: ps) .none)

/-- A whole code unit has been read. -/
def unitRead (l : Limits) (ps : List Nat) (high : Option Nat) (n : Nat) :
    Except ReadError Lexeme :=
  match high with
  | none => firstUnit l ps n
  | some h =>
    if isLow n then .ok (.quoted (pairPoint h n :: ps) .none)
    else do
      let ps ← alone l ps h
      firstUnit l ps n

/-- A character with no backslash before it. -/
def plainStep (ps : List Nat) (c : Char) : Except ReadError Lexeme :=
  if c = '\\' then .ok (.quoted ps .letter)
  else if c.toNat < 0x20 then .error .malformed
  else .ok (.quoted (c.toNat :: ps) .none)

/-- The character after a backslash. -/
def letterStep (ps : List Nat) (c : Char) : Except ReadError Lexeme :=
  if c = 'u' then .ok (.quoted ps (.unit none 0 0))
  else match escaped? c with
    | some d => .ok (.quoted (d.toNat :: ps) .none)
    | none => .error .malformed

/-- One character inside a string, the closing quote apart. -/
def stringStep (l : Limits) (ps : List Nat) (e : Escape) (c : Char) : Except ReadError Lexeme :=
  match e with
  | .none => plainStep ps c
  | .letter => letterStep ps c
  | .unit high digits value =>
    match Text.hexValue? c with
    | none => .error .malformed
    | some d =>
      if digits < 3 then .ok (.quoted ps (.unit high (digits + 1) (16 * value + d)))
      else unitRead l ps high (16 * value + d)
  | .pair high backslash =>
    if !backslash && c = '\\' then .ok (.quoted ps (.pair high true))
    else if backslash && c = 'u' then .ok (.quoted ps (.unit (some high) 0 0))
    else do
      -- what follows is not the other half, so that it stands for itself
      let ps ← alone l ps high
      if backslash then letterStep ps c else plainStep ps c

/-! ## The machine -/

def step (l : Limits) (s : State) (c : Char) : Except ReadError State :=
  match s.lexeme with
  | .none => s.structural l c
  | .bare cs =>
    if Text.isGap c || isPunctuation c then do
      let s' ← s.putBare l cs.reverse
      s'.structural l c
    else .ok { s with lexeme := .bare (c :: cs) }
  | .quoted ps e =>
    match e, c with
    | .none, '"' => s.putString l ps.reverse
    | .pair high false, '"' => do
      let ps ← alone l ps high
      s.putString l ps.reverse
    | e, c => do
      let lexeme ← stringStep l ps e c
      .ok { s with lexeme }

def finish (l : Limits) (s : State) : Except ReadError Json := do
  let s ← match s.lexeme with
    | .none => .ok s
    | .bare cs => s.putBare l cs.reverse
    | .quoted _ _ => .error .malformed
  match s.expects with
  | .nothing v => .ok v
  | _ => .error .malformed

end State

def readChars (l : Limits) (cs : List Char) : Except ReadError Json := do
  let s ← cs.foldlM (State.step l) State.start
  s.finish l

/-- The value that a text spells. -/
def read (l : Limits) (text : String) : Except ReadError Json :=
  match text.toList with
  | c :: cs => readChars l (if l.mark && c = '\uFEFF' then cs else c :: cs)
  | [] => .error .malformed

end LogQuery.Json
