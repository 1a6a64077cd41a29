import LogQuery.Text.Quoted
/-!
# Setting up logging

The levels of the loggers and the handlers of the root logger. Setting up leaves the root logger
with one handler that writes log lines, and keeps the loggers of the libraries quiet.
-/

namespace LogQuery.Log

inductive Handler
  | bare
  | structured
  deriving DecidableEq, Repr

/-- The loggers that are to pass warnings and errors only. -/
def quietLoggers : List String := ["httpx", "httpcore", "uvicorn.access"]

structure Setup where
  rootLevel : Int
  handlers : List Handler
  quietLevel : Int
  deriving DecidableEq, Repr

inductive LevelChoice
  | named (name : String)
  | number (level : Int)
  deriving DecidableEq, Repr

/-- The level chosen where none is. -/
def defaultLevel : LevelChoice := .named "INFO"

/-- A level whose name is not known. -/
structure UnknownLevel where
  name : String
  deriving DecidableEq, Repr

def UnknownLevel.message (e : UnknownLevel) : String := "Unknown level: " ++ Text.quoted e.name

def levelNumbers : List (String × Int) :=
  [("DEBUG", 10), ("INFO", 20), ("WARNING", 30), ("WARN", 30), ("ERROR", 40), ("CRITICAL", 50),
    ("FATAL", 50), ("NOTSET", 0)]

def LevelChoice.resolve : LevelChoice → Except UnknownLevel Int
  | number n => .ok n
  | named s => match levelNumbers.lookup s with
    | some n => .ok n
    | none => .error ⟨s⟩

/-- The setup before: the root logger passes warnings, and has handlers of others. -/
def Setup.initial (handlers : Nat) : Setup := ⟨30, List.replicate handlers .bare, 0⟩

/-- An unknown level changes nothing; any other replaces the handlers. -/
def Setup.configure (s : Setup) (level : LevelChoice) : Setup × Option UnknownLevel :=
  match level.resolve with
  | .error e => (s, some e)
  | .ok n => (⟨n, [.structured], 30⟩, none)

/-- Whether the loggers of the service pass information. -/
def Setup.passesInfo (s : Setup) : Bool := s.rootLevel ≤ 20

end LogQuery.Log
