/-!
# UTF-8 with replacement

Decoding of octets that may be no UTF-8. Where no character can begin or go on, the longest start of
one that was read becomes a single U+FFFD.
-/

namespace LogQuery.Text.Utf8

def replacement : Char := '\uFFFD'

/-- A character in progress: its bits so far, the octets still owed, and the bounds of the next. -/
structure Pending where
  bits : Nat
  owed : Nat
  low : Nat := 0x80
  high : Nat := 0xBF

/-- What the first octet of a character says: the character, or what is to follow. -/
def first (b : Nat) : Option (Char ⊕ Pending) :=
  if b < 0x80 then some (.inl (Char.ofNat b))
  else if 0xC2 ≤ b ∧ b ≤ 0xDF then some (.inr { bits := b - 0xC0, owed := 1 })
  else if b = 0xE0 then some (.inr { bits := 0, owed := 2, low := 0xA0 })
  else if b = 0xED then some (.inr { bits := 0xD, owed := 2, high := 0x9F })
  else if 0xE1 ≤ b ∧ b ≤ 0xEF then some (.inr { bits := b - 0xE0, owed := 2 })
  else if b = 0xF0 then some (.inr { bits := 0, owed := 3, low := 0x90 })
  else if 0xF1 ≤ b ∧ b ≤ 0xF3 then some (.inr { bits := b - 0xF0, owed := 3 })
  else if b = 0xF4 then some (.inr { bits := 4, owed := 3, high := 0x8F })
  else none

/-- The characters so far, the latest first, and the one in progress. -/
structure State where
  chars : List Char
  pending : Option Pending

def begin (chars : List Char) (b : Nat) : State :=
  match first b with
  | some (.inl c) => ⟨c :: chars, none⟩
  | some (.inr p) => ⟨chars, some p⟩
  | none => ⟨replacement :: chars, none⟩

def step (s : State) (b : Nat) : State :=
  match s.pending with
  | none => begin s.chars b
  | some p =>
    if p.low ≤ b ∧ b ≤ p.high then
      let bits := 64 * p.bits + (b - 0x80)
      if p.owed ≤ 1 then ⟨Char.ofNat bits :: s.chars, none⟩
      else ⟨s.chars, some { bits, owed := p.owed - 1 }⟩
    else begin (replacement :: s.chars) b

def decode (octets : List Nat) : List Char :=
  let s := octets.foldl step ⟨[], none⟩
  (match s.pending with
    | none => s.chars
    | some _ => replacement :: s.chars).reverse

def encodeChar (c : Char) : List Nat :=
  let n := c.toNat
  if n < 0x80 then [n]
  else if n < 0x800 then [0xC0 + n / 64, 0x80 + n % 64]
  else if n < 0x10000 then [0xE0 + n / 4096, 0x80 + n / 64 % 64, 0x80 + n % 64]
  else [0xF0 + n / 262144, 0x80 + n / 4096 % 64, 0x80 + n / 64 % 64, 0x80 + n % 64]

end LogQuery.Text.Utf8
