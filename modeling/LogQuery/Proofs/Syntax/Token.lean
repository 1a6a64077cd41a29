import LogQuery.Text.Blank
import LogQuery.Proofs.Literal
import LogQuery.Proofs.Syntax.Transducer
/-!
# The tokens of the query language

The scanner cuts a text of the query language into tokens.  Inside double quotes
a backslash takes the next character, and the literal ends at the first quote
that is not taken so; a literal in backticks is raw.  A word is a longest run of
characters that mean nothing else: an identifier, a number, `or`.

`Spells s ts` says that the text `s` is read as the tokens `ts`, both at the end
and before a delimiter.  The scanner stands in `.none` after every literal and
every delimiter, so texts with delimiters between them spell their tokens one
after another (`Spells.intercalate`), whatever the literals hold.
-/

namespace LogQuery.Syntax

open Text (isGap)

inductive Token
  | opening
  | closing
  | comma
  | symbol (text : String)
  | word (text : String)
  | quoted (text : String)
  | raw (text : String)
  deriving DecidableEq, Repr

/-- The two kinds of tokens that end only where their characters do. -/
inductive Kind
  | word
  | symbol
  deriving DecidableEq, Repr

/-- The token in progress, its latest character first. -/
inductive Lexeme
  | none
  | bare (kind : Kind) (cs : List Char)
  | quoted (cs : List Char) (escaped : Bool)
  | raw (cs : List Char)
  deriving DecidableEq, Repr

def isSymbolChar (c : Char) : Bool := c ∈ ['=', '!', '~', '<', '>', '|']

def isPunctuation (c : Char) : Bool := c ∈ ['\x7b', '\x7d', ',', '"', '\x60']

namespace Kind

def holds : Kind → Char → Bool
  | word, c => !isGap c && !isSymbolChar c && !isPunctuation c
  | symbol, c => isSymbolChar c

def token : Kind → String → Token
  | word => .word
  | symbol => .symbol

/-- Whether a text is one token of the kind. -/
def spells (k : Kind) (s : String) : Bool := s.toList ≠ [] && s.toList.all k.holds

end Kind

/-- The character that a backslash and this one stand for. -/
def unescape? (c : Char) : Option Char :=
  if c = '\\' ∨ c = '"' then some c else if c = 'n' then some '\n' else none

/-- What a character between tokens writes and begins. -/
def opened (c : Char) : List Token × Lexeme :=
  if isGap c then ([], .none)
  else if isSymbolChar c then ([], .bare .symbol [c])
  else if c = '\x7b' then ([.opening], .none)
  else if c = '\x7d' then ([.closing], .none)
  else if c = ',' then ([.comma], .none)
  else if c = '"' then ([], .quoted [] false)
  else if c = '\x60' then ([], .raw [])
  else ([], .bare .word [c])

def text (cs : List Char) : String := String.ofList cs.reverse

/-- A line break may stand in no double quotes. -/
def scanStep : Lexeme → Char → Option (List Token × Lexeme)
  | .none, c => some (opened c)
  | .bare k cs, c =>
    some (if k.holds c then ([], .bare k (c :: cs))
      else (k.token (text cs) :: (opened c).1, (opened c).2))
  | .quoted cs true, c => (unescape? c).map fun d => ([], .quoted (d :: cs) false)
  | .quoted cs false, c =>
    if c = '"' then some ([.quoted (text cs)], .none)
    else if c = '\\' then some ([], .quoted cs true)
    else if c = '\n' then none
    else some ([], .quoted (c :: cs) false)
  | .raw cs, c => some (if c = '\x60' then ([.raw (text cs)], .none) else ([], .raw (c :: cs)))

def scanEnd : Lexeme → Option (List Token)
  | .none => some []
  | .bare k cs => some [k.token (text cs)]
  | .quoted _ _ => none
  | .raw _ => none

def scanner : Transducer Char Token Lexeme := ⟨scanStep, scanEnd⟩

/-- The tokens of a text. -/
def scan? (s : String) : Option (List Token) := scanner.run .none s.toList

/-- The scanner reads characters as tokens, from one lexeme to another. -/
abbrev Scans := scanner.Passes

theorem scans_cons {l l' l'' : Lexeme} {c : Char} {cs : List Char} {out out' : List Token}
    (h : scanStep l c = some (out, l')) (h' : Scans l' cs out' l'') :
    Scans l (c :: cs) (out ++ out') l'' :=
  Transducer.Passes.cons (show scanner.step l c = some (out, l') from h) h'

theorem scans_single {l l' : Lexeme} {c : Char} {out : List Token}
    (h : scanStep l c = some (out, l')) : Scans l [c] out l' :=
  Transducer.Passes.single (show scanner.step l c = some (out, l') from h)

@[simp] theorem text_reverse (s : String) : text s.toList.reverse = s := by
  rw [text, List.reverse_reverse, String.ofList_toList]

/-! ### Words and symbols -/

theorem opened_of_holds {k : Kind} {c : Char} (h : k.holds c = true) :
    opened c = ([], .bare k [c]) := by
  cases k with
  | word =>
    simp only [Kind.holds, isPunctuation, Bool.and_eq_true, Bool.not_eq_true',
      decide_eq_false_iff_not, List.mem_cons, List.not_mem_nil, or_false, not_or] at h
    obtain ⟨⟨hg, hs⟩, h1, h2, h3, h4, h5⟩ := h
    simp [opened, hg, hs, h1, h2, h3, h4, h5]
  | symbol =>
    have hg : isGap c = false := by
      simp only [Kind.holds, isSymbolChar, List.mem_cons, List.not_mem_nil, or_false,
        decide_eq_true_eq] at h
      rcases h with rfl | rfl | rfl | rfl | rfl | rfl <;> rfl
    rw [opened, hg, if_neg Bool.false_ne_true]
    exact if_pos h

/-- No character is of both kinds. -/
theorem holds_of_ne {j k : Kind} (hjk : j ≠ k) {c : Char} (h : k.holds c = true) :
    j.holds c = false := by
  have hword : isSymbolChar c = true → Kind.holds .word c = false := by
    intro hs
    rw [Kind.holds, hs, Bool.not_true, Bool.and_false, Bool.false_and]
  cases j with
  | word =>
    cases k with
    | word => exact absurd rfl hjk
    | symbol => exact hword h
  | symbol =>
    cases k with
    | symbol => exact absurd rfl hjk
    | word =>
      cases hs : isSymbolChar c with
      | false => exact hs
      | true => rw [hword hs] at h; exact absurd h Bool.false_ne_true

theorem exists_cons_of_spells {k : Kind} {s : String} (h : k.spells s = true) :
    ∃ c cs, s.toList = c :: cs ∧ k.holds c = true ∧ cs.all k.holds = true := by
  rw [Kind.spells, Bool.and_eq_true, decide_eq_true_iff] at h
  obtain ⟨hne, hall⟩ := h
  obtain ⟨c, cs, hcs⟩ := List.exists_cons_of_ne_nil hne
  rw [hcs, List.all_cons, Bool.and_eq_true] at hall
  exact ⟨c, cs, hcs, hall.1, hall.2⟩

theorem scans_bare_more (k : Kind) (cs : List Char) {w : List Char} (hw : w.all k.holds = true) :
    Scans (.bare k cs) w [] (.bare k (w.reverse ++ cs)) := by
  induction w generalizing cs with
  | nil => exact .nil _
  | cons c w ih =>
    rw [List.all_cons, Bool.and_eq_true] at hw
    have hstep : scanStep (.bare k cs) c = some ([], .bare k (c :: cs)) := by
      rw [scanStep, if_pos hw.1]
    rw [List.reverse_cons, List.append_assoc]
    exact scans_cons hstep (ih (c :: cs) hw.2)

theorem scans_bare {k : Kind} {s : String} (h : k.spells s = true) :
    Scans .none s.toList [] (.bare k s.toList.reverse) := by
  obtain ⟨c, cs, hcs, hc, hall⟩ := exists_cons_of_spells h
  have hstep : scanStep .none c = some ([], .bare k [c]) := by
    rw [scanStep, opened_of_holds hc]
  rw [hcs, List.reverse_cons]
  exact scans_cons hstep (scans_bare_more k [c] hall)

/-- A token of the other kind ends one that is in progress. -/
theorem scans_bare_after {j k : Kind} (hjk : j ≠ k) (w : String) {s : String}
    (h : k.spells s = true) :
    Scans (.bare j w.toList.reverse) s.toList [j.token w] (.bare k s.toList.reverse) := by
  obtain ⟨c, cs, hcs, hc, hall⟩ := exists_cons_of_spells h
  have hstep : scanStep (.bare j w.toList.reverse) c = some ([j.token w], .bare k [c]) := by
    have hother : ¬ j.holds c = true := by
      rw [holds_of_ne hjk hc]
      exact Bool.false_ne_true
    rw [scanStep, if_neg hother, opened_of_holds hc, text_reverse]
  rw [hcs, List.reverse_cons]
  exact scans_cons hstep (scans_bare_more k [c] hall)

/-! ### Literals -/

theorem scans_escape {c d : Char} (h : unescape? c = some d) (acc : List Char) :
    Scans (.quoted acc false) ['\\', c] [] (.quoted (d :: acc) false) := by
  have hback : scanStep (.quoted acc false) '\\' = some ([], .quoted acc true) := rfl
  have hchar : scanStep (.quoted acc true) c = some ([], .quoted (d :: acc) false) := by
    rw [scanStep, h, Option.map_some]
  exact scans_cons hback (scans_single hchar)

theorem scans_escapeChar (acc : List Char) (c : Char) :
    Scans (.quoted acc false) (Literal.escapeChar c) [] (.quoted (c :: acc) false) := by
  by_cases hb : c = '\\'
  · subst hb
    exact scans_escape rfl acc
  · by_cases hn : c = '\n'
    · subst hn
      exact scans_escape rfl acc
    · by_cases hq : c = '"'
      · subst hq
        exact scans_escape rfl acc
      · rw [Literal.escapeChar_of_plain hb hn hq]
        apply scans_single
        rw [scanStep, if_neg hq, if_neg hb, if_neg hn]

/-- **An escaped text is read back**, whatever quotes and backslashes it has. -/
theorem scans_escapeChars (acc cs : List Char) :
    Scans (.quoted acc false) (Literal.escapeChars cs) [] (.quoted (cs.reverse ++ acc) false) := by
  induction cs generalizing acc with
  | nil => exact .nil _
  | cons c cs ih =>
    rw [Literal.escapeChars_cons, List.reverse_cons, List.append_assoc]
    exact (scans_escapeChar acc c).append (ih (c :: acc))

/-- From where a quote opens a literal, the literal is read to its end. -/
theorem scans_literal {l : Lexeme} {out : List Token}
    (h : scanStep l '"' = some (out, .quoted [] false)) (s : String) :
    Scans l (Literal.quote s).toList (out ++ [.quoted s]) .none := by
  have hbody := scans_escapeChars [] s.toList
  have hclose : scanStep (.quoted (s.toList.reverse ++ []) false) '"'
      = some ([.quoted s], .none) := by
    rw [List.append_nil, scanStep, if_pos rfl, text_reverse]
  rw [Literal.toList_quote]
  exact scans_cons h (hbody.append (scans_single hclose))

theorem scans_raw_more (acc : List Char) {cs : List Char} (h : '\x60' ∉ cs) :
    Scans (.raw acc) cs [] (.raw (cs.reverse ++ acc)) := by
  induction cs generalizing acc with
  | nil => exact .nil _
  | cons c cs ih =>
    rw [List.mem_cons, not_or] at h
    have hstep : scanStep (.raw acc) c = some ([], .raw (c :: acc)) := by
      rw [scanStep, if_neg (Ne.symm h.1)]
    rw [List.reverse_cons, List.append_assoc]
    exact scans_cons hstep (ih (c :: acc) h.2)

/-- A literal in backticks ends at the first one. -/
theorem scans_raw {l : Lexeme} {out : List Token} (h : scanStep l '\x60' = some (out, .raw []))
    {s : String} (hs : '\x60' ∉ s.toList) :
    Scans l ('\x60' :: (s.toList ++ ['\x60'])) (out ++ [.raw s]) .none := by
  have hclose : scanStep (.raw (s.toList.reverse ++ [])) '\x60' = some ([.raw s], .none) := by
    rw [List.append_nil, scanStep, if_pos rfl, text_reverse]
  exact scans_cons h ((scans_raw_more [] hs).append (scans_single hclose))

/-! ### Texts that end before a delimiter -/

/-- What ends every word and symbol. -/
def isDelimiter (c : Char) : Bool := isGap c || isPunctuation c

theorem not_holds_of_isDelimiter (k : Kind) {c : Char} (h : isDelimiter c = true) :
    k.holds c = false := by
  cases hk : k.holds c with
  | false => rfl
  | true =>
    rw [isDelimiter, Bool.or_eq_true] at h
    cases k with
    | word =>
      simp only [Kind.holds, Bool.and_eq_true, Bool.not_eq_true'] at hk
      rw [hk.1.1, hk.2] at h
      simp at h
    | symbol =>
      simp only [Kind.holds, isSymbolChar, List.mem_cons, List.not_mem_nil, or_false,
        decide_eq_true_eq] at hk
      rcases hk with rfl | rfl | rfl | rfl | rfl | rfl <;> exact absurd h (by decide)

/-- The lexeme has `last` still to write, at the end and before a delimiter. -/
def Ends (l : Lexeme) (last : List Token) : Prop :=
  scanEnd l = some last ∧ ∀ c, isDelimiter c = true →
    scanStep l c = some (last ++ (opened c).1, (opened c).2)

/-- The text is read as the tokens, at the end and before a delimiter. -/
def Spells (s : String) (ts : List Token) : Prop :=
  ∃ l out last, Scans .none s.toList out l ∧ Ends l last ∧ ts = out ++ last

theorem Spells.of_scans {s : String} {ts : List Token} (h : Scans .none s.toList ts .none) :
    Spells s ts :=
  ⟨.none, ts, [], h, ⟨rfl, fun _ _ => rfl⟩, (List.append_nil ts).symm⟩

theorem Spells.of_scans_bare {s w : String} {ts : List Token} {k : Kind}
    (h : Scans .none s.toList ts (.bare k w.toList.reverse)) : Spells s (ts ++ [k.token w]) := by
  refine ⟨_, ts, [k.token w], h, ⟨?_, fun c hc => ?_⟩, rfl⟩
  · rw [scanEnd, text_reverse]
  · rw [scanStep, not_holds_of_isDelimiter k hc, if_neg Bool.false_ne_true, text_reverse]
    rfl

theorem spells_empty : Spells "" [] := .of_scans (.nil _)

namespace Spells

variable {s s' : String} {ts ts' : List Token}

theorem scan?_eq (h : Spells s ts) : scan? s = some ts := by
  obtain ⟨l, out, last, hs, hend, rfl⟩ := h
  exact hs.run_eq hend.1

theorem prepend {p : String} {out : List Token} (hp : Scans .none p.toList out .none)
    (h : Spells s ts) : Spells (p ++ s) (out ++ ts) := by
  obtain ⟨l, mid, last, hs, hend, rfl⟩ := h
  refine ⟨l, out ++ mid, last, ?_, hend, (List.append_assoc out mid last).symm⟩
  rw [String.toList_append]
  exact hp.append hs

/-- A text that begins with a delimiter may follow at once. -/
theorem scans_append {d : String} {dts : List Token} (h : Spells s ts) {c : Char} {cs : List Char}
    (hd : d.toList = c :: cs) (hc : isDelimiter c = true) (hdts : Scans .none d.toList dts .none) :
    Scans .none (s ++ d).toList (ts ++ dts) .none := by
  obtain ⟨l, out, last, hs, hend, rfl⟩ := h
  have hdelim : Scans l d.toList (last ++ dts) .none := by
    rw [hd] at hdts ⊢
    cases hdts with
    | @cons _ l' _ _ _ o o' hstep hrest =>
      obtain ⟨rfl, rfl⟩ : (opened c).1 = o ∧ (opened c).2 = l' :=
        Prod.mk.inj (Option.some.inj hstep)
      rw [← List.append_assoc]
      exact scans_cons (hend.2 c hc) hrest
  rw [String.toList_append, List.append_assoc]
  exact hs.append hdelim

theorem append_delimited {d : String} {dts : List Token} (h : Spells s ts) {c : Char}
    {cs : List Char} (hd : d.toList = c :: cs) (hc : isDelimiter c = true)
    (hdts : Scans .none d.toList dts .none) (h' : Spells s' ts') :
    Spells (s ++ d ++ s') (ts ++ dts ++ ts') :=
  h'.prepend (h.scans_append hd hc hdts)

/-- **Texts with a delimiter between each two** spell their tokens in turn. -/
theorem intercalate {d : String} {dts : List Token} {c : Char} {cs : List Char}
    (hd : d.toList = c :: cs) (hc : isDelimiter c = true) (hdts : Scans .none d.toList dts .none)
    {ι : Type} {f : ι → String} {g : ι → List Token} (xs : List ι)
    (h : ∀ x ∈ xs, Spells (f x) (g x)) :
    Spells (d.intercalate (xs.map f)) (dts.intercalate (xs.map g)) := by
  induction xs with
  | nil => exact spells_empty
  | cons x xs ih =>
    have hx := h x List.mem_cons_self
    have hxs := ih fun y hy => h y (List.mem_cons_of_mem x hy)
    cases xs with
    | nil =>
      rw [List.map_singleton, List.map_singleton, String.intercalate_singleton,
        List.intercalate_singleton]
      exact hx
    | cons y ys =>
      rw [List.map_cons, List.map_cons] at hxs
      rw [List.map_cons, List.map_cons, List.map_cons, List.map_cons,
        String.intercalate_cons_cons, List.intercalate_cons_cons]
      exact hx.append_delimited hd hc hdts hxs

end Spells

end LogQuery.Syntax
