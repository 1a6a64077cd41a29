import LogQuery.Operator
import LogQuery.Proofs.Syntax.Token
/-!
# The clauses of a query

A query is a sequence of clauses: matchers in braces, then stages.  The reader
goes through the tokens once, with the clause in progress in its state.  Its
tokens determine every sequence of valid clauses (`readTokens?_tokens`): a clause
ends where the next one begins, and only `or` goes on with it.
-/

namespace LogQuery.Syntax

inductive Operand
  | quoted (text : String)
  | raw (text : String)
  /-- A number, which is in no quotes. -/
  | bare (text : String)
  deriving DecidableEq, Repr

structure Condition where
  key : String
  operator : String
  operand : Operand
  deriving DecidableEq, Repr

inductive Clause
  /-- Matchers in braces. -/
  | selector (matchers : List Condition)
  /-- A stage of conditions any of which may hold. -/
  | filter (alternatives : List Condition)
  | line (operator text : String)
  | drop (template : String)
  | keep (templates : List String)
  deriving DecidableEq, Repr

def isOperator (s : String) : Bool :=
  s ∈ [Operator.equal, .notEqual, .matching, .notMatching, .greater, .less, .atLeast, .atMost].map
    Operator.symbol

def isLineOperator (s : String) : Bool :=
  s ∈ [LineOperator.containing, .notContaining, .matching, .notMatching].map LineOperator.symbol

theorem isOperator_symbol (o : Operator) : isOperator o.symbol = true := by
  cases o <;> decide

theorem isLineOperator_symbol (o : LineOperator) : isLineOperator o.symbol = true := by
  cases o <;> decide

/-! ### The reader -/

/-- Where conditions stand: they are matchers of a selector, or alternatives of a stage. -/
inductive Place
  | selector
  | stage
  deriving DecidableEq, Repr

/-- The clause in progress and what it goes on with. -/
inductive Mode
  | ready
  | key (p : Place) (before : List Condition)
  | operator (p : Place) (before : List Condition) (key : String)
  | operand (p : Place) (before : List Condition) (key operator : String)
  | conditions (p : Place) (cs : List Condition)
  | line (operator : String)
  | dropped
  | template (before : List String)
  | templates (ts : List String)
  deriving DecidableEq, Repr

def alternative : Token := .word "or"

def Token.operand? : Token → Option Operand
  | .quoted s => some (.quoted s)
  | .raw s => some (.raw s)
  | .word s => some (.bare s)
  | _ => none

/-- The mode after the first token of a clause. -/
def started : Token → Option Mode
  | .opening => some (.key .selector [])
  | .symbol s =>
    if s = "|" then some (.key .stage [])
    else if isLineOperator s then some (.line s)
    else if s = "!>" then some .dropped
    else if s = "|>" then some (.template [])
    else none
  | _ => none

/-- A clause that ends where the next one starts. -/
def endedBefore (c : Clause) (t : Token) : Option (List Clause × Mode) :=
  (started t).map fun m => ([c], m)

def readStep : Mode → Token → Option (List Clause × Mode)
  | .ready, t => (started t).map fun m => ([], m)
  | .key .selector [], .closing => some ([.selector []], .ready)
  | .key p cs, .word k => some ([], .operator p cs k)
  | .operator p cs k, .symbol o => if isOperator o then some ([], .operand p cs k o) else none
  | .operand p cs k o, t => t.operand?.map fun v => ([], .conditions p (cs ++ [⟨k, o, v⟩]))
  | .conditions .selector cs, .comma => some ([], .key .selector cs)
  | .conditions .selector cs, .closing => some ([.selector cs], .ready)
  | .conditions .stage cs, t =>
    if t = alternative then some ([], .key .stage cs) else endedBefore (.filter cs) t
  | .line o, .quoted s => some ([.line o s], .ready)
  | .dropped, .quoted s => some ([.drop s], .ready)
  | .template ts, .quoted s => some ([], .templates (ts ++ [s]))
  | .templates ts, t =>
    if t = alternative then some ([], .template ts) else endedBefore (.keep ts) t
  | _, _ => none

def readEnd : Mode → Option (List Clause)
  | .ready => some []
  | .conditions .stage cs => some [.filter cs]
  | .templates ts => some [.keep ts]
  | _ => none

def reader : Transducer Token Clause Mode := ⟨readStep, readEnd⟩

def readTokens? (ts : List Token) : Option (List Clause) := reader.run .ready ts

/-- The clauses of a text. -/
def read? (s : String) : Option (List Clause) := (scan? s).bind readTokens?

abbrev Reads := reader.Passes

theorem reads_cons {m m' m'' : Mode} {t : Token} {ts : List Token} {out out' : List Clause}
    (h : readStep m t = some (out, m')) (h' : Reads m' ts out' m'') :
    Reads m (t :: ts) (out ++ out') m'' :=
  Transducer.Passes.cons (show reader.step m t = some (out, m') from h) h'

theorem reads_single {m m' : Mode} {t : Token} {out : List Clause}
    (h : readStep m t = some (out, m')) : Reads m [t] out m' :=
  Transducer.Passes.single (show reader.step m t = some (out, m') from h)

/-! ### Tokens of clauses -/

def Operand.token : Operand → Token
  | .quoted s => .quoted s
  | .raw s => .raw s
  | .bare s => .word s

def Condition.tokens (c : Condition) : List Token :=
  [.word c.key, .symbol c.operator, c.operand.token]

def Place.separator : Place → Token
  | .selector => .comma
  | .stage => alternative

/-- The conditions with the separator of their place between each two. -/
def Place.tokens (p : Place) (cs : List Condition) : List Token :=
  [p.separator].intercalate (cs.map Condition.tokens)

namespace Clause

def tokens : Clause → List Token
  | selector cs => .opening :: (Place.selector.tokens cs ++ [.closing])
  | filter cs => .symbol "|" :: Place.stage.tokens cs
  | line o s => [.symbol o, .quoted s]
  | drop s => [.symbol "!>", .quoted s]
  | keep ts => .symbol "|>" :: [alternative].intercalate (ts.map fun s => [.quoted s])

/-- The operators are known, and a stage is not empty. -/
def Valid : Clause → Prop
  | selector cs => ∀ c ∈ cs, isOperator c.operator = true
  | filter cs => cs ≠ [] ∧ ∀ c ∈ cs, isOperator c.operator = true
  | line o _ => isLineOperator o = true
  | drop _ => True
  | keep ts => ts ≠ []

end Clause

/-! ### Reading a clause -/

theorem reads_condition (p : Place) (before : List Condition) {c : Condition}
    (h : isOperator c.operator = true) :
    Reads (.key p before) c.tokens [] (.conditions p (before ++ [c])) := by
  have hkey : readStep (.key p before) (.word c.key) = some ([], .operator p before c.key) := by
    cases p <;> cases before <;> rfl
  have hop : readStep (.operator p before c.key) (.symbol c.operator)
      = some ([], .operand p before c.key c.operator) := by
    rw [readStep, if_pos h]
  have hval : readStep (.operand p before c.key c.operator) c.operand.token
      = some ([], .conditions p (before ++ [c])) := by
    rw [readStep]
    cases c with
    | mk k o v => cases v <;> rfl
  exact reads_cons hkey (reads_cons hop (reads_single hval))

theorem readStep_separator (p : Place) (cs : List Condition) :
    readStep (.conditions p cs) p.separator = some ([], .key p cs) := by
  cases p with
  | selector => rfl
  | stage => rw [Place.separator, readStep, if_pos rfl]

theorem reads_conditions (p : Place) (before : List Condition) {cs : List Condition}
    (hne : cs ≠ []) (h : ∀ c ∈ cs, isOperator c.operator = true) :
    Reads (.key p before) (p.tokens cs) [] (.conditions p (before ++ cs)) := by
  induction cs generalizing before with
  | nil => exact absurd rfl hne
  | cons c cs ih =>
    have hc := reads_condition p before (h c List.mem_cons_self)
    cases cs with
    | nil => simpa [Place.tokens] using hc
    | cons d ds =>
      have hds := ih (before ++ [c]) (List.cons_ne_nil d ds)
        fun e he => h e (List.mem_cons_of_mem c he)
      rw [List.append_assoc, List.singleton_append] at hds
      rw [Place.tokens, List.map_cons, List.map_cons, List.intercalate_cons_cons]
      exact (hc.append (reads_single (readStep_separator p _))).append hds

theorem reads_templates (before : List String) {ts : List String} (hne : ts ≠ []) :
    Reads (.template before) ([alternative].intercalate (ts.map fun s => [.quoted s])) []
      (.templates (before ++ ts)) := by
  induction ts generalizing before with
  | nil => exact absurd rfl hne
  | cons t ts ih =>
    have ht : Reads (.template before) [.quoted t] [] (.templates (before ++ [t])) :=
      reads_single rfl
    have hor : readStep (.templates (before ++ [t])) alternative
        = some ([], .template (before ++ [t])) := by
      rw [readStep, if_pos rfl]
    cases ts with
    | nil => simpa using ht
    | cons u us =>
      have hus := ih (before ++ [t]) (List.cons_ne_nil u us)
      rw [List.append_assoc, List.singleton_append] at hus
      rw [List.map_cons, List.map_cons, List.intercalate_cons_cons]
      exact (ht.append (reads_single hor)).append hus

theorem reads_selector {cs : List Condition} (h : ∀ c ∈ cs, isOperator c.operator = true) :
    Reads .ready (Clause.selector cs).tokens [.selector cs] .ready := by
  have hopen : readStep .ready .opening = some ([], .key .selector []) := rfl
  cases cs with
  | nil =>
    have hclose : readStep (.key .selector []) .closing = some ([.selector []], .ready) := rfl
    exact reads_cons hopen (reads_single hclose)
  | cons c cs =>
    have hall := reads_conditions .selector [] (List.cons_ne_nil c cs) h
    have hclose : readStep (.conditions .selector (c :: cs)) .closing
        = some ([.selector (c :: cs)], .ready) := rfl
    exact reads_cons hopen (hall.append (reads_single hclose))

theorem reads_filter {cs : List Condition} (hne : cs ≠ [])
    (h : ∀ c ∈ cs, isOperator c.operator = true) :
    Reads .ready (Clause.filter cs).tokens [] (.conditions .stage cs) := by
  have hopen : readStep .ready (.symbol "|") = some ([], .key .stage []) := rfl
  exact reads_cons hopen (reads_conditions .stage [] hne h)

theorem reads_line {o : String} (h : isLineOperator o = true) (s : String) :
    Reads .ready (Clause.line o s).tokens [.line o s] .ready := by
  have hbar : o ≠ "|" := by
    rintro rfl
    have hnot : isLineOperator "|" = false := by decide
    exact absurd (hnot.symm.trans h) Bool.false_ne_true
  have hstart : started (.symbol o) = some (.line o) := by
    rw [started, if_neg hbar]
    exact if_pos h
  have hopen : readStep .ready (.symbol o) = some ([], .line o) := by
    rw [readStep, hstart, Option.map_some]
  have htext : readStep (.line o) (.quoted s) = some ([.line o s], .ready) := rfl
  exact reads_cons hopen (reads_single htext)

theorem reads_drop (s : String) : Reads .ready (Clause.drop s).tokens [.drop s] .ready := by
  have hopen : readStep .ready (.symbol "!>") = some ([], .dropped) := rfl
  have htext : readStep .dropped (.quoted s) = some ([.drop s], .ready) := rfl
  exact reads_cons hopen (reads_single htext)

theorem reads_keep {ts : List String} (hne : ts ≠ []) :
    Reads .ready (Clause.keep ts).tokens [] (.templates ts) := by
  have hopen : readStep .ready (.symbol "|>") = some ([], .template []) := rfl
  exact reads_cons hopen (reads_templates [] hne)

/-! ### Where a clause ends -/

/-- A mode that holds the whole clause `c` and may go on with `or` alone. -/
def Holds (m : Mode) (c : Clause) : Prop :=
  readEnd m = some [c] ∧ ∀ t, t ≠ alternative → readStep m t = endedBefore c t

theorem holds_conditions (cs : List Condition) : Holds (.conditions .stage cs) (.filter cs) := by
  refine ⟨rfl, fun t ht => ?_⟩
  rw [readStep, if_neg ht]

theorem holds_templates (ts : List String) : Holds (.templates ts) (.keep ts) := by
  refine ⟨rfl, fun t ht => ?_⟩
  rw [readStep, if_neg ht]

theorem run_of_holds {m : Mode} {c : Clause} (h : Holds m c) {rest : List Token}
    (hrest : ∀ t ∈ rest.head?, t ≠ alternative) :
    reader.run m rest = (readTokens? rest).map (c :: ·) := by
  cases rest with
  | nil => exact h.1
  | cons t ts =>
    have hstep : reader.step m t = endedBefore c t := h.2 t (hrest t rfl)
    have hready : reader.step .ready t = (started t).map fun m => ([], m) := rfl
    rw [readTokens?, Transducer.run, Transducer.run, hstep, hready, endedBefore]
    cases started t with
    | none => rfl
    | some m' =>
      rw [Option.map_some, Option.map_some, Option.bind_some, Option.bind_some, Option.map_map]
      rfl

/-- A clause that is still held when its tokens have been read. -/
theorem readTokens?_of_holds {m : Mode} {c : Clause} (hreads : Reads .ready c.tokens [] m)
    (h : Holds m c) {rest : List Token} (hrest : ∀ t ∈ rest.head?, t ≠ alternative) :
    readTokens? (c.tokens ++ rest) = (readTokens? rest).map (c :: ·) := by
  rw [readTokens?, hreads.run_append rest, run_of_holds h hrest]
  exact Option.map_id'

/-- **A clause is read** where no `or` follows. -/
theorem readTokens?_append {c : Clause} (hc : c.Valid) {rest : List Token}
    (hrest : ∀ t ∈ rest.head?, t ≠ alternative) :
    readTokens? (c.tokens ++ rest) = (readTokens? rest).map (c :: ·) := by
  cases c with
  | selector cs => exact (reads_selector hc).run_append rest
  | filter cs => exact readTokens?_of_holds (reads_filter hc.1 hc.2) (holds_conditions cs) hrest
  | line o s => exact (reads_line hc s).run_append rest
  | drop s => exact (reads_drop s).run_append rest
  | keep ts => exact readTokens?_of_holds (reads_keep hc) (holds_templates ts) hrest

/-- A clause does not begin with `or`. -/
theorem head?_tokens_ne (cs : List Clause) {rest : List Token}
    (hrest : ∀ t ∈ rest.head?, t ≠ alternative) :
    ∀ t ∈ (cs.flatMap Clause.tokens ++ rest).head?, t ≠ alternative := by
  cases cs with
  | nil => exact hrest
  | cons c cs =>
    intro t ht hor
    subst hor
    cases c <;> exact Token.noConfusion (Option.some.inj ht)

/-- Clauses are read, whatever follows them but an `or`. -/
theorem readTokens?_tokens_append {cs : List Clause} (h : ∀ c ∈ cs, c.Valid) {rest : List Token}
    (hrest : ∀ t ∈ rest.head?, t ≠ alternative) :
    readTokens? (cs.flatMap Clause.tokens ++ rest) = (readTokens? rest).map (cs ++ ·) := by
  induction cs with
  | nil => exact Option.map_id'.symm
  | cons c cs ih =>
    rw [List.flatMap_cons, List.append_assoc,
      readTokens?_append (h c List.mem_cons_self) (head?_tokens_ne cs hrest),
      ih fun d hd => h d (List.mem_cons_of_mem c hd), Option.map_map]
    rfl

/-- **Tokens determine their clauses.** -/
theorem readTokens?_tokens (cs : List Clause) (h : ∀ c ∈ cs, c.Valid) :
    readTokens? (cs.flatMap Clause.tokens) = some cs := by
  have hend : ∀ t ∈ ([] : List Token).head?, t ≠ alternative := fun t ht =>
    absurd ht (Option.not_mem_none t)
  have hread := readTokens?_tokens_append h hend
  rw [List.append_nil] at hread
  rw [hread, readTokens?, Transducer.run]
  exact congrArg some (List.append_nil cs)

theorem Spells.read?_eq {s : String} {cs : List Clause} (h : Spells s (cs.flatMap Clause.tokens))
    (hcs : ∀ c ∈ cs, c.Valid) : read? s = some cs := by
  rw [read?, h.scan?_eq, Option.bind_some, readTokens?_tokens cs hcs]

end LogQuery.Syntax
