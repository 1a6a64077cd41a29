import LogQuery.Proofs.Syntax.Clause
/-!
# Writing clauses

The text of a query is its clauses with a space between each two.  Reading it
gives the clauses back (`read?_print`), for every text in the literals: a clause
needs only to have words where words stand.
-/

namespace LogQuery.Syntax

/-! ### Texts -/

def Operand.text : Operand → String
  | .quoted s => Literal.quote s
  | .raw s => "\x60" ++ s ++ "\x60"
  | .bare s => s

def Condition.text (c : Condition) : String := c.key ++ c.operator ++ c.operand.text

namespace Clause

def text : Clause → String
  | selector cs => "\x7b" ++ ", ".intercalate (cs.map Condition.text) ++ "\x7d"
  | filter cs => "|" ++ " " ++ " or ".intercalate (cs.map Condition.text)
  | line o s => o ++ " " ++ Literal.quote s
  | drop s => "!>" ++ " " ++ Literal.quote s
  | keep ts => "|>" ++ " " ++ " or ".intercalate (ts.map Literal.quote)

end Clause

def print (cs : List Clause) : String := " ".intercalate (cs.map Clause.text)

theorem print_cons (c : Clause) (cs : List Clause) :
    print (c :: cs) = c.text ++ if cs = [] then "" else " " ++ print cs := by
  rw [print, List.map_cons, Text.intercalate_cons]
  simp only [List.map_eq_nil_iff]
  rfl

/-! ### What can be written -/

def Operand.Readable : Operand → Prop
  | .quoted _ => True
  | .raw s => '\x60' ∉ s.toList
  | .bare s => Kind.word.spells s = true

/-- A word for its key, a known operator, and an operand that ends where it should. -/
structure Condition.Readable (c : Condition) : Prop where
  key : Kind.word.spells c.key = true
  operator : isOperator c.operator = true
  operand : c.operand.Readable

namespace Clause

def Readable : Clause → Prop
  | selector cs => ∀ c ∈ cs, c.Readable
  | filter cs => cs ≠ [] ∧ ∀ c ∈ cs, c.Readable
  | line o _ => isLineOperator o = true
  | drop _ => True
  | keep ts => ts ≠ []

theorem Readable.valid {c : Clause} (h : c.Readable) : c.Valid := by
  cases c with
  | selector cs => exact fun d hd => (h d hd).operator
  | filter cs => exact ⟨h.1, fun d hd => (h.2 d hd).operator⟩
  | line o s => exact h
  | drop s => exact trivial
  | keep ts => exact h

end Clause

/-! ### Scanning what was written -/

theorem spells_of_isOperator {o : String} (h : isOperator o = true) :
    Kind.symbol.spells o = true := by
  have hall : ∀ s ∈ [Operator.equal, .notEqual, .matching, .notMatching, .greater, .less, .atLeast,
      .atMost].map Operator.symbol, Kind.symbol.spells s = true := by
    decide
  exact hall o (of_decide_eq_true h)

theorem spells_of_isLineOperator {o : String} (h : isLineOperator o = true) :
    Kind.symbol.spells o = true := by
  have hall : ∀ s ∈ [LineOperator.containing, .notContaining, .matching, .notMatching].map
      LineOperator.symbol, Kind.symbol.spells s = true := by
    decide
  exact hall o (of_decide_eq_true h)

theorem spells_quote (s : String) : Spells (Literal.quote s) [.quoted s] := by
  have hopen : scanStep .none '"' = some ([], .quoted [] false) := rfl
  exact .of_scans (scans_literal hopen s)

theorem scans_key_operator {k o : String} (hk : Kind.word.spells k = true)
    (ho : isOperator o = true) :
    Scans .none (k ++ o).toList [.word k] (.bare .symbol o.toList.reverse) := by
  rw [String.toList_append]
  exact (scans_bare hk).append (scans_bare_after (by decide) k (spells_of_isOperator ho))

/-- A condition with a raw literal ends where the literal does. -/
theorem scans_raw_condition {k o s : String} (hk : Kind.word.spells k = true)
    (ho : isOperator o = true) (hs : '\x60' ∉ s.toList) :
    Scans .none (Condition.text ⟨k, o, .raw s⟩).toList (Condition.tokens ⟨k, o, .raw s⟩) .none := by
  have hopen : scanStep (.bare .symbol o.toList.reverse) '\x60' = some ([.symbol o], .raw []) := by
    rw [scanStep, if_neg (by decide), text_reverse]
    rfl
  have hraw : (Operand.raw s).text.toList = '\x60' :: (s.toList ++ ['\x60']) := by
    rw [Operand.text, String.toList_append, String.toList_append]
    rfl
  rw [Condition.text, String.toList_append, hraw]
  exact (scans_key_operator hk ho).append (scans_raw hopen hs)

theorem spells_condition {c : Condition} (h : c.Readable) : Spells c.text c.tokens := by
  have hstart := scans_key_operator h.key h.operator
  obtain ⟨k, o, v⟩ := c
  cases v with
  | quoted s =>
    have hopen : scanStep (.bare .symbol o.toList.reverse) '"'
        = some ([.symbol o], .quoted [] false) := by
      rw [scanStep, if_neg (by decide), text_reverse]
      rfl
    refine .of_scans ?_
    rw [Condition.text, String.toList_append]
    exact hstart.append (scans_literal hopen s)
  | raw s => exact .of_scans (scans_raw_condition h.key h.operator h.operand)
  | bare s =>
    have hbare : Scans .none (k ++ o ++ s).toList [.word k, .symbol o]
        (.bare .word s.toList.reverse) := by
      rw [String.toList_append]
      exact hstart.append (scans_bare_after (by decide) o h.operand)
    exact .of_scans_bare hbare

/-! ### Delimiters -/

theorem scans_space : Scans .none " ".toList [] .none := scans_single rfl

theorem scans_comma : Scans .none ", ".toList [.comma] .none := by
  have hcomma : scanStep .none ',' = some ([.comma], .none) := rfl
  exact scans_cons hcomma scans_space

theorem scans_or : Scans .none " or ".toList [alternative] .none := by
  have hword : Kind.word.spells "or" = true := by decide
  have hor : Spells (" " ++ "or") [alternative] :=
    .prepend scans_space (.of_scans_bare (scans_bare hword))
  exact hor.scans_append (d := " ") rfl rfl scans_space

theorem spells_symbol_space {o s : String} {ts : List Token} (ho : Kind.symbol.spells o = true)
    (h : Spells s ts) : Spells (o ++ " " ++ s) (.symbol o :: ts) := by
  have hsymbol : Spells o [.symbol o] := .of_scans_bare (scans_bare ho)
  exact hsymbol.append_delimited rfl rfl scans_space h

theorem spells_braces {s : String} {ts : List Token} (h : Spells s ts) :
    Spells ("\x7b" ++ s ++ "\x7d") (.opening :: (ts ++ [.closing])) := by
  have hopen : scanStep .none '\x7b' = some ([.opening], .none) := rfl
  have hclose : scanStep .none '\x7d' = some ([.closing], .none) := rfl
  exact .of_scans ((h.prepend (p := "\x7b") (scans_single hopen)).scans_append (d := "\x7d") rfl rfl
    (scans_single hclose))

/-- **The text of a clause is scanned to its tokens.** -/
theorem spells_clause {c : Clause} (h : c.Readable) : Spells c.text c.tokens := by
  cases c with
  | selector cs =>
    exact spells_braces (.intercalate (d := ", ") rfl rfl scans_comma cs
      fun c hc => spells_condition (h c hc))
  | filter cs =>
    exact spells_symbol_space (by decide) (.intercalate (d := " or ") rfl rfl scans_or cs
      fun c hc => spells_condition (h.2 c hc))
  | line o s => exact spells_symbol_space (spells_of_isLineOperator h) (spells_quote s)
  | drop s => exact spells_symbol_space (by decide) (spells_quote s)
  | keep ts =>
    exact spells_symbol_space (by decide) (.intercalate (d := " or ") rfl rfl scans_or ts
      fun s _ => spells_quote s)

/-- A space is no token, so that clauses are put together as they are. -/
theorem intercalate_nil_tokens (tss : List (List Token)) : [].intercalate tss = tss.flatten := by
  induction tss with
  | nil => rfl
  | cons ts tss ih =>
    cases tss with
    | nil => rw [List.intercalate_singleton, List.flatten_singleton]
    | cons us uss =>
      rw [List.intercalate_cons_cons, List.append_nil, ih, ← List.flatten_cons]

/-- **What was written is read back.** -/
theorem read?_print {cs : List Clause} (h : ∀ c ∈ cs, c.Readable) : read? (print cs) = some cs := by
  have hspells : Spells (print cs) (cs.flatMap Clause.tokens) := by
    have hspaced := Spells.intercalate (d := " ") rfl rfl scans_space cs
      fun c hc => spells_clause (h c hc)
    rwa [intercalate_nil_tokens, ← List.flatMap_def] at hspaced
  exact hspells.read?_eq fun c hc => (h c hc).valid

example : read? "\x7ba=\"x, y\"\x7d | b>5 or c=\"\\\"\" |= \"or\""
    = some [.selector [⟨"a", "=", .quoted "x, y"⟩],
      .filter [⟨"b", ">", .bare "5"⟩, ⟨"c", "=", .quoted "\""⟩], .line "|=" "or"] := by
  decide +kernel

end LogQuery.Syntax
