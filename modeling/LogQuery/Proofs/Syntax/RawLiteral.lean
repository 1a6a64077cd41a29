import LogQuery.Proofs.Syntax.Printer
/-!
# Raw literals in stages

Nothing in a literal in backticks is escaped.  So it ends at the first backtick of
its text, and what comes after is read as more of the query
(`exists_filter_of_read?`): the scanner has written the shorter literal, and the
reader, which never goes back, has its condition as the first one of the stage
(`Mode.BeginsWith`).  Only without a backtick the text is read back
(`read?_print_rawStage`).
-/

namespace LogQuery.Syntax

/-! ### The first alternative of a stage -/

/-- A stage is in progress, and `c` is its first alternative. -/
inductive Mode.BeginsWith (c : Condition) : Mode → Prop
  | key (cs : List Condition) : BeginsWith c (.key .stage (c :: cs))
  | operator (cs : List Condition) (k : String) : BeginsWith c (.operator .stage (c :: cs) k)
  | operand (cs : List Condition) (k o : String) : BeginsWith c (.operand .stage (c :: cs) k o)
  | conditions (cs : List Condition) : BeginsWith c (.conditions .stage (c :: cs))

/-- A token leaves the first alternative of a stage in its place, or ends the stage. -/
theorem Mode.BeginsWith.step {c : Condition} {m m' : Mode} {t : Token} {out : List Clause}
    (hm : m.BeginsWith c) (h : readStep m t = some (out, m')) :
    (out = [] ∧ m'.BeginsWith c) ∨ ∃ cs, out = [.filter (c :: cs)] := by
  cases hm with
  | key cs =>
    cases t with
    | word k =>
      cases h
      exact Or.inl ⟨rfl, .operator cs k⟩
    | _ => exact absurd h.symm (Option.some_ne_none _)
  | operator cs k =>
    cases t with
    | symbol o =>
      obtain ⟨-, h⟩ := Option.ite_none_right_eq_some.mp h
      cases h
      exact Or.inl ⟨rfl, .operand cs k o⟩
    | _ => exact absurd h.symm (Option.some_ne_none _)
  | operand cs k o =>
    obtain ⟨v, -, h⟩ := Option.map_eq_some_iff.mp h
    cases h
    exact Or.inl ⟨rfl, .conditions (cs ++ [⟨k, o, v⟩])⟩
  | conditions cs =>
    rw [readStep] at h
    by_cases hor : t = alternative
    · rw [if_pos hor] at h
      cases h
      exact Or.inl ⟨rfl, .key cs⟩
    · rw [if_neg hor] at h
      obtain ⟨n, -, h⟩ := Option.map_eq_some_iff.mp h
      cases h
      exact Or.inr ⟨cs, rfl⟩

/-- **The first alternative of a stage is read as it is**, whatever follows. -/
theorem Mode.BeginsWith.exists_filter {c : Condition} {m : Mode} {ts : List Token}
    {out : List Clause} (hm : m.BeginsWith c) (h : reader.run m ts = some out) :
    ∃ cs rest, out = .filter (c :: cs) :: rest := by
  induction ts generalizing m out with
  | nil =>
    have hend : readEnd m = some out := h
    cases hm with
    | conditions cs =>
      cases hend
      exact ⟨cs, [], rfl⟩
    | _ => exact absurd hend.symm (Option.some_ne_none out)
  | cons t ts ih =>
    obtain ⟨⟨now, m'⟩, hstep, hrun⟩ := Option.bind_eq_some_iff.mp h
    obtain ⟨later, hlater, rfl⟩ := Option.map_eq_some_iff.mp hrun
    rcases hm.step hstep with ⟨rfl, hm'⟩ | ⟨cs, rfl⟩
    · exact ih hm' hlater
    · exact ⟨cs, later, rfl⟩

/-- A stage after other clauses keeps its first condition, whatever follows it. -/
theorem exists_filter_of_readTokens? {front : List Clause} {c : Condition} {ts : List Token}
    {out : List Clause} (hfront : ∀ d ∈ front, d.Valid) (hc : isOperator c.operator = true)
    (h : readTokens? (front.flatMap Clause.tokens ++ ((Clause.filter [c]).tokens ++ ts))
      = some out) : ∃ cs rest, out = front ++ .filter (c :: cs) :: rest := by
  have hbar : ∀ t ∈ ((Clause.filter [c]).tokens ++ ts).head?, t ≠ alternative := by
    intro t ht hor
    subst hor
    exact Token.noConfusion (Option.some.inj ht)
  have hreads : Reads .ready (Clause.filter [c]).tokens [] (.conditions .stage [c]) :=
    reads_filter (List.cons_ne_nil c []) (List.forall_mem_singleton.mpr hc)
  rw [readTokens?_tokens_append hfront hbar, readTokens?, hreads.run_append ts] at h
  obtain ⟨later, hlater, rfl⟩ := Option.map_eq_some_iff.mp h
  obtain ⟨all, hall, rfl⟩ := Option.map_eq_some_iff.mp hlater
  obtain ⟨cs, rest, rfl⟩ := (Mode.BeginsWith.conditions []).exists_filter hall
  exact ⟨cs, rest, rfl⟩

/-! ### Raw literals -/

/-- A stage of one condition with a raw literal. -/
def rawStage (key operator text : String) : Clause := .filter [⟨key, operator, .raw text⟩]

variable {k o : String} {front back : List Clause}

theorem text_rawStage (k o s : String) :
    (rawStage k o s).text = "|" ++ " " ++ Condition.text ⟨k, o, .raw s⟩ := by
  rw [rawStage, Clause.text, List.map_singleton, String.intercalate_singleton]

/-- The stage ends where its literal does. -/
theorem scans_rawStage (hk : Kind.word.spells k = true) (ho : isOperator o = true) {s : String}
    (hs : '\x60' ∉ s.toList) :
    Scans .none (rawStage k o s).text.toList (rawStage k o s).tokens .none := by
  have hsymbol : Spells "|" [.symbol "|"] := .of_scans_bare (scans_bare (k := .symbol) (by decide))
  have hbar : Scans .none ("|" ++ " ").toList [.symbol "|"] .none :=
    hsymbol.scans_append (d := " ") rfl rfl scans_space
  rw [text_rawStage, String.toList_append]
  exact hbar.append (scans_raw_condition hk ho hs)

theorem text_rawStage_append (k o p q : String) :
    (rawStage k o (p ++ "\x60" ++ q)).text = (rawStage k o p).text ++ (q ++ "\x60") := by
  simp only [text_rawStage, Condition.text, Operand.text, String.append_assoc]

/-- Before a clause the scanner is between two tokens. -/
theorem exists_scans_print (hfront : ∀ c ∈ front, c.Readable) (c : Clause) (cs : List Clause) :
    ∃ p, print (front ++ c :: cs) = p ++ print (c :: cs)
      ∧ Scans .none p.toList (front.flatMap Clause.tokens) .none := by
  induction front with
  | nil => exact ⟨"", String.empty_append.symm, .nil _⟩
  | cons d front ih =>
    obtain ⟨p, hp, hscans⟩ := ih fun e he => hfront e (List.mem_cons_of_mem d he)
    have hd := (spells_clause (hfront d List.mem_cons_self)).scans_append (d := " ") rfl rfl
      scans_space
    rw [List.append_nil] at hd
    refine ⟨d.text ++ " " ++ p, ?_, ?_⟩
    · rw [List.cons_append, print_cons, if_neg (by simp), hp, ← String.append_assoc,
        ← String.append_assoc]
    · rw [String.toList_append, List.flatMap_cons]
      exact hd.append hscans

/-- The first backtick of a text. -/
theorem exists_first_backtick {s : String} (h : '\x60' ∈ s.toList) :
    ∃ p q, s = p ++ "\x60" ++ q ∧ '\x60' ∉ p.toList := by
  obtain ⟨ps, qs, hs, hp⟩ := List.eq_append_cons_of_mem h
  refine ⟨String.ofList ps, String.ofList qs, ?_, by rwa [String.toList_ofList]⟩
  rw [← String.toList_inj, hs, String.toList_append, String.toList_append, String.toList_ofList,
    String.toList_ofList, String.toList_ofList, List.append_assoc, List.singleton_append]

/-- **A raw literal is cut at its first backtick.** -/
theorem exists_filter_of_read? (hfront : ∀ c ∈ front, c.Readable)
    (hk : Kind.word.spells k = true) (ho : isOperator o = true) {p q : String}
    (hp : '\x60' ∉ p.toList) {out : List Clause}
    (h : read? (print (front ++ rawStage k o (p ++ "\x60" ++ q) :: back)) = some out) :
    ∃ cs rest, out = front ++ .filter (⟨k, o, .raw p⟩ :: cs) :: rest := by
  obtain ⟨pre, hprint, hpre⟩ := exists_scans_print hfront (rawStage k o (p ++ "\x60" ++ q)) back
  have hscans := hpre.append (scans_rawStage hk ho hp)
  rw [hprint, print_cons, text_rawStage_append, String.append_assoc, ← String.append_assoc, read?,
    scan?, String.toList_append, String.toList_append, hscans.run_append] at h
  obtain ⟨ts, hts, hread⟩ := Option.bind_eq_some_iff.mp h
  obtain ⟨later, -, rfl⟩ := Option.map_eq_some_iff.mp hts
  rw [List.append_assoc] at hread
  exact exists_filter_of_readTokens? (fun c hc => (hfront c hc).valid) ho hread

/-- **A raw literal is read back if and only if it has no backtick.** -/
theorem read?_print_rawStage (hfront : ∀ c ∈ front, c.Readable) (hback : ∀ c ∈ back, c.Readable)
    (hk : Kind.word.spells k = true) (ho : isOperator o = true) {s : String} :
    read? (print (front ++ rawStage k o s :: back)) = some (front ++ rawStage k o s :: back)
      ↔ '\x60' ∉ s.toList := by
  constructor
  · intro h htick
    obtain ⟨p, q, rfl, hp⟩ := exists_first_backtick htick
    obtain ⟨cs, rest, hout⟩ := exists_filter_of_read? hfront hk ho hp h
    have hclause := (List.cons.inj (List.append_cancel_left hout)).1
    have hcondition := (List.cons.inj (Clause.filter.inj hclause)).1
    have hraw : p ++ "\x60" ++ q = p := Operand.raw.inj (Condition.mk.inj hcondition).2.2
    rw [hraw] at htick
    exact hp htick
  · intro hs
    have hraw : (rawStage k o s).Readable :=
      ⟨List.cons_ne_nil _ _, List.forall_mem_singleton.mpr ⟨hk, ho, hs⟩⟩
    refine read?_print (List.forall_mem_append.mpr ⟨hfront, ?_⟩)
    exact List.forall_mem_cons.mpr ⟨hraw, hback⟩

/-- On its own too the literal is one token only without a backtick. -/
theorem scan?_rawStage (hk : Kind.word.spells k = true) (ho : isOperator o = true) {s : String} :
    scan? (rawStage k o s).text = some (rawStage k o s).tokens ↔ '\x60' ∉ s.toList := by
  constructor
  · intro h htick
    obtain ⟨p, q, rfl, hp⟩ := exists_first_backtick htick
    rw [text_rawStage_append, scan?, String.toList_append,
      (scans_rawStage hk ho hp).run_append] at h
    obtain ⟨later, -, htokens⟩ := Option.map_eq_some_iff.mp h
    have hraw : Token.raw p = Token.raw (p ++ "\x60" ++ q) := by
      injection htokens with _ htokens
      injection htokens with _ htokens
      injection htokens with _ htokens
      injection htokens
    rw [← Token.raw.inj hraw] at htick
    exact hp htick
  · intro hs
    exact (scans_rawStage hk ho hs).run_eq rfl |>.trans (by rw [List.append_nil])

end LogQuery.Syntax
