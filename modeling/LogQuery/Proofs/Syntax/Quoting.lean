import LogQuery.Proofs.Syntax.Token
/-!
# Quoted literals and what they are read as

After an opening quote the scanner writes nothing up to the quote that closes the
literal, and there it writes the text that the literal stands for.  What it reads
as one text is therefore one literal, the escaped text and its closing quote
(`next?_quoted_eq_some_iff`): an escaped text is read back before any
continuation, and no other spelling is read as that text.  So escaping is a
substitution of single characters that can be undone (`escape_law`).
-/

namespace LogQuery.Syntax

/-! ### One character of a literal -/

/-- A backslash that has been read and waits for the character that it takes. -/
def pending (escaped : Bool) : List Char := if escaped then ['\\'] else []

/-- A backslash and what it takes stand for one character. -/
theorem escapeChar_of_unescape? {c d : Char} (h : unescape? c = some d) :
    Literal.escapeChar d = ['\\', c] := by
  unfold unescape? at h
  split_ifs at h with hself hn
  · obtain rfl := Option.some.inj h
    rcases hself with rfl | rfl
    · rfl
    · rfl
  · obtain rfl := Option.some.inj h
    rw [hn]
    rfl

/-- Inside quotes a step closes the literal, reads a backslash, or completes what
stands for one character. -/
theorem scanStep_quoted {acc : List Char} {e : Bool} {c : Char} {out : List Token} {l : Lexeme}
    (h : scanStep (.quoted acc e) c = some (out, l)) :
    (pending e ++ [c] = ['"'] ∧ out = [.quoted (text acc)] ∧ l = .none)
    ∨ (pending e ++ [c] = pending true ∧ out = [] ∧ l = .quoted acc true)
    ∨ ∃ d, pending e ++ [c] = Literal.escapeChar d ∧ out = [] ∧ l = .quoted (d :: acc) false := by
  cases e with
  | true =>
    obtain ⟨d, hd, heq⟩ := Option.map_eq_some_iff.mp h
    obtain ⟨rfl, rfl⟩ := Prod.mk.inj heq
    exact .inr (.inr ⟨d, (escapeChar_of_unescape? hd).symm, rfl, rfl⟩)
  | false =>
    rw [scanStep] at h
    split_ifs at h with hq hb hn
    · obtain ⟨rfl, rfl⟩ := Prod.mk.inj (Option.some.inj h)
      exact .inl ⟨congrArg (fun c => [c]) hq, rfl, rfl⟩
    · obtain ⟨rfl, rfl⟩ := Prod.mk.inj (Option.some.inj h)
      exact .inr (.inl ⟨congrArg (fun c => [c]) hb, rfl, rfl⟩)
    · obtain ⟨rfl, rfl⟩ := Prod.mk.inj (Option.some.inj h)
      exact .inr (.inr ⟨c, (Literal.escapeChar_of_plain hb hn hq).symm, rfl, rfl⟩)

/-! ### A whole literal -/

/-- **An escaped text is read up to its closing quote**, whatever comes after it. -/
theorem next?_escapeChars (acc ds rest : List Char) :
    scanner.next? (.quoted acc false) (Literal.escapeChars ds ++ '"' :: rest)
      = some ([.quoted (text (ds.reverse ++ acc))], rest) := by
  rw [(scans_escapeChars acc ds).next?_append rfl]
  rfl

/-- What is read inside quotes is an escaped text and its closing quote. -/
theorem exists_of_next?_quoted {acc cs rest : List Char} {e : Bool} {ts : List Token}
    (h : scanner.next? (.quoted acc e) cs = some (ts, rest)) :
    ∃ ds, pending e ++ cs = Literal.escapeChars ds ++ '"' :: rest
      ∧ ts = [.quoted (text (ds.reverse ++ acc))] := by
  induction cs generalizing acc e with
  | nil => cases h
  | cons c cs ih =>
    obtain ⟨⟨out, l⟩, hstep, hnext⟩ := Option.bind_eq_some_iff.mp h
    have hread : pending e ++ c :: cs = pending e ++ [c] ++ cs := by
      rw [List.append_assoc, List.singleton_append]
    rcases scanStep_quoted hstep with ⟨hc, rfl, rfl⟩ | ⟨hc, rfl, rfl⟩ | ⟨d, hc, rfl, rfl⟩
    · obtain ⟨rfl, rfl⟩ := Prod.mk.inj (Option.some.inj hnext)
      exact ⟨[], by rw [hread, hc]; rfl, rfl⟩
    · obtain ⟨ds, hds, hts⟩ := ih hnext
      exact ⟨ds, by rw [hread, hc, hds], hts⟩
    · obtain ⟨ds, hds, hts⟩ := ih hnext
      refine ⟨d :: ds, ?_, ?_⟩
      · rw [hread, hc, Literal.escapeChars_cons, List.append_assoc, ← hds]
        rfl
      · rw [hts, List.reverse_cons, List.append_assoc, List.singleton_append]

/-- **A text has one spelling in quotes**, and it is read before any continuation. -/
theorem next?_quoted_eq_some_iff {s v rest : String} :
    scanner.next? .none ("\"" ++ s).toList = some ([.quoted v], rest.toList)
      ↔ s = Literal.escape v ++ "\"" ++ rest := by
  have hopen : scanner.next? .none ("\"" ++ s).toList
      = scanner.next? (.quoted [] false) s.toList := by
    rw [String.toList_append]
    rfl
  rw [hopen]
  constructor
  · intro h
    obtain ⟨ds, hds, hts⟩ := exists_of_next?_quoted h
    have hv : v.toList = ds := by
      rw [Token.quoted.inj (List.singleton_inj.mp hts), text, String.toList_ofList,
        List.append_nil, List.reverse_reverse]
    rw [← String.toList_inj, String.toList_append, String.toList_append, Literal.toList_escape, hv,
      List.append_assoc]
    exact hds
  · rintro rfl
    have hread := next?_escapeChars [] v.toList rest.toList
    rw [List.append_nil, text_reverse] at hread
    rw [String.toList_append, String.toList_append, Literal.toList_escape, List.append_assoc]
    exact hread

/-- **Escaping substitutes characters, and is undone by reading.**  Its three passes
replace each character on its own, so that it is additive; it leaves no line break;
and behind an opening quote the scanner reads `v` and leaves `rest` just where the
escaped `v`, a closing quote and `rest` stand. -/
theorem escape_law (v w : String) :
    Literal.escape v = String.ofList (v.toList.flatMap Literal.escapeChar)
    ∧ Literal.escape (v ++ w) = Literal.escape v ++ Literal.escape w
    ∧ '\n' ∉ (Literal.escape v).toList
    ∧ ∀ s rest : String,
      scanner.next? .none ("\"" ++ s).toList = some ([.quoted v], rest.toList)
        ↔ s = Literal.escape v ++ "\"" ++ rest := by
  refine ⟨?_, Literal.escape_append v w, Literal.lineBreak_not_mem_escape v,
    fun _ _ => next?_quoted_eq_some_iff⟩
  rw [Literal.escape, Literal.escapeChars_eq_flatMap]

end LogQuery.Syntax
