import LogQuery.Literal
import LogQuery.Proofs.Alternation
import Mathlib.Data.List.Basic
/-!
# Escaping in one pass

Escaping is written as three passes over the text.  No pass touches what an
earlier one has written, so that together they replace each character on its own
(`escapeChars_eq_flatMap`).  From that: escaping is additive, and it goes through
the bars of an alternation.
-/

namespace LogQuery.Literal

/-- What stands for one character inside a literal. -/
def escapeChar (c : Char) : List Char :=
  if c = '\\' then ['\\', '\\']
  else if c = '\n' then ['\\', 'n']
  else if c = '"' then ['\\', '"']
  else [c]

theorem escapeChar_of_plain {c : Char} (hb : c ≠ '\\') (hn : c ≠ '\n') (hq : c ≠ '"') :
    escapeChar c = [c] := by
  rw [escapeChar, if_neg hb, if_neg hn, if_neg hq]

/-- **The three passes are one.** -/
theorem escapeChars_eq_flatMap (cs : List Char) : escapeChars cs = cs.flatMap escapeChar := by
  rw [escapeChars, replaceChar, replaceChar, replaceChar, List.flatMap_assoc, List.flatMap_assoc]
  congr 1
  funext c
  by_cases hb : c = '\\'
  · subst hb
    rfl
  · by_cases hn : c = '\n'
    · subst hn
      rfl
    · by_cases hq : c = '"'
      · subst hq
        rfl
      · rw [escapeChar_of_plain hb hn hq]
        simp [hb, hn, hq]

theorem escapeChars_cons (c : Char) (cs : List Char) :
    escapeChars (c :: cs) = escapeChar c ++ escapeChars cs := by
  rw [escapeChars_eq_flatMap, escapeChars_eq_flatMap, List.flatMap_cons]

theorem escapeChars_append (cs ds : List Char) :
    escapeChars (cs ++ ds) = escapeChars cs ++ escapeChars ds := by
  rw [escapeChars_eq_flatMap, escapeChars_eq_flatMap, escapeChars_eq_flatMap, List.flatMap_append]

@[simp] theorem toList_escape (s : String) : (escape s).toList = escapeChars s.toList :=
  String.toList_ofList

theorem escape_append (s t : String) : escape (s ++ t) = escape s ++ escape t := by
  rw [← String.toList_inj, toList_escape, String.toList_append, String.toList_append,
    escapeChars_append, toList_escape, toList_escape]

@[simp] theorem toList_quote (s : String) :
    (quote s).toList = '"' :: (escapeChars s.toList ++ ['"']) := by
  rw [quote, String.toList_append, String.toList_append, toList_escape]
  rfl

/-- No line break is left. -/
theorem lineBreak_not_mem_escape (s : String) : '\n' ∉ (escape s).toList := by
  rw [toList_escape, escapeChars_eq_flatMap, List.mem_flatMap]
  rintro ⟨c, -, hc⟩
  unfold escapeChar at hc
  split_ifs at hc with hb hn hq
  · exact absurd hc (by decide)
  · exact absurd hc (by decide)
  · exact absurd hc (by decide)
  · exact hn (List.mem_singleton.mp hc).symm

theorem escape_bar : escape "|" = "|" := by
  rw [← String.toList_inj, toList_escape]
  rfl

/-- The bars between alternatives are not escaped. -/
theorem escape_alternation (parts : List String) :
    escape (Text.alternation parts) = Text.alternation (parts.map escape) := by
  induction parts with
  | nil => rfl
  | cons p parts ih =>
    cases parts with
    | nil => rw [List.map_singleton, Text.alternation_singleton, Text.alternation_singleton]
    | cons q parts =>
      rw [Text.alternation_cons_cons, escape_append, escape_append, ih, escape_bar]
      simp only [List.map_cons, Text.alternation_cons_cons]

end LogQuery.Literal
