import LogQuery.Proofs.Json.Grammar
import Mathlib.Tactic.Ring
/-!
# Numbers are read by their grammar

A run of digits ends where the next part of a number begins, so that the reader
cuts a number into the parts of the grammar (`ofChars?_of_spells`).  A whole number
has no more digits than its size asks for (`length_le_of_whole`).
-/

namespace LogQuery

open Json

/-! ### Runs of digits -/

/-- A run of a class ends where another class begins. -/
theorem span_append {p : Char → Bool} {ds rest : List Char} (hds : ∀ d ∈ ds, p d = true)
    (hrest : ∀ c ∈ rest.head?, p c = false) :
    (ds ++ rest).takeWhile p = ds ∧ (ds ++ rest).dropWhile p = rest := by
  rw [List.takeWhile_append_of_pos hds, List.dropWhile_append_of_pos hds]
  cases rest with
  | nil => exact ⟨List.append_nil ds, rfl⟩
  | cons c rest =>
    have hc : ¬ p c = true := Bool.eq_false_iff.mp (hrest c rfl)
    rw [List.takeWhile_cons_of_neg hc, List.dropWhile_cons_of_neg hc, List.append_nil]
    exact ⟨rfl, rfl⟩

namespace Json

theorem Digits.all {ds : List Char} (h : Digits ds) : ds.all Char.isDigit = true :=
  List.all_eq_true.mpr h.2

theorem Digits.exists_cons {ds : List Char} (h : Digits ds) :
    ∃ d rest, ds = d :: rest ∧ d.isDigit = true := by
  obtain ⟨hne, hall⟩ := h
  cases ds with
  | nil => exact absurd rfl hne
  | cons d rest => exact ⟨d, rest, rfl, hall d List.mem_cons_self⟩

theorem ne_of_isDigit {c d : Char} (hc : c.isDigit = true) (hd : d.isDigit = false) : c ≠ d := by
  rintro rfl
  rw [hc] at hd
  cases hd

end Json

/-! ### The value of a run -/

theorem foldl_digits (n : Nat) (ds : List Char) :
    ds.foldl (fun n c => 10 * n + digitValue c) n = n * 10 ^ ds.length + ofDigits ds := by
  induction ds generalizing n with
  | nil => simp [ofDigits]
  | cons d ds ih =>
    rw [ofDigits, List.foldl_cons, List.foldl_cons, ih, ih (10 * 0 + digitValue d),
      List.length_cons, Nat.pow_succ]
    ring

theorem ofDigits_cons (d : Char) (ds : List Char) :
    ofDigits (d :: ds) = digitValue d * 10 ^ ds.length + ofDigits ds := by
  rw [ofDigits, List.foldl_cons, foldl_digits, Nat.mul_zero, Nat.zero_add]

/-- A digit that is no zero counts. -/
theorem digitValue_pos {d : Char} (hd : d.isDigit = true) (hzero : d ≠ '0') :
    0 < digitValue d := by
  rw [Char.isDigit, Bool.and_eq_true, decide_eq_true_iff, decide_eq_true_iff] at hd
  have hne : d.toNat ≠ '0'.toNat := fun h => hzero (Char.toNat_inj.mp h)
  have hle : '0'.toNat ≤ d.toNat := hd.1
  rw [digitValue]
  omega

/-- **A whole number has no digits to spare.** -/
theorem length_le_of_whole {ds : List Char} (h : Whole ds) {k : Nat} (hk : 0 < k)
    (hvalue : ofDigits ds < 10 ^ k) : ds.length ≤ k := by
  obtain ⟨d, rest, rfl, hd⟩ := h.digits.exists_cons
  by_cases hzero : d = '0'
  · rw [h.zero (congrArg some hzero)]
    exact hk
  · have hpos := digitValue_pos hd hzero
    have hpow : 10 ^ rest.length < 10 ^ k := by
      rw [ofDigits_cons] at hvalue
      calc 10 ^ rest.length ≤ digitValue d * 10 ^ rest.length := Nat.le_mul_of_pos_left _ hpos
        _ ≤ digitValue d * 10 ^ rest.length + ofDigits rest := Nat.le_add_right _ _
        _ < 10 ^ k := hvalue
    exact (Nat.pow_lt_pow_iff_right (by decide)).mp hpow

/-! ### The parts of a number -/

namespace Number

/-- The reader finds the exponent, if there is one. -/
theorem exponent?_of_spells {cs : List Char} {e : Int} (h : SpellsExponent cs e) :
    ∃ found, exponent? cs = some found ∧ found.getD 0 = e ∧ (found = none ↔ cs = []) := by
  cases h with
  | none => exact ⟨none, rfl, rfl, by simp⟩
  | @bare e ds he h =>
    obtain ⟨d, rest, rfl, hd⟩ := h.exists_cons
    refine ⟨some (ofDigits (d :: rest)), ?_, rfl, by simp⟩
    rw [exponent?, if_pos he]
    simp only [ne_eq, reduceCtorEq, not_false_eq_true, h.all, and_self, ↓reduceIte]
    · rintro ds heq
      exact ne_of_isDigit hd (by decide) (List.head_eq_of_cons_eq heq)
    · rintro ds heq
      exact ne_of_isDigit hd (by decide) (List.head_eq_of_cons_eq heq)
  | @plus e ds he h =>
    refine ⟨some (ofDigits ds), ?_, rfl, by simp⟩
    rw [exponent?, if_pos he]
    simp [h.1, h.all]
  | @minus e ds he h =>
    refine ⟨some (-(ofDigits ds : Int)), ?_, rfl, by simp⟩
    rw [exponent?, if_pos he]
    simp [h.1, h.all]

theorem isDigit_head_of_exponent {cs : List Char} {e : Int} (h : SpellsExponent cs e) :
    ∀ c ∈ cs.head?, c.isDigit = false ∧ c ≠ '.' := by
  have hletter : ∀ c : Char, c = 'e' ∨ c = 'E' → c.isDigit = false ∧ c ≠ '.' := by
    rintro c (rfl | rfl) <;> decide
  cases h with
  | none => nofun
  | bare he h | plus he h | minus he h =>
    intro c hc
    cases hc
    exact hletter _ he

/-- The reader finds the fraction, if there is one, and what follows it. -/
theorem fraction?_of_spells {cs ds rest : List Char} (h : SpellsFraction cs ds)
    (hrest : ∀ c ∈ rest.head?, c.isDigit = false ∧ c ≠ '.') :
    ∃ found, fraction? (cs ++ rest) = some (found, rest) ∧ found.getD [] = ds
      ∧ (found = none ↔ cs = []) := by
  cases h with
  | none =>
    refine ⟨none, ?_, rfl, by simp⟩
    rw [List.nil_append]
    unfold fraction?
    split
    · exact absurd rfl (hrest '.' rfl).2
    · rfl
  | point h =>
    obtain ⟨htake, hdrop⟩ := span_append h.2 fun c hc => (hrest c hc).1
    refine ⟨some ds, ?_, rfl, by simp⟩
    rw [List.cons_append, fraction?, htake, hdrop]
    exact if_neg h.1

theorem isDigit_head_of_fraction {cs ds rest : List Char} (h : SpellsFraction cs ds)
    (hrest : ∀ c ∈ rest.head?, c.isDigit = false ∧ c ≠ '.') :
    ∀ c ∈ (cs ++ rest).head?, c.isDigit = false := by
  cases h with
  | none => exact fun c hc => (hrest c hc).1
  | point h =>
    intro c hc
    cases hc
    decide

/-- What stands after the sign. -/
theorem ofMagnitude?_of_spells {ds fraction fs exponent : List Char} {e : Int} (hds : Whole ds)
    (hfraction : SpellsFraction fraction fs) (hexponent : SpellsExponent exponent e)
    (negative : Bool) :
    ofMagnitude? negative (ds ++ (fraction ++ exponent))
      = some (if fraction = [] ∧ exponent = [] then .int (signed negative (ofDigits ds))
        else .decimal (signed negative (ofDigits (ds ++ fs))) (e - fs.length)) := by
  have hhead := isDigit_head_of_exponent hexponent
  obtain ⟨htake, hdrop⟩ := span_append hds.digits.2 (isDigit_head_of_fraction hfraction hhead)
  obtain ⟨found, hfound, hfs, hnofraction⟩ := fraction?_of_spells hfraction hhead
  obtain ⟨power, hpower, he, hnopower⟩ := exponent?_of_spells hexponent
  have hguard : ds ≠ [] ∧ (ds.length = 1 ∨ ds.head? ≠ some '0') := by
    refine ⟨hds.digits.1, ?_⟩
    by_cases hzero : ds.head? = some '0'
    · rw [hds.zero hzero]
      exact Or.inl rfl
    · exact Or.inr hzero
  rw [ofMagnitude?, htake, hdrop]
  simp only [guard, if_pos hguard, hfound, hpower, ← hnofraction, ← hnopower, ← hfs, ← he,
    bind, Option.bind, pure]
  cases found with
  | some fs => rfl
  | none =>
    cases power with
    | some e => rfl
    | none => rfl

theorem ofChars?_of_sign {sign ds : List Char} {negative : Bool}
    (hsign : SpellsSign sign negative) (hds : Whole ds) (rest : List Char) :
    ofChars? (sign ++ (ds ++ rest)) = ofMagnitude? negative (ds ++ rest) := by
  cases hsign with
  | minus => rfl
  | none =>
    obtain ⟨d, ds, rfl, hd⟩ := hds.digits.exists_cons
    rw [List.nil_append, List.cons_append]
    unfold ofChars?
    split
    · rename_i heq
      exact absurd (List.head_eq_of_cons_eq heq) (ne_of_isDigit hd (by decide))
    · rfl

/-- **A number is read by its grammar.** -/
theorem ofChars?_of_spells {cs : List Char} {n : Number} (h : SpellsNumber cs n) :
    ofChars? cs = some n := by
  cases h with
  | @int sign ds negative hsign hds =>
    have hread := ofChars?_of_sign hsign hds ([] ++ [])
    rw [ofMagnitude?_of_spells hds .none .none, if_pos ⟨rfl, rfl⟩] at hread
    rwa [List.append_nil, List.append_nil] at hread
  | decimal hsign hds hfraction hexponent hsome =>
    rw [ofChars?_of_sign hsign hds (_ ++ _), ofMagnitude?_of_spells hds hfraction hexponent, if_neg]
    rintro ⟨hnone, hnone'⟩
    exact hsome.elim (· hnone) (· hnone')

/-- The first character of a number, and the one after a sign, is a digit. -/
theorem exists_digit_of_spells {cs : List Char} {n : Number} (h : SpellsNumber cs n) :
    ∃ sign negative d rest, SpellsSign sign negative ∧ d.isDigit = true
      ∧ cs = sign ++ d :: rest := by
  cases h with
  | @int sign ds negative hsign hds =>
    obtain ⟨d, rest, rfl, hd⟩ := hds.digits.exists_cons
    exact ⟨sign, negative, d, rest, hsign, hd, rfl⟩
  | @decimal sign ds fraction fs exponent negative e hsign hds hfraction hexponent hsome =>
    obtain ⟨d, rest, rfl, hd⟩ := hds.digits.exists_cons
    exact ⟨sign, negative, d, rest ++ (fraction ++ exponent), hsign, hd, rfl⟩

end Number

end LogQuery
