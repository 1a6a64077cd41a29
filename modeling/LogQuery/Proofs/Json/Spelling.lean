import LogQuery.Json.Printer
import LogQuery.Json.Reader
import Mathlib.Algebra.Group.Nat.Defs
import Mathlib.Data.List.Basic
/-!
# Strings in JSON

`SpellsChar cs c` lists the ways in which JSON may write a character: as it is,
by a letter after a backslash, by its code unit, or by two of them.  The reader
takes each of them (`reads_char`), so that every spelling of a string is read as
the string (`reads_string`).  The printer writes one of them, whichever character it
is (`spellsChar_escapeChar`).
-/

namespace LogQuery

/-! ### Hexadecimal digits -/

namespace Text

def hexStep (n : Nat) (c : Char) : Option Nat := (hexValue? c).map (16 * n + ·)

theorem hexStep_hexDigit (n m : Nat) : hexStep n (hexDigit (m % 16)) = some (16 * n + m % 16) := by
  rw [hexStep, hexValue?_hexDigit _ (Nat.mod_lt m (by decide)), Option.map_some]

theorem hexValue?_lt {c : Char} {v : Nat} (h : hexValue? c = some v) : v < 16 := by
  unfold hexValue? at h
  split_ifs at h with hdigit hlower hupper
  · cases h
    have hle : c.toNat ≤ '9'.toNat := hdigit.2
    have hnine : '9'.toNat = 57 := rfl
    have hzero : '0'.toNat = 48 := rfl
    omega
  · cases h
    have hle : c.toNat ≤ 'f'.toNat := hlower.2
    have hf : 'f'.toNat = 102 := rfl
    have ha : 'a'.toNat = 97 := rfl
    omega
  · cases h
    have hle : c.toNat ≤ 'F'.toNat := hupper.2
    have hf : 'F'.toNat = 70 := rfl
    have ha : 'A'.toNat = 65 := rfl
    omega

/-- As many digits, as many powers of sixteen. -/
theorem lt_of_foldlM_hexStep {ds : List Char} {value n : Nat}
    (h : ds.foldlM hexStep value = some n) : n < (value + 1) * 16 ^ ds.length := by
  induction ds generalizing value with
  | nil =>
    obtain rfl : value = n := Option.some.inj h
    rw [List.length_nil, Nat.pow_zero, Nat.mul_one]
    exact Nat.lt_succ_self value
  | cons d ds ih =>
    rw [List.foldlM_cons] at h
    obtain ⟨next, hnext, hrest⟩ := Option.bind_eq_some_iff.mp h
    obtain ⟨v, hv, rfl⟩ := Option.map_eq_some_iff.mp hnext
    have hdigit := hexValue?_lt hv
    calc n < (16 * value + v + 1) * 16 ^ ds.length := ih hrest
      _ ≤ (value + 1) * 16 * 16 ^ ds.length := Nat.mul_le_mul_right _ (by omega)
      _ = (value + 1) * 16 ^ (d :: ds).length := by
        rw [List.length_cons, Nat.pow_succ, Nat.mul_assoc, Nat.mul_comm 16]

/-- Four digits hold a code unit. -/
theorem foldlM_hexDigits_four {n : Nat} (hn : n < 0x10000) :
    (hexDigits 4 n).foldlM hexStep 0 = some n := by
  have hdigits : hexDigits 4 n = [hexDigit (n / 16 / 16 / 16 % 16), hexDigit (n / 16 / 16 % 16),
      hexDigit (n / 16 % 16), hexDigit (n % 16)] := rfl
  have hvalue : 16 * (16 * (16 * (16 * 0 + n / 16 / 16 / 16 % 16) + n / 16 / 16 % 16)
      + n / 16 % 16) + n % 16 = n := by omega
  rw [hdigits]
  simp only [List.foldlM_cons, List.foldlM_nil, hexStep_hexDigit]
  exact congrArg some hvalue

end Text

namespace Json

/-! ### Runs of the reader -/

/-- The reader goes from one state to another over the characters. -/
def Reads (l : Limits) (s : State) (cs : List Char) (s' : State) : Prop :=
  cs.foldlM (State.step l) s = .ok s'

variable {l : Limits} {s s' s'' : State}

theorem Reads.nil (s : State) : Reads l s [] s := rfl

theorem Reads.cons {c : Char} {cs : List Char} (h : s.step l c = .ok s') (h' : Reads l s' cs s'') :
    Reads l s (c :: cs) s'' := by
  rw [Reads, List.foldlM_cons, h]
  exact h'

theorem Reads.single {c : Char} (h : s.step l c = .ok s') : Reads l s [c] s' := .cons h (.nil s')

theorem Reads.append {cs ds : List Char} (h : Reads l s cs s') (h' : Reads l s' ds s'') :
    Reads l s (cs ++ ds) s'' := by
  rw [Reads] at h
  rw [Reads, List.foldlM_append, h]
  exact h'

/-! ### Spellings of characters -/

inductive SpellsChar : List Char → Char → Prop
  | raw {c : Char} (hquote : c ≠ '"') (hback : c ≠ '\\') (hcontrol : 0x20 ≤ c.toNat) :
      SpellsChar [c] c
  | letter {e c : Char} (h : State.escaped? e = some c) : SpellsChar ['\\', e] c
  | unit {ds : List Char} {n : Nat} (hlength : ds.length = 4)
      (hvalue : ds.foldlM Text.hexStep 0 = some n)
      (hhigh : State.isHigh n = false) (hlow : State.isLow n = false) :
      SpellsChar ('\\' :: 'u' :: ds) (Char.ofNat n)
  | pair {ds es : List Char} {m n : Nat} (hlength : ds.length = 4)
      (hvalue : ds.foldlM Text.hexStep 0 = some m) (hhigh : State.isHigh m = true)
      (hlength' : es.length = 4) (hvalue' : es.foldlM Text.hexStep 0 = some n)
      (hlow : State.isLow n = true) :
      SpellsChar (('\\' :: 'u' :: ds) ++ ('\\' :: 'u' :: es)) (Char.ofNat (State.pairPoint m n))

/-- One spelling after another. -/
inductive SpellsText : List Char → List Char → Prop
  | nil : SpellsText [] []
  | cons {cs ds t : List Char} {c : Char} (h : SpellsChar cs c) (h' : SpellsText ds t) :
      SpellsText (cs ++ ds) (c :: t)

/-! ### Reading a spelling -/

variable {fs : List Frame} {ex : Expects} {acc : List Nat}

/-- Inside a string only the quote that ends it is more than a character. -/
theorem step_quoted {e : Escape} {c : Char} {lexeme : Lexeme}
    (hc : c ≠ '"' ∨ e ≠ .none ∧ ∀ high, e ≠ .pair high false)
    (h : State.stringStep l acc e c = .ok lexeme) :
    State.step l ⟨fs, ex, .quoted acc e⟩ c = .ok ⟨fs, ex, lexeme⟩ := by
  unfold State.step
  split
  · rename_i hlex
    cases hlex
  · rename_i hlex
    cases hlex
  · rename_i cs e' hlex
    cases hlex
    split
    · rcases hc with hc | hc
      · exact absurd rfl hc
      · exact absurd rfl hc.1
    · rcases hc with hc | hc
      · exact absurd rfl hc
      · exact absurd rfl (hc.2 _)
    · rw [h]
      rfl

theorem reads_digits {high : Option Nat} {digits value n : Nat} {ds : List Char}
    {lexeme : Lexeme} (hne : ds ≠ []) (hlength : digits + ds.length = 4)
    (hvalue : ds.foldlM Text.hexStep value = some n)
    (h : State.unitRead l acc high n = .ok lexeme) :
    Reads l ⟨fs, ex, .quoted acc (.unit high digits value)⟩ ds ⟨fs, ex, lexeme⟩ := by
  induction ds generalizing digits value with
  | nil => exact absurd rfl hne
  | cons d ds ih =>
    rw [List.foldlM_cons] at hvalue
    obtain ⟨next, hnext, hrest⟩ := Option.bind_eq_some_iff.mp hvalue
    obtain ⟨v, hv, rfl⟩ := Option.map_eq_some_iff.mp hnext
    rw [List.length_cons] at hlength
    cases ds with
    | nil =>
      -- the fourth digit completes the unit
      have hlast : ¬ digits < 3 := by
        rw [List.length_nil] at hlength
        omega
      obtain rfl : 16 * value + v = n := Option.some.inj hrest
      refine Reads.single (step_quoted (Or.inr (by simp)) ?_)
      rw [State.stringStep, hv]
      simp only [if_neg hlast]
      exact h
    | cons e es =>
      have hmore : digits < 3 := by
        rw [List.length_cons] at hlength
        omega
      have hstep : State.stringStep l acc (.unit high digits value) d
          = .ok (.quoted acc (.unit high (digits + 1) (16 * value + v))) := by
        rw [State.stringStep, hv]
        simp only [if_pos hmore]
      exact Reads.cons (step_quoted (Or.inr (by simp)) hstep)
        (ih (List.cons_ne_nil e es) (by omega) hrest)

theorem reads_backslash (acc : List Nat) :
    Reads l ⟨fs, ex, .quoted acc .none⟩ ['\\'] ⟨fs, ex, .quoted acc .letter⟩ :=
  .single (step_quoted (Or.inl (by decide)) rfl)

theorem reads_unit {high : Option Nat} {n : Nat} {ds : List Char} {lexeme : Lexeme}
    (hlength : ds.length = 4) (hvalue : ds.foldlM Text.hexStep 0 = some n)
    (h : State.unitRead l acc high n = .ok lexeme) :
    Reads l ⟨fs, ex, .quoted acc (.unit high 0 0)⟩ ds ⟨fs, ex, lexeme⟩ := by
  have hne : ds ≠ [] := by
    rintro rfl
    exact absurd hlength (by decide)
  exact reads_digits hne (by omega) hvalue h

/-! ### Code points -/

/-- A code unit that is no surrogate is the code point of its character. -/
theorem toNat_ofNat_unit {n : Nat} (hn : n < 0x10000) (hhigh : State.isHigh n = false)
    (hlow : State.isLow n = false) : (Char.ofNat n).toNat = n := by
  rw [State.isHigh, Bool.and_eq_false_iff, decide_eq_false_iff_not, decide_eq_false_iff_not]
    at hhigh
  rw [State.isLow, Bool.and_eq_false_iff, decide_eq_false_iff_not, decide_eq_false_iff_not] at hlow
  have hvalid : n.isValidChar := by
    rw [Nat.isValidChar]
    omega
  rw [Char.ofNat, dif_pos hvalid]
  rfl

theorem toNat_ofNat_pair {m n : Nat} (hhigh : State.isHigh m = true)
    (hlow : State.isLow n = true) :
    (Char.ofNat (State.pairPoint m n)).toNat = State.pairPoint m n := by
  rw [State.isHigh, Bool.and_eq_true, decide_eq_true_iff, decide_eq_true_iff] at hhigh
  rw [State.isLow, Bool.and_eq_true, decide_eq_true_iff, decide_eq_true_iff] at hlow
  have hvalid : (State.pairPoint m n).isValidChar := by
    unfold State.pairPoint
    exact Or.inr ⟨by omega, by omega⟩
  rw [Char.ofNat, dif_pos hvalid]
  rfl

theorem firstUnit_of_high {n : Nat} (h : State.isHigh n = true) :
    State.firstUnit l acc n = .ok (.quoted acc (.pair n false)) := by
  rw [State.firstUnit, if_pos h]

theorem firstUnit_of_char {n : Nat} (hhigh : State.isHigh n = false)
    (hlow : State.isLow n = false) : State.firstUnit l acc n = .ok (.quoted (n :: acc) .none) := by
  rw [State.firstUnit, hhigh, hlow]
  rfl

theorem unitRead_of_low {m n : Nat} (h : State.isLow n = true) :
    State.unitRead l acc (some m) n = .ok (.quoted (State.pairPoint m n :: acc) .none) := by
  rw [State.unitRead, if_pos h]

/-! ### Texts -/

/-- **Every spelling of a character is taken for it.** -/
theorem reads_char {cs : List Char} {c : Char} (h : SpellsChar cs c) :
    Reads l ⟨fs, ex, .quoted acc .none⟩ cs ⟨fs, ex, .quoted (c.toNat :: acc) .none⟩ := by
  have hletter : Reads l ⟨fs, ex, .quoted acc .letter⟩ ['u']
      ⟨fs, ex, .quoted acc (.unit none 0 0)⟩ := .single (step_quoted (Or.inl (by decide)) rfl)
  cases h with
  | raw hquote hback hcontrol =>
    refine .single (step_quoted (Or.inl hquote) ?_)
    rw [State.stringStep, State.plainStep, if_neg hback, if_neg (Nat.not_lt.mpr hcontrol)]
  | @letter e c h =>
    refine (reads_backslash acc).append (.single (step_quoted (Or.inr (by simp)) ?_))
    have hu : e ≠ 'u' := by
      rintro rfl
      have hnone : State.escaped? 'u' = none := by decide
      rw [hnone] at h
      cases h
    rw [State.stringStep, State.letterStep, if_neg hu, h]
  | @unit ds n hlength hvalue hhigh hlow =>
    have hn : n < 0x10000 := by
      have hlt := Text.lt_of_foldlM_hexStep hvalue
      rwa [hlength] at hlt
    rw [toNat_ofNat_unit hn hhigh hlow]
    exact (reads_backslash acc).append
      (hletter.append (reads_unit hlength hvalue (firstUnit_of_char hhigh hlow)))
  | @pair ds es m n hlength hvalue hhigh hlength' hvalue' hlow =>
    have hback : Reads l ⟨fs, ex, .quoted acc (.pair m false)⟩ ['\\']
        ⟨fs, ex, .quoted acc (.pair m true)⟩ := .single (step_quoted (Or.inl (by decide)) rfl)
    have hletter' : Reads l ⟨fs, ex, .quoted acc (.pair m true)⟩ ['u']
        ⟨fs, ex, .quoted acc (.unit (some m) 0 0)⟩ :=
      .single (step_quoted (Or.inl (by decide)) rfl)
    have hhead : Reads l ⟨fs, ex, .quoted acc .none⟩ ('\\' :: 'u' :: ds)
        ⟨fs, ex, .quoted acc (.pair m false)⟩ :=
      (reads_backslash acc).append
        (hletter.append (reads_unit hlength hvalue (firstUnit_of_high hhigh)))
    have htail := hback.append
      (hletter'.append (reads_unit hlength' hvalue' (unitRead_of_low hlow)))
    rw [toNat_ofNat_pair hhigh hlow]
    exact hhead.append htail

theorem reads_text {cs t : List Char} (h : SpellsText cs t) :
    Reads l ⟨fs, ex, .quoted acc .none⟩ cs
      ⟨fs, ex, .quoted ((t.map Char.toNat).reverse ++ acc) .none⟩ := by
  induction h generalizing acc with
  | nil => exact .nil _
  | @cons cs ds t c h _ ih =>
    rw [List.map_cons, List.reverse_cons, List.append_assoc]
    exact (reads_char h).append ih

/-- The points of a text. -/
def points (text : String) : List Nat := text.toList.map Char.toNat

theorem text?_points (text : String) : text? (points text) = some text := by
  have hvalid : (points text).all (fun n => n.isValidChar) = true := by
    rw [points, List.all_map, List.all_eq_true]
    exact fun c _ => decide_eq_true c.valid
  have hchars : (points text).map Char.ofNat = text.toList := by
    rw [points, List.map_map]
    exact (List.map_congr_left fun c _ => Char.ofNat_toNat c).trans (List.map_id _)
  rw [text?, if_pos hvalid, hchars, String.ofList_toList]

theorem ofPoints_points (text : String) : ofPoints (points text) = .string text := by
  rw [ofPoints, text?_points]

/-- **Every spelling of a string is read as the string.** -/
theorem reads_string {cs : List Char} {text : String} (h : SpellsText cs text.toList)
    (hput : State.putString l (points text) ⟨fs, ex, .none⟩ = .ok s') :
    Reads l ⟨fs, ex, .none⟩ ('"' :: (cs ++ ['"'])) s' := by
  have hopen : State.step l ⟨fs, ex, .none⟩ '"' = .ok ⟨fs, ex, .quoted [] .none⟩ := rfl
  have hbody : Reads l ⟨fs, ex, .quoted [] .none⟩ cs
      ⟨fs, ex, .quoted ((points text).reverse ++ []) .none⟩ := reads_text h
  have hclose : State.step l ⟨fs, ex, .quoted ((points text).reverse ++ []) .none⟩ '"'
      = .ok s' := by
    show State.putString l ((points text).reverse ++ []).reverse _ = _
    rw [List.append_nil, List.reverse_reverse]
    exact hput
  exact .cons hopen (hbody.append (.single hclose))

/-! ### What the printer writes -/

theorem spellsChar_escapeUnit {n : Nat} (hn : n < 0x10000) (hhigh : State.isHigh n = false)
    (hlow : State.isLow n = false) : SpellsChar (escapeUnit n) (Char.ofNat n) :=
  .unit (Text.length_hexDigits 4 n) (Text.foldlM_hexDigits_four hn) hhigh hlow

/-- A character is never a surrogate, so that its code is one unit or a pair. -/
theorem spellsChar_escapeCode (c : Char) : SpellsChar (escapeCode c.toNat) c := by
  have hvalid : c.toNat < 0xD800 ∨ 0xDFFF < c.toNat ∧ c.toNat < 0x110000 := c.valid
  unfold escapeCode
  split
  · rename_i hsmall
    have hhigh : State.isHigh c.toNat = false := by
      rw [State.isHigh, Bool.and_eq_false_iff, decide_eq_false_iff_not, decide_eq_false_iff_not]
      omega
    have hlow : State.isLow c.toNat = false := by
      rw [State.isLow, Bool.and_eq_false_iff, decide_eq_false_iff_not, decide_eq_false_iff_not]
      omega
    have hunit := spellsChar_escapeUnit hsmall hhigh hlow
    rwa [Char.ofNat_toNat] at hunit
  · rename_i hlarge
    have hhigh : State.isHigh (0xD800 + (c.toNat - 0x10000) / 0x400) = true := by
      rw [State.isHigh, Bool.and_eq_true, decide_eq_true_iff, decide_eq_true_iff]
      omega
    have hlow : State.isLow (0xDC00 + (c.toNat - 0x10000) % 0x400) = true := by
      rw [State.isLow, Bool.and_eq_true, decide_eq_true_iff, decide_eq_true_iff]
      omega
    have hpair : Char.ofNat (State.pairPoint (0xD800 + (c.toNat - 0x10000) / 0x400)
        (0xDC00 + (c.toNat - 0x10000) % 0x400)) = c := by
      have hcode : 0x10000 + (0xD800 + (c.toNat - 0x10000) / 0x400 - 0xD800) * 0x400
          + (0xDC00 + (c.toNat - 0x10000) % 0x400 - 0xDC00) = c.toNat := by omega
      unfold State.pairPoint
      rw [hcode, Char.ofNat_toNat]
    have hfirst := Text.foldlM_hexDigits_four
      (show 0xD800 + (c.toNat - 0x10000) / 0x400 < 0x10000 by omega)
    have hsecond := Text.foldlM_hexDigits_four
      (show 0xDC00 + (c.toNat - 0x10000) % 0x400 < 0x10000 by omega)
    have hboth := SpellsChar.pair (Text.length_hexDigits 4 _) hfirst hhigh
      (Text.length_hexDigits 4 _) hsecond hlow
    rwa [hpair] at hboth

/-- **The printer spells every character**, in both layouts. -/
theorem spellsChar_escapeChar (ascii : Bool) (c : Char) : SpellsChar (escapeChar ascii c) c := by
  unfold escapeChar
  split_ifs with hquote hback hline hreturn htab hb hf hcode
  · subst hquote
    exact .letter rfl
  · subst hback
    exact .letter rfl
  · subst hline
    exact .letter rfl
  · subst hreturn
    exact .letter rfl
  · subst htab
    exact .letter rfl
  · subst hb
    exact .letter rfl
  · subst hf
    exact .letter rfl
  · exact spellsChar_escapeCode c
  · rw [Bool.or_eq_true, decide_eq_true_iff, not_or] at hcode
    exact .raw hquote hback (Nat.not_lt.mp hcode.1)

theorem spellsText_escape (ascii : Bool) (t : List Char) :
    SpellsText (t.flatMap (escapeChar ascii)) t := by
  induction t with
  | nil => exact .nil
  | cons c t ih => exact .cons (spellsChar_escapeChar ascii c) ih

end Json

end LogQuery
