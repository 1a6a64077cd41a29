import LogQuery.Time.Notation
import LogQuery.Proofs.Json.Number
/-!
# Times are read as they are written

A time is written in numbers of a fixed width with marks between them, a fraction
and a zone.  Each part is read back from the front of what follows, and the parts
give the time again (`read_text`), with its microseconds and with its offset.
-/

namespace LogQuery.Time

/-! ### Numbers of a fixed width -/

theorem digitValue_ofNat : ∀ d < 10, digitValue (Char.ofNat ('0'.toNat + d)) = d := by
  decide

theorem isDigit_ofNat : ∀ d < 10, (Char.ofNat ('0'.toNat + d)).isDigit = true := by
  decide

theorem ofDigits_concat (ds : List Char) (c : Char) :
    ofDigits (ds ++ [c]) = 10 * ofDigits ds + digitValue c := by
  rw [ofDigits, List.foldl_append]
  rfl

theorem length_decimalDigits (width n : Nat) : (decimalDigits width n).length = width := by
  induction width generalizing n with
  | zero => rfl
  | succ width ih => rw [decimalDigits, List.length_append, ih, List.length_singleton]

theorem isDigit_of_mem_decimalDigits (width n : Nat) :
    ∀ d ∈ decimalDigits width n, d.isDigit = true := by
  induction width generalizing n with
  | zero => exact List.forall_mem_nil _
  | succ width ih =>
    rw [decimalDigits]
    refine List.forall_mem_append.mpr ⟨ih (n / 10), List.forall_mem_singleton.mpr ?_⟩
    exact isDigit_ofNat _ (Nat.mod_lt n (by decide))

theorem ofDigits_decimalDigits (width n : Nat) :
    ofDigits (decimalDigits width n) = n % 10 ^ width := by
  induction width generalizing n with
  | zero => rw [Nat.pow_zero, Nat.mod_one, decimalDigits, ofDigits, List.foldl_nil]
  | succ width ih =>
    rw [decimalDigits, ofDigits_concat, ih, digitValue_ofNat _ (Nat.mod_lt n (by decide)),
      Nat.pow_succ', Nat.mod_mul, Nat.add_comm]

theorem readDigits?_decimalDigits {width n : Nat} (h : n < 10 ^ width) (rest : List Char) :
    readDigits? width (decimalDigits width n ++ rest) = some (n, rest) := by
  have hlength := length_decimalDigits width n
  have hall : (decimalDigits width n).all Char.isDigit = true :=
    List.all_eq_true.mpr (isDigit_of_mem_decimalDigits width n)
  rw [readDigits?, List.take_left' hlength, List.drop_left' hlength, if_pos ⟨hlength, hall⟩,
    ofDigits_decimalDigits, Nat.mod_eq_of_lt h]

theorem readBelow?_twoDigits {bound : Nat} (hbound : bound ≤ 100) (n : Fin bound)
    (rest : List Char) : readBelow? bound (twoDigits n.val ++ rest) = some (n, rest) := by
  have hn : n.val < 10 ^ 2 := n.isLt.trans_le hbound
  simp only [readBelow?, twoDigits, readDigits?_decimalDigits hn, Option.bind_eq_bind,
    Option.bind_some, dif_pos n.isLt]
  rfl

theorem readChar?_cons {inClass : Char → Bool} {c : Char} (h : inClass c = true)
    (rest : List Char) : readChar? inClass (c :: rest) = some rest :=
  if_pos h

/-! ### Dates -/

theorem daysIn_le (year month : Nat) : daysIn year month ≤ 31 := by
  unfold daysIn
  split_ifs <;> decide

theorem Date.ofParts?_self (d : Date) : Date.ofParts? d.year d.month d.day = some d :=
  dif_pos ⟨d.year_le, d.month_mem, d.day_mem⟩

theorem readDate?_chars (d : Date) (rest : List Char) :
    readDate? (d.chars ++ rest) = some (d, rest) := by
  have hyear : d.year < 10 ^ 4 := Nat.lt_succ_of_le d.year_le
  have hmonth : d.month < 10 ^ 2 := d.month_mem.2.trans_lt (by decide)
  have hday : d.day < 10 ^ 2 := (d.day_mem.2.trans (daysIn_le _ _)).trans_lt (by decide)
  have hdash : ∀ cs, readChar? (· = '-') ('-' :: cs) = some cs := readChar?_cons rfl
  simp only [readDate?, Date.chars, twoDigits, List.append_assoc, List.cons_append,
    readDigits?_decimalDigits hyear, readDigits?_decimalDigits hmonth,
    readDigits?_decimalDigits hday, hdash, Option.bind_eq_bind, Option.bind_some,
    Date.ofParts?_self]
  rfl

/-! ### Fractions -/

def fractionChars (micro : Fin 1000000) : List Char :=
  if micro.val = 0 then [] else '.' :: decimalDigits 6 micro.val

theorem millionths_decimalDigits (micro : Fin 1000000) :
    millionths (decimalDigits 6 micro.val) = micro.val := by
  rw [millionths, List.take_left' (length_decimalDigits 6 micro.val), ofDigits_decimalDigits]
  exact Nat.mod_eq_of_lt micro.isLt

theorem readFraction?_digits {cs ds rest : List Char} (htake : cs.takeWhile Char.isDigit = ds)
    (hdrop : cs.dropWhile Char.isDigit = rest) (hne : ds ≠ []) :
    readFraction? ('.' :: cs)
      = some (⟨millionths ds % 1000000, Nat.mod_lt _ (by decide)⟩, rest) := by
  subst htake hdrop
  rw [readFraction?, if_pos (.inl rfl)]
  exact if_neg hne

/-- A fraction ends where neither a digit nor another mark of a fraction follows. -/
theorem readFraction?_fractionChars (micro : Fin 1000000) {rest : List Char}
    (hrest : ∀ c ∈ rest.head?, c.isDigit = false ∧ c ≠ '.' ∧ c ≠ ',') :
    readFraction? (fractionChars micro ++ rest) = some (micro, rest) := by
  unfold fractionChars
  split
  · rename_i hzero
    have hmicro : micro = ⟨0, by decide⟩ := Fin.ext hzero
    rw [List.nil_append, hmicro]
    cases rest with
    | nil => rfl
    | cons c rest =>
      obtain ⟨-, hpoint, hcomma⟩ := hrest c rfl
      exact if_neg (not_or.mpr ⟨hpoint, hcomma⟩)
  · have hne : decimalDigits 6 micro.val ≠ [] := by
      intro hnil
      have hlength := length_decimalDigits 6 micro.val
      rw [hnil] at hlength
      cases hlength
    obtain ⟨htake, hdrop⟩ := span_append (p := Char.isDigit)
      (isDigit_of_mem_decimalDigits 6 micro.val) fun c hc => (hrest c hc).1
    have hvalue : Fin.mk (millionths (decimalDigits 6 micro.val) % 1000000)
        (Nat.mod_lt _ (by decide)) = micro := by
      apply Fin.ext
      show millionths (decimalDigits 6 micro.val) % 1000000 = micro.val
      rw [millionths_decimalDigits]
      exact Nat.mod_eq_of_lt micro.isLt
    rw [List.cons_append, readFraction?_digits htake hdrop hne, hvalue]

/-! ### Zones -/

def zoneChars : Option Offset → List Char
  | none => []
  | some o => if o.minutes = 0 then ['Z'] else o.chars

theorem head?_zoneChars (o : Option Offset) :
    ∀ c ∈ (zoneChars o).head?, c.isDigit = false ∧ c ≠ '.' ∧ c ≠ ',' := by
  intro c hc
  cases o with
  | none => exact absurd hc (Option.not_mem_none c)
  | some o =>
    simp only [zoneChars, Offset.chars] at hc
    split_ifs at hc <;> cases hc <;> decide

theorem readZone?_sign {sign : Char} (hsign : sign = '+' ∨ sign = '-') (hour : Fin 24)
    (minute : Fin 60) :
    readZone? (sign :: (twoDigits hour.val ++ ':' :: twoDigits minute.val))
      = some (some (offsetOf (sign = '+') hour minute)) := by
  have hminute := readBelow?_twoDigits (show 60 ≤ 100 by decide) minute []
  rw [List.append_nil] at hminute
  rcases hsign with rfl | rfl <;>
  · simp only [readZone?, readBelow?_twoDigits (show 24 ≤ 100 by decide), hminute,
      Option.bind_eq_bind, Option.bind_some]
    rfl

theorem offsetOf_hours_minutes (o : Offset) (hzero : o.minutes ≠ 0)
    (hhour : o.minutes.natAbs / 60 < 24) (hminute : o.minutes.natAbs % 60 < 60) :
    offsetOf ((if o.minutes < 0 then '-' else '+') = '+') ⟨_, hhour⟩ ⟨_, hminute⟩ = o := by
  obtain ⟨minutes, hbounded⟩ := o
  rw [offsetOf, Offset.mk.injEq]
  by_cases hneg : minutes < 0
  · rw [if_pos hneg, if_neg (by decide)]
    dsimp only
    omega
  · rw [if_neg hneg, if_pos (by decide)]
    dsimp only
    omega

theorem readZone?_chars (o : Offset) (hzero : o.minutes ≠ 0) :
    readZone? o.chars = some (some o) := by
  have hbounded := o.bounded
  have hhour : o.minutes.natAbs / 60 < 24 := by omega
  have hminute : o.minutes.natAbs % 60 < 60 := Nat.mod_lt _ (by decide)
  have hsign : (if o.minutes < 0 then '-' else '+') = '+'
      ∨ (if o.minutes < 0 then '-' else '+') = '-' := by
    split_ifs
    · exact .inr rfl
    · exact .inl rfl
  rw [Offset.chars, List.cons_append]
  refine (readZone?_sign hsign ⟨_, hhour⟩ ⟨_, hminute⟩).trans ?_
  rw [offsetOf_hours_minutes o hzero hhour hminute]

theorem readZone?_zoneChars (o : Option Offset) : readZone? (zoneChars o) = some o := by
  cases o with
  | none => rfl
  | some o =>
    by_cases hzero : o.minutes = 0
    · have hutc : o = Offset.utc := by
        obtain ⟨minutes, hbounded⟩ := o
        rw [Offset.utc, Offset.mk.injEq]
        exact hzero
      rw [zoneChars, if_pos hzero, hutc]
      rfl
    · rw [zoneChars, if_neg hzero]
      exact readZone?_chars o hzero

/-! ### Times -/

theorem chars_eq (t : Timestamp) :
    t.chars ['Z'] = t.date.chars ++ 'T' :: clockChars t ++ fractionChars t.micro
      ++ zoneChars t.offset := by
  rw [Timestamp.chars, fractionChars]
  cases t.offset <;> rfl

theorem readDateTime?_chars (t : Timestamp) : readDateTime? (t.chars ['Z']) = some t := by
  have hseparator : ∀ cs, readChar? isDateTimeSeparator ('T' :: cs) = some cs := readChar?_cons rfl
  have hcolon : ∀ cs, readChar? (· = ':') (':' :: cs) = some cs := readChar?_cons rfl
  have hseconds : ∀ cs, readSeconds? (':' :: cs) = (readBelow? 60 cs).bind fun second =>
      (readFraction? second.2).bind fun micro => some (second.1, micro.1, micro.2) := fun _ => rfl
  rw [chars_eq, clockChars]
  simp only [readDateTime?, List.append_assoc, List.cons_append, readDate?_chars, hseparator,
    readBelow?_twoDigits (show 24 ≤ 100 by decide), hcolon,
    readBelow?_twoDigits (show 60 ≤ 100 by decide), hseconds,
    readFraction?_fractionChars t.micro (head?_zoneChars t.offset), readZone?_zoneChars,
    Option.bind_eq_bind, Option.bind_some, Option.pure_def]

theorem year_ne_zero_of_sinceYearOne {t u : Timestamp} (h : sinceYearOne t = .ok u) :
    u.date.year ≠ 0 := by
  unfold sinceYearOne at h
  split at h
  · cases h
  · rename_i hyear
    cases h
    exact hyear

/-- The years of the times that are read. -/
theorem year_ne_zero_of_read {s : String} {t : Timestamp} (h : read s = .ok t) :
    t.date.year ≠ 0 := by
  unfold read at h
  split at h
  · exact year_ne_zero_of_sinceYearOne h
  · cases h

theorem year_ne_zero_of_ofUnix {u : UnixTime} {t : Timestamp} (h : ofUnix u = .ok t) :
    t.date.year ≠ 0 := by
  unfold ofUnix at h
  split at h
  · exact year_ne_zero_of_sinceYearOne h
  · cases h

/-- **A time that is written is read back**, if it is of a year that can be read. -/
theorem read_text (t : Timestamp) (hyear : t.date.year ≠ 0) : read t.text = .ok t := by
  rw [read, Timestamp.text, String.toList_ofList, readChars?, readDateTime?_chars, Option.some_or]
  exact if_neg hyear

end LogQuery.Time
