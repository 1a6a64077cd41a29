import LogQuery.Proofs.Selector
import Mathlib.Data.List.DropRight
import Mathlib.Order.WellFounded
/-!
# The comma that is dropped

A comma dangles where blanks and a closing brace follow it (`DanglesAfter`).  The
scan for it tries every position with the blanks in front, and so it stops at the
blanks before the first dangling comma; they go with it, and with the blanks behind
(`dropDanglingChars_of_first`).  Without a dangling comma nothing is dropped
(`dropDanglingChars_of_none`).

A written selector ends with the quote of a value and its brace.  If there are no
other closing braces in it, no comma dangles, and one that is put before the brace
is the only one (`dropDangling_law`).
-/

namespace LogQuery.Selector

/-- There are blanks only. -/
def AllBlank (cs : List Char) : Prop := ∀ c ∈ cs, Text.isBlank c = true

instance (cs : List Char) : Decidable (AllBlank cs) :=
  List.decidableBAll _ cs

/-- The comma after `front` dangles: blanks and a closing brace follow it. -/
def DanglesAfter (cs front : List Char) : Prop :=
  ∃ ws rest, AllBlank ws ∧ cs = front ++ ',' :: (ws ++ '\x7d' :: rest)

/-- The comma after `front` is the first one that dangles. -/
def FirstDanglesAfter (cs front : List Char) : Prop :=
  DanglesAfter cs front ∧ ∀ other, DanglesAfter cs other → front <+: other

variable {cs front : List Char}

theorem DanglesAfter.cons (h : DanglesAfter cs front) (c : Char) :
    DanglesAfter (c :: cs) (c :: front) := by
  obtain ⟨ws, rest, hws, rfl⟩ := h
  exact ⟨ws, rest, hws, rfl⟩

/-- Some comma is the first. -/
theorem exists_first (h : DanglesAfter cs front) : ∃ first, FirstDanglesAfter cs first := by
  obtain ⟨first, hfirst, hshortest⟩ :=
    WellFounded.has_min (measure List.length).wf {front | DanglesAfter cs front} ⟨front, h⟩
  refine ⟨first, hfirst, fun other hother => ?_⟩
  have hlength : first.length ≤ other.length := Nat.le_of_not_lt (hshortest other hother)
  obtain ⟨ws, rest, -, rfl⟩ := hfirst
  obtain ⟨ws', rest', -, hsame⟩ := hother
  have hother : other <+: first ++ ',' :: (ws ++ '\x7d' :: rest) := hsame ▸ List.prefix_append _ _
  exact List.prefix_of_prefix_length_le (List.prefix_append _ _) hother hlength

/-- Before the first comma there is none that dangles. -/
theorem firstDanglesAfter_of_not_mem (h : DanglesAfter cs front) (hcomma : ',' ∉ front) :
    FirstDanglesAfter cs front := by
  refine ⟨h, fun other hother => ?_⟩
  obtain ⟨ws, rest, -, rfl⟩ := h
  obtain ⟨ws', rest', -, hsame⟩ := hother
  rcases List.append_eq_append_iff.mp hsame with ⟨more, rfl, -⟩ | ⟨more, rfl, hmore⟩
  · exact List.prefix_append front more
  · cases more with
    | nil => exact ⟨[], (List.append_nil _).trans (List.append_nil other)⟩
    | cons c more =>
      have hc : ',' = c := (List.cons.inj hmore).1
      exact absurd (List.mem_append_right other (hc ▸ List.mem_cons_self)) hcomma

/-! ### At one position -/

theorem dropWhile_allBlank {ws : List Char} (hws : AllBlank ws) {c : Char}
    (hc : Text.isBlank c = false) (rest : List Char) :
    (ws ++ c :: rest).dropWhile Text.isBlank = c :: rest := by
  rw [List.dropWhile_append_of_pos hws,
    List.dropWhile_cons_of_neg (by rw [hc]; exact Bool.false_ne_true)]

/-- A text is its blanks and what comes after them. -/
theorem exists_blanks (cs : List Char) : ∃ ws, AllBlank ws ∧ cs = ws ++ cs.dropWhile Text.isBlank :=
  ⟨cs.takeWhile Text.isBlank, fun _ hc => List.mem_takeWhile_imp hc,
    List.takeWhile_append_dropWhile.symm⟩

theorem dangling?_eq_some_iff {rest : List Char} :
    dangling? cs = some rest ↔ ∃ ws ws', AllBlank ws ∧ AllBlank ws'
      ∧ cs = ws ++ ',' :: (ws' ++ '\x7d' :: rest) := by
  constructor
  · intro h
    obtain ⟨ws, hws, hcs⟩ := exists_blanks cs
    unfold dangling? at h
    split at h
    · rename_i after hafter
      obtain ⟨ws', hws', hcs'⟩ := exists_blanks after
      split at h
      · rename_i last hlast
        cases h
        exact ⟨ws, ws', hws, hws', by rw [← hlast, ← hcs', ← hafter, ← hcs]⟩
      · cases h
    · cases h
  · rintro ⟨ws, ws', hws, hws', rfl⟩
    have hcomma : Text.isBlank ',' = false := by decide
    have hbrace : Text.isBlank '\x7d' = false := by decide
    simp only [dangling?, dropWhile_allBlank hws hcomma, dropWhile_allBlank hws' hbrace]

/-! ### Along the text -/

/-- **Without a dangling comma nothing is dropped.** -/
theorem dropDanglingChars_of_none (h : ∀ front, ¬DanglesAfter cs front) :
    dropDanglingChars cs = cs := by
  induction cs with
  | nil => rfl
  | cons c cs ih =>
    rw [dropDanglingChars]
    cases hdangling : dangling? (c :: cs) with
    | some rest =>
      obtain ⟨ws, ws', -, hws', hcs⟩ := dangling?_eq_some_iff.mp hdangling
      exact absurd ⟨ws', rest, hws', hcs⟩ (h ws)
    | none => exact congrArg (c :: ·) (ih fun front hfront => h (c :: front) (hfront.cons c))

/-- **The first dangling comma is dropped**, with the blanks on both sides of it.  The
scan finds nothing before, for what it would find is a comma with blanks in front. -/
theorem dropDanglingChars_of_first {before ws ws' rest : List Char}
    (hbefore : ∀ c ∈ before.getLast?, Text.isBlank c = false) (hws : AllBlank ws)
    (hws' : AllBlank ws')
    (hfirst : ∀ front, DanglesAfter (before ++ (ws ++ ',' :: (ws' ++ '\x7d' :: rest))) front →
      before ++ ws <+: front) :
    dropDanglingChars (before ++ (ws ++ ',' :: (ws' ++ '\x7d' :: rest)))
      = before ++ '\x7d' :: rest := by
  induction before with
  | nil =>
    have hdangling : dangling? (ws ++ ',' :: (ws' ++ '\x7d' :: rest)) = some rest :=
      dangling?_eq_some_iff.mpr ⟨ws, ws', hws, hws', rfl⟩
    rw [List.nil_append, List.nil_append]
    cases hcs : ws ++ ',' :: (ws' ++ '\x7d' :: rest) with
    | nil => exact absurd hcs (by simp)
    | cons c cs =>
      rw [hcs] at hdangling
      simp only [dropDanglingChars, hdangling]
  | cons c before ih =>
    have hnone : dangling? (c :: (before ++ (ws ++ ',' :: (ws' ++ '\x7d' :: rest)))) = none := by
      rw [Option.eq_none_iff_forall_ne_some]
      intro rest' hdangling
      obtain ⟨us, us', hus, hus', hcs⟩ := dangling?_eq_some_iff.mp hdangling
      have hbegins : c :: before ++ ws <+: us := hfirst us ⟨us', rest', hus', hcs⟩
      have hlast := List.getLast?_eq_some_getLast (List.cons_ne_nil c before)
      have hmem := List.getLast_mem (List.cons_ne_nil c before)
      have hblank := hus _ (hbegins.subset (List.mem_append_left ws hmem))
      rw [hbefore _ hlast] at hblank
      cases hblank
    rw [List.cons_append, dropDanglingChars, hnone, List.cons_append]
    refine congrArg (c :: ·) (ih ?_ fun front hfront => ?_)
    · intro d hd
      refine hbefore d ?_
      cases before with
      | nil => cases hd
      | cons e before => rwa [List.getLast?_cons_cons]
    · exact (List.cons_prefix_cons.mp (hfirst (c :: front) (hfront.cons c))).2

/-- What the first dangling comma leaves of a text. -/
theorem exists_dropDangling {s : String} {front : List Char}
    (h : FirstDanglesAfter s.toList front) :
    ∃ before ws ws' rest, AllBlank ws ∧ AllBlank ws'
      ∧ (∀ c ∈ before.getLast?, Text.isBlank c = false)
      ∧ front = before ++ ws ∧ s.toList = before ++ (ws ++ ',' :: (ws' ++ '\x7d' :: rest))
      ∧ dropDangling s = String.ofList (before ++ '\x7d' :: rest) := by
  obtain ⟨⟨ws', rest, hws', hs⟩, hleast⟩ := h
  have hsplit : front.rdropWhile Text.isBlank ++ front.rtakeWhile Text.isBlank = front :=
    List.rdropWhile_append_rtakeWhile
  have hchars : s.toList = front.rdropWhile Text.isBlank
      ++ (front.rtakeWhile Text.isBlank ++ ',' :: (ws' ++ '\x7d' :: rest)) := by
    rw [hs, ← List.append_assoc, hsplit]
  have hws : AllBlank (front.rtakeWhile Text.isBlank) := fun c hc => List.mem_rtakeWhile_imp hc
  have hlast : ∀ c ∈ (front.rdropWhile Text.isBlank).getLast?, Text.isBlank c = false := by
    intro c hc
    obtain ⟨hne, rfl⟩ := List.mem_getLast?_eq_getLast hc
    exact Bool.eq_false_iff.mpr (List.rdropWhile_last_not _ _ hne)
  refine ⟨_, _, ws', rest, hws, hws', hlast, hsplit.symm, hchars, ?_⟩
  rw [dropDangling, hchars]
  refine congrArg String.ofList (dropDanglingChars_of_first hlast hws hws' fun other hother => ?_)
  rw [hsplit]
  exact hleast other (hchars ▸ hother)

/-! ### The characters of a selector -/

/-- The characters that are written around the texts of matchers, or in their escapes. -/
def marks : List Char := ['"', '\\', 'n', ',', ' ', '=', '~', '|']

theorem mem_marks_of_mem_escapeChar {c d : Char} (h : c ∈ Literal.escapeChar d) :
    c ∈ marks ∨ c = d := by
  have hbackslash : ['\\', '\\'] ⊆ marks := by decide
  have hnewline : ['\\', 'n'] ⊆ marks := by decide
  have hquote : ['\\', '"'] ⊆ marks := by decide
  unfold Literal.escapeChar at h
  split_ifs at h
  · exact .inl (hbackslash h)
  · exact .inl (hnewline h)
  · exact .inl (hquote h)
  · exact .inr (List.mem_singleton.mp h)

theorem mem_quote {s : String} {c : Char} (h : c ∈ (Literal.quote s).toList) :
    c ∈ marks ∨ c ∈ s.toList := by
  have hquote : '"' ∈ marks := by decide
  rw [Literal.toList_quote, List.mem_cons, List.mem_append, List.mem_singleton,
    Literal.escapeChars_eq_flatMap, List.mem_flatMap] at h
  rcases h with rfl | ⟨d, hd, hc⟩ | rfl
  · exact .inl hquote
  · rcases mem_marks_of_mem_escapeChar hc with hc | rfl
    · exact .inl hc
    · exact .inr hd
  · exact .inl hquote

/-- A character of one of the three texts of a matcher. -/
def Occurs (c : Char) (m : Matcher) : Prop :=
  c ∈ m.key.toList ∨ c ∈ m.operator.toList ∨ c ∈ m.value.toList

instance (c : Char) (m : Matcher) : Decidable (Occurs c m) :=
  inferInstanceAs (Decidable (_ ∨ _ ∨ _))

theorem mem_render {m : Matcher} {c : Char} (h : c ∈ m.render.toList) :
    c ∈ marks ∨ Occurs c m := by
  unfold Matcher.render at h
  split_ifs at h <;>
    rw [String.toList_append, String.toList_append, List.mem_append, List.mem_append] at h <;>
    obtain (hkey | hoperator) | hvalue := h
  · exact .inr (.inl hkey)
  · exact .inr (.inr (.inl hoperator))
  · exact .inr (.inr (.inr hvalue))
  · exact .inr (.inl hkey)
  · exact .inr (.inr (.inl hoperator))
  · exact (mem_quote hvalue).imp_right fun hvalue => .inr (.inr hvalue)

/-- A group is written with the characters of its members. -/
theorem mem_renderPositive {ms : List Matcher} {g : Group}
    (hg : g ∈ (Groups.ofMatchers ms).positive) {c : Char} (h : c ∈ (renderPositive g).toList) :
    c ∈ marks ∨ ∃ m ∈ ms, Occurs c m := by
  obtain ⟨hne, hmembers⟩ := Groups.group_filter hg
  obtain ⟨k, ns⟩ := g
  have hmany : c ∈ (Matcher.renderAlternation k Operator.matching.symbol
      (ns.map Matcher.value)).toList → c ∈ marks ∨ ∃ m ∈ ms, Occurs c m := by
    intro hc
    have hmatching : Operator.matching.symbol.toList ⊆ marks := by decide
    rw [Matcher.renderAlternation_eq, String.toList_append, String.toList_append, List.mem_append,
      List.mem_append] at hc
    obtain (hkey | hoperator) | hquoted := hc
    · obtain ⟨n, hn⟩ := List.exists_mem_of_ne_nil ns hne
      obtain ⟨hms, -, hk⟩ := hmembers n hn
      exact .inr ⟨n, hms, .inl (hk ▸ hkey)⟩
    · exact .inl (hmatching hoperator)
    · rcases mem_quote hquoted with hc | hc
      · exact .inl hc
      · rcases Text.mem_alternation hc with rfl | ⟨v, hv, hc⟩
        · exact .inl (by decide)
        · obtain ⟨n, hn, rfl⟩ := List.mem_map.mp hv
          exact .inr ⟨n, (hmembers n hn).1, .inr (.inr hc)⟩
  cases ns with
  | nil => exact absurd rfl hne
  | cons n ns =>
    cases ns with
    | nil =>
      exact (mem_render h).imp_right fun hn => ⟨n, (hmembers n List.mem_cons_self).1, hn⟩
    | cons n' ns => exact hmany h

theorem mem_intercalate {sep : String} {ps : List String} {c : Char}
    (h : c ∈ (sep.intercalate ps).toList) : c ∈ sep.toList ∨ ∃ p ∈ ps, c ∈ p.toList := by
  induction ps with
  | nil => exact absurd h List.not_mem_nil
  | cons p ps ih =>
    rw [Text.intercalate_cons, String.toList_append, List.mem_append] at h
    rcases h with h | h
    · exact .inr ⟨p, List.mem_cons_self, h⟩
    · split_ifs at h
      · exact absurd h List.not_mem_nil
      · rw [String.toList_append, List.mem_append] at h
        rcases h with h | h
        · exact .inl h
        · exact (ih h).imp_right fun ⟨q, hq, hc⟩ => ⟨q, List.mem_cons_of_mem p hq, hc⟩

/-- **A body has the characters of its matchers**, and marks. -/
theorem mem_body {ms : List Matcher} {c : Char} (h : c ∈ (body ms).toList) :
    c ∈ marks ∨ ∃ m ∈ ms, Occurs c m := by
  have hsep : (", " : String).toList ⊆ marks := by decide
  rw [toList_body] at h
  rcases mem_intercalate ((List.dropWhile_suffix isPadding).subset h) with hc | ⟨p, hp, hc⟩
  · exact .inl (hsep hc)
  · rw [pieces, List.mem_append, List.mem_map, List.mem_map] at hp
    obtain ⟨g, hg, rfl⟩ | ⟨m, hm, rfl⟩ := hp
    · exact mem_renderPositive hg hc
    · exact (mem_render hc).imp_right fun hm' => ⟨m, (Groups.mem_exclusive.mp hm).1, hm'⟩

/-! ### Selectors with one closing brace -/

/-- The blanks at the end of a text go, and no more. -/
theorem rdropWhile_allBlank {ws : List Char} (hws : AllBlank ws) {c : Char}
    (hc : Text.isBlank c = false) (front : List Char) :
    (front ++ c :: ws).rdropWhile Text.isBlank = front ++ [c] := by
  have hreverse : AllBlank ws.reverse := fun d hd => hws d (List.mem_reverse.mp hd)
  rw [List.rdropWhile, List.reverse_append, List.reverse_cons, List.append_assoc,
    List.singleton_append, dropWhile_allBlank hreverse hc, List.reverse_cons, List.reverse_reverse]

/-- What dangles before the only closing brace ends what is before the brace. -/
theorem DanglesAfter.before_brace (hbrace : '\x7d' ∉ cs) (h : DanglesAfter (cs ++ ['\x7d']) front) :
    ∃ ws, AllBlank ws ∧ cs = front ++ ',' :: ws := by
  obtain ⟨ws, rest, hws, hcs⟩ := h
  have hsplit : cs ++ '\x7d' :: [] = (front ++ ',' :: ws) ++ '\x7d' :: rest := by
    rw [hcs, List.append_assoc, List.cons_append]
  obtain ⟨hbefore, -, -⟩ := (List.append_cons_inj_of_notMem hbrace List.not_mem_nil).mp hsplit
  exact ⟨ws, hws, hbefore⟩

theorem not_danglesAfter (hbrace : '\x7d' ∉ cs)
    (hlast : ∀ c ∈ cs.getLast?, Text.isBlank c = false ∧ c ≠ ',') :
    ¬DanglesAfter (cs ++ ['\x7d']) front := by
  intro h
  obtain ⟨ws, hws, rfl⟩ := h.before_brace hbrace
  have hends : (front ++ ',' :: ws).getLast? = some ',' := by
    have hself : (front ++ ',' :: ws).rdropWhile Text.isBlank = front ++ ',' :: ws := by
      rw [List.rdropWhile_eq_self_iff]
      intro hne
      rw [(hlast _ (List.getLast?_eq_some_getLast hne)).1]
      exact Bool.false_ne_true
    rw [← hself, rdropWhile_allBlank hws (by decide), List.getLast?_concat]
  exact (hlast _ hends).2 rfl

/-- The one comma that dangles is the last one before the only closing brace. -/
theorem DanglesAfter.eq_of_inserted {ws ws' : List Char} (hbrace : '\x7d' ∉ cs) (hws : AllBlank ws)
    (hws' : AllBlank ws') (h : DanglesAfter (cs ++ (ws ++ ',' :: (ws' ++ ['\x7d']))) front) :
    front = cs ++ ws := by
  have hnot : ∀ us, AllBlank us → '\x7d' ∉ us := by
    intro us hus hmem
    exact absurd (hus _ hmem) (by decide)
  have hwhole : '\x7d' ∉ cs ++ ws ++ ',' :: ws' := by
    simp only [List.mem_append, List.mem_cons, hbrace, hnot ws hws, hnot ws' hws', or_false,
      false_or]
    decide
  have hinserted : cs ++ (ws ++ ',' :: (ws' ++ ['\x7d']))
      = (cs ++ ws ++ ',' :: ws') ++ ['\x7d'] := by
    simp only [List.append_assoc, List.cons_append]
  rw [hinserted] at h
  obtain ⟨us, hus, hcs⟩ := h.before_brace hwhole
  have hcomma := congrArg (List.rdropWhile Text.isBlank) hcs
  rw [rdropWhile_allBlank hws' (by decide), rdropWhile_allBlank hus (by decide)] at hcomma
  exact (List.append_cancel_right hcomma).symm

/-- A selector up to its closing brace. -/
def opened (ms : List Matcher) : List Char := '\x7b' :: (body ms).toList

/-- It ends with a quote, or with the opening brace. -/
theorem getLast?_opened (ms : List Matcher) :
    ∀ c ∈ (opened ms).getLast?, Text.isBlank c = false ∧ c ≠ ',' := by
  by_cases hms : ms = []
  · subst hms
    rintro c ⟨⟩
    decide
  · have hquoted : EndsQuoted (", ".intercalate (pieces ms)) :=
      .intercalate (fun hnil => hms (pieces_eq_nil.mp hnil)) fun p hp => endsQuoted_of_mem_pieces hp
    obtain ⟨cs, hcs⟩ := hquoted
    obtain ⟨ds, hds⟩ := Text.exists_dropWhile_concat (p := isPadding) (q := '"') rfl cs
    rw [opened, toList_body, hcs, hds, ← List.cons_append, List.getLast?_concat]
    rintro c ⟨⟩
    decide

theorem brace_not_mem_opened {ms : List Matcher} (h : ∀ m ∈ ms, ¬Occurs '\x7d' m) :
    '\x7d' ∉ opened ms := by
  intro hmem
  rcases List.mem_cons.mp hmem with hopen | hbody
  · exact absurd hopen (by decide)
  · rcases mem_body hbody with hmark | ⟨m, hm, hoccurs⟩
    · exact absurd hmark (by decide)
    · exact h m hm hoccurs

theorem toList_braces (ms : List Matcher) :
    ("\x7b" ++ body ms ++ "\x7d").toList = opened ms ++ ['\x7d'] := by
  rw [String.toList_append, String.toList_append]
  rfl

theorem dropDangling_braces {ms : List Matcher} (h : ∀ m ∈ ms, ¬Occurs '\x7d' m) :
    dropDangling ("\x7b" ++ body ms ++ "\x7d") = "\x7b" ++ body ms ++ "\x7d" := by
  rw [dropDangling, toList_braces, dropDanglingChars_of_none fun front =>
    not_danglesAfter (brace_not_mem_opened h) (getLast?_opened ms), ← toList_braces,
    String.ofList_toList]

/-- A comma that is put before the closing brace is dropped again. -/
theorem dropDangling_inserted {ms : List Matcher} (h : ∀ m ∈ ms, ¬Occurs '\x7d' m)
    {ws ws' : String} (hws : AllBlank ws.toList) (hws' : AllBlank ws'.toList) :
    dropDangling ("\x7b" ++ body ms ++ ws ++ "," ++ ws' ++ "\x7d")
      = "\x7b" ++ body ms ++ "\x7d" := by
  have hchars : ("\x7b" ++ body ms ++ ws ++ "," ++ ws' ++ "\x7d").toList
      = opened ms ++ (ws.toList ++ ',' :: (ws'.toList ++ ['\x7d'])) := by
    have hopen : ("\x7b" : String).toList = ['\x7b'] := rfl
    have hcomma : ("," : String).toList = [','] := rfl
    have hclose : ("\x7d" : String).toList = ['\x7d'] := rfl
    simp only [String.toList_append, hopen, hcomma, hclose, opened, List.append_assoc,
      List.cons_append, List.nil_append]
  have hdropped : dropDanglingChars (opened ms ++ (ws.toList ++ ',' :: (ws'.toList ++ ['\x7d'])))
      = opened ms ++ ['\x7d'] := by
    refine dropDanglingChars_of_first (fun c hc => (getLast?_opened ms c hc).1) hws hws' ?_
    intro front hfront
    obtain rfl := hfront.eq_of_inserted (brace_not_mem_opened h) hws hws'
    exact List.prefix_rfl
  rw [dropDangling, hchars, hdropped, ← toList_braces, String.ofList_toList]

/-- **The first dangling comma goes, with the blanks around it.**  Nothing goes where no
comma dangles; where one does, there is a first one, and what is left is the text before
it, without the blanks at its end, and the text from the brace on.  So a written
selector whose matchers have no closing brace stays as it is, and comes back from one
with a comma put before its brace. -/
theorem dropDangling_law :
    (∀ s : String,
      ((∀ front, ¬DanglesAfter s.toList front) → dropDangling s = s)
      ∧ ((∃ front, DanglesAfter s.toList front) → ∃ front, FirstDanglesAfter s.toList front)
      ∧ ∀ front, FirstDanglesAfter s.toList front → ∃ before ws ws' rest,
        AllBlank ws ∧ AllBlank ws' ∧ (∀ c ∈ before.getLast?, Text.isBlank c = false)
        ∧ front = before ++ ws ∧ s.toList = before ++ (ws ++ ',' :: (ws' ++ '\x7d' :: rest))
        ∧ dropDangling s = String.ofList (before ++ '\x7d' :: rest))
    ∧ ∀ ms : List Matcher, (∀ m ∈ ms, ¬Occurs '\x7d' m) →
      dropDangling ("\x7b" ++ body ms ++ "\x7d") = "\x7b" ++ body ms ++ "\x7d"
      ∧ ∀ ws ws' : String, AllBlank ws.toList → AllBlank ws'.toList →
        dropDangling ("\x7b" ++ body ms ++ ws ++ "," ++ ws' ++ "\x7d")
          = "\x7b" ++ body ms ++ "\x7d" := by
  constructor
  · intro s
    refine ⟨fun hnone => ?_, fun ⟨_, h⟩ => exists_first h, fun _ h => exists_dropDangling h⟩
    rw [dropDangling, dropDanglingChars_of_none hnone, String.ofList_toList]
  · intro ms h
    exact ⟨dropDangling_braces h, fun ws ws' => dropDangling_inserted h⟩

/-- Two commas dangle, the first one in a value. -/
def loose : String := "\x7ba=\"x \t, \x7dy\", \x7d"

/-- Commas in the values and between the matchers. -/
def padded : List Matcher := [⟨"a", "=", "x, "⟩, ⟨"b", "!~", ","⟩]

theorem dropDangling_law_loose :
    (∀ front, ¬DanglesAfter "\x7ba=\", ,x\"\x7d".toList front)
    ∧ dropDangling "\x7ba=\", ,x\"\x7d" = "\x7ba=\", ,x\"\x7d"
    ∧ FirstDanglesAfter loose.toList "\x7ba=\"x \t".toList
    ∧ (∃ before ws ws' rest, AllBlank ws ∧ AllBlank ws'
      ∧ (∀ c ∈ before.getLast?, Text.isBlank c = false) ∧ "\x7ba=\"x \t".toList = before ++ ws
      ∧ loose.toList = before ++ (ws ++ ',' :: (ws' ++ '\x7d' :: rest))
      ∧ dropDangling loose = String.ofList (before ++ '\x7d' :: rest))
    ∧ (∀ m ∈ padded, ¬Occurs '\x7d' m)
    ∧ dropDangling ("\x7b" ++ body padded ++ " " ++ "," ++ "\t\n" ++ "\x7d")
      = "\x7b" ++ body padded ++ "\x7d" := by
  have hnone : ∀ front, ¬DanglesAfter "\x7ba=\", ,x\"\x7d".toList front := by
    intro front
    refine @not_danglesAfter "\x7ba=\", ,x\"".toList front (by decide) ?_
    rintro c ⟨⟩
    decide
  have hdangles : DanglesAfter loose.toList "\x7ba=\"x \t".toList :=
    ⟨[' '], "y\", \x7d".toList, by decide, by decide⟩
  have hfirst := firstDanglesAfter_of_not_mem hdangles (by decide)
  have hbraces : ∀ m ∈ padded, ¬Occurs '\x7d' m := by decide
  obtain ⟨hkept, -, -⟩ := dropDangling_law.1 "\x7ba=\", ,x\"\x7d"
  obtain ⟨-, -, hdropped⟩ := dropDangling_law.1 loose
  obtain ⟨-, hinserted⟩ := dropDangling_law.2 padded hbraces
  exact ⟨hnone, hkept hnone, hfirst, hdropped _ hfirst, hbraces,
    hinserted " " "\t\n" (by decide) (by decide)⟩

example : dropDangling loose = "\x7ba=\"x\x7dy\", \x7d" := by decide

end LogQuery.Selector
