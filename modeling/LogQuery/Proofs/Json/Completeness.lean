import LogQuery.Proofs.Json.Number
/-!
# Every text of a value is read as the value

The reader takes a value of the grammar and then stands where putting the value
there brings it (`readFrom_spells`).  The induction is on the text, with the
containers that are open and what follows the text left free; the nesting that is
left bounds what may still be opened.  So a text of a value within the limits is
read as the value (`read_of_spells`).
-/

namespace LogQuery.Json

variable {l : Limits} {s s' t : State} {fs : List Frame} {ex : Expects}

/-! ### The rest of a text -/

/-- What the reader makes of the rest of a text. -/
def readFrom (l : Limits) (s : State) (cs : List Char) : Except ReadError Json := do
  let s ← cs.foldlM (State.step l) s
  s.finish l

theorem readFrom_nil : readFrom l s [] = s.finish l := rfl

theorem Reads.readFrom {cs : List Char} (h : Reads l s cs s') (rest : List Char) :
    readFrom l s (cs ++ rest) = readFrom l s' rest := by
  rw [Reads] at h
  rw [Json.readFrom, Json.readFrom, List.foldlM_append, h]
  rfl

theorem readFrom_cons {c : Char} (h : s.step l c = .ok s') (rest : List Char) :
    readFrom l s (c :: rest) = readFrom l s' rest :=
  (Reads.single h).readFrom rest

/-- A character that ends a word or number. -/
def isDelimiter (c : Char) : Bool := Text.isGap c || isPunctuation c

/-- The text is at its end, or goes on with a delimiter. -/
def Delimited (rest : List Char) : Prop := ∀ c ∈ rest.head?, isDelimiter c = true

theorem Delimited.nil : Delimited [] := fun c hc => absurd hc (Option.not_mem_none c)

theorem Delimited.cons {c : Char} (h : isDelimiter c = true) (rest : List Char) :
    Delimited (c :: rest) := by
  intro d hd
  cases hd
  exact h

/-- The characters of a lexeme that no delimiter ends. -/
def Undelimited (cs : List Char) : Prop := ∀ c ∈ cs, isDelimiter c = false

theorem Undelimited.of_all {cs : List Char} (h : cs.all (!isDelimiter ·) = true) :
    Undelimited cs :=
  fun c hc => (Bool.not_eq_true' _).mp (List.all_eq_true.mp h c hc)

theorem Undelimited.append {cs ds : List Char} (h : Undelimited cs) (h' : Undelimited ds) :
    Undelimited (cs ++ ds) :=
  List.forall_mem_append.mpr ⟨h, h'⟩

theorem Undelimited.cons {c : Char} {cs : List Char} (h : isDelimiter c = false)
    (h' : Undelimited cs) : Undelimited (c :: cs) :=
  List.forall_mem_cons.mpr ⟨h, h'⟩

theorem Gap.delimited {gap rest : List Char} (hgap : Gap gap) (hrest : Delimited rest) :
    Delimited (gap ++ rest) := by
  cases gap with
  | nil => exact hrest
  | cons c gap =>
    refine .cons ?_ _
    rw [isDelimiter, hgap c List.mem_cons_self]
    rfl

/-- Between two lexemes a gap changes nothing. -/
theorem reads_gap {gap : List Char} (h : Gap gap) (hs : s.lexeme = .none) : Reads l s gap s := by
  induction gap with
  | nil => exact .nil s
  | cons c gap ih =>
    have hstep : s.step l c = .ok s := by
      rw [State.step, hs]
      exact if_pos (h c List.mem_cons_self)
    exact .cons hstep (ih fun d hd => h d (List.mem_cons_of_mem c hd))

theorem lexeme_of_put {v : Json} (h : State.put v fs = .ok t) : t.lexeme = .none := by
  unfold State.put at h
  split at h
  · cases h
    rfl
  · cases h
    rfl
  · cases h
    rfl
  · cases h
    rfl
  · cases h

/-! ### Words and numbers -/

theorem structural_of_not_delimiter {c : Char} (h : isDelimiter c = false) :
    State.step l ⟨fs, ex, .none⟩ c = .ok ⟨fs, ex, .bare [c]⟩ := by
  rw [isDelimiter, Bool.or_eq_false_iff] at h
  obtain ⟨hgap, hmark⟩ := h
  simp only [isPunctuation, Bool.or_eq_false_iff, decide_eq_false_iff_not] at hmark
  obtain ⟨⟨⟨⟨⟨⟨hopen, hclose⟩, hbrace⟩, hend⟩, hcomma⟩, hcolon⟩, hquote⟩ := hmark
  show State.structural l c _ = _
  rw [State.structural, hgap, if_neg Bool.false_ne_true, if_neg hquote, if_neg hopen,
    if_neg hbrace, if_neg hclose, if_neg hend, if_neg hcomma, if_neg hcolon]

theorem reads_bare_more {acc cs : List Char} (h : Undelimited cs) :
    Reads l ⟨fs, ex, .bare acc⟩ cs ⟨fs, ex, .bare (cs.reverse ++ acc)⟩ := by
  induction cs generalizing acc with
  | nil => exact .nil _
  | cons c cs ih =>
    obtain ⟨hc, hcs⟩ := List.forall_mem_cons.mp h
    have hstep : State.step l ⟨fs, ex, .bare acc⟩ c = .ok ⟨fs, ex, .bare (c :: acc)⟩ := by
      show (if isDelimiter c = true then _ else _) = _
      rw [hc, if_neg Bool.false_ne_true]
    rw [List.reverse_cons, List.append_assoc]
    exact .cons hstep (ih hcs)

theorem reads_bare {cs : List Char} (hne : cs ≠ []) (h : Undelimited cs) :
    Reads l ⟨fs, ex, .none⟩ cs ⟨fs, ex, .bare cs.reverse⟩ := by
  cases cs with
  | nil => exact absurd rfl hne
  | cons c cs =>
    obtain ⟨hc, hcs⟩ := List.forall_mem_cons.mp h
    rw [List.reverse_cons]
    exact .cons (structural_of_not_delimiter hc) (reads_bare_more hcs)

/-- A word or number is taken where it ends. -/
theorem readFrom_bare {cs rest : List Char} {v : Json} (hne : cs ≠ [])
    (hcs : Undelimited cs) (hvalue : State.bareValue l cs = .ok v)
    (henter : State.enter l ⟨fs, ex, .none⟩ = .ok ()) (hput : State.put v fs = .ok t)
    (hrest : Delimited rest) :
    readFrom l ⟨fs, ex, .none⟩ (cs ++ rest) = readFrom l t rest := by
  have hbare : State.putBare l cs.reverse.reverse ⟨fs, ex, .bare cs.reverse⟩ = .ok t := by
    have hentered : State.enter l ⟨fs, ex, .bare cs.reverse⟩ = .ok () := henter
    rw [List.reverse_reverse, State.putBare, hentered]
    show State.bareValue l cs >>= (fun v => State.put v fs) = _
    rw [hvalue]
    exact hput
  have hlexeme := lexeme_of_put hput
  rw [(reads_bare hne hcs).readFrom]
  cases rest with
  | nil =>
    rw [readFrom_nil, readFrom_nil, State.finish, State.finish, hlexeme]
    show (do let s ← State.putBare l cs.reverse.reverse ⟨fs, ex, .bare cs.reverse⟩; _) = _
    rw [hbare]
  | cons d rest =>
    have hstep : State.step l ⟨fs, ex, .bare cs.reverse⟩ d = State.step l t d := by
      have hd : isDelimiter d = true := hrest d rfl
      show (if isDelimiter d = true then
        (do let s' ← State.putBare l cs.reverse.reverse ⟨fs, ex, .bare cs.reverse⟩
            s'.structural l d) else _) = _
      rw [if_pos hd, hbare, State.step, hlexeme]
      rfl
    rw [readFrom, readFrom, List.foldlM_cons, List.foldlM_cons, hstep]

/-- A number is none of the words. -/
theorem ne_word_of_spells {cs : List Char} {n : Number} (h : SpellsNumber cs n) :
    ∀ word ∈ ["null", "true", "false", "NaN", "Infinity", "-Infinity"], cs ≠ word.toList := by
  have hword : ∀ word ∈ ["null", "true", "false", "NaN", "Infinity", "-Infinity"],
      Number.ofChars? word.toList = none := by
    decide
  rintro word hmem rfl
  have hread := Number.ofChars?_of_spells h
  rw [hword word hmem] at hread
  cases hread

theorem bareValue_of_spells {cs : List Char} {n : Number} (h : SpellsNumber cs n)
    (hadmits : l.admits cs = true) : State.bareValue l cs = .ok (.number n) := by
  have hne := ne_word_of_spells h
  rw [State.bareValue, if_neg (hne _ (by simp)), if_neg (hne _ (by simp)),
    if_neg (hne _ (by simp)), if_neg (hne _ (by simp)), if_neg (hne _ (by simp)),
    if_neg (hne _ (by simp)), Number.ofChars?_of_spells h]
  exact if_pos hadmits

theorem isDelimiter_of_isDigit {c : Char} (h : c.isDigit = true) : isDelimiter c = false := by
  have hne : ∀ d : Char, d.isDigit = false → decide (c = d) = false :=
    fun _ hd => decide_eq_false (ne_of_isDigit h hd)
  simp only [isDelimiter, Text.isGap, isPunctuation, hne ' ' rfl, hne '\t' rfl, hne '\n' rfl,
    hne '\r' rfl, hne '[' rfl, hne ']' rfl, hne '\x7b' rfl, hne '\x7d' rfl, hne ',' rfl,
    hne ':' rfl, hne '"' rfl, Bool.or_self]

theorem Digits.undelimited {ds : List Char} (h : Digits ds) : Undelimited ds :=
  fun d hd => isDelimiter_of_isDigit (h.2 d hd)

theorem SpellsSign.undelimited {cs : List Char} {negative : Bool} (h : SpellsSign cs negative) :
    Undelimited cs := by
  cases h with
  | none => exact List.forall_mem_nil _
  | minus => exact .cons (by decide) (List.forall_mem_nil _)

theorem SpellsFraction.undelimited {cs ds : List Char} (h : SpellsFraction cs ds) :
    Undelimited cs := by
  cases h with
  | none => exact List.forall_mem_nil _
  | point h => exact .cons (by decide) h.undelimited

theorem SpellsExponent.undelimited {cs : List Char} {e : Int} (h : SpellsExponent cs e) :
    Undelimited cs := by
  have hletter : ∀ c : Char, c = 'e' ∨ c = 'E' → isDelimiter c = false := by
    rintro c (rfl | rfl) <;> decide
  cases h with
  | none => exact List.forall_mem_nil _
  | bare he h => exact .cons (hletter _ he) h.undelimited
  | plus he h => exact .cons (hletter _ he) (.cons (by decide) h.undelimited)
  | minus he h => exact .cons (hletter _ he) (.cons (by decide) h.undelimited)

theorem SpellsNumber.undelimited {cs : List Char} {n : Number} (h : SpellsNumber cs n) :
    Undelimited cs := by
  cases h with
  | int hsign hds => exact hsign.undelimited.append hds.digits.undelimited
  | decimal hsign hds hfraction hexponent _ =>
    exact hsign.undelimited.append
      (hds.digits.undelimited.append (hfraction.undelimited.append hexponent.undelimited))

theorem SpellsNumber.ne_nil {cs : List Char} {n : Number} (h : SpellsNumber cs n) : cs ≠ [] := by
  obtain ⟨sign, negative, d, rest, -, -, rfl⟩ := Number.exists_digit_of_spells h
  exact List.append_ne_nil_of_right_ne_nil _ (List.cons_ne_nil d rest)

/-! ### What is within the limits -/

theorem Within.all {n : Nat} {v : Json} (h : Within l n v) (hdepth : 0 < v.depth) :
    l.depth.all (n + 1 ≤ ·) = true := by
  rw [Option.all_eq_true]
  intro d hd
  have hle := h.depth d hd
  exact decide_eq_true (by omega)

/-- There is room on the stack for a container that is within the limits. -/
theorem Within.descend {v : Json} (h : Within l fs.length v) (hheight : 0 < v.height)
    (isList : Bool) : State.descend l isList ⟨fs, ex, .none⟩ = .ok () := by
  refine if_pos ?_
  rw [Option.all_eq_true]
  intro d hd
  have hle := h.stack d hd
  exact decide_eq_true (show fs.length < d by omega)

theorem mem_items {v : Json} {vs : List Json} (h : v ∈ vs) :
    v.depth + 1 ≤ itemsDepth vs ∧ v.height ≤ itemsHeight vs := by
  induction vs with
  | nil => exact absurd h List.not_mem_nil
  | cons w vs ih =>
    rw [itemsDepth, itemsHeight]
    rcases List.mem_cons.mp h with rfl | h
    · exact ⟨le_max_left _ _, le_max_left _ _⟩
    · obtain ⟨hdepth, hheight⟩ := ih h
      exact ⟨hdepth.trans (le_max_right _ _), hheight.trans (le_max_right _ _)⟩

theorem mem_members {m : String × Json} {ms : Members} (h : m ∈ ms) :
    m.2.depth + 1 ≤ membersDepth ms ∧ m.2.height ≤ membersHeight ms := by
  induction ms with
  | nil => exact absurd h List.not_mem_nil
  | cons w ms ih =>
    obtain ⟨name, v⟩ := w
    rw [membersDepth, membersHeight]
    rcases List.mem_cons.mp h with rfl | h
    · exact ⟨le_max_left _ _, le_max_left _ _⟩
    · obtain ⟨hdepth, hheight⟩ := ih h
      exact ⟨hdepth.trans (le_max_right _ _), hheight.trans (le_max_right _ _)⟩

theorem Within.item {n : Nat} {vs : List Json} (h : Within l n (.array vs)) {v : Json}
    (hv : v ∈ vs) : Within l (n + 1) v := by
  obtain ⟨hdepth, hheight⟩ := mem_items hv
  refine ⟨fun d hd => ?_, fun d hd => ?_⟩
  · have hle := h.depth d hd
    rw [Json.depth] at hle
    omega
  · have hle := h.stack d hd
    rw [height] at hle
    omega

theorem Within.member {n : Nat} {ms : Members} (h : Within l n (.object ms)) {m : String × Json}
    (hm : m ∈ ms) : Within l (n + 1) m.2 := by
  obtain ⟨hdepth, hheight⟩ := mem_members hm
  refine ⟨fun d hd => ?_, fun d hd => ?_⟩
  · have hle := h.depth d hd
    rw [Json.depth] at hle
    omega
  · have hle := h.stack d hd
    rw [height] at hle
    omega

theorem SpellsItems.depth_pos {cs : List Char} {vs : List Json} (h : SpellsItems l cs vs) :
    0 < (Json.array vs).depth := by
  cases h with
  | single h => exact lt_max_of_lt_left (Nat.succ_pos _)
  | cons h h' => exact lt_max_of_lt_left (Nat.succ_pos _)

theorem SpellsMembers.depth_pos {cs : List Char} {ms : Members} (h : SpellsMembers l cs ms) :
    0 < (Json.object ms).depth := by
  cases h with
  | single hname h => exact lt_max_of_lt_left (Nat.succ_pos _)
  | cons hname h h' => exact lt_max_of_lt_left (Nat.succ_pos _)

/-! ### Values -/

/-- A name may stand here: first in an object that is not too deep, or after a comma. -/
def ExpectsName (l : Limits) (fs : List Frame) (ex : Expects) : Prop :=
  ex = .name ∨ ex = .firstName ∧ l.depth.all (fs.length + 1 ≤ ·) = true

theorem putString_of_enter {text : String} (henter : State.enter l ⟨fs, ex, .none⟩ = .ok ())
    (hput : State.put (.string text) fs = .ok t) :
    State.putString l (points text) ⟨fs, ex, .none⟩ = .ok t := by
  cases ex with
  | value | firstItem =>
    show (do State.enter l _; State.put (ofPoints (points text)) fs) = _
    rw [henter, ofPoints_points]
    exact hput
  | firstName | name | colon | separator | nothing => cases henter

theorem reads_name {ns : List Char} {name : String} (h : SpellsName ns name) {ms : Members}
    (hname : ExpectsName l fs ex) :
    Reads l ⟨.object ms :: fs, ex, .none⟩ ns ⟨.member ms (some name) :: fs, .colon, .none⟩ := by
  cases h with
  | @padded before cs after _ hbefore h hafter =>
    have hput : State.putString l (points name) ⟨.object ms :: fs, ex, .none⟩
        = .ok ⟨.member ms (some name) :: fs, .colon, .none⟩ := by
      rw [State.putString, text?_points]
      rcases hname with rfl | ⟨rfl, hdepth⟩
      · rfl
      · exact if_pos hdepth
    have hstring := (reads_gap hbefore rfl).append (reads_string h hput)
    have hall := hstring.append (reads_gap hafter rfl)
    simpa using hall

theorem readFrom_opened {c : Char} {frame : Frame} {first : Expects} {isList : Bool}
    (hstep : State.structural l c ⟨fs, ex, .none⟩
      = (do State.enter l ⟨fs, ex, .none⟩
            State.descend l isList ⟨fs, ex, .none⟩
            .ok ⟨frame :: fs, first, .none⟩))
    (henter : State.enter l ⟨fs, ex, .none⟩ = .ok ())
    (hdescend : State.descend l isList ⟨fs, ex, .none⟩ = .ok ()) (rest : List Char) :
    readFrom l ⟨fs, ex, .none⟩ (c :: rest) = readFrom l ⟨frame :: fs, first, .none⟩ rest := by
  refine readFrom_cons ?_ rest
  show State.structural l c ⟨fs, ex, .none⟩ = _
  rw [hstep, henter, hdescend]
  rfl

-- A text is longer than those inside of it; a padded one may be as long as the bare one.
mutual

theorem readFrom_spellsBare {cs : List Char} {v : Json} {fs : List Frame} {ex : Expects}
    {t : State} {rest : List Char} (h : SpellsBare l cs v)
    (henter : State.enter l ⟨fs, ex, .none⟩ = .ok ()) (hput : State.put v fs = .ok t)
    (hwithin : Within l fs.length v) (hrest : Delimited rest) :
    readFrom l ⟨fs, ex, .none⟩ (cs ++ rest) = readFrom l t rest := by
  cases h with
  | null => exact readFrom_bare (List.cons_ne_nil _ _) (.of_all rfl) rfl henter hput hrest
  | true => exact readFrom_bare (List.cons_ne_nil _ _) (.of_all rfl) rfl henter hput hrest
  | false => exact readFrom_bare (List.cons_ne_nil _ _) (.of_all rfl) rfl henter hput hrest
  | number h hadmits =>
    exact readFrom_bare h.ne_nil h.undelimited (bareValue_of_spells h hadmits) henter hput hrest
  | string h => exact (reads_string h (putString_of_enter henter hput)).readFrom rest
  | noItems h =>
    have hclose : State.step l ⟨.array [] :: fs, .firstItem, .none⟩ ']' = .ok t := hput
    rw [List.cons_append, List.append_assoc,
      readFrom_opened rfl henter (hwithin.descend (Nat.succ_pos _) _),
      (reads_gap h rfl).readFrom]
    exact readFrom_cons hclose rest
  | @items cs vs h =>
    have hclose : State.step l ⟨.array (vs.reverse ++ []) :: fs, .separator, .none⟩ ']'
        = .ok t := by
      rw [List.append_nil]
      show State.put (.array vs.reverse.reverse) fs = _
      rw [List.reverse_reverse, hput]
    have hfirst : State.enter l ⟨.array [] :: fs, .firstItem, .none⟩ = .ok () :=
      if_pos (hwithin.all h.depth_pos)
    have hdelimited : Delimited ([']'] ++ rest) := .cons (by decide) rest
    rw [List.cons_append, List.append_assoc,
      readFrom_opened rfl henter (hwithin.descend (Nat.succ_pos _) _),
      readFrom_spellsItems h hfirst (fun v hv => hwithin.item hv) hdelimited]
    exact readFrom_cons hclose rest
  | noMembers h =>
    have hclose : State.step l ⟨.object [] :: fs, .firstName, .none⟩ '\x7d' = .ok t := hput
    rw [List.cons_append, List.append_assoc,
      readFrom_opened rfl henter (hwithin.descend (Nat.succ_pos _) _),
      (reads_gap h rfl).readFrom]
    exact readFrom_cons hclose rest
  | @members cs ms h =>
    have hclose : State.step l ⟨.object (ms.reverse ++ []) :: fs, .separator, .none⟩ '\x7d'
        = .ok t := by
      rw [List.append_nil]
      show State.put (.object ms.reverse.reverse) fs = _
      rw [List.reverse_reverse, hput]
    have hfirst : ExpectsName l fs .firstName := .inr ⟨rfl, hwithin.all h.depth_pos⟩
    have hdelimited : Delimited (['\x7d'] ++ rest) := .cons (by decide) rest
    rw [List.cons_append, List.append_assoc,
      readFrom_opened rfl henter (hwithin.descend (Nat.succ_pos _) _),
      readFrom_spellsMembers h hfirst (fun m hm => hwithin.member hm) hdelimited]
    exact readFrom_cons hclose rest
termination_by 3 * cs.length
decreasing_by
  all_goals
    subst_vars
    simp only [List.length_append, List.length_cons, List.length_nil]
    omega

theorem readFrom_spells {cs : List Char} {v : Json} {fs : List Frame} {ex : Expects}
    {t : State} {rest : List Char} (h : Spells l cs v)
    (henter : State.enter l ⟨fs, ex, .none⟩ = .ok ()) (hput : State.put v fs = .ok t)
    (hwithin : Within l fs.length v) (hrest : Delimited rest) :
    readFrom l ⟨fs, ex, .none⟩ (cs ++ rest) = readFrom l t rest := by
  cases h with
  | @padded before cs after _ hbefore h hafter =>
    have hlexeme := lexeme_of_put hput
    rw [List.append_assoc, List.append_assoc, (reads_gap hbefore rfl).readFrom,
      readFrom_spellsBare h henter hput hwithin (hafter.delimited hrest),
      (reads_gap hafter hlexeme).readFrom]
termination_by 3 * cs.length + 1
decreasing_by
  subst_vars
  simp only [List.length_append]
  omega

theorem readFrom_spellsItems {cs : List Char} {vs acc : List Json} {fs : List Frame}
    {ex : Expects} {rest : List Char} (h : SpellsItems l cs vs)
    (henter : State.enter l ⟨.array acc :: fs, ex, .none⟩ = .ok ())
    (hwithin : ∀ v ∈ vs, Within l (fs.length + 1) v) (hrest : Delimited rest) :
    readFrom l ⟨.array acc :: fs, ex, .none⟩ (cs ++ rest)
      = readFrom l ⟨.array (vs.reverse ++ acc) :: fs, .separator, .none⟩ rest := by
  cases h with
  | single h => exact readFrom_spells h henter rfl (hwithin _ List.mem_cons_self) hrest
  | @cons cs ds v vs h h' =>
    obtain ⟨hv, hvs⟩ := List.forall_mem_cons.mp hwithin
    have hcomma : State.step l ⟨.array (v :: acc) :: fs, .separator, .none⟩ ','
        = .ok ⟨.array (v :: acc) :: fs, .value, .none⟩ := rfl
    rw [List.append_assoc, List.cons_append,
      readFrom_spells h henter rfl hv (.cons (by decide) _), readFrom_cons hcomma,
      readFrom_spellsItems h' rfl hvs hrest, List.reverse_cons, List.append_assoc]
    rfl
termination_by 3 * cs.length + 2
decreasing_by
  · subst_vars
    omega
  all_goals
    subst_vars
    simp only [List.length_append, List.length_cons]
    omega

theorem readFrom_spellsMembers {cs : List Char} {ms acc : Members} {fs : List Frame}
    {ex : Expects} {rest : List Char} (h : SpellsMembers l cs ms) (hname : ExpectsName l fs ex)
    (hwithin : ∀ m ∈ ms, Within l (fs.length + 1) m.2) (hrest : Delimited rest) :
    readFrom l ⟨.object acc :: fs, ex, .none⟩ (cs ++ rest)
      = readFrom l ⟨.object (ms.reverse ++ acc) :: fs, .separator, .none⟩ rest := by
  have hcolon : ∀ name, State.step l ⟨.member acc (some name) :: fs, .colon, .none⟩ ':'
      = .ok ⟨.member acc (some name) :: fs, .value, .none⟩ := fun _ => rfl
  cases h with
  | @single ns cs name v hn h =>
    rw [List.append_assoc, List.cons_append, (reads_name hn hname).readFrom,
      readFrom_cons (hcolon name)]
    exact readFrom_spells h rfl rfl (hwithin _ List.mem_cons_self) hrest
  | @cons ns cs ds name v ms hn h h' =>
    obtain ⟨hv, hms⟩ := List.forall_mem_cons.mp hwithin
    have hput : State.put v (.member acc (some name) :: fs)
        = .ok ⟨.object ((name, v) :: acc) :: fs, .separator, .none⟩ := rfl
    have hcomma : State.step l ⟨.object ((name, v) :: acc) :: fs, .separator, .none⟩ ','
        = .ok ⟨.object ((name, v) :: acc) :: fs, .name, .none⟩ := rfl
    have hdelimited : Delimited (',' :: (ds ++ rest)) := .cons (by decide) _
    rw [List.append_assoc, List.cons_append, List.append_assoc, List.cons_append,
      (reads_name hn hname).readFrom, readFrom_cons (hcolon name),
      readFrom_spells h rfl hput hv hdelimited, readFrom_cons hcomma,
      readFrom_spellsMembers h' (.inl rfl) hms hrest, List.reverse_cons, List.append_assoc]
    rfl
termination_by 3 * cs.length + 2
decreasing_by
  all_goals
    subst_vars
    simp only [List.length_append, List.length_cons]
    omega

end

/-! ### Texts -/

theorem SpellsBare.exists_head {cs : List Char} {v : Json} (h : SpellsBare l cs v) :
    ∃ c rest, cs = c :: rest ∧ c ≠ '\uFEFF' := by
  cases h with
  | null => exact ⟨_, _, rfl, by decide⟩
  | true => exact ⟨_, _, rfl, by decide⟩
  | false => exact ⟨_, _, rfl, by decide⟩
  | number h =>
    obtain ⟨sign, negative, d, rest, hsign, hd, rfl⟩ := Number.exists_digit_of_spells h
    cases hsign with
    | none =>
      refine ⟨d, rest, rfl, ?_⟩
      rintro rfl
      exact absurd hd (by decide)
    | minus => exact ⟨_, _, rfl, by decide⟩
  | string => exact ⟨_, _, rfl, by decide⟩
  | noItems | items => exact ⟨_, _, rfl, by decide⟩
  | noMembers | members => exact ⟨_, _, rfl, by decide⟩

/-- No text of a value begins with a byte order mark, so that none is skipped. -/
theorem Spells.exists_head {cs : List Char} {v : Json} (h : Spells l cs v) :
    ∃ c rest, cs = c :: rest ∧ c ≠ '\uFEFF' := by
  cases h with
  | @padded before cs after _ hbefore h _ =>
    cases before with
    | nil =>
      obtain ⟨c, rest, rfl, hc⟩ := h.exists_head
      exact ⟨c, rest ++ after, rfl, hc⟩
    | cons c before =>
      refine ⟨c, before ++ (cs ++ after), rfl, ?_⟩
      rintro rfl
      exact absurd (hbefore _ List.mem_cons_self) (by decide)

/-- **Every text of a value is read as the value**, if the limits allow the value. -/
theorem read_of_spells {text : String} {v : Json} (h : Spells l text.toList v)
    (hwithin : Within l 0 v) : read l text = .ok v := by
  have hput : State.put v [] = .ok ⟨[], .nothing v, .none⟩ := rfl
  have hread : readFrom l State.start (text.toList ++ []) = .ok v :=
    readFrom_spells h rfl hput hwithin .nil
  obtain ⟨c, rest, htext, hc⟩ := h.exists_head
  have hmark : ¬(l.mark && decide (c = '\uFEFF')) = true := by simp [hc]
  rw [List.append_nil, htext] at hread
  rw [read, htext]
  show readChars l (if (l.mark && decide (c = '\uFEFF')) = true then rest else c :: rest) = _
  rw [if_neg hmark]
  exact hread

end LogQuery.Json
