import LogQuery.Proofs.Json.Completeness
/-!
# What the printer writes is a text

The compact layout of a plain value is one of its texts (`Plain.spells_render`): a
whole number is written in its digits, a string with its escapes, and a container
with a comma between each two entries.  So a plain value within the limits is read
back (`Plain.read_render`).
-/

namespace LogQuery.Json

variable {l : Limits} {k n : Nat} {v : Json} {vs : List Json} {ms : Members}

/-! ### Whole numbers -/

theorem ofDigits_toDigits (n : Nat) : ofDigits (Nat.toDigits 10 n) = n :=
  Nat.ofDigitChars_toDigits (by decide) (by decide)

theorem digits_toDigits (n : Nat) : Digits (Nat.toDigits 10 n) :=
  ⟨List.ne_nil_of_length_pos Nat.length_toDigits_pos,
    fun _ hd => Nat.isDigit_of_mem_toDigits (by decide) (by decide) hd⟩

theorem whole_toDigits (n : Nat) : Whole (Nat.toDigits 10 n) := by
  refine ⟨digits_toDigits n, ?_⟩
  induction n using Nat.strongRecOn with
  | ind n ih =>
    rcases Nat.lt_or_ge n 10 with hn | hn
    · rw [Nat.toDigits_of_lt_base hn]
      intro h
      rw [Option.some.inj h]
    · -- the digits before the last one are those of a smaller number that is no zero
      intro h
      rw [Nat.toDigits_of_base_le (by decide) hn, List.head?_append_of_ne_nil _
        (digits_toDigits (n / 10)).1] at h
      have hzero := ofDigits_toDigits (n / 10)
      rw [ih (n / 10) (by omega) h] at hzero
      have hvalue : ofDigits ['0'] = 0 := rfl
      omega

theorem spellsNumber_int (m : Int) : SpellsNumber (numberText (.int m)).toList (.int m) := by
  cases m with
  | ofNat n =>
    have h := SpellsNumber.int .none (whole_toDigits n)
    rw [ofDigits_toDigits] at h
    show SpellsNumber n.repr.toList _
    rw [Nat.toList_repr]
    exact h
  | negSucc n =>
    have h := SpellsNumber.int .minus (whole_toDigits (n + 1))
    rw [ofDigits_toDigits] at h
    show SpellsNumber ("-" ++ (n + 1).repr).toList _
    rw [String.toList_append, Nat.toList_repr]
    exact h

/-- A whole number takes its digits and a sign. -/
theorem length_numberText_le (hk : 0 < k) {m : Int} (hm : m.natAbs < 10 ^ k) :
    (numberText (.int m)).toList.length ≤ k + 1 := by
  have hdigits : ∀ n < 10 ^ k, (Nat.toDigits 10 n).length ≤ k := fun n hn =>
    length_le_of_whole (whole_toDigits n) hk ((ofDigits_toDigits n).trans_lt hn)
  cases m with
  | ofNat n =>
    show n.repr.toList.length ≤ k + 1
    rw [Nat.toList_repr]
    exact (hdigits n hm).trans (Nat.le_succ k)
  | negSucc n =>
    show ("-" ++ (n + 1).repr).toList.length ≤ k + 1
    rw [String.toList_append, Nat.toList_repr, List.length_append, Nat.add_comm]
    exact Nat.succ_le_succ (hdigits (n + 1) hm)

/-! ### Plain values -/

/-- A value of at most `n` levels, in which every number is whole and has no more than `k`
digits. -/
inductive Plain (k : Nat) : Nat → Json → Prop
  | null {n : Nat} : Plain k n .null
  | bool {n : Nat} {b : Bool} : Plain k n (.bool b)
  | int {n : Nat} {m : Int} (h : m.natAbs < 10 ^ k) : Plain k n (.int m)
  | string {n : Nat} {text : String} : Plain k n (.string text)
  | array {n : Nat} {vs : List Json} (h : ∀ v ∈ vs, Plain k n v) : Plain k (n + 1) (.array vs)
  | object {n : Nat} {ms : Members} (h : ∀ m ∈ ms, Plain k n m.2) : Plain k (n + 1) (.object ms)

theorem itemsDepth_le (h : ∀ v ∈ vs, v.depth ≤ n) : itemsDepth vs ≤ n + 1 := by
  induction vs with
  | nil => exact Nat.zero_le _
  | cons v vs ih =>
    obtain ⟨hv, hvs⟩ := List.forall_mem_cons.mp h
    exact max_le (Nat.succ_le_succ hv) (ih hvs)

theorem membersDepth_le (h : ∀ m ∈ ms, m.2.depth ≤ n) : membersDepth ms ≤ n + 1 := by
  induction ms with
  | nil => exact Nat.zero_le _
  | cons m ms ih =>
    obtain ⟨hm, hms⟩ := List.forall_mem_cons.mp h
    exact max_le (Nat.succ_le_succ hm) (ih hms)

theorem itemsHeight_le (h : ∀ v ∈ vs, v.height ≤ n) : itemsHeight vs ≤ n := by
  induction vs with
  | nil => exact Nat.zero_le _
  | cons v vs ih =>
    obtain ⟨hv, hvs⟩ := List.forall_mem_cons.mp h
    exact max_le hv (ih hvs)

theorem membersHeight_le (h : ∀ m ∈ ms, m.2.height ≤ n) : membersHeight ms ≤ n := by
  induction ms with
  | nil => exact Nat.zero_le _
  | cons m ms ih =>
    obtain ⟨hm, hms⟩ := List.forall_mem_cons.mp h
    exact max_le hm (ih hms)

theorem Plain.depth_le (h : Plain k n v) : v.depth ≤ n := by
  induction h with
  | null | bool | int | string => exact Nat.zero_le _
  | array _ ih => exact itemsDepth_le ih
  | object _ ih => exact membersDepth_le ih

theorem Plain.height_le (h : Plain k n v) : v.height ≤ n := by
  induction h with
  | null | bool | int | string => exact Nat.zero_le _
  | array _ ih => exact Nat.succ_le_succ (itemsHeight_le ih)
  | object _ ih => exact Nat.succ_le_succ (membersHeight_le ih)

/-- Limits within which a value of `n` levels is taken, and a number of a sign and `k` digits. -/
structure Limits.Allows (l : Limits) (k n : Nat) : Prop where
  depth : ∀ d ∈ l.depth, n ≤ d
  stack : ∀ d ∈ l.stack, n ≤ d
  admits : ∀ cs : List Char, cs.length ≤ k + 1 → l.admits cs = true

theorem Plain.within (h : Plain k n v) (hl : l.Allows k n) : Within l 0 v where
  depth d hd := by
    rw [Nat.zero_add]
    exact h.depth_le.trans (hl.depth d hd)
  stack d hd := by
    rw [Nat.zero_add]
    exact h.height_le.trans (hl.stack d hd)

/-! ### Their texts -/

theorem SpellsBare.spells {cs : List Char} (h : SpellsBare l cs v) : Spells l cs v := by
  have hgap : Gap [] := List.forall_mem_nil _
  have hpadded := Spells.padded hgap h hgap
  rwa [List.nil_append, List.append_nil] at hpadded

theorem spellsName_quote (name : String) : SpellsName (quote compact name).toList name := by
  have hgap : Gap [] := List.forall_mem_nil _
  rw [quote, String.toList_ofList]
  exact .padded hgap (spellsText_escape compact.ascii name.toList) hgap

theorem spellsItems_render (hne : vs ≠ []) (h : ∀ v ∈ vs, Spells l (render compact v).toList v) :
    SpellsItems l (",".intercalate (renderItems compact vs)).toList vs := by
  induction vs with
  | nil => exact absurd rfl hne
  | cons v vs ih =>
    obtain ⟨hv, hvs⟩ := List.forall_mem_cons.mp h
    cases vs with
    | nil =>
      rw [renderItems, renderItems, String.intercalate_singleton]
      exact .single hv
    | cons w vs =>
      rw [renderItems, renderItems, String.intercalate_cons_cons, String.toList_append,
        String.toList_append, List.append_assoc]
      exact .cons hv (ih (List.cons_ne_nil w vs) hvs)

theorem spellsMembers_render (hne : ms ≠ [])
    (h : ∀ m ∈ ms, Spells l (render compact m.2).toList m.2) :
    SpellsMembers l (",".intercalate (renderMembers compact ms)).toList ms := by
  induction ms with
  | nil => exact absurd rfl hne
  | cons m ms ih =>
    obtain ⟨hm, hms⟩ := List.forall_mem_cons.mp h
    obtain ⟨name, v⟩ := m
    cases ms with
    | nil =>
      rw [renderMembers, renderMembers, String.intercalate_singleton, String.toList_append,
        String.toList_append, List.append_assoc]
      exact .single (spellsName_quote name) hm
    | cons w ms =>
      rw [renderMembers, renderMembers, String.intercalate_cons_cons, String.toList_append,
        String.toList_append, String.toList_append, String.toList_append, List.append_assoc,
        List.append_assoc, List.append_assoc]
      exact .cons (spellsName_quote name) hm (ih (List.cons_ne_nil w ms) hms)

/-- **The printer writes one of the texts of a plain value.** -/
theorem Plain.spells_render (h : Plain k n v) (hk : 0 < k)
    (hadmits : ∀ cs : List Char, cs.length ≤ k + 1 → l.admits cs = true) :
    Spells l (render compact v).toList v := by
  induction h with
  | null => exact SpellsBare.null.spells
  | @bool n b => cases b with
    | true => exact SpellsBare.true.spells
    | false => exact SpellsBare.false.spells
  | int h =>
    exact (SpellsBare.number (spellsNumber_int _) (hadmits _ (length_numberText_le hk h))).spells
  | @string n text =>
    rw [render, quote, String.toList_ofList]
    exact (SpellsBare.string (spellsText_escape compact.ascii text.toList)).spells
  | @array n vs _ ih =>
    rw [render, String.toList_append, String.toList_append]
    rcases eq_or_ne vs [] with rfl | hne
    · exact (SpellsBare.noItems (List.forall_mem_nil _)).spells
    · exact (SpellsBare.items (spellsItems_render hne ih)).spells
  | @object n ms _ ih =>
    rw [render, String.toList_append, String.toList_append]
    rcases eq_or_ne ms [] with rfl | hne
    · exact (SpellsBare.noMembers (List.forall_mem_nil _)).spells
    · exact (SpellsBare.members (spellsMembers_render hne ih)).spells

/-- **A plain value that is written is read back.** -/
theorem Plain.read_render (h : Plain k n v) (hk : 0 < k) (hl : l.Allows k n) :
    read l (render compact v) = .ok v :=
  read_of_spells (h.spells_render hk hl.admits) (h.within hl)

end LogQuery.Json
