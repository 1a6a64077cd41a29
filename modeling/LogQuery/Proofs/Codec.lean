import LogQuery.Proofs.Json.Members
import LogQuery.Proofs.Json.Rendering
import LogQuery.Schema.Integer
/-!
# Codecs restore what they write

A codec admits what it reads from some input.  It is lawful if what it writes for
such a value is read as the value (`Codec.Lawful`), in each style.  Fields are lawful
if this also holds with other members around those that are written
(`Fields.Lawful`), so that fields of different names can stand side by side.  The
laws of a model are put together from those of its parts.
-/

namespace LogQuery.Schema

open Json

variable {α β : Type} {k n : Nat}

/-! ### Checks that find no issue -/

namespace Checked

variable {x : Checked α} {y : Checked β}

theorem both_eq_ok {p : α × β} : x.both y = .ok p ↔ x = .ok p.1 ∧ y = .ok p.2 := by
  cases x <;> cases y <;> simp [both, Prod.ext_iff]

theorem map_eq_ok {f : α → β} {b : β} : x.map f = .ok b ↔ ∃ a, x = .ok a ∧ f a = b := by
  cases x <;> simp [map]

theorem within_eq_ok {step : String} {a : α} : x.within step = .ok a ↔ x = .ok a := by
  cases x <;> simp [within]

theorem andThen_eq_ok {f : α → Checked β} {b : β} :
    x.andThen f = .ok b ↔ ∃ a, x = .ok a ∧ f a = .ok b := by
  cases x <;> simp [andThen]

theorem ofOption_eq_ok {kind : IssueKind} {o : Option α} {a : α} :
    ofOption kind o = .ok a ↔ o = some a := by
  cases o <;> simp [ofOption, reject]

theorem itemsFrom_eq_ok {check : β → Checked α} {i : Nat} {xs : List β} {as : List α} :
    itemsFrom check i xs = .ok as ↔ List.Forall₂ (fun x a => check x = .ok a) xs as := by
  induction xs generalizing i as with
  | nil =>
    rw [itemsFrom, List.forall₂_nil_left_iff, ok.injEq, eq_comm]
  | cons x xs ih =>
    simp only [itemsFrom, map_eq_ok, both_eq_ok, within_eq_ok, ih, List.forall₂_cons_left_iff]
    constructor
    · rintro ⟨⟨a, as⟩, ⟨ha, has⟩, rfl⟩
      exact ⟨a, as, ha, has, rfl⟩
    · rintro ⟨a, as, ha, has, rfl⟩
      exact ⟨(a, as), ⟨ha, has⟩, rfl⟩

end Checked

/-! ### Codecs of values -/

namespace Codec

variable {c : Codec α}

/-- The codec reads the value from some input. -/
def Admits (c : Codec α) (a : α) : Prop := ∃ v, c.read v = .ok a

/-- What is written for a value that the codec admits is plain, and is read as the value. -/
structure Lawful (c : Codec α) (k n : Nat) : Prop where
  read_write : ∀ {a}, c.Admits a → ∀ style, c.read (c.write style a) = .ok a
  plain : ∀ {a}, c.Admits a → ∀ style, Plain k n (c.write style a)

/-- The codec writes no null. -/
def Present (c : Codec α) : Prop := ∀ style a, (c.write style a).isNull = false

theorem lawful_string : string.Lawful k n := ⟨fun _ _ => rfl, fun _ _ => .string⟩

theorem present_string : string.Present := fun _ _ => rfl

theorem read_string_eq_ok {v : Json} {s : String} : string.read v = .ok s ↔ v = .string s := by
  cases v <;> simp [string, Checked.reject]

theorem read_nullable {v : Json} (hv : v.isNull = false) :
    (nullable c).read v = (c.read v).map some := by
  cases v with
  | null => cases hv
  | bool | number | string | unpaired | array | object => rfl

theorem lawful_nullable (hc : c.Lawful k n) (hpresent : c.Present) : (nullable c).Lawful k n := by
  have hadmits : ∀ {a}, (nullable c).Admits (some a) → c.Admits a := by
    rintro a ⟨v, hv⟩
    cases hnull : v.isNull with
    | true =>
      cases v with
      | null => cases hv
      | bool | number | string | unpaired | array | object => cases hnull
    | false =>
      rw [read_nullable hnull, Checked.map_eq_ok] at hv
      obtain ⟨b, hb, hba⟩ := hv
      exact ⟨v, Option.some.inj hba ▸ hb⟩
  constructor
  · intro o ho style
    cases o with
    | none => rfl
    | some a =>
      have hread := hc.read_write (hadmits ho) style
      show (nullable c).read (c.write style a) = _
      rw [read_nullable (hpresent style a), hread, Checked.map_ok]
  · intro o ho style
    cases o with
    | none => exact .null
    | some a => exact hc.plain (hadmits ho) style

theorem admits_of_list {as : List α} (h : (list c).Admits as) : ∀ a ∈ as, c.Admits a := by
  obtain ⟨v, hv⟩ := h
  cases v with
  | null | bool | number | string | unpaired | object => cases hv
  | array items =>
    have hitems := Checked.itemsFrom_eq_ok.mp hv
    clear hv
    induction hitems with
    | nil => exact List.forall_mem_nil _
    | cons ha _ ih => exact List.forall_mem_cons.mpr ⟨⟨_, ha⟩, ih⟩

theorem lawful_list (hc : c.Lawful k n) : (list c).Lawful k (n + 1) := by
  constructor
  · intro as has style
    refine Checked.itemsFrom_eq_ok.mpr ?_
    rw [List.forall₂_map_left_iff, List.forall₂_same]
    exact fun a ha => hc.read_write (admits_of_list has a ha) style
  · intro as has style
    exact .array (List.forall_mem_map.mpr fun a ha => hc.plain (admits_of_list has a ha) style)

theorem present_list : (list c).Present := fun _ _ => rfl

theorem lawful_nonEmptyList (hc : c.Lawful k n) : (nonEmptyList c).Lawful k (n + 1) := by
  have hadmits : ∀ {as}, (nonEmptyList c).Admits as → as.isEmpty = false ∧ (list c).Admits as := by
    rintro as ⟨v, hv⟩
    obtain ⟨bs, hbs, hne⟩ := Checked.andThen_eq_ok.mp hv
    split at hne
    · cases hne
    · rename_i hempty
      cases hne
      exact ⟨Bool.eq_false_iff.mpr hempty, v, hbs⟩
  constructor
  · intro as has style
    obtain ⟨hempty, hlist⟩ := hadmits has
    refine Checked.andThen_eq_ok.mpr ⟨as, (lawful_list hc).read_write hlist style, ?_⟩
    rw [hempty]
    rfl
  · intro as has style
    exact (lawful_list hc).plain (hadmits has).2 style

theorem present_nonEmptyList : (nonEmptyList c).Present := fun _ _ => rfl

/-- A choice is lawful if no name stands for two values. -/
theorem lawful_choice {all : List α} {name : α → String}
    (hnames : ∀ a ∈ all, all.find? (fun b => name b == name a) = some a) :
    (choice all name).Lawful k n := by
  constructor
  · rintro a ⟨v, hv⟩ style
    cases v with
    | null | bool | number | unpaired | array | object => cases hv
    | string s =>
      have hmem := List.mem_of_find?_eq_some (Checked.ofOption_eq_ok.mp hv)
      exact Checked.ofOption_eq_ok.mpr (hnames a hmem)
  · exact fun _ _ => .string

theorem present_choice {all : List α} {name : α → String} : (choice all name).Present :=
  fun _ _ => rfl

theorem lawful_integerBetween {low high : Int} (hlow : low.natAbs < 10 ^ k)
    (hhigh : high.natAbs < 10 ^ k) : (integerBetween low high).Lawful k n := by
  have hbounds : ∀ {i}, (integerBetween low high).Admits i → low ≤ i ∧ i ≤ high := by
    rintro i ⟨v, hv⟩
    obtain ⟨j, -, hj⟩ := Checked.andThen_eq_ok.mp hv
    split_ifs at hj with hsmall hlarge
    · cases hj
    · cases hj
    · cases hj
      exact ⟨Int.not_lt.mp hsmall, Int.not_lt.mp hlarge⟩
  constructor
  · intro i hi style
    obtain ⟨hl, hh⟩ := hbounds hi
    show (if i < low then _ else if high < i then _ else Checked.ok i) = Checked.ok i
    rw [if_neg (Int.not_lt.mpr hl), if_neg (Int.not_lt.mpr hh)]
  · intro i hi style
    obtain ⟨hl, hh⟩ := hbounds hi
    exact .int (by omega)

theorem present_integerBetween {low high : Int} : (integerBetween low high).Present :=
  fun _ _ => rfl

/-! ### Dictionaries -/

/-- One step of the reading of a dictionary. -/
def entryStep (m : String × Json) (rest : Checked (List (String × String))) :
    Checked (List (String × String)) :=
  (((string.read m.2).within m.1).both rest).map fun p => (m.1, p.1) :: p.2

theorem entries_eq_ok {ms : Members} {es : List (String × String)} :
    ms.foldr entryStep (.ok []) = .ok es ↔ ms = es.map fun e => (e.1, .string e.2) := by
  induction ms generalizing es with
  | nil =>
    rw [List.foldr_nil, Checked.ok.injEq, eq_comm, eq_comm (a := []), List.map_eq_nil_iff]
  | cons m ms ih =>
    obtain ⟨name, v⟩ := m
    simp only [List.foldr_cons, entryStep, Checked.map_eq_ok, Checked.both_eq_ok,
      Checked.within_eq_ok, ih, read_string_eq_ok]
    constructor
    · rintro ⟨⟨t, es⟩, ⟨rfl, rfl⟩, rfl⟩
      rfl
    · intro h
      cases es with
      | nil => cases h
      | cons e es =>
        obtain ⟨hm, hms⟩ := List.cons.inj h
        obtain ⟨rfl, rfl⟩ := Prod.mk.inj hm
        exact ⟨(e.2, es), ⟨rfl, hms⟩, rfl⟩

theorem lawful_dictionary : dictionary.Lawful k (n + 1) := by
  constructor
  · rintro es ⟨v, hv⟩ style
    cases v with
    | null | bool | number | string | unpaired | array => cases hv
    | object ms =>
      -- a name that was read is read once
      have hms : Members.distinct ms = es.map fun e => (e.1, .string e.2) := entries_eq_ok.mp hv
      have hnames : ((es.map fun e => (e.1, Json.string e.2)).map Prod.fst).Nodup := by
        rw [← hms, Members.map_fst_distinct]
        exact nodup_keysOf Prod.fst ms
      exact entries_eq_ok.mpr (Members.distinct_of_nodup hnames)
  · intro es _ style
    exact .object (List.forall_mem_map.mpr fun e _ => .string)

theorem present_dictionary : dictionary.Present := fun _ _ => rfl

end Codec

/-! ### Fields -/

/-- No member has one of the names. -/
def Without (names : List String) (ms : Members) : Prop := ∀ m ∈ ms, m.1 ∉ names

theorem Without.append {names : List String} {ms ms' : Members} (h : Without names ms)
    (h' : Without names ms') : Without names (ms ++ ms') :=
  List.forall_mem_append.mpr ⟨h, h'⟩

theorem Without.mono {names names' : List String} {ms : Members} (h : Without names' ms)
    (hsub : ∀ name ∈ names, name ∈ names') : Without names ms :=
  fun m hm hname => h m hm (hsub m.1 hname)

namespace Name

variable {name : Name} {before after : Members}

/-- The names that a field is read under. -/
def all (name : Name) : List String := [name.plain, name.shown]

theorem plain_mem (name : Name) : name.plain ∈ name.all := List.mem_cons_self

theorem shown_mem (name : Name) : name.shown ∈ name.all :=
  List.mem_cons_of_mem _ List.mem_cons_self

theorem written_mem (style : Style) (name : Name) : name.written style ∈ name.all := by
  rw [written]
  split
  · exact name.shown_mem
  · exact name.plain_mem

/-- The value for the field: that of the shown name, or else that of the plain one. -/
def value? (name : Name) (ms : Members) : Option Json :=
  (Members.find? ms name.shown).or (Members.find? ms name.plain)

theorem map_snd_find? (name : Name) (ms : Members) :
    (name.find? ms).map Prod.snd = name.value? ms := by
  rw [find?, value?]
  cases Members.find? ms name.shown with
  | none => cases Members.find? ms name.plain <;> rfl
  | some v => rfl

theorem value?_plain (name : String) (ms : Members) :
    value? ⟨name, none⟩ ms = Members.find? ms name :=
  Option.or_self

/-- Without an alias there is one name to look for. -/
theorem find?_plain (name : String) (ms : Members) :
    Name.find? ⟨name, none⟩ ms = (Members.find? ms name).map fun v => (name, v) := by
  have hshown : (⟨name, none⟩ : Name).shown = name := rfl
  rw [find?, hshown]
  cases Members.find? ms name with
  | none => rfl
  | some v => rfl

theorem find?_of_without {ms : Members} (h : Without name.all ms) : name.find? ms = none := by
  have hnone : ∀ spelling ∈ name.all, Members.find? ms spelling = none :=
    fun _ hmem => Members.find?_eq_none.mpr fun m hm heq => h m hm (heq ▸ hmem)
  rw [find?, hnone _ name.shown_mem, hnone _ name.plain_mem]
  rfl

/-- The field that is written is found, under the name under which it is written. -/
theorem find?_written (style : Style) (v : Json) (hbefore : Without name.all before)
    (hafter : Without name.all after) :
    name.find? (before ++ ((name.written style, v) :: after)) = some (name.written style, v) := by
  have hself : ∀ spelling ∈ name.all,
      Members.find? (before ++ ((spelling, v) :: after)) spelling = some v := by
    intro spelling hmem
    have hnone : Members.find? after spelling = none :=
      Members.find?_eq_none.mpr fun m hm heq => hafter m hm (heq ▸ hmem)
    rw [Members.find?_append, ← List.singleton_append, Members.find?_append, hnone,
      Members.find?_singleton]
    rfl
  rw [written]
  split
  · rw [find?, hself _ name.shown_mem]
  · by_cases hsame : name.shown = name.plain
    · rw [find?, hsame, hself _ name.plain_mem]
    · have hshown : Members.find? (before ++ ((name.plain, v) :: after)) name.shown = none := by
        refine Members.find?_eq_none.mpr ?_
        intro m hm heq
        rcases List.mem_append.mp hm with hm | hm
        · exact hbefore m hm (heq ▸ name.shown_mem)
        · rcases List.mem_cons.mp hm with rfl | hm
          · exact hsame heq.symm
          · exact hafter m hm (heq ▸ name.shown_mem)
      rw [find?, hshown, hself _ name.plain_mem]
      rfl

end Name

namespace Fields

variable {fa : Fields α} {fb : Fields β} {names names' : List String}

/-- The fields are read with the value from some members. -/
def Admits (fa : Fields α) (a : α) : Prop := ∃ ms, fa.read ms = .ok a

/-- What is written for a value that the fields admit has names of the list, is plain, and is read
as the value wherever it stands between members of other names. -/
structure Lawful (fa : Fields α) (names : List String) (k n : Nat) : Prop where
  named : ∀ style a, ∀ m ∈ fa.write style a, m.1 ∈ names
  plain : ∀ {a}, fa.Admits a → ∀ style, ∀ m ∈ fa.write style a, Plain k n m.2
  used : ∀ style a {before after}, Without names before → Without names after →
    ∀ m ∈ fa.write style a, m.1 ∈ fa.used (before ++ (fa.write style a ++ after))
  read_write : ∀ {a}, fa.Admits a → ∀ style {before after}, Without names before →
    Without names after → fa.read (before ++ (fa.write style a ++ after)) = .ok a

theorem read_field_some {name : Name} {c : Codec α} {default : Option α} {ms : Members}
    {spelling : String} {v : Json} (h : name.find? ms = some (spelling, v)) :
    (field name c default).read ms = (c.read v).within spelling := by
  simp only [field, h]

theorem read_field_none {name : Name} {c : Codec α} {a : α} {ms : Members}
    (h : name.find? ms = none) : (field name c (some a)).read ms = .ok a := by
  simp only [field, h]

/-- **A field with a default** is read from its value, or else from one that stands for the
default. -/
theorem read_field_eq_ok {name : Name} {c : Codec α} {v : Json} {default a : α} {ms : Members}
    (hdefault : c.read v = .ok default) :
    (field name c (some default)).read ms = .ok a
      ↔ c.read ((name.value? ms).getD v) = .ok a := by
  rw [← name.map_snd_find?]
  cases hfind : name.find? ms with
  | none =>
    rw [read_field_none hfind, Option.map_none, Option.getD_none, hdefault]
  | some found =>
    rw [read_field_some hfind, Checked.within_eq_ok, Option.map_some, Option.getD_some]

theorem read_required_eq_ok {name : Name} {c : Codec α} {a : α} {ms : Members} :
    (field name c none).read ms = .ok a ↔ ∃ v, name.value? ms = some v ∧ c.read v = .ok a := by
  rw [← name.map_snd_find?]
  cases hfind : name.find? ms with
  | none => simp [field, hfind]
  | some found => simp [read_field_some hfind, Checked.within_eq_ok]

theorem write_field (style : Style) (name : Name) (c : Codec α) (default : Option α) (a : α) :
    (field name c default).write style a = [] ∧ (c.write style a).isNull = true
      ∨ (field name c default).write style a = [(name.written style, c.write style a)] := by
  cases hnull : (c.write style a).isNull && !style.nulls with
  | true =>
    refine .inl ⟨?_, (Bool.and_eq_true_iff.mp hnull).1⟩
    show (if ((c.write style a).isNull && !style.nulls) = true then _ else _) = _
    rw [hnull, if_pos rfl]
  | false =>
    refine .inr ?_
    show (if ((c.write style a).isNull && !style.nulls) = true then _ else _) = _
    rw [hnull, if_neg Bool.false_ne_true]

/-- What is written for a field is one member. -/
theorem mem_write_field {style : Style} {name : Name} {c : Codec α} {default : Option α} {a : α}
    {m : String × Json} (h : m ∈ (field name c default).write style a) :
    (field name c default).write style a = [m] ∧ m = (name.written style, c.write style a) := by
  rcases write_field style name c default a with ⟨hw, -⟩ | hw
  · rw [hw] at h
    exact absurd h List.not_mem_nil
  · rw [hw, List.mem_singleton] at h
    exact ⟨h ▸ hw, h⟩

/-- A field is read with what its codec admits. -/
theorem admits_of_field {name : Name} {c : Codec α} {default : Option α} {a : α}
    (hdefault : ∀ a ∈ default, c.Admits a) (h : (field name c default).Admits a) : c.Admits a := by
  obtain ⟨ms, hms⟩ := h
  simp only [field] at hms
  split at hms
  · rename_i v _
    exact ⟨v, Checked.within_eq_ok.mp hms⟩
  · split at hms
    · cases hms
      exact hdefault a rfl
    · cases hms

/-- A field that may be left out has its default then, so that nothing else may be left out. -/
theorem lawful_field {name : Name} {c : Codec α} {default : Option α} (hc : c.Lawful k n)
    (hdefault : ∀ a ∈ default, c.Admits a)
    (hnull : ∀ style a, (c.write style a).isNull = true → default = some a) :
    (field name c default).Lawful name.all k n := by
  constructor
  case named =>
    intro style a m hm
    rw [(mem_write_field hm).2]
    exact name.written_mem style
  case plain =>
    intro a ha style m hm
    rw [(mem_write_field hm).2]
    exact hc.plain (admits_of_field hdefault ha) style
  case used =>
    intro style a before after hbefore hafter m hm
    obtain ⟨hw, rfl⟩ := mem_write_field hm
    rw [hw]
    show _ ∈ ((name.find? _).map Prod.fst).toList
    rw [List.singleton_append, Name.find?_written style _ hbefore hafter]
    exact List.mem_cons_self
  case read_write =>
    intro a ha style before after hbefore hafter
    rcases write_field style name c default a with ⟨hw, hn⟩ | hw
    · rw [hw, List.nil_append, hnull style a hn]
      exact read_field_none (Name.find?_of_without (hbefore.append hafter))
    · rw [hw, List.singleton_append, read_field_some (Name.find?_written style _ hbefore hafter),
        hc.read_write (admits_of_field hdefault ha) style, Checked.within_ok]

/-- A field that is always written. -/
theorem lawful_present {name : Name} {c : Codec α} {default : Option α} (hc : c.Lawful k n)
    (hpresent : c.Present) (hdefault : ∀ a ∈ default, c.Admits a) :
    (field name c default).Lawful name.all k n := by
  refine lawful_field hc hdefault fun style a hnull => ?_
  rw [hpresent style a] at hnull
  cases hnull

theorem lawful_required {name : String} {c : Codec α} (hc : c.Lawful k n)
    (hpresent : c.Present) : (required name c).Lawful (Name.all ⟨name, none⟩) k n :=
  lawful_present hc hpresent fun a ha => absurd ha (Option.not_mem_none a)

theorem lawful_optional {name : Name} {c : Codec α} {default : α} (hc : c.Lawful k n)
    (hpresent : c.Present) (hdefault : c.Admits default) :
    (field name c (some default)).Lawful name.all k n :=
  lawful_present hc hpresent fun _ ha => Option.some.inj ha ▸ hdefault

/-- A field that is null if it is left out. -/
theorem lawful_nullable {name : Name} {c : Codec α} (hc : c.Lawful k n) (hpresent : c.Present) :
    (field name (Codec.nullable c) (some none)).Lawful name.all k n := by
  refine lawful_field (Codec.lawful_nullable hc hpresent) ?_ ?_
  · intro a ha
    exact ⟨.null, congrArg Checked.ok (Option.some.inj ha)⟩
  · intro style a hnull
    cases a with
    | none => rfl
    | some a =>
      have hpres : (c.write style a).isNull = true := hnull
      rw [hpresent style a] at hpres
      cases hpres

theorem admits_of_pair {p : α × β} (h : (pair fa fb).Admits p) :
    fa.Admits p.1 ∧ fb.Admits p.2 := by
  obtain ⟨ms, hms⟩ := h
  obtain ⟨ha, hb⟩ := Checked.both_eq_ok.mp hms
  exact ⟨⟨ms, ha⟩, ⟨ms, hb⟩⟩

theorem lawful_pair (hdisjoint : ∀ name ∈ names, name ∉ names') (ha : fa.Lawful names k n)
    (hb : fb.Lawful names' k n) : (pair fa fb).Lawful (names ++ names') k n := by
  have hleft : ∀ name ∈ names, name ∈ names ++ names' := fun _ h => List.mem_append_left _ h
  have hright : ∀ name ∈ names', name ∈ names ++ names' := fun _ h => List.mem_append_right _ h
  have hwithoutA : ∀ style a, Without names' (fa.write style a) :=
    fun style a m hm => hdisjoint m.1 (ha.named style a m hm)
  have hwithoutB : ∀ style b, Without names (fb.write style b) :=
    fun style b m hm hname => hdisjoint m.1 hname (hb.named style b m hm)
  -- the members of one side are members of other names for the other side
  have hsplitA : ∀ (before wa wb after : Members),
      before ++ ((wa ++ wb) ++ after) = before ++ (wa ++ (wb ++ after)) := by simp
  have hsplitB : ∀ (before wa wb after : Members),
      before ++ ((wa ++ wb) ++ after) = (before ++ wa) ++ (wb ++ after) := by simp
  constructor
  case named =>
    intro style p m hm
    rcases List.mem_append.mp hm with hm | hm
    · exact hleft _ (ha.named style p.1 m hm)
    · exact hright _ (hb.named style p.2 m hm)
  case plain =>
    intro p hp style m hm
    obtain ⟨h₁, h₂⟩ := admits_of_pair hp
    rcases List.mem_append.mp hm with hm | hm
    · exact ha.plain h₁ style m hm
    · exact hb.plain h₂ style m hm
  case used =>
    intro style p before after hbefore hafter m hm
    refine List.mem_append.mpr ?_
    rcases List.mem_append.mp hm with hm | hm
    · left
      show _ ∈ fa.used (before ++ ((fa.write style p.1 ++ fb.write style p.2) ++ after))
      rw [hsplitA]
      exact ha.used style p.1 (hbefore.mono hleft)
        ((hwithoutB style p.2).append (hafter.mono hleft)) m hm
    · right
      show _ ∈ fb.used (before ++ ((fa.write style p.1 ++ fb.write style p.2) ++ after))
      rw [hsplitB]
      exact hb.used style p.2 ((hbefore.mono hright).append (hwithoutA style p.1))
        (hafter.mono hright) m hm
  case read_write =>
    intro p hp style before after hbefore hafter
    obtain ⟨h₁, h₂⟩ := admits_of_pair hp
    refine Checked.both_eq_ok.mpr ⟨?_, ?_⟩
    · show fa.read (before ++ ((fa.write style p.1 ++ fb.write style p.2) ++ after)) = _
      rw [hsplitA]
      exact ha.read_write h₁ style (hbefore.mono hleft)
        ((hwithoutB style p.2).append (hafter.mono hleft))
    · show fb.read (before ++ ((fa.write style p.1 ++ fb.write style p.2) ++ after)) = _
      rw [hsplitB]
      exact hb.read_write h₂ style ((hbefore.mono hright).append (hwithoutA style p.1))
        (hafter.mono hright)

theorem lawful_map {f : α → β} {g : β → α} (hgf : ∀ a, g (f a) = a) (ha : fa.Lawful names k n) :
    (fa.map f g).Lawful names k n := by
  have hadmits : ∀ {b}, (fa.map f g).Admits b → fa.Admits (g b) ∧ f (g b) = b := by
    rintro b ⟨ms, hms⟩
    obtain ⟨a, hread, rfl⟩ := Checked.map_eq_ok.mp hms
    rw [hgf]
    exact ⟨⟨ms, hread⟩, rfl⟩
  constructor
  case named => exact fun style b => ha.named style (g b)
  case plain => exact fun hb style => ha.plain (hadmits hb).1 style
  case used => exact fun style b => ha.used style (g b)
  case read_write =>
    intro b hb style before after hbefore hafter
    obtain ⟨hg, hfg⟩ := hadmits hb
    exact Checked.map_eq_ok.mpr ⟨g b, ha.read_write hg style hbefore hafter, hfg⟩

/-! ### Models -/

/-- What is written for a model stands alone in its object. -/
theorem Lawful.read_alone (ha : fa.Lawful names k n) {a : α} (h : fa.Admits a) (style : Style) :
    fa.read (fa.write style a) = .ok a := by
  have hnone : Without names [] := List.forall_mem_nil _
  have hread := ha.read_write h style hnone hnone
  rwa [List.nil_append, List.append_nil] at hread

theorem lawful_model (ha : fa.Lawful names k n) : fa.model.Lawful k (n + 1) := by
  have hadmits : ∀ {a}, fa.model.Admits a → fa.Admits a := by
    rintro a ⟨v, hv⟩
    cases v with
    | null | bool | number | string | unpaired | array => cases hv
    | object ms => exact ⟨ms, hv⟩
  exact ⟨fun h style => ha.read_alone (hadmits h) style,
    fun h style => .object (ha.plain (hadmits h) style)⟩

theorem present_model : fa.model.Present := fun _ _ => rfl

/-- A closed model writes no name that it does not look at. -/
theorem unknown_write (ha : fa.Lawful names k n) (style : Style) (a : α) :
    fa.unknown (fa.write style a) = .ok () := by
  have hnone : Without names [] := List.forall_mem_nil _
  have hused := ha.used style a hnone hnone
  rw [List.nil_append, List.append_nil] at hused
  have hextra : (Members.distinct (fa.write style a)).filter
      (fun m => m.1 ∉ fa.used (fa.write style a)) = [] := by
    rw [List.filter_eq_nil_iff]
    intro m hm
    rw [decide_eq_true_iff, not_not]
    exact hused m (Members.mem_of_mem_distinct hm)
  rw [unknown, hextra]

theorem lawful_closedModel (ha : fa.Lawful names k n) : fa.closedModel.Lawful k (n + 1) := by
  have hadmits : ∀ {a}, fa.closedModel.Admits a → fa.Admits a := by
    rintro a ⟨v, hv⟩
    cases v with
    | null | bool | number | string | unpaired | array => cases hv
    | object ms =>
      obtain ⟨p, hp, rfl⟩ := Checked.map_eq_ok.mp hv
      exact ⟨ms, (Checked.both_eq_ok.mp hp).1⟩
  constructor
  · intro a h style
    refine Checked.map_eq_ok.mpr ⟨(a, ()), Checked.both_eq_ok.mpr ⟨?_, ?_⟩, rfl⟩
    · exact ha.read_alone (hadmits h) style
    · exact unknown_write ha style a
  · exact fun h style => .object (ha.plain (hadmits h) style)

theorem present_closedModel : fa.closedModel.Present := fun _ _ => rfl

end Fields

end LogQuery.Schema
