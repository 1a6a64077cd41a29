import LogQuery.Envelope
import LogQuery.Stage
import LogQuery.Proofs.Codec
/-!
# Envelopes

An envelope is a text of an object with the value and the parser.  Other programs
write it in other ways: `Spelling` has them all, with any white space, any escapes,
any order of the members, and any members that nobody asked for.  Each of them is
opened to the same value (`decode_of_spelling`), and what `encode` writes is one of
them (`spelling_encode`).  So a value that was enveloped is found again, whatever it
is: an envelope inside of an envelope is a text like any other.
-/

namespace LogQuery.Envelope

open Json Schema

variable {raw : String} {fv : FieldValue}

/-! ### Spellings of an envelope -/

/-- A text of an object within the limits, in which the last `value` is the value.  The last
`parser` is the parser, and none stands for `mixed`. -/
inductive Spelling (raw : String) (fv : FieldValue) : Prop
  | object {ms : Members} (text : Spells limits raw.toList (.object ms))
      (within : Within limits 0 (.object ms))
      (value : Members.find? ms "value" = some (.string fv.value))
      (parser : Members.find? ms "parser" = some (.string fv.parser.name)
        ∨ Members.find? ms "parser" = none ∧ fv.parser = .mixed)

theorem read_parser_name (p : Parser) : Schema.parser.read (.string p.name) = .ok p := by
  cases p <;> rfl

theorem read_object {ms : Members} (hvalue : Members.find? ms "value" = some (.string fv.value))
    (hparser : Members.find? ms "parser" = some (.string fv.parser.name)
      ∨ Members.find? ms "parser" = none ∧ fv.parser = .mixed) :
    FieldValue.codec.read (.object ms) = .ok fv := by
  have hfirst : (Fields.required "value" Codec.string).read ms = .ok fv.value := by
    have hfind : Name.find? ⟨"value", none⟩ ms = some ("value", .string fv.value) := by
      rw [Name.find?_plain, hvalue]
      rfl
    rw [Fields.required, Fields.read_field_some hfind]
    rfl
  have hsecond : (Fields.optional "parser" Schema.parser .mixed).read ms = .ok fv.parser := by
    rcases hparser with hparser | ⟨hparser, hmixed⟩
    · have hfind : Name.find? ⟨"parser", none⟩ ms = some ("parser", .string fv.parser.name) := by
        rw [Name.find?_plain, hparser]
        rfl
      rw [Fields.optional, Fields.read_field_some hfind, read_parser_name, Checked.within_ok]
    · have hfind : Name.find? ⟨"parser", none⟩ ms = none := by
        rw [Name.find?_plain, hparser]
        rfl
      rw [Fields.optional, Fields.read_field_none hfind, hmixed]
  have hboth := Checked.both_eq_ok (p := (fv.value, fv.parser)).mpr ⟨hfirst, hsecond⟩
  exact Checked.map_eq_ok.mpr ⟨_, hboth, rfl⟩

theorem read?_of_spelling (h : Spelling raw fv) : read? raw = some fv := by
  cases h with
  | object text within value parser =>
    simp only [read?, read_of_spells text within, read_object value parser]

/-- The empty marker is the text of an empty string, which is no envelope. -/
theorem read?_emptyMarker : read? emptyMarker = none := by
  have hread : Json.read limits emptyMarker = .ok (.string "") := rfl
  simp only [read?, hread]
  rfl

theorem ne_emptyMarker_of_read? (h : read? raw = some fv) : raw ≠ emptyMarker := by
  rintro rfl
  rw [read?_emptyMarker] at h
  cases h

theorem decode_of_read? (h : read? raw = some fv) : decode raw = fv := by
  rw [decode, if_neg (ne_emptyMarker_of_read? h), h, Option.getD_some]

theorem warnings_of_read? (h : read? raw = some fv) : warnings raw = [] := by
  apply if_neg
  rintro ⟨-, hnone⟩
  rw [h] at hnone
  cases hnone

/-! ### What is written -/

/-- A short number is short before its fraction and its exponent. -/
theorem limits_allows {k n : Nat} (hk : k < 4300) (hn : n ≤ 200) : limits.Allows k n where
  depth := by
    rintro _ ⟨⟩
    exact hn
  stack := nofun
  admits cs hcs := by
    have hpart : (Number.wholePart cs).length ≤ cs.length :=
      (List.takeWhile_sublist _).length_le
    exact decide_eq_true (hpart.trans (hcs.trans hk))

theorem spelling_encode (fv : FieldValue) : Spelling (encode fv) fv := by
  have hplain : Plain 1 1 (FieldValue.codec.write {} fv) :=
    .object (List.forall_mem_cons.mpr ⟨.string, List.forall_mem_singleton.mpr .string⟩)
  have hallows : limits.Allows 1 1 := limits_allows (by decide) (by decide)
  exact .object (hplain.spells_render Nat.one_pos hallows.admits) (hplain.within hallows) rfl
    (.inl rfl)

theorem decode_encode (fv : FieldValue) : decode (encode fv) = fv :=
  decode_of_read? (read?_of_spelling (spelling_encode fv))

theorem warnings_encode (fv : FieldValue) : warnings (encode fv) = [] :=
  warnings_of_read? (read?_of_spelling (spelling_encode fv))

theorem encode_ne_emptyMarker (fv : FieldValue) : encode fv ≠ emptyMarker :=
  ne_emptyMarker_of_read? (read?_of_spelling (spelling_encode fv))

/-- **The codec of envelopes.**  Closing an envelope loses nothing, opening it
again leaves no warning, and a value that was found once is found again. -/
theorem decode_encode_law :
    (∀ fv, decode (encode fv) = fv ∧ warnings (encode fv) = [])
    ∧ Function.Injective encode
    ∧ (∀ fv, encode fv ≠ emptyMarker)
    ∧ ∀ raw, decode (encode (decode raw)) = decode raw := by
  refine ⟨fun fv => ⟨decode_encode fv, warnings_encode fv⟩, ?_, encode_ne_emptyMarker, ?_⟩
  · exact Function.LeftInverse.injective decode_encode
  · intro raw
    exact decode_encode (decode raw)

/-! ### What others write -/

/-- **Every spelling of an envelope is opened to its value**, and nothing is noted.  In a query the
filter is what it is with the envelope as `encode` writes it. -/
theorem decode_of_spelling (h : Spelling raw fv) :
    decode raw = fv ∧ warnings raw = []
    ∧ ∀ (before after : List Filter) (f : Filter),
        Stage.fields ((before ++ { f with value := raw } :: after).map matcher)
          = Stage.fields ((before ++ { f with value := encode fv } :: after).map matcher) := by
  have hdecode : decode raw = fv := decode_of_read? (read?_of_spelling h)
  refine ⟨hdecode, warnings_of_read? (read?_of_spelling h), fun before after f => ?_⟩
  have hmatcher : matcher { f with value := raw } = matcher { f with value := encode fv } := by
    show Matcher.mk f.key f.operator (decode raw).value
      = Matcher.mk f.key f.operator (decode (encode fv)).value
    rw [hdecode, decode_encode]
  rw [List.map_append, List.map_append, List.map_cons, List.map_cons, hmatcher]

/-- White space, a member twice, another one that nests, and a character in two escapes. -/
def foreignText : String :=
  "\x7b\"value\":null, \"value\" :\"\\u0061\\ud83d\\uDE00\",\"x\":[ null,\x7b\x7d] \x7d"

theorem decode_of_spelling_foreignText :
    Spelling foreignText ⟨"a😀", .mixed⟩ ∧ decode foreignText = ⟨"a😀", .mixed⟩
      ∧ warnings foreignText = [] := by
  have hnone : Gap [] := List.forall_mem_nil _
  have hblank : Gap [' '] := List.forall_mem_singleton.mpr rfl
  have hraw : SpellsText "value".toList "value".toList := spellsText_escape false "value".toList
  have hname : SpellsName " \"value\" ".toList "value" := .padded hblank hraw hblank
  have hpair : Char.ofNat (State.pairPoint 0xD83D 0xDE00) = '😀' := by decide
  have hsmile : SpellsChar "\\ud83d\\uDE00".toList '😀' :=
    hpair ▸ @SpellsChar.pair "d83d".toList "DE00".toList 0xD83D 0xDE00 rfl rfl rfl rfl rfl rfl
  have htext : SpellsText "\\u0061\\ud83d\\uDE00".toList "a😀".toList :=
    .cons (@SpellsChar.unit "0061".toList 0x61 rfl rfl rfl rfl) (.cons hsmile .nil)
  have hitems : SpellsItems limits " null,\x7b\x7d".toList [.null, .object []] :=
    .cons (.padded hblank .null hnone) (.single (SpellsBare.noMembers hnone).spells)
  have hmembers : SpellsMembers limits
      "\"value\":null, \"value\" :\"\\u0061\\ud83d\\uDE00\",\"x\":[ null,\x7b\x7d] ".toList
      [("value", .null), ("value", .string "a😀"), ("x", .array [.null, .object []])] :=
    .cons (spellsName_quote "value") SpellsBare.null.spells <|
      .cons hname (SpellsBare.string htext).spells <|
      .single (spellsName_quote "x") (.padded hnone (.items hitems) hblank)
  have hspelling : Spelling foreignText ⟨"a😀", .mixed⟩ :=
    .object (SpellsBare.members hmembers).spells ⟨by decide, nofun⟩ rfl (.inr ⟨rfl, rfl⟩)
  obtain ⟨hdecode, hwarnings, -⟩ := decode_of_spelling hspelling
  exact ⟨hspelling, hdecode, hwarnings⟩

/-- An object with a surrogate that is half of no pair, in a member that nobody asked for. -/
def unpairedText : String := "\x7b\"value\":\"a\",\"x\":\"\\ud800\"\x7d"

/-- Half of a pair stands for no character.  A text that escapes one is taken for the value itself,
wherever the escape is. -/
theorem decode_of_unpaired_surrogate :
    decode unpairedText = ⟨unpairedText, .mixed⟩ ∧ decode unpairedText ≠ ⟨"a", .mixed⟩
      ∧ warnings unpairedText ≠ [] := by
  decide +kernel

end LogQuery.Envelope
