import ModText.Mod.Properties
import ModText.Output.Write
import ModText.Proofs.Json.Structures

/-!
# Written texts come back

An output is worked on by others, who read it as it was written. A namespace file is decoded as the
list of records it was made of, and the build properties are read as the pairs that were parsed, in
their order. No key stands among those twice, so it makes no difference which of two a reader takes.
-/

namespace ModText

open Json (Draft Decoded Shape)

/-! ## Records -/

theorem optional_optionalText (x : Option String) :
    (optionalText x).draft.optional Draft.text = .ok x := by
  cases x <;> rfl

theorem held_optionalText (x : Option String) : (optionalText x).Held :=
  Json.held_ofOption Json.Held.string x

theorem list_textList (xs : List String) : (textList xs).draft.list Draft.text = .ok xs :=
  Draft.list_strings xs

theorem held_textList (xs : List String) : (textList xs).Held :=
  Json.held_ofList Json.Held.string xs

theorem ItemText.decode_toJson (r : ItemText) : shape.decode .text r.toJson.draft = .ok r := by
  refine Shape.decode_draft rfl (by decide) ?_ .text
  simp [shape, Shape.readFields, Json.draft, Draft.text, optional_optionalText, list_textList]

theorem NpcText.decode_toJson (r : NpcText) : shape.decode .text r.toJson.draft = .ok r := by
  refine Shape.decode_draft rfl (by decide) ?_ .text
  simp [shape, Shape.readFields, Json.draft, Draft.text, optional_optionalText, list_textList]

theorem BuffText.decode_toJson (r : BuffText) : shape.decode .text r.toJson.draft = .ok r := by
  refine Shape.decode_draft rfl (by decide) ?_ .text
  simp [shape, Shape.readFields, Json.draft, Draft.text, optional_optionalText]

theorem ChatText.decode_toJson (r : ChatText) : shape.decode .text r.toJson.draft = .ok r := by
  refine Shape.decode_draft rfl (by decide) ?_ .text
  simp [shape, Shape.readFields, Json.draft, Draft.text, list_textList]

theorem TileText.decode_toJson (r : TileText) : shape.decode .text r.toJson.draft = .ok r := by
  refine Shape.decode_draft rfl (by decide) ?_ .text
  simp [shape, Shape.readFields, Json.draft, Draft.text, optional_optionalText]

theorem CustomText.decode_toJson (r : CustomText) : shape.decode .text r.toJson.draft = .ok r := by
  refine Shape.decode_draft rfl (by decide) ?_ .text
  simp [shape, Shape.readFields, Json.draft, Draft.text]

namespace Record

theorem decode_toJson (r : Record) : decode .text (categoryOf r) r.toJson.draft = .ok r := by
  cases r with
  | item r => exact congrArg (Except.map item) r.decode_toJson
  | npc r => exact congrArg (Except.map npc) r.decode_toJson
  | buff r => exact congrArg (Except.map buff) r.decode_toJson
  | chat r => exact congrArg (Except.map chat) r.decode_toJson
  | tile r => exact congrArg (Except.map tile) r.decode_toJson
  | custom r => exact congrArg (Except.map custom) r.decode_toJson

theorem held_toJson (r : Record) : r.toJson.Held := by
  cases r <;>
    simp [toJson, ItemText.toJson, NpcText.toJson, BuffText.toJson, ChatText.toJson,
      TileText.toJson, CustomText.toJson, held_optionalText, held_textList]

end Record

/-! ## Properties -/

namespace Properties

theorem ofBytes?_toUTF8 (text : String) : ofBytes? text.toUTF8 = some (ofText text) := by
  have h : String.fromUTF8? text.toUTF8 = some text := dif_pos text.isValidUTF8
  rw [ofBytes?, h]
  rfl

theorem map_fst_setIn (key value : String) (entries : List (String × String)) :
    (setIn key value entries).map Prod.fst =
      if key ∈ entries.map Prod.fst then entries.map Prod.fst else entries.map Prod.fst ++ [key] := by
  induction entries with
  | nil => rfl
  | cons e rest ih =>
    obtain ⟨k, v⟩ := e
    by_cases hk : k = key
    · simp [setIn, hk]
    · have hk' : key ≠ k := fun h => hk h.symm
      simp only [setIn, hk, if_false, List.map_cons, ih, List.mem_cons, hk', false_or]
      split <;> simp

theorem nodup_keys_set {p : Properties} (h : (p.entries.map Prod.fst).Nodup) (key value : String) :
    ((p.set key value).entries.map Prod.fst).Nodup := by
  rw [set, map_fst_setIn]
  split
  · exact h
  · rename_i hkey
    refine List.nodup_append.2 ⟨h, by simp, fun k hk k' hk' => ?_⟩
    rw [List.mem_singleton.1 hk']
    exact fun heq => hkey (heq ▸ hk)

theorem nodup_keys_setAll {p : Properties} (h : (p.entries.map Prod.fst).Nodup)
    (pairs : List (String × String)) : ((p.setAll pairs).entries.map Prod.fst).Nodup := by
  induction pairs generalizing p with
  | nil => exact h
  | cons e rest ih => exact ih (nodup_keys_set h e.1 e.2)

/-- No key stands twice among the properties of a text. -/
theorem nodup_keys_ofText (text : String) : ((ofText text).entries.map Prod.fst).Nodup :=
  nodup_keys_setAll (p := {}) List.nodup_nil _

theorem setIn_new {key : String} (value : String) {entries : List (String × String)}
    (h : key ∉ entries.map Prod.fst) : setIn key value entries = entries ++ [(key, value)] := by
  induction entries with
  | nil => rfl
  | cons e rest ih =>
    obtain ⟨k, v⟩ := e
    rw [List.map_cons, List.mem_cons, not_or] at h
    rw [setIn, if_neg fun hk => h.1 hk.symm, ih h.2, List.cons_append]

/-- Pairs with different keys are set one behind the other. -/
theorem setAll_of_nodup (front : List (String × String)) {pairs : List (String × String)}
    (h : ((front ++ pairs).map Prod.fst).Nodup) : setAll ⟨front⟩ pairs = ⟨front ++ pairs⟩ := by
  induction pairs generalizing front with
  | nil => simp [setAll]
  | cons e rest ih =>
    have hnew : e.1 ∉ front.map Prod.fst := by
      rw [List.map_append, List.nodup_append] at h
      exact fun hmem => h.2.2 e.1 hmem e.1 (by simp) rfl
    have hset : (⟨front⟩ : Properties).set e.1 e.2 = ⟨front ++ [e]⟩ := by
      rw [set, setIn_new e.2 hnew]
    calc setAll ⟨front⟩ (e :: rest) = setAll ⟨front ++ [e]⟩ rest := by
          rw [← hset]
          rfl
      _ = ⟨front ++ e :: rest⟩ := by
          rw [ih (front ++ [e]) (by simpa using h)]
          simp

theorem settleMembers?_strings (levels : Nat) (entries : List (String × String)) :
    Draft.settleMembers? levels
        (Json.draftMembers (entries.map fun (key, value) => (key, .string value))) =
      some (entries.map fun (key, value) => (key, .string value)) := by
  induction entries with
  | nil => rfl
  | cons e rest ih => simp [Json.draftMembers, Json.draft, Draft.settleMembers?, Draft.settle?, ih]

/-- A reader of the document finds the value of each key. -/
theorem member?_toJson (p : Properties) (key : String) :
    p.toJson.member? key = (p.get? key).map .string := by
  obtain ⟨entries⟩ := p
  rw [toJson, Json.member?, get?]
  induction entries with
  | nil => rfl
  | cons e rest ih =>
    rw [List.map_cons, List.lookup_cons, List.lookup_cons]
    cases key == e.1 with
    | true => rfl
    | false => exact ih

theorem held_toJson (p : Properties) : p.toJson.Held := by
  refine .object fun m hm => ?_
  obtain ⟨e, -, rfl⟩ := List.mem_map.1 hm
  exact .string e.2

end Properties

/-! ## Files -/

theorem ofSymbols_document {j : Json} (h : j.Held) :
    Draft.ofSymbols (Text.symbols (j.toPretty ++ "\n").toUTF8) = (j.draft, true) :=
  (Json.ofSymbols_text h ['\n'] (by simp [Json.Blanks, Json.isBlank])).2

theorem decodeText_records {c : Category} {rs : List Record} (h : ∀ r ∈ rs, categoryOf r = c) :
    Json.decodeText (Draft.list (Record.decode .text c))
      (Text.symbols ((Json.ofList Record.toJson rs).toPretty ++ "\n").toUTF8) = .ok rs := by
  have hrecord : ∀ r ∈ rs, Record.decode .text c r.toJson.draft = .ok (id r) := by
    intro r hr
    rw [← h r hr]
    exact r.decode_toJson
  have hlist := Draft.list_ofList rs hrecord
  rw [Json.decodeText, ofSymbols_document (Json.held_ofList Record.held_toJson rs)]
  simp [hlist]

theorem parse?_properties (p : Properties) :
    Json.parse? (Text.symbols (p.toJson.toPretty ++ "\n").toUTF8) = some p.toJson := by
  rw [Json.parse?, ofSymbols_document p.held_toJson, Text.symbols_toUTF8]
  have hlength : (Text.symbolsOf (p.toJson.toPretty ++ "\n")).length =
      p.toJson.toPretty.toList.length + 1 := by
    simp [Text.symbolsOf]
  rw [hlength]
  simp [Properties.toJson, Json.draft, Draft.settle?, Properties.settleMembers?_strings]

/-- **Written texts come back**: the file of records of one category is decoded as those records, and
the file of build properties is read as the pairs that were parsed, each key once and in its place, so
that the value found under a key is the parsed one. -/
theorem documents_read_back (file : Path) :
    (∀ (c : Category) (rs : List Record), (∀ r ∈ rs, categoryOf r = c) →
      ∃ text, Write.document file (.ofList Record.toJson rs) = .save file text ∧
        Json.decodeText (Draft.list (Record.decode .text c)) (Text.symbols text.toUTF8) = .ok rs) ∧
    ∀ (bytes : ByteArray) (p : Properties), Properties.ofBytes? bytes = some p →
      ∃ text, Write.document file p.toJson = .save file text ∧
        Json.parse? (Text.symbols text.toUTF8) =
          some (.object (p.entries.map fun (key, value) => (key, .string value))) ∧
        (p.entries.map Prod.fst).Nodup ∧ Properties.setAll {} p.entries = p ∧
        ∀ key, p.toJson.member? key = (p.get? key).map .string := by
  constructor
  · intro c rs hrs
    exact ⟨_, rfl, decodeText_records hrs⟩
  · intro bytes p hp
    obtain ⟨text, -, rfl⟩ := Option.map_eq_some_iff.1 hp
    have hkeys := Properties.nodup_keys_ofText text
    exact ⟨_, rfl, parse?_properties _, hkeys, Properties.setAll_of_nodup [] hkeys,
      Properties.member?_toJson _⟩

theorem documents_read_back_quoted :
    let rs : List Record := [.item ⟨"Blade", "", none, some "a \"b\"\n\x01 é", ["", "\\"], none⟩]
    let p : Properties := ⟨[("name", "\"A\""), ("side", "both")]⟩
    (∃ text, Write.document ⟨"Mod/Items/.json"⟩ (.ofList Record.toJson rs) =
        .save ⟨"Mod/Items/.json"⟩ text ∧
      Json.decodeText (Draft.list (Record.decode .text .items)) (Text.symbols text.toUTF8) =
        .ok rs) ∧
    Properties.ofBytes? "name = x\nside=both\nname = \"A\"".toUTF8 = some p ∧
    ∃ text, Write.document ⟨"Mod/Items/.json"⟩ p.toJson = .save ⟨"Mod/Items/.json"⟩ text ∧
      Json.parse? (Text.symbols text.toUTF8) = some p.toJson := by
  intro rs p
  have hrs : ∀ r ∈ rs, categoryOf r = Category.items := by simp [rs, categoryOf]
  have hp : Properties.ofBytes? "name = x\nside=both\nname = \"A\"".toUTF8 = some p := by
    rw [Properties.ofBytes?_toUTF8]
    decide
  obtain ⟨hrecords, hproperties⟩ := documents_read_back ⟨"Mod/Items/.json"⟩
  obtain ⟨text, htext, hparse, -⟩ := hproperties _ p hp
  exact ⟨hrecords .items rs hrs, hp, text, htext, hparse⟩

end ModText
