import ModText.Proofs.Config.Validation
import ModText.Proofs.Json.Structures

/-!
# Configurations come back from their documents

A configuration that is written down is decoded as it was. So the text that is offered as a beginning
says just what is taken for granted where there is no configuration.
-/

namespace ModText

open Json (Draft Decoded Medium Shape)

namespace MarkerNames

theorem decode_toJson (n : MarkerNames) (medium : Medium) :
    shape.decode medium n.toJson.draft = .ok n := by
  refine Shape.decode_draft rfl (by decide) ?_ medium
  simp [shape, Shape.readFields, Json.draft, Draft.text]

end MarkerNames

theorem Category.decode_name (c : Category) (medium : Medium) :
    decode medium (Json.string c.name).draft = .ok c := by
  cases c <;> rfl

namespace Config

theorem decode_toJson (c : Config) (medium : Medium) :
    (shape medium).decode medium c.toJson.draft = .ok c := by
  refine Shape.decode_draft rfl (by simp [shape]) ?_ medium
  have hmarkers := c.markers.decode_toJson medium
  have hcategories := Draft.list_ofList (f := id) c.categories fun k _ => k.decode_name medium
  have hignores := Draft.list_strings c.resourceIgnores
  simp [shape, Shape.readFields, Json.draft, Draft.text, Draft.flag, hmarkers, hcategories, hignores]

theorem held_toJson (c : Config) : c.toJson.Held := by
  simp [toJson, MarkerNames.toJson, Json.held_ofList, Json.Held.string]

/-- **A configuration comes back** from the text that it is written as. -/
theorem ofText_toPretty (c : Config) : ofText c.toJson.toPretty = .ok c := by
  have hread := (Json.ofSymbols_text c.held_toJson [] Json.blanks_nil).2
  rw [String.ofList_nil, String.append_empty, Text.symbols_toUTF8] at hread
  rw [ofText, Json.decodeText, hread]
  simp [c.decode_toJson]

theorem ofText_defaultText : ofText defaultText = .ok {} :=
  ofText_toPretty {}

theorem readText_of_read? {w : Workspace} {file : Path} {text : String}
    (h : w.read? file = some text.toUTF8) : readText w file = .ok text := by
  have hvalid : String.fromUTF8? text.toUTF8 = some text := dif_pos text.isValidUTF8
  rw [readText, h, Option.bind_some, hvalid]

/-- What is loaded from a file with a configuration is that configuration, if it can be used. -/
theorem ofFile_of_ofText {w : Workspace} {file : Path} {text : String} {c : Config}
    (hread : w.read? file = some text.toUTF8) (hdecode : ofText text = .ok c) :
    ofFile w file = c.validate.map fun _ => c := by
  rw [ofFile, readText_of_read? hread]
  simp only [bind, Except.bind, hdecode]
  cases c.validate <;> rfl

/-- A file with the text that is offered as a beginning changes nothing. -/
theorem ofFile_of_defaultText {w : Workspace} {file : Path}
    (h : w.read? file = some defaultText.toUTF8) : ofFile w file = .ok {} :=
  (ofFile_of_ofText h ofText_defaultText).trans (by rw [validate_default]; rfl)

end Config

end ModText
