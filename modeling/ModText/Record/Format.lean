import ModText.Record.Basic

/-!
# The record format

Records as JSON documents, in both directions. The keys are capitalised and a text that is absent
is `null`. An object may also leave such a text out; nothing else may be left out, and of an array
nothing at all.
-/

namespace ModText

open Json (Draft Decoded Medium Shape)

/-- A text that may be absent, as a document. -/
def optionalText : Option String → Json :=
  .ofOption .string

/-- A list of texts as a document. -/
def textList : List String → Json :=
  .ofList .string

namespace ItemText

/-- The fields of an item record. -/
def shape : Shape ItemText where
  fields := [("TypeName", .required), ("Namespace", .required), ("Name", .nullable),
    ("ToolTip", .nullable), ("ModifyTooltips", .required), ("SetBonus", .nullable)]
  absent := ⟨"", "", none, none, [], none⟩
  read
    | "TypeName", d, r => return { r with typeName := ← d.text }
    | "Namespace", d, r => return { r with namespaceName := ← d.text }
    | "Name", d, r => return { r with name := ← d.optional Draft.text }
    | "ToolTip", d, r => return { r with toolTip := ← d.optional Draft.text }
    | "ModifyTooltips", d, r => return { r with modifyTooltips := ← d.list Draft.text }
    | "SetBonus", d, r => return { r with setBonus := ← d.optional Draft.text }
    | _, _, r => return r

/-- An item record as a document. -/
def toJson (r : ItemText) : Json :=
  .object [("TypeName", .string r.typeName), ("Namespace", .string r.namespaceName),
    ("Name", optionalText r.name), ("ToolTip", optionalText r.toolTip),
    ("ModifyTooltips", textList r.modifyTooltips), ("SetBonus", optionalText r.setBonus)]

end ItemText

namespace NpcText

/-- The fields of a character record. -/
def shape : Shape NpcText where
  fields := [("TypeName", .required), ("Namespace", .required), ("Name", .nullable),
    ("ChatTexts", .required), ("ShopButton1", .nullable), ("ShopButton2", .nullable),
    ("TownNpcNames", .required)]
  absent := ⟨"", "", none, [], none, none, []⟩
  read
    | "TypeName", d, r => return { r with typeName := ← d.text }
    | "Namespace", d, r => return { r with namespaceName := ← d.text }
    | "Name", d, r => return { r with name := ← d.optional Draft.text }
    | "ChatTexts", d, r => return { r with chatTexts := ← d.list Draft.text }
    | "ShopButton1", d, r => return { r with shopButton1 := ← d.optional Draft.text }
    | "ShopButton2", d, r => return { r with shopButton2 := ← d.optional Draft.text }
    | "TownNpcNames", d, r => return { r with townNpcNames := ← d.list Draft.text }
    | _, _, r => return r

/-- A character record as a document. -/
def toJson (r : NpcText) : Json :=
  .object [("TypeName", .string r.typeName), ("Namespace", .string r.namespaceName),
    ("Name", optionalText r.name), ("ChatTexts", textList r.chatTexts),
    ("ShopButton1", optionalText r.shopButton1), ("ShopButton2", optionalText r.shopButton2),
    ("TownNpcNames", textList r.townNpcNames)]

end NpcText

namespace BuffText

/-- The fields of a buff record. -/
def shape : Shape BuffText where
  fields := [("TypeName", .required), ("Namespace", .required), ("Name", .nullable),
    ("Tip", .nullable)]
  absent := ⟨"", "", none, none⟩
  read
    | "TypeName", d, r => return { r with typeName := ← d.text }
    | "Namespace", d, r => return { r with namespaceName := ← d.text }
    | "Name", d, r => return { r with name := ← d.optional Draft.text }
    | "Tip", d, r => return { r with tip := ← d.optional Draft.text }
    | _, _, r => return r

/-- A buff record as a document. -/
def toJson (r : BuffText) : Json :=
  .object [("TypeName", .string r.typeName), ("Namespace", .string r.namespaceName),
    ("Name", optionalText r.name), ("Tip", optionalText r.tip)]

end BuffText

namespace TileText

/-- The fields of a tile record. -/
def shape : Shape TileText where
  fields := [("TypeName", .required), ("Namespace", .required), ("Name", .nullable)]
  absent := ⟨"", "", none⟩
  read
    | "TypeName", d, r => return { r with typeName := ← d.text }
    | "Namespace", d, r => return { r with namespaceName := ← d.text }
    | "Name", d, r => return { r with name := ← d.optional Draft.text }
    | _, _, r => return r

/-- A tile record as a document. -/
def toJson (r : TileText) : Json :=
  .object [("TypeName", .string r.typeName), ("Namespace", .string r.namespaceName),
    ("Name", optionalText r.name)]

end TileText

namespace ChatText

/-- The fields of a chat record. -/
def shape : Shape ChatText where
  fields := [("TypeName", .required), ("Namespace", .required), ("Method", .required),
    ("Contents", .required)]
  absent := ⟨"", "", "", []⟩
  read
    | "TypeName", d, r => return { r with typeName := ← d.text }
    | "Namespace", d, r => return { r with namespaceName := ← d.text }
    | "Method", d, r => return { r with method := ← d.text }
    | "Contents", d, r => return { r with contents := ← d.list Draft.text }
    | _, _, r => return r

/-- A chat record as a document. -/
def toJson (r : ChatText) : Json :=
  .object [("TypeName", .string r.typeName), ("Namespace", .string r.namespaceName),
    ("Method", .string r.method), ("Contents", textList r.contents)]

end ChatText

namespace CustomText

/-- The fields of a custom record. -/
def shape : Shape CustomText where
  fields := [("Key", .required), ("Namespace", .required), ("Value", .required)]
  absent := ⟨"", "", ""⟩
  read
    | "Key", d, r => return { r with key := ← d.text }
    | "Namespace", d, r => return { r with namespaceName := ← d.text }
    | "Value", d, r => return { r with value := ← d.text }
    | _, _, r => return r

/-- A custom record as a document. -/
def toJson (r : CustomText) : Json :=
  .object [("Key", .string r.key), ("Namespace", .string r.namespaceName),
    ("Value", .string r.value)]

end CustomText

namespace Record

/-- A record as a document, in the format of its category. -/
def toJson : Record → Json
  | .item r => r.toJson
  | .npc r => r.toJson
  | .buff r => r.toJson
  | .chat r => r.toJson
  | .tile r => r.toJson
  | .custom r => r.toJson

/-- The record of that category which a draft holds. -/
def decode (medium : Medium) (category : Category) (d : Draft) : Decoded Record :=
  match category with
  | .items => (ItemText.shape.decode medium d).map .item
  | .npcs => (NpcText.shape.decode medium d).map .npc
  | .buffs => (BuffText.shape.decode medium d).map .buff
  | .misc => (ChatText.shape.decode medium d).map .chat
  | .tiles => (TileText.shape.decode medium d).map .tile
  | .customs => (CustomText.shape.decode medium d).map .custom

end Record

end ModText
