import ModText.Record.Category

/-!
# Records

What is kept of the text of a type. Each category has a record type of its own. All records share
a view: the namespace they belong to, by which they are grouped, and an owner to name them by.
-/

namespace ModText

/-- The texts of an item. -/
structure ItemText where
  typeName : String
  namespaceName : String
  name : Option String := none
  toolTip : Option String := none
  modifyTooltips : List String := []
  setBonus : Option String := none
  deriving DecidableEq, Inhabited

/-- The texts of a character. -/
structure NpcText where
  typeName : String
  namespaceName : String
  name : Option String := none
  chatTexts : List String := []
  shopButton1 : Option String := none
  shopButton2 : Option String := none
  townNpcNames : List String := []
  deriving DecidableEq, Inhabited

/-- The texts of a buff. -/
structure BuffText where
  typeName : String
  namespaceName : String
  name : Option String := none
  tip : Option String := none
  deriving DecidableEq, Inhabited

/-- The name of a tile on the map. -/
structure TileText where
  typeName : String
  namespaceName : String
  name : Option String := none
  deriving DecidableEq, Inhabited

/-- The messages that one method sends to the chat. -/
structure ChatText where
  typeName : String
  namespaceName : String
  method : String
  contents : List String
  deriving DecidableEq, Inhabited

/-- A text that is registered under a key. -/
structure CustomText where
  key : String
  namespaceName : String
  value : String
  deriving DecidableEq, Inhabited

/-- A record of any category. -/
inductive Record where
  | item (r : ItemText)
  | npc (r : NpcText)
  | buff (r : BuffText)
  | chat (r : ChatText)
  | tile (r : TileText)
  | custom (r : CustomText)
  deriving DecidableEq, Inhabited

/-- What all record types have in common: where a record is filed, and whom it names. -/
class Filed (α : Type) where
  namespaceOf : α → String
  /-- The name of the type, or the key, for messages. -/
  ownerOf : α → String
  categoryOf : α → Category

export Filed (namespaceOf ownerOf categoryOf)

instance : Filed ItemText where
  namespaceOf := ItemText.namespaceName
  ownerOf := ItemText.typeName
  categoryOf _ := .items

instance : Filed NpcText where
  namespaceOf := NpcText.namespaceName
  ownerOf := NpcText.typeName
  categoryOf _ := .npcs

instance : Filed BuffText where
  namespaceOf := BuffText.namespaceName
  ownerOf := BuffText.typeName
  categoryOf _ := .buffs

instance : Filed ChatText where
  namespaceOf := ChatText.namespaceName
  ownerOf := ChatText.typeName
  categoryOf _ := .misc

instance : Filed TileText where
  namespaceOf := TileText.namespaceName
  ownerOf := TileText.typeName
  categoryOf _ := .tiles

instance : Filed CustomText where
  namespaceOf := CustomText.namespaceName
  ownerOf := CustomText.key
  categoryOf _ := .customs

instance : Filed Record where
  namespaceOf
    | .item r => namespaceOf r
    | .npc r => namespaceOf r
    | .buff r => namespaceOf r
    | .chat r => namespaceOf r
    | .tile r => namespaceOf r
    | .custom r => namespaceOf r
  ownerOf
    | .item r => ownerOf r
    | .npc r => ownerOf r
    | .buff r => ownerOf r
    | .chat r => ownerOf r
    | .tile r => ownerOf r
    | .custom r => ownerOf r
  categoryOf
    | .item r => categoryOf r
    | .npc r => categoryOf r
    | .buff r => categoryOf r
    | .chat r => categoryOf r
    | .tile r => categoryOf r
    | .custom r => categoryOf r

end ModText
