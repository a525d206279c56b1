import ModText.Idiom.Item
import ModText.Idiom.Npc
import ModText.Idiom.Buff
import ModText.Idiom.Tile
import ModText.Idiom.Chat
import ModText.Idiom.Custom

/-!
# Extraction

All records of a module whose types carry their marks, a list for each category. Each list follows
the order of the types, and within a type the order in which its records are found. The list of a
category that is not selected is empty.
-/

namespace ModText

/-- The records of a type in one category. -/
def TypeDef.records (t : TypeDef) : Category → List Record
  | .items => ((itemText? t).map Record.item).toList
  | .npcs => ((npcText? t).map Record.npc).toList
  | .buffs => ((buffText? t).map Record.buff).toList
  | .misc => (chatTexts t).map Record.chat
  | .tiles => ((tileText? t).map Record.tile).toList
  | .customs => (customTexts t).map Record.custom

/-- The records of a module, by category. -/
structure Extraction where
  items : List ItemText := []
  npcs : List NpcText := []
  buffs : List BuffText := []
  misc : List ChatText := []
  tiles : List TileText := []
  customs : List CustomText := []
  deriving DecidableEq, Inhabited

namespace Extraction

/-- The records of one category. -/
def records (e : Extraction) : Category → List Record
  | .items => e.items.map .item
  | .npcs => e.npcs.map .npc
  | .buffs => e.buffs.map .buff
  | .misc => e.misc.map .chat
  | .tiles => e.tiles.map .tile
  | .customs => e.customs.map .custom

/-- The number of records of one category. -/
def count (e : Extraction) : Category → Nat
  | .items => e.items.length
  | .npcs => e.npcs.length
  | .buffs => e.buffs.length
  | .misc => e.misc.length
  | .tiles => e.tiles.length
  | .customs => e.customs.length

/-- The number of all records. -/
def total (e : Extraction) : Nat :=
  Category.all.foldl (fun n c => n + e.count c) 0

end Extraction

namespace Module

/-- The records of the selected categories. -/
def extract (m : Module) (selection : List Category) : Extraction where
  items := pick .items (m.types.filterMap itemText?)
  npcs := pick .npcs (m.types.filterMap npcText?)
  buffs := pick .buffs (m.types.filterMap buffText?)
  misc := pick .misc (m.types.flatMap chatTexts)
  tiles := pick .tiles (m.types.filterMap tileText?)
  customs := pick .customs (m.types.flatMap customTexts)
where
  pick {α : Type} (category : Category) (records : List α) : List α :=
    if selection.contains category then records else []

/-- The first sum on the way to the records of the selected categories that is no machine word. -/
def overflow? (m : Module) (selection : List Category) : Option Overflow :=
  if selection.contains .items then m.types.findSome? itemOverflow? else none

/-- The records of the selected categories, unless a sum on the way to them is no machine word. -/
def extractChecked (m : Module) (selection : List Category) : Except Overflow Extraction :=
  match m.overflow? selection with
  | some overflow => .error overflow
  | none => .ok (m.extract selection)

end Module

end ModText
