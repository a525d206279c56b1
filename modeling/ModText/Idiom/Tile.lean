import ModText.Idiom.Pattern
import ModText.Code.Module
import ModText.Record.Basic

/-!
# The idiom of tiles

A tile sets its name on the map in `SetDefaults`: the last text handed to any text object is
the name. Without the code of that method there is no record.
-/

namespace ModText

/-- The record of a tile type. -/
def tileText? (t : TypeDef) : Option TileText :=
  if t.marks.tile then
    (t.hookCode? "SetDefaults").map fun code =>
      { typeName := t.name
        namespaceName := t.namespaceName
        name := (defaultTexts code).getLast?.map (·.value) }
  else none

end ModText
