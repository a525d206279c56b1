import ModText.Idiom.Pattern
import ModText.Code.Module
import ModText.Record.Basic

/-!
# The idiom of buffs

A buff sets its name and its tip in `SetDefaults`, and without the code of that method it has no
record.
-/

namespace ModText

/-- The record of a buff type. -/
def buffText? (t : TypeDef) : Option BuffText :=
  if t.marks.buff then
    (t.hookCode? "SetDefaults").map fun code =>
      let texts := defaultTexts code
      { typeName := t.name
        namespaceName := t.namespaceName
        name := lastWithGetter? "get_DisplayName" texts
        tip := lastWithGetter? "get_Description" texts }
  else none

end ModText
