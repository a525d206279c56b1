import ModText.Idiom.Pattern
import ModText.Code.Module
import ModText.Record.Basic

/-!
# The idiom of characters

A character sets its name in `SetStaticDefaults`, chats with the texts of `GetChat`, names the
buttons of its shop through the two arguments of `SetChatButtons` and takes a name from
`TownNPCName`. A character type has a record even if none of this is found.
-/

namespace ModText

/-- The text at a site that goes to the given argument of the method. -/
def Site.argumentText? (argument : UInt16) (s : Site) : Option String :=
  match s.here.string? with
  | none => none
  | some value => if s.previous?.any (·.loadsArgument argument) then some value else none

/-- The last text that goes to the given argument of the method. -/
def lastArgumentText? (argument : UInt16) (instructions : List Instruction) : Option String :=
  ((sites instructions).filterMap (·.argumentText? argument)).getLast?

/-- The record of a character type. -/
def npcText? (t : TypeDef) : Option NpcText :=
  if t.marks.npc then
    let texts := ((t.hookCode? "SetStaticDefaults").map defaultTexts).getD []
    let buttons := t.methodCode? "SetChatButtons"
    some {
      typeName := t.name
      namespaceName := t.namespaceName
      name := lastWithGetter? "get_DisplayName" texts
      chatTexts := ((t.methodCode? "GetChat").map stringLiterals).getD []
      shopButton1 := buttons.bind (lastArgumentText? 1)
      shopButton2 := buttons.bind (lastArgumentText? 2)
      townNpcNames := ((t.methodCode? "TownNPCName").map stringLiterals).getD []
    }
  else none

end ModText
