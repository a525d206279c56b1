import ModText.Mod.Basic

/-!
# Bundled mods

A mod that is held as a value and lies in no folder. A resource that is listed twice has the content
of its first listing both times.
-/

namespace ModText

/-- A mod with all its contents. -/
structure ModBundle where
  name : String
  code : Option ByteArray
  buildInfo : Option ByteArray := none
  resources : List (String × ByteArray) := []
  deriving DecidableEq, Inhabited

namespace ModBundle

/-- The bundle as a source of contents, which no disk has a part in. -/
def toMod (m : ModBundle) : Mod where
  name := m.name
  resources := m.resources.map Prod.fst
  code _ :=
    match m.code with
    | some content => .ok content
    | none => .error (.refusal .codeAbsent)
  buildInfo _ := .ok m.buildInfo
  read file _ :=
    match m.resources.lookup file with
    | some content => .ok content
    | none => .error (.disk (.reading ⟨file⟩))

end ModBundle

end ModText
