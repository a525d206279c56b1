import ModText.Disk.Workspace
import ModText.Failure

/-!
# Mods

A mod is a source of contents: its code, its build properties if it has any, and its resources. What
is asked of it is answered from the workspace as it is at that time, so a mod that lies on a disk
tells what is on the disk by then.
-/

namespace ModText

/-- What a mod offers. -/
structure Mod where
  name : String
  /-- The folder from which the mod is read, if it is on a disk. -/
  location : Option Location := none
  /-- The paths of the resources, relative to the mod. -/
  resources : List String := []
  code : Workspace → Except Failure ByteArray
  buildInfo : Workspace → Except Failure (Option ByteArray) := fun _ => .ok none
  /-- The content of a resource. -/
  read : String → Workspace → Except Failure ByteArray

end ModText
