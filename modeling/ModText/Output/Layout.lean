import ModText.Disk.Path
import ModText.Record.Category

/-!
# The layout of an output

The output of a mod is a folder that is called as the mod is. It holds two files about the mod, and
a folder for each category with a file for each namespace.
-/

namespace ModText

/-- Where the output of a mod goes. -/
structure Layout where
  root : Path
  deriving DecidableEq, Inhabited

namespace Layout

/-- The layout for a mod of that name. -/
def ofMod (outputRoot : Path) (mod : String) : Layout :=
  ⟨outputRoot.join mod⟩

/-- The file with the build properties. -/
def buildFile (l : Layout) : Path :=
  l.root.join "Info.json"

/-- The file with the identity of the mod. -/
def identityFile (l : Layout) : Path :=
  l.root.join "Mod.json"

/-- The folder of a category. -/
def categoryFolder (l : Layout) (c : Category) : Path :=
  l.root.join c.folder

/-- The file of a namespace. -/
def namespaceFile (l : Layout) (c : Category) (namespaceName : String) : Path :=
  (l.categoryFolder c).join (namespaceName ++ ".json")

/-- The file of a resource. -/
def resourceFile (l : Layout) (resource : String) : Path :=
  l.root.join resource

end Layout

end ModText
