import ModText.Mod.Basic

/-!
# Mods in folders

A folder as a mod. It is called as the folder is, wherever the path came from that led to it. Its
resources are the files below it, except for the code, the build properties and whatever is to be
ignored; they are listed when the mod is opened, and read when they are asked for. A path can be too
long for a disk although the place it leads to is near, so every folder is listed under the path by
which it is reached, and one whose path is too long keeps the mod from being opened.
-/

namespace ModText

/-- A mod that lies in a folder, as it was found when it was opened. -/
structure ModFolder where
  /-- The path of the folder as it was given. -/
  root : Path
  location : Location
  name : String
  /-- The path of the code, relative to the folder. -/
  codeFile : String
  resources : List String
  deriving DecidableEq, Inhabited

namespace ModFolder

/-- The name of the file with the build properties. -/
def buildFile : String := "build.txt"

/-- The place of a folder that is to be opened. -/
def findFolder (w : Workspace) (root : Path) : Except Failure Location :=
  if w.isFolder root then
    match w.canonical? root with
    | some l => .ok l
    | none => .error (.disk (.resolvingMod root))
  else .error (.refusal (.modNotFound root))

/-- The name of a mod at a place. -/
def nameAt (root : Path) (l : Location) : Except Failure String :=
  match l.getLast? with
  | some name => .ok name
  | none => .error (.refusal (.modWithoutName root))

/-- A pattern for resources to ignore. -/
def parseIgnore (pattern : String) : Except Failure (List Glob.Token) :=
  match Glob.parse pattern with
  | .ok tokens => .ok tokens
  | .error e => .error ⟨[.ignoring pattern], .pattern e⟩

/-- The path of what is below a mod. -/
def pathBelow (root : Path) (names : List String) : Path :=
  root.join ("/".intercalate names)

/-- The first folder of a mod, in the order of its listing, whose path is too long to list it. -/
def unlistable? (w : Workspace) (root : Path) (l : Location) : Option Path :=
  (w.tree.listing l).findSome? fun (names, n) =>
    if n = .folder ∧ !(pathBelow root names).isUsable then some (pathBelow root names) else none

/-- The files of a mod, each with the names that lead to it. -/
def listFiles (w : Workspace) (root : Path) (l : Location) : Except Failure (List Location) :=
  match unlistable? w root l with
  | some folder => .error ⟨[.listingMod root, .listing folder], .disk⟩
  | none => .ok (w.tree.filesBelow l)

/-- Whether a file of a mod is a resource. -/
def isResource (codeFile : String) (ignores : List (List Glob.Token)) (file : String) : Bool :=
  file != codeFile && file != buildFile && !ignores.any (Glob.describes · file)

/-- Opens a folder as a mod. -/
def openAt (w : Workspace) (root : Path) (codeFile : String) (ignores : List String) :
    Except Failure ModFolder := do
  let location ← findFolder w root
  let name ← nameAt root location
  let ignores ← ignores.mapM parseIgnore
  let files := (← listFiles w root location).map ("/".intercalate ·)
  return ⟨root, location, name, codeFile, files.filter (isResource codeFile ignores)⟩

/-- What is in a file of the mod, or the failure of an attempt to read it. -/
def readFile (m : ModFolder) (circumstance : Path → Circumstance) (file : String)
    (w : Workspace) : Except Failure ByteArray :=
  match w.read? (m.root.join file) with
  | some content => .ok content
  | none => .error (.disk (circumstance (m.root.join file)))

/-- The folder as a source of contents. -/
def toMod (m : ModFolder) : Mod where
  name := m.name
  location := some m.location
  resources := m.resources
  code := m.readFile .readingCode m.codeFile
  buildInfo w := .ok (w.read? (m.root.join buildFile))
  read := m.readFile .reading

end ModFolder

end ModText
