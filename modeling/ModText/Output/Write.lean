import ModText.Disk.Workspace
import ModText.Json.Printer
import ModText.Mod.Basic
import ModText.Output.Layout
import ModText.Record.Format
import ModText.Record.Grouping

/-!
# Writes

What an output consists of is written in steps, one after the other, and the first one that fails is
the last one. A step that fails may have created folders by then.
-/

namespace ModText

/-- A step of writing. -/
inductive Write where
  /-- Removes a folder with all that it holds, if it is there. -/
  | clear (folder : Path)
  | create (folder : Path)
  | save (file : Path) (text : String)
  /-- Copies a resource as it is when its turn comes. -/
  | copy (resource : String) (file : Path)
  deriving DecidableEq, Inhabited

namespace Write

/-- A document as the content of a file. -/
def document (file : Path) (j : Json) : Write :=
  save file (j.toPretty ++ "\n")

/-- Creates a folder with all its parents. -/
def createFolder (w : Workspace) (folder : Path) : Workspace × Option Failure :=
  match w.makeFolders folder with
  | (w, true) => (w, none)
  | (w, false) => (w, some (.disk (.creating folder)))

/-- Creates the folder of a file. -/
def createParent (w : Workspace) (file : Path) : Workspace × Option Failure :=
  match file.parent? with
  | some folder => createFolder w folder
  | none => (w, none)

/-- Writes a file into its folder, which is created first if needed. -/
def put (w : Workspace) (file : Path) (content : ByteArray) : Workspace × Option Failure :=
  match createParent w file with
  | (w, some f) => (w, some f)
  | (w, none) =>
    match w.write? file content with
    | some w => (w, none)
    | none => (w, some (.disk (.writing file)))

/-- Removes a folder if anything is at its path. -/
def clearFolder (w : Workspace) (folder : Path) : Workspace × Option Failure :=
  if w.holds folder then
    match w.removeFolder folder with
    | (w, true) => (w, none)
    | (w, false) => (w, some (.disk (.clearing folder)))
  else (w, none)

/-- Performs a step for a mod. -/
def perform (m : Mod) (w : Workspace) : Write → Workspace × Option Failure
  | clear folder => clearFolder w folder
  | create folder => createFolder w folder
  | save file text => put w file text.toUTF8
  | copy resource file =>
    match m.read resource w with
    | .ok content => put w file content
    | .error f => (w, some f)

/-- Performs steps up to the first that fails. -/
def performAll (m : Mod) (w : Workspace) : List Write → Workspace × Option Failure
  | [] => (w, none)
  | step :: rest =>
    match step.perform m w with
    | (w, none) => performAll m w rest
    | (w, some f) => (w, some f)

end Write

namespace Layout

/-- Makes room for an output: nothing of an earlier one, and the folders of the categories. -/
def prepare (l : Layout) (categories : List Category) : List Write :=
  .clear l.root :: categories.map fun c => .create (l.categoryFolder c)

/-- The file of a group. -/
def groupWrite (l : Layout) (c : Category) (g : Group Record) : Write :=
  .document (l.namespaceFile c g.namespaceName) (.ofList Record.toJson g.records)

end Layout

end ModText
