import ModText.Code.Format
import ModText.Disk.Workspace
import ModText.Failure
import ModText.Json.Printer
import ModText.Record.Category
import ModText.Text.Blank

/-!
# Configuration

A configuration is a JSON file that is looked for in a folder and in the folders above it. The
search ends, without a configuration, at a folder with the mark of a repository; a configuration
beside that mark still counts. Every setting has a default, and a configuration that is found has to
pass a check of its patterns, marker names and code file, in this order.
-/

namespace ModText

open Json (Draft Decoded Medium Shape)

/-- The settings of a project. -/
structure Config where
  outputRoot : String := "./dump"
  /-- The path of the code, relative to a mod. -/
  codeFile : String := "module.json"
  markers : MarkerNames := {}
  categories : List Category := Category.all
  copyResources : Bool := true
  /-- Patterns for the files of a mod that are no resources. -/
  resourceIgnores : List String :=
    ["**/*.cs", "**/*.csproj", "**/*.dll", "**/*.pdb", "**/bin/**", "**/obj/**"]
  deriving DecidableEq, Inhabited

namespace Config

/-- The fields of a configuration, each with a default. -/
def shape (medium : Medium) : Shape Config where
  fields := [("outputRoot", .defaulted), ("codeFile", .defaulted), ("markers", .defaulted),
    ("categories", .defaulted), ("copyResources", .defaulted), ("resourceIgnores", .defaulted)]
  absent := {}
  read
    | "outputRoot", d, c => return { c with outputRoot := ← d.text }
    | "codeFile", d, c => return { c with codeFile := ← d.text }
    | "markers", d, c => return { c with markers := ← MarkerNames.shape.decode medium d }
    | "categories", d, c => return { c with categories := ← d.list (Category.decode medium) }
    | "copyResources", d, c => return { c with copyResources := ← d.flag }
    | "resourceIgnores", d, c => return { c with resourceIgnores := ← d.list Draft.text }
    | _, _, c => return c

/-- The configuration that a text holds. -/
def ofText (text : String) : Decoded Config :=
  Json.decodeText ((shape .text).decode .text) (Text.symbolsOf text)

/-- A configuration as a document. -/
def toJson (c : Config) : Json :=
  .object [("outputRoot", .string c.outputRoot), ("codeFile", .string c.codeFile),
    ("markers", c.markers.toJson), ("categories", .ofList (fun c => .string c.name) c.categories),
    ("copyResources", .bool c.copyResources),
    ("resourceIgnores", .ofList .string c.resourceIgnores)]

/-- The text of the configuration that changes nothing. -/
def defaultText : String :=
  (toJson {}).toPretty

/-- Accepts patterns that are patterns. -/
def checkPatterns : List String → Except Failure Unit
  | [] => .ok ()
  | p :: rest =>
    match Glob.parse p with
    | .ok _ => checkPatterns rest
    | .error e => .error ⟨[.validating p], .pattern e⟩

/-- Accepts marker names, each with what it marks, that are not blank. -/
def checkMarkers : List (String × String) → Except Failure Unit
  | [] => .ok ()
  | (kind, name) :: rest =>
    if Text.isEmptyish name then .error (.refusal (.blankMarker kind)) else checkMarkers rest

/-- Accepts a configuration that can be used. -/
def validate (c : Config) : Except Failure Unit := do
  checkPatterns c.resourceIgnores
  checkMarkers [("item", c.markers.item), ("npc", c.markers.npc), ("buff", c.markers.buff),
    ("tile", c.markers.tile)]
  if Text.isEmptyish c.codeFile then .error (.refusal .blankCodeFile) else .ok ()

/-- The name of a configuration file. -/
def fileName : String := ".modlocrc.json"

/-- The name of the mark of a repository. -/
def repositoryMark : String := ".git"

/-- The first configuration file in the folders up to the first repository. -/
def firstFile (w : Workspace) : List Path → Option Path
  | [] => none
  | folder :: rest =>
    if w.holds (folder.join fileName) then some (folder.join fileName)
    else if w.holds (folder.join repositoryMark) then none
    else firstFile w rest

/-- The configuration file for a folder: in it or in one above it, as the path tells. -/
def findFile (w : Workspace) (folder : Path) : Option Path :=
  firstFile w folder.ancestors

/-- The text of a configuration file. -/
def readText (w : Workspace) (file : Path) : Except Failure String :=
  match (w.read? file).bind String.fromUTF8? with
  | some text => .ok text
  | none => .error ⟨[], .disk⟩

/-- The configuration in a file. -/
def ofFile (w : Workspace) (file : Path) : Except Failure Config := do
  let text ← readText w file
  match ofText text with
  | .error e => .error ⟨[.parsingConfig file], .document e⟩
  | .ok c =>
    c.validate
    return c

/-- The configuration for a folder, which is the default one if there is no file. -/
def load (w : Workspace) (folder : Path) : Except Failure Config :=
  match findFile w folder with
  | some file => ofFile w file
  | none => .ok {}

/-- The configuration for the folder in which the program runs. -/
def loadHere (w : Workspace) : Except Failure Config :=
  match w.cwd? with
  | some folder => load w folder
  | none => .error (.disk .findingCwd)

end Config

end ModText
