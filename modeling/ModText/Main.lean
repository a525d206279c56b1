import ModText.Cli.Command
import ModText.Disk.Change

/-!
# The program

The layer between the commands and a real disk. What a command can ask for is loaded from the disk
into a workspace, the command is run on it, and what it changed there is done on the disk.
-/

namespace ModText.Program

open ModText.Cli

/-- What is at a place on the disk. -/
def look (l : Location) : IO (Option Node) := do
  let path := (← IO.currentDir) / l.text
  match ← path.metadata.toBaseIO with
  | .error _ => return none
  | .ok data =>
    match data.type with
    | .dir => return some .folder
    | .file => return some (.file (← IO.FS.readBinFile path))
    | _ => return none

/-- The workspace with what was seen at a place. -/
def add (w : Workspace) (l : Location) (n : Node) : Workspace :=
  match l.getLast? with
  | some name => (w.put? l.dropLast name n).getD w
  | none => w

/-- Loads what segments lead through. -/
def loadWay (w : Workspace) (l : Location) : List String → IO Workspace
  | [] => return w
  | s :: rest => do
    if s = "" ∨ s = "." then loadWay w l rest
    else if s = ".." then loadWay w l.dropLast rest
    else if ¬ IsName s then return w
    else
      match ← look (l ++ [s]) with
      | some n => loadWay (add w (l ++ [s]) n) (l ++ [s]) rest
      | none => loadWay w (l ++ [s]) rest

/-- Loads what a path leads through. -/
def loadPath (w : Workspace) (p : Path) : IO Workspace :=
  loadWay w (w.base p).place p.segments

/-- Loads what lies below a folder. -/
partial def loadBelow (w : Workspace) (l : Location) : IO Workspace := do
  let path := (← IO.currentDir) / l.text
  let names := (← path.readDir).toList.map (·.fileName)
  names.foldlM (fun w name => do
    match ← look (l ++ [name]) with
    | none => return w
    | some n =>
      let w := add w (l ++ [name]) n
      if n = .folder then loadBelow w (l ++ [name]) else return w) w

/-- Loads what a path leads through and the folder at its end, unless that is the whole disk. -/
def loadFolder (w : Workspace) (p : Path) : IO Workspace := do
  let w ← loadPath w p
  match w.locate p with
  | .ok (name :: rest) =>
    if w.tree.node? (name :: rest) = some .folder then loadBelow w (name :: rest) else return w
  | _ => return w

/-- Loads what the search for a configuration meets. -/
def loadConfigs (w : Workspace) : IO Workspace :=
  (w.cwd?.elim [] Path.ancestors).foldlM (fun w folder => do
    loadPath (← loadPath w (folder.join Config.fileName)) (folder.join Config.repositoryMark)) w

/-- Loads the output folder of a dump, which depends on all that was loaded before. -/
def loadOutput (w : Workspace) (a : DumpArguments) : IO Workspace :=
  match a.prepare w with
  | .ok (mod, options) => loadFolder w (Layout.ofMod options.outputRoot mod.name).root
  | .error _ => return w

/-- Loads what a command can ask for. -/
def load (w : Workspace) : Command → IO Workspace
  | .init => loadPath w ⟨Config.fileName⟩
  | .dump a => do
    let w ← loadFolder (← loadConfigs w) a.mod
    match Config.loadHere w with
    | .ok c => loadOutput (← loadPath w (a.mod.join c.codeFile)) a
    | .error _ => return w

/-- Does changes on the disk, one after the other. They can remove the folder in which the program
runs, so the disk is asked for it once. -/
def applyAll (changes : List Change) : IO Unit := do
  let root ← IO.currentDir
  changes.forM fun c =>
    match c with
    | .removeFile l => IO.FS.removeFile (root / l.text)
    | .removeFolder l => IO.FS.removeDir (root / l.text)
    | .createFolder l => IO.FS.createDirAll (root / l.text)
    | .writeFile l content => IO.FS.writeBinFile (root / l.text) content

/-- The workspace with nothing in it but the folder in which the program runs. -/
def start : IO Workspace := do
  let cwd := (Path.mk (← IO.currentDir).toString).steps
  loadWay ⟨.empty, .ofPlace cwd⟩ [] cwd

/-- Runs a command on the disk. -/
def execute (colored : Bool) (c : Command) : IO Shown := do
  let w ← load (← start) c
  match c.run colored w with
  | (after, shown) =>
    applyAll (w.tree.changesTo after.tree)
    return shown

/-- Whether reports are coloured. -/
def isColored : IO Bool := do
  if (← IO.getEnv "CLICOLOR_FORCE").any (· != "0") then return true
  if (← IO.getEnv "NO_COLOR").isSome then return false
  if (← IO.getEnv "CLICOLOR") == some "0" then return false
  (← IO.getStdout).isTty

/-- What the program tells about itself. -/
def helpText : String :=
  unlines ["Extracts translatable text from compiled game-mod code", "",
    "Usage: modloc [COMMAND]", "", "Commands:",
    "  dump  Extract translatable text from a mod into per-namespace JSON files",
    "  init  Initialize a new .modlocrc.json configuration file",
    "  help  Print this message or the help of the given subcommand(s)", "", "Options:",
    "  -h, --help     Print help", "  -V, --version  Print version"]

/-- What is wrong with a command line, in words. -/
def misuseText : Misuse → String
  | .invalidSubcommand => "unrecognized subcommand"
  | .unknownArgument => "unexpected argument"
  | .invalidValue => "invalid value"
  | .missingRequiredArgument => "a required argument was not provided"
  | .argumentConflict => "an argument cannot be used multiple times"
  | .tooManyValues => "unexpected value for an argument"

/-- Runs the program. -/
def run (arguments : List String) : IO UInt8 := do
  match readArguments (← IO.getEnv "MODLOC_OUTPUT") arguments with
  | .error .help => IO.print helpText; return 0
  | .error .version => IO.println "modloc 0.1.0"; return 0
  | .error (.misuse m) => IO.eprintln ("error: " ++ misuseText m); return 2
  | .ok none => IO.print helpText; return 0
  | .ok (some c) =>
    let shown ← execute (← isColored) c
    IO.print shown.output
    IO.eprint shown.errors
    return shown.status.code

end ModText.Program

/-- The program. A disk that does not do what it is asked for ends it as a failed command does. -/
def main (arguments : List String) : IO UInt32 := do
  match ← (ModText.Program.run arguments).toBaseIO with
  | .ok code => return code.toUInt32
  | .error _ =>
    let shown := ModText.Cli.Shown.ofFailure ⟨[], .disk⟩
    IO.eprint shown.errors
    return shown.status.code.toUInt32
