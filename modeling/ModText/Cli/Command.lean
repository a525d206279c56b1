import ModText.Cli.Arguments
import ModText.Cli.Report
import ModText.Mod.Folder

/-!
# Commands

What the program does with a command line: it runs the command, tells about it and ends with a
status. A dump takes its settings from the configuration for the folder in which the program runs;
what the command line names has precedence.
-/

namespace ModText.Cli

/-- The status with which the program ends. -/
inductive ExitStatus where
  | success
  /-- Some of the categories could not be written. -/
  | failure
  /-- The command was not done, or not to its end. -/
  | error
  deriving DecidableEq, Inhabited

namespace ExitStatus

/-- The status as a number. -/
def code : ExitStatus → UInt8
  | .success => 0
  | .failure => 1
  | .error => 2

end ExitStatus

/-- What a run shows. -/
structure Shown where
  status : ExitStatus
  output : String := ""
  errors : String := ""
  deriving DecidableEq, Inhabited

namespace Shown

/-- What a run shows that failed. -/
def ofFailure (f : Failure) : Shown where
  status := .error
  errors := "Error: " ++ f.message ++ "\n"

end Shown

namespace DumpArguments

/-- The options of a dump under a configuration. -/
def options (a : DumpArguments) (c : Config) : DumpOptions where
  outputRoot := a.output.getD ⟨c.outputRoot⟩
  categories := if a.categories.isEmpty then c.categories else a.categories
  markers := c.markers
  copyResources := c.copyResources && !a.noResources
  dryRun := a.dryRun

/-- The mod to dump and the options, as the workspace tells. -/
def prepare (a : DumpArguments) (w : Workspace) : Except Failure (Mod × DumpOptions) := do
  let config ← Config.loadHere w
  let folder ← ModFolder.openAt w a.mod config.codeFile config.resourceIgnores
  return (folder.toMod, a.options config)

/-- Dumps as asked. -/
def dump (a : DumpArguments) (w : Workspace) : Workspace × Except Failure DumpSummary :=
  match a.prepare w with
  | .error f => (w, .error f)
  | .ok (mod, options) => mod.dump w options

/-- The status of a dump that was done. -/
def statusOf (s : DumpSummary) : ExitStatus :=
  if s.failedCount = 0 then .success else .failure

/-- Dumps as asked and tells about it. -/
def run (a : DumpArguments) (colored : Bool) (w : Workspace) : Workspace × Shown :=
  match a.dump w with
  | (w, .error f) => (w, .ofFailure f)
  | (w, .ok s) => (w, ⟨statusOf s, unlines (s.report colored a.verbose), ""⟩)

end DumpArguments

/-- Creates a configuration in the folder in which the program runs, unless there is one. -/
def createConfig (w : Workspace) : Except Failure Workspace :=
  if w.holds ⟨Config.fileName⟩ then .error (.refusal (.configExists ⟨Config.fileName⟩))
  else
    match w.write? ⟨Config.fileName⟩ Config.defaultText.toUTF8 with
    | some w => .ok w
    | none => .error ⟨[], .disk⟩

/-- Creates a configuration and tells about it. -/
def runInit (colored : Bool) (w : Workspace) : Workspace × Shown :=
  match createConfig w with
  | .ok w => (w, ⟨.success, unlines (initReport colored), ""⟩)
  | .error f => (w, .ofFailure f)

namespace Command

/-- Runs a command. -/
def run (colored : Bool) (w : Workspace) : Command → Workspace × Shown
  | .dump a => a.run colored w
  | .init => runInit colored w

end Command

end ModText.Cli
