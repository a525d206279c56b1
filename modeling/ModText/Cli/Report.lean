import ModText.Cli.Style
import ModText.Config
import ModText.Output.Dump

/-!
# Reports

What a command tells when it has done its work, line by line.
-/

namespace ModText

open Cli (Style)

namespace Cli

/-- The mark of what went well. -/
def successMark : String := "✓"

/-- The mark of what failed. -/
def failureMark : String := "✘"

/-- A mark and what it is about, both in one style. -/
def marked (colored : Bool) (s : Style) (mark text : String) : String :=
  s.paint colored mark ++ " " ++ s.paint colored text

/-- Lines as a text. -/
def unlines (lines : List String) : String :=
  String.join (lines.map (· ++ "\n"))

/-- The report of a configuration that was created. -/
def initReport (colored : Bool) : List String :=
  [marked colored .green successMark ("Created " ++ Config.fileName)]

end Cli

namespace CategorySummary

/-- The lines about a category. -/
def report (colored verbose : Bool) (s : CategorySummary) : List String :=
  match s.missing with
  | some missing =>
    ["  " ++ Style.paint colored .red Cli.failureMark ++ " " ++ s.category.folder ++ ": " ++
      Style.paint colored .bold missing.owner ++ " has no namespace"]
  | none =>
    ("  " ++ Style.paint colored .green Cli.successMark ++ " " ++ s.category.folder ++ ": " ++
      toString s.records ++ " record(s) in " ++ toString s.namespaces.length ++ " file(s)") ::
    if verbose then
      s.namespaces.map fun n => "      " ++ Style.paint colored .dimmed n ++ ".json"
    else []

end CategorySummary

namespace DumpSummary

/-- The line about the mod and its output. -/
def heading (colored : Bool) (s : DumpSummary) : String :=
  (if s.dryRun then Style.paint colored .boldYellow "Would dump"
    else Style.paint colored .boldGreen "Dumped") ++
  " " ++ s.mod ++ " to " ++ s.output.text

/-- The line about resources, if there are any. -/
def resourceLines (s : DumpSummary) : List String :=
  if s.resourcesCopied = 0 then []
  else
    ["  " ++ toString s.resourcesCopied ++ " resource file(s) " ++
      if s.dryRun then "to copy" else "copied"]

/-- The line with the total. -/
def totalLine (colored : Bool) (s : DumpSummary) : String :=
  if s.failedCount = 0 then
    Cli.marked colored .green Cli.successMark (toString s.recordCount ++ " record(s) extracted")
  else
    Cli.marked colored .red Cli.failureMark (toString s.failedCount ++ " category(ies) failed")

/-- The lines about a dry run. -/
def dryRunLines (colored : Bool) (s : DumpSummary) : List String :=
  if s.dryRun then ["Run without " ++ Style.paint colored .cyan "--dry-run" ++ " to write files."]
  else []

/-- The lines about a dump. -/
def report (colored verbose : Bool) (s : DumpSummary) : List String :=
  s.heading colored :: (s.categories.flatMap (·.report colored verbose) ++ s.resourceLines ++
    s.totalLine colored :: s.dryRunLines colored)

end DumpSummary

end ModText
