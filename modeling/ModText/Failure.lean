import ModText.Disk.Path
import ModText.Disk.FileTree
import ModText.Glob
import ModText.Json.Decoder
import ModText.Text.Quoted

/-!
# Failures

A failure has a cause and the circumstances in which it arose, outermost first. In words they stand
in that order, and the cause comes last. What a disk has against an operation is not told apart.
-/

namespace ModText

/-- An objection of the program itself. -/
inductive Refusal where
  | modNotFound (mod : Path)
  /-- A mod is called as its folder is, and the root of a disk has no name. -/
  | modWithoutName (mod : Path)
  | outputOverMod (output mod : Location)
  | codeAbsent
  | blankMarker (kind : String)
  | blankCodeFile
  | configExists (config : Path)
  deriving DecidableEq, Inhabited

namespace Refusal

/-- The objection in words. -/
def message : Refusal → String
  | .modNotFound mod => "Mod directory not found: " ++ mod.text
  | .modWithoutName mod => "Cannot determine mod name from: " ++ mod.text
  | .outputOverMod output mod =>
    "Output directory " ++ output.text ++ " would overwrite the mod at " ++ mod.text
  | .codeAbsent => "no code"
  | .blankMarker kind => "Marker '" ++ kind ++ "' in 'markers' must not be empty"
  | .blankCodeFile => "'codeFile' must not be empty"
  | .configExists config => config.text ++ " already exists"

end Refusal

/-- What a failure comes from. -/
inductive Cause where
  | document (e : Json.DecodeError)
  | disk
  /-- Bytes that are no text. -/
  | encoding
  | pattern (e : Glob.PatternError)
  | refusal (r : Refusal)
  deriving DecidableEq, Inhabited

namespace Cause

/-- The cause in words. -/
def message : Cause → String
  | .document e => e.message
  | .disk => "I/O error"
  | .encoding => "invalid UTF-8"
  | .pattern e => e.message
  | .refusal r => r.message

end Cause

/-- What was going on when something failed. -/
inductive Circumstance where
  | findingCwd
  | loading (mod : String)
  | decodingPayload
  | resolvingMod (mod : Path)
  | listingMod (mod : Path)
  /-- The one thing that keeps a folder from being listed is the length of its path. -/
  | listing (folder : Path)
  | readingCode (file : Path)
  | readingProperties
  | resolvingOutput (output : Path)
  | clearing (folder : Path)
  | creating (folder : Path)
  | writing (file : Path)
  | reading (file : Path)
  | ignoring (pattern : String)
  | validating (pattern : String)
  | parsingConfig (config : Path)
  deriving DecidableEq, Inhabited

namespace Circumstance

/-- The circumstance in words. -/
def message : Circumstance → String
  | .findingCwd => "Failed to read current directory"
  | .loading mod => "Failed to load mod: " ++ mod
  | .decodingPayload => "Failed to decode module payload"
  | .resolvingMod mod => "Invalid mod path: " ++ mod.text
  | .listingMod mod => "Cannot read mod directory: " ++ mod.text
  | .listing folder =>
    "IO error for operation on " ++ folder.text ++ ": File name too long (os error 36)"
  | .readingCode file => "Code payload not found: " ++ file.text
  | .readingProperties => "Build properties are not valid UTF-8"
  | .resolvingOutput output => "Invalid output path: " ++ output.text
  | .clearing folder => "Failed to clear output directory: " ++ folder.text
  | .creating folder => "Failed to create directory: " ++ folder.text
  | .writing file => "Failed to write file: " ++ file.text
  | .reading file => "Failed to read file: " ++ file.text
  | .ignoring pattern => "Invalid resource ignore pattern: \"" ++ pattern ++ "\""
  | .validating pattern => "Invalid glob pattern in 'resourceIgnores': \"" ++ pattern ++ "\""
  | .parsingConfig config => "Failed to parse config file: " ++ Text.quoted config.text

end Circumstance

/-- Why something failed. -/
structure Failure where
  circumstances : List Circumstance := []
  cause : Cause
  deriving DecidableEq, Inhabited

namespace Failure

/-- The failure in words. -/
def message (f : Failure) : String :=
  ": ".intercalate (f.circumstances.map Circumstance.message ++ [f.cause.message])

/-- A failure of the disk. -/
def disk (circumstance : Circumstance) : Failure where
  circumstances := [circumstance]
  cause := .disk

/-- A failure that is an objection of the program. -/
def refusal (r : Refusal) : Failure where
  cause := .refusal r

end Failure

end ModText
