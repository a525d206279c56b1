import ModText.Disk.Path
import ModText.Record.Category

/-!
# Arguments

What a command line asks for. Arguments are read from left to right. An option may take its value
from the same argument or from the next one; such a value is looked at only when something else has
been recognised after it or the line is at its end. So of two faults the one that is met first in
this sense counts, and an argument that is not recognised counts before a value in front of it.

After `--` an argument that begins with a dash is as good as any other.
-/

namespace ModText.Cli

/-- How a command line can be wrong. -/
inductive Misuse where
  | invalidSubcommand
  | unknownArgument
  | invalidValue
  | missingRequiredArgument
  | argumentConflict
  | tooManyValues
  deriving DecidableEq, Inhabited

/-- How reading a command line can end without a command to run. -/
inductive Ending where
  | help
  | version
  | misuse (m : Misuse)
  deriving DecidableEq, Inhabited

/-- What reading a command line answers. -/
abbrev Reading (α : Type) := Except Ending α

/-- The answer to a wrong command line. -/
def refuse {α : Type} (m : Misuse) : Reading α :=
  .error (.misuse m)

/-- What is asked of a dump. -/
structure DumpArguments where
  mod : Path
  output : Option Path := none
  /-- The categories named, in the order of the line; none stands for those of the
  configuration. -/
  categories : List Category := []
  dryRun : Bool := false
  noResources : Bool := false
  verbose : Bool := false
  deriving DecidableEq, Inhabited

/-- A command of the program. -/
inductive Command where
  | dump (a : DumpArguments)
  | init
  deriving DecidableEq, Inhabited

/-- The form of an argument. -/
inductive Form where
  /-- `--name` or `--name=value`. -/
  | long (name : String) (value : Option String)
  /-- A dash and letters. -/
  | short (letters : List Char)
  | word
  deriving DecidableEq

/-- The form of an argument in front of `--`. -/
def form (argument : String) : Form :=
  match argument.toList with
  | '-' :: '-' :: rest =>
    match rest.dropWhile (· ≠ '=') with
    | [] => .long (String.ofList rest) none
    | _ :: value => .long (String.ofList (rest.takeWhile (· ≠ '='))) (some (String.ofList value))
  | '-' :: c :: rest => .short (c :: rest)
  | _ => .word

/-- The end of the options. -/
def dashes : String := "--"

/-- A switch of a dump. -/
inductive Switch where
  | dryRun
  | noResources
  | verbose
  | help
  deriving DecidableEq

/-- What takes a value in a dump. -/
inductive Slot where
  | mod
  | output
  | category
  deriving DecidableEq

/-- The options of a dump, by name. -/
def longOption? : String → Option (Switch ⊕ Slot)
  | "dry-run" => some (.inl .dryRun)
  | "no-resources" => some (.inl .noResources)
  | "verbose" => some (.inl .verbose)
  | "help" => some (.inl .help)
  | "output" => some (.inr .output)
  | "category" => some (.inr .category)
  | _ => none

/-- The options of a dump, by letter. -/
def shortOption? : Char → Option (Switch ⊕ Slot)
  | 'v' => some (.inl .verbose)
  | 'h' => some (.inl .help)
  | 'o' => some (.inr .output)
  | _ => none

/-- What a line has asked for so far. -/
structure Gathered where
  mod : Option Path := none
  output : Option Path := none
  categories : List Category := []
  dryRun : Bool := false
  noResources : Bool := false
  verbose : Bool := false
  /-- What takes a value, and the value if it was met, for the time until both are looked at. -/
  pending : Option (Slot × Option String) := none
  deriving DecidableEq, Inhabited

namespace Gathered

/-- Fills a slot. Only categories may come more than once. -/
def fill (g : Gathered) (value : String) : Slot → Reading Gathered
  | .mod => if value = "" then refuse .invalidValue else .ok { g with mod := some ⟨value⟩ }
  | .output =>
    if g.output.isSome then refuse .argumentConflict
    else if value = "" then refuse .invalidValue
    else .ok { g with output := some ⟨value⟩ }
  | .category =>
    match Category.ofName? value with
    | some c => .ok { g with categories := g.categories ++ [c] }
    | none => refuse .invalidValue

/-- Looks at what is pending. -/
def settle (g : Gathered) : Reading Gathered :=
  match g.pending with
  | none => .ok g
  | some (_, none) => refuse .invalidValue
  | some (slot, some value) => { g with pending := none }.fill value slot

/-- Sets a switch that must not be set yet. -/
def setOnce (before : Bool) (g : Gathered) : Reading Gathered :=
  if before then refuse .argumentConflict else .ok g

/-- Takes a switch. -/
def takeSwitch (g : Gathered) (s : Switch) : Reading Gathered := do
  let g ← g.settle
  match s with
  | .dryRun => setOnce g.dryRun { g with dryRun := true }
  | .noResources => setOnce g.noResources { g with noResources := true }
  | .verbose => setOnce g.verbose { g with verbose := true }
  | .help => .error .help

/-- Takes an option with its value, or without one that is still to come. -/
def takeSlot (g : Gathered) (slot : Slot) (value : Option String) : Reading Gathered := do
  let g ← g.settle
  match value with
  | some value => g.fill value slot
  | none => return { g with pending := some (slot, none) }

/-- Takes an argument of the form `--name` or `--name=value`. -/
def takeLong (g : Gathered) (name : String) (value : Option String) : Reading Gathered :=
  match longOption? name with
  | none => refuse .unknownArgument
  | some (.inl s) => if value.isSome then refuse .tooManyValues else g.takeSwitch s
  | some (.inr slot) => g.takeSlot slot value

/-- The value in one argument with its option, with or without an equals sign. -/
def attached : List Char → Option String
  | [] => none
  | '=' :: rest => some (String.ofList rest)
  | rest => some (String.ofList rest)

/-- Takes letters behind a dash. -/
def takeLetters (g : Gathered) : List Char → Reading Gathered
  | [] => .ok g
  | c :: rest =>
    match shortOption? c with
    | none => refuse .unknownArgument
    | some (.inl s) => do takeLetters (← g.takeSwitch s) rest
    | some (.inr slot) => g.takeSlot slot (attached rest)

/-- Whether the mod has been met. -/
def hasMod (g : Gathered) : Bool :=
  g.mod.isSome || g.pending.any (·.1 == .mod)

/-- Takes an argument that belongs to no option: the mod, and nothing else. -/
def takeOperand (g : Gathered) (argument : String) : Reading Gathered :=
  if g.hasMod then refuse .unknownArgument
  else do return { (← g.settle) with pending := some (.mod, some argument) }

/-- Takes an argument without a dash: the value that is to come, or the mod. -/
def takeWord (g : Gathered) (argument : String) : Reading Gathered :=
  match g.pending with
  | some (slot, none) => .ok { g with pending := some (slot, some argument) }
  | _ => g.takeOperand argument

/-- Takes an argument in front of `--`. -/
def take (g : Gathered) (argument : String) : Reading Gathered :=
  match form argument with
  | .long name value => g.takeLong name value
  | .short letters => g.takeLetters letters
  | .word => g.takeWord argument

/-- Takes all arguments. -/
def takeAll (g : Gathered) : List String → Reading Gathered
  | [] => .ok g
  | a :: rest =>
    if a = dashes then rest.foldlM takeOperand g
    else do takeAll (← g.take a) rest

/-- What was asked for in the end. An output that the line does not name may come from the
environment. -/
def finish (g : Gathered) (environment : Option String) : Reading DumpArguments := do
  let g ← g.settle
  let g ← match environment with
    | some value => if g.output.isSome then pure g else g.fill value .output
    | none => pure g
  match g.mod with
  | none => refuse .missingRequiredArgument
  | some mod => return ⟨mod, g.output, g.categories, g.dryRun, g.noResources, g.verbose⟩

end Gathered

/-- Reads the arguments of a dump. -/
def readDump (environment : Option String) (arguments : List String) : Reading Command := do
  let g ← Gathered.takeAll {} arguments
  return .dump (← g.finish environment)

/-- Reads the arguments of the command that creates a configuration: there are none. -/
def readInit : List String → Reading Command
  | [] => .ok .init
  | a :: rest =>
    if a = dashes then
      if rest.isEmpty then .ok .init else refuse .unknownArgument
    else
      match form a with
      | .long "help" none => .error .help
      | .long "help" (some _) => refuse .tooManyValues
      | .short ('h' :: _) => .error .help
      | _ => refuse .unknownArgument

/-- The names of the commands. -/
def commandNames : List String :=
  ["dump", "init", "help"]

/-- Reads the arguments of a request for help: the name of a command at most. -/
def readHelp : List String → Ending
  | [] => .help
  | [name] => if name ∈ commandNames then .help else .misuse .invalidSubcommand
  | _ => .misuse .invalidSubcommand

/-- Reads an argument in the place of a command. -/
def readTop (argument : String) : Ending :=
  match form argument with
  | .long "help" none => .help
  | .long "version" none => .version
  | .long "help" (some _) => .misuse .tooManyValues
  | .long "version" (some _) => .misuse .tooManyValues
  | .short ('h' :: _) => .help
  | .short ('V' :: _) => .version
  | .word => .misuse .invalidSubcommand
  | _ => .misuse .unknownArgument

/-- Reads what follows `--` in the place of a command, where a command is out of place. -/
def readOperands : List String → Reading (Option Command)
  | [] => .ok none
  | a :: _ => refuse (if a ∈ commandNames then .unknownArgument else .invalidSubcommand)

/-- Reads a command line, which may name no command at all. -/
def readArguments (environment : Option String) : List String → Reading (Option Command)
  | [] => .ok none
  | "dump" :: rest => (readDump environment rest).map some
  | "init" :: rest => (readInit rest).map some
  | "help" :: rest => .error (readHelp rest)
  | a :: rest => if a = dashes then readOperands rest else .error (readTop a)

end ModText.Cli
