/-!
# Locations

A place on a disk is given by the names that lead to it from the root, so two places are the same
only if they are written the same.
-/

namespace ModText

/-- A place on a disk: the names that lead to it from the root. -/
abbrev Location := List String

namespace Location

/-- The place as an absolute path. -/
def text (l : Location) : String :=
  "/" ++ "/".intercalate l

/-- Whether a path of these names is short enough for a disk. -/
def fits (names : List String) : Bool :=
  names.foldl (fun n s => n + (s.utf8ByteSize + 1)) 0 ≤ 4095

/-- Whether every place that segments name on their way from a place is near enough to the root to
have a path. -/
def fitsAlong (l : Location) : List String → Bool
  | [] => true
  | s :: rest =>
    if s = "" ∨ s = "." then fitsAlong l rest
    else if s = ".." then fitsAlong l.dropLast rest
    else fits (l ++ [s]) && fitsAlong (l ++ [s]) rest

end Location

/-- Names that a file or folder can have: not empty, no dots alone, without slash and null
character, and at most 255 bytes long. -/
def IsName (s : String) : Prop :=
  s ≠ "" ∧ s ≠ "." ∧ s ≠ ".." ∧ '/' ∉ s.toList ∧ '\x00' ∉ s.toList ∧ s.utf8ByteSize ≤ 255

instance (s : String) : Decidable (IsName s) :=
  inferInstanceAs (Decidable (_ ∧ _))

/-- Contents are compared byte by byte. -/
instance (priority := high) decidableEqContent : DecidableEq ByteArray :=
  ByteArray.instDecidableEq

/-- What is at a place. -/
inductive Node where
  | file (content : ByteArray)
  | folder
  deriving DecidableEq, Inhabited

end ModText
