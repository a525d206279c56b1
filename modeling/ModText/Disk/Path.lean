/-!
# Paths

A path is a text. It is kept as it was given, because messages show it so, and taken apart at its
slashes where it counts. Nothing here looks at a disk: joining and taking the parent are operations
on texts.
-/

namespace ModText

/-- A path as it is written. -/
structure Path where
  text : String
  deriving DecidableEq, Inhabited

namespace Path

/-- The parts between the slashes, at least one. -/
def splitSlashes : List Char → List (List Char)
  | [] => [[]]
  | c :: rest =>
    if c = '/' then [] :: splitSlashes rest
    else
      match splitSlashes rest with
      | [] => [[c]]
      | s :: ss => (c :: s) :: ss

/-- The segments of a path, empty ones included. -/
def segments (p : Path) : List String :=
  (splitSlashes p.text.toList).map String.ofList

/-- Whether the path starts at the root. -/
def isAbsolute (p : Path) : Bool :=
  p.text.toList.head? == some '/'

/-- Whether the path ends in a slash. -/
def endsInSlash (p : Path) : Bool :=
  p.text.toList.getLast? == some '/'

/-- Whether a disk can be asked for the path: it has no null character and is at most 4095 bytes
long. -/
def isUsable (p : Path) : Bool :=
  p.text.utf8ByteSize ≤ 4095 && !p.text.toList.contains '\x00'

/-- A path relative to another. An absolute path stays what it is, and a slash goes between unless
there is one or nothing is in front. -/
def join (p : Path) (relative : String) : Path :=
  if (Path.mk relative).isAbsolute then ⟨relative⟩
  else if p.text = "" || p.endsInSlash then ⟨p.text ++ relative⟩
  else ⟨p.text ++ "/" ++ relative⟩

/-- The segments behind the root, last one first. -/
def body (p : Path) : List String :=
  (if p.isAbsolute then p.segments.tail else p.segments).reverse

/-- Drops segments that name nothing, from the end on: empty ones, and single dots unless a
relative path begins with one. -/
def dropIdle (absolute : Bool) : List String → List String
  | [] => []
  | [s] => if s = "" || (absolute && s == ".") then [] else [s]
  | s :: rest => if s = "" || s = "." then dropIdle absolute rest else s :: rest

/-- The path with these segments, last one first, behind the root or without one. -/
def ofBody (absolute : Bool) (body : List String) : Path :=
  ⟨(if absolute then "/" else "") ++ "/".intercalate body.reverse⟩

/-- The segments of the parents of a path with these segments, nearest parent first. -/
def parentBodies (absolute : Bool) : List String → List (List String)
  | [] => []
  | [s] => if s = "" || (absolute && s == ".") then [] else [[]]
  | s :: rest =>
    if s = "" || s = "." then parentBodies absolute rest
    else dropIdle absolute rest :: parentBodies absolute rest

/-- The path without its last component, if it has one. -/
def parent? (p : Path) : Option Path :=
  (parentBodies p.isAbsolute p.body).head?.map (ofBody p.isAbsolute)

/-- The path, its parent, the parent of that, and so on. -/
def ancestors (p : Path) : List Path :=
  p :: (parentBodies p.isAbsolute p.body).map (ofBody p.isAbsolute)

/-- The components that lead somewhere: all but empty segments and single dots. -/
def steps (p : Path) : List String :=
  p.segments.filter fun s => s != "" && s != "."

end Path

end ModText
