import ModText.Text.Blank
import ModText.Json.Value

/-!
# Build properties

What a mod tells about itself: lines of the form `key = value`. A line that is blank, begins with
`#` or has no `=` tells nothing. A key that is set again keeps its place and takes the new value.
-/

namespace ModText

/-- Keys with their values, in the order in which the keys were first set. -/
structure Properties where
  entries : List (String × String) := []
  deriving DecidableEq, Inhabited

namespace Properties

/-- The entries with one key set. -/
def setIn (key value : String) : List (String × String) → List (String × String)
  | [] => [(key, value)]
  | (k, v) :: rest =>
    if k = key then (k, value) :: rest else (k, v) :: setIn key value rest

/-- The properties with one key set. -/
def set (p : Properties) (key value : String) : Properties :=
  ⟨setIn key value p.entries⟩

/-- The value of a key. -/
def get? (p : Properties) (key : String) : Option String :=
  p.entries.lookup key

/-- What a line sets: the parts on both sides of its first equals sign. -/
def assignment? (line : List Char) : Option (String × String) :=
  let line := Text.trim line
  if line.head? = some '#' then none
  else
    match line.dropWhile (· ≠ '=') with
    | [] => none
    | _ :: value =>
      some (String.ofList (Text.trim (line.takeWhile (· ≠ '='))), String.ofList (Text.trim value))

/-- What the lines of a text set, in their order. -/
def assignments (text : List Char) : List (String × String) :=
  (Text.lines text).filterMap assignment?

/-- The properties after further assignments. -/
def setAll (p : Properties) (pairs : List (String × String)) : Properties :=
  pairs.foldl (fun p (key, value) => p.set key value) p

/-- The properties that a text sets. -/
def ofText (text : String) : Properties :=
  setAll {} (assignments text.toList)

/-- The properties that a text given as bytes sets; none if the bytes are no text. -/
def ofBytes? (bytes : ByteArray) : Option Properties :=
  (String.fromUTF8? bytes).map ofText

/-- The properties as a document. -/
def toJson (p : Properties) : Json :=
  .object (p.entries.map fun (key, value) => (key, .string value))

end Properties

/-- The identity of a mod. -/
structure ModIdentity where
  name : String
  version : String
  displayName : Option String
  deriving DecidableEq, Inhabited

namespace ModIdentity

/-- The identity of a mod of that name with these properties. -/
def ofProperties (name : String) (p : Properties) : ModIdentity where
  name := name
  version := (p.get? "version").getD "1.0"
  displayName := p.get? "displayName"

/-- The identity as a document. -/
def toJson (m : ModIdentity) : Json :=
  .object [("Name", .string m.name), ("Version", .string m.version),
    ("DisplayName", .ofOption .string m.displayName)]

end ModIdentity

end ModText
