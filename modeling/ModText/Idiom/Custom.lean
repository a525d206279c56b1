import ModText.Idiom.Pattern
import ModText.Code.Module
import ModText.Record.Basic

/-!
# The idiom of custom texts

A custom text is registered by a call that makes a text object, right behind its key and right in
front of the store into a local. The text is the one that follows the first later load of that local.
-/

namespace ModText

/-- The name of the method that makes the object of a custom text. -/
def registeringMethod : String := "CreateTranslation"

/-- The key and the text that are registered at a site. -/
def Site.registration? (s : Site) : Option (String × String) :=
  if s.here.callsNamed registeringMethod then
    match s.after with
    | [] => none
    | store :: rest => do
      let slot ← store.localStore?
      let key ← s.previous?.bind (·.string?)
      let used ← firstLoad? slot rest
      let value ← used.head?.bind (·.string?)
      return (key, value)
  else none

/-- The keys and texts of a stream, in the order in which the objects are made. -/
def registrations (instructions : List Instruction) : List (String × String) :=
  (sites instructions).filterMap (·.registration?)

/-- The records of a type, over all its methods. -/
def customTexts (t : TypeDef) : List CustomText :=
  (t.bodies.flatMap registrations).map fun (key, value) => ⟨key, t.namespaceName, value⟩

end ModText
