import ModText.Idiom.Pattern
import ModText.Code.Module
import ModText.Record.Basic

/-!
# The idiom of chat messages

A message is sent by a call of `NewText` with five arguments: the text, three parts of a colour and
a flag. So the text is pushed five instructions in front of the call. Any method of any type may
send messages, and each that sends one has a record of its own.
-/

namespace ModText

/-- How far in front of the call the text is pushed. -/
def messageDistance : Nat := 5

/-- The message that is sent at a site. -/
def Site.message? (s : Site) : Option String :=
  if s.here.callsNamed "NewText" then
    s.before[messageDistance - 1]?.bind (·.string?)
  else none

/-- All messages of a stream, in their order. -/
def messages (instructions : List Instruction) : List String :=
  (sites instructions).filterMap (·.message?)

/-- The record of a method. -/
def chatText? (t : TypeDef) (m : Method) : Option ChatText :=
  match m.instructions? with
  | none => none
  | some code =>
    if (messages code).isEmpty then none
    else some ⟨t.name, t.namespaceName, m.name, messages code⟩

/-- The records of a type, one for each method that sends a message. -/
def chatTexts (t : TypeDef) : List ChatText :=
  t.methods.filterMap (chatText? t)

end ModText
