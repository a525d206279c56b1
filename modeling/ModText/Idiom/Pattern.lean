import ModText.Idiom.Site
import ModText.Code.Cursor

/-!
# Shared patterns

The small scans that several idioms are built from: texts handed to a text object, all texts of a
stream, the pieces of a concatenation, and the next use of a local. None of them can fail: where a
pattern does not match, it finds nothing.
-/

namespace ModText

/-- The simple name of the type of text objects. -/
def textObject : String := "ModTranslation"

/-- A text that is made the default of a text object. -/
structure DefaultText where
  value : String
  /-- The method that is called right in front of the text, if one is. It gets the object and so
  tells what the text is for. -/
  getter : Option String
  deriving DecidableEq

/-- The default text at a site: a text right behind which it is set as the default of an object. -/
def Site.defaultText? (s : Site) : Option DefaultText :=
  match s.here.string? with
  | none => none
  | some value =>
    if s.next?.any (·.calls textObject "SetDefault") then
      some ⟨value, (s.previous?.bind (·.call?)).map (·.name)⟩
    else none

/-- All default texts of a stream, in their order. -/
def defaultTexts (instructions : List Instruction) : List DefaultText :=
  (sites instructions).filterMap (·.defaultText?)

/-- The last text of those that come with the given getter. -/
def lastWithGetter? (getter : String) (texts : List DefaultText) : Option String :=
  ((texts.filter (·.getter == some getter)).getLast?).map (·.value)

/-- All texts of a stream, in their order. -/
def stringLiterals (instructions : List Instruction) : List String :=
  instructions.filterMap (·.string?)

/-- The texts among the operands in front of a call. The instructions are walked away from the call;
a text and an element of an array each count as an operand, of which the latter has no text. The
walk ends with the last operand or with the instructions, and `found` takes in the texts. -/
def operandTexts (found : List String) : List Instruction → Nat → List String
  | _, 0 => found
  | [], _ + 1 => found
  | i :: rest, n + 1 =>
    match i.string? with
    | some text => operandTexts (text :: found) rest n
    | none => operandTexts found rest (if i.isElementLoad then n else n + 1)

/-- The texts that are concatenated in front of an instruction, in the order of the stream. -/
def Site.concatPieces (s : Site) (operands : Nat) : List String :=
  operandTexts [] s.before operands

/-- The texts that are concatenated in front of a position. A position outside the stream has
nothing in front of it. -/
def concatPieces (instructions : List Instruction) (end_ operands : UInt64) :
    Except Overflow (List String) :=
  if end_.toInt64 = Int64.minValue then .error .subtract
  else if end_.toNat ≤ instructions.length then
    .ok (operandTexts [] (instructions.take end_.toNat).reverse operands.toNat)
  else .ok []

/-- The first load of a local, and what follows it. -/
def firstLoad? (slot : UInt16) : List Instruction → Option (List Instruction)
  | [] => none
  | i :: rest => if i.localLoad? = some slot then some rest else firstLoad? slot rest

/-- The position of the first load of a local behind a position. -/
def nextLocalLoad (instructions : List Instruction) (store : UInt64) (slot : UInt16) :
    Except Overflow (Option Nat) :=
  if store.toNat + 1 < UInt64.size then
    .ok (((instructions.drop (store.toNat + 1)).findIdx? (·.localLoad? == some slot)).map
      (store.toNat + 1 + ·))
  else .error .add

end ModText
