/-!
# Instructions

The instructions that text idioms are made of. Every other instruction is `other`: it means
nothing here and still takes up its place, so that distances inside a method body are kept. What
an idiom asks of an instruction is asked through the small questions below, which do not tell a
plain call from a virtual one.
-/

namespace ModText

/-- A reference to a method or field of some type. A field has no parameters. -/
structure MemberRef where
  declaringType : String
  name : String
  parameterCount : UInt64 := 0
  deriving DecidableEq, Inhabited

namespace MemberRef

/-- Whether the character separates the parts of a full type name. -/
def isSeparator (c : Char) : Bool :=
  c == '.' || c == '/'

/-- The name of the declaring type without its namespace and without any enclosing type. -/
def simpleTypeName (m : MemberRef) : String :=
  String.ofList (m.declaringType.toList.reverse.takeWhile (!isSeparator ·)).reverse

/-- Whether this is the member of that name of a type of that simple name. -/
def denotes (m : MemberRef) (type member : String) : Bool :=
  m.name == member && m.simpleTypeName == type

end MemberRef

/-- One instruction of a method body. -/
inductive Instruction where
  | pushString (value : String)
  | call (method : MemberRef)
  | callVirtual (method : MemberRef)
  /-- Makes an object; the constructor belongs to the type of the object. -/
  | newObject (constructor : MemberRef)
  | storeField (field : MemberRef)
  | storeLocal (slot : UInt16)
  | loadLocal (slot : UInt16)
  /-- Argument 0 of an instance method is the object itself. -/
  | loadArgument (index : UInt16)
  | loadElement
  | other
  deriving DecidableEq, Inhabited

namespace Instruction

/-- The text that is pushed. -/
def string? : Instruction → Option String
  | .pushString value => some value
  | _ => none

/-- The method that is called. -/
def call? : Instruction → Option MemberRef
  | .call method => some method
  | .callVirtual method => some method
  | _ => none

/-- The constructor of the object that is made. -/
def newObject? : Instruction → Option MemberRef
  | .newObject constructor => some constructor
  | _ => none

/-- The field that is stored into. -/
def fieldStore? : Instruction → Option MemberRef
  | .storeField field => some field
  | _ => none

/-- The local that is stored into. -/
def localStore? : Instruction → Option UInt16
  | .storeLocal slot => some slot
  | _ => none

/-- The local that is loaded. -/
def localLoad? : Instruction → Option UInt16
  | .loadLocal slot => some slot
  | _ => none

/-- Whether that argument is loaded. -/
def loadsArgument (n : UInt16) : Instruction → Bool
  | .loadArgument index => index == n
  | _ => false

/-- Whether an element of an array is loaded. -/
def isElementLoad : Instruction → Bool
  | .loadElement => true
  | _ => false

/-- Whether that member of a type of that simple name is called. -/
def calls (type member : String) (i : Instruction) : Bool :=
  i.call?.any (·.denotes type member)

/-- Whether a member of that name is called, whatever type it belongs to. -/
def callsNamed (member : String) (i : Instruction) : Bool :=
  i.call?.any (·.name == member)

end Instruction

end ModText
