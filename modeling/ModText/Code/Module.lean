import ModText.Code.Instruction

/-!
# Modules

The decoded code of a mod: types in their order, each with its methods in their order. A type
carries marks that tell which base types of the modding interface it derives from; they are worked
out for a whole module at once, in `ModText.Code.Ancestry`.
-/

namespace ModText

/-- The instructions of a method and the number of its locals. -/
structure MethodBody where
  locals : UInt16 := 0
  instructions : List Instruction := []
  deriving DecidableEq, Inhabited

/-- A method. Abstract and external methods have no body. -/
structure Method where
  name : String
  isInstance : Bool := true
  parameterCount : UInt64 := 0
  returnsVoid : Bool := true
  body : Option MethodBody := none
  deriving DecidableEq, Inhabited

namespace Method

/-- The instructions, if there is a body. -/
def instructions? (m : Method) : Option (List Instruction) :=
  m.body.map (·.instructions)

/-- Whether the method has that name, whatever its signature. -/
def isNamed (name : String) (m : Method) : Bool :=
  m.name == name

/-- Whether the method has that name and is an instance method without parameters and result. -/
def isHook (name : String) (m : Method) : Bool :=
  m.name == name && m.isInstance && m.parameterCount == 0 && m.returnsVoid

end Method

/-- Which base types of the modding interface a type derives from. -/
structure Marks where
  item : Bool := false
  npc : Bool := false
  buff : Bool := false
  tile : Bool := false
  deriving DecidableEq, Inhabited

/-- A type. Its base types are full names, nearest first, as far as they are known. -/
structure TypeDef where
  name : String
  namespaceName : String := ""
  baseTypes : List String := []
  methods : List Method := []
  marks : Marks := {}
  deriving DecidableEq, Inhabited

namespace TypeDef

/-- The name with its namespace in front, if it is in one. -/
def fullName (t : TypeDef) : String :=
  if t.namespaceName = "" then t.name else t.namespaceName ++ "." ++ t.name

/-- The first method of that name. -/
def method? (t : TypeDef) (name : String) : Option Method :=
  t.methods.find? (·.isNamed name)

/-- The first instance method of that name without parameters and result. -/
def hook? (t : TypeDef) (name : String) : Option Method :=
  t.methods.find? (·.isHook name)

/-- The instructions of the first method of that name; none if it has no body. -/
def methodCode? (t : TypeDef) (name : String) : Option (List Instruction) :=
  (t.method? name).bind (·.instructions?)

/-- The instructions of the hook of that name; none if it has no body. -/
def hookCode? (t : TypeDef) (name : String) : Option (List Instruction) :=
  (t.hook? name).bind (·.instructions?)

/-- The instructions of all methods that have a body. -/
def bodies (t : TypeDef) : List (List Instruction) :=
  t.methods.filterMap (·.instructions?)

end TypeDef

/-- A module. -/
structure Module where
  types : List TypeDef := []
  deriving DecidableEq, Inhabited

end ModText
