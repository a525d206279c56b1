import ModText.Json.Decoder
import ModText.Code.Ancestry

/-!
# The module format

A module as a JSON document, in both directions. Everything but names may be left out of a
document, and an instruction whose `op` is unknown is opaque, whatever else it holds. Writing
leaves nothing out, except that an opaque instruction is written with the `op` "other".

An instruction is taken in as a whole before it is looked at, because its `op` may stand anywhere
in it. So its values have to be faultless, and they may be nested only so deep that the document
has at most 127 levels; values that are skipped elsewhere know no such limit.
-/

namespace ModText

open Json (Draft Decoded Medium Shape DecodeError)

namespace MemberRef

/-- The fields of a member reference. -/
def shape : Shape MemberRef where
  fields := [("declaringType", .required), ("name", .required), ("parameterCount", .defaulted)]
  absent := ⟨"", "", 0⟩
  read
    | "declaringType", d, m => return { m with declaringType := ← d.text }
    | "name", d, m => return { m with name := ← d.text }
    | "parameterCount", d, m => return { m with parameterCount := ← d.word64 }
    | _, _, m => return m

/-- A member reference as a document. -/
def toJson (m : MemberRef) : Json :=
  .object [("declaringType", .string m.declaringType), ("name", .string m.name),
    ("parameterCount", .ofNat m.parameterCount.toNat)]

end MemberRef

namespace Instruction

/-- The instruction without a field, as any array or object is one. -/
def bare (i : Instruction) : Shape Instruction where
  fields := []
  absent := i
  read _ _ i := return i

/-- The instruction with one field of that name. -/
def operand {α : Type} (field : String) (value : Draft → Decoded α) (make : α → Instruction) :
    Shape Instruction where
  fields := [(field, .required)]
  absent := .other
  read _ d _ := return make (← value d)

/-- The shape that goes with an `op`. -/
def shapeOf : String → Shape Instruction
  | "ldstr" => operand "value" Draft.text .pushString
  | "call" => operand "method" (MemberRef.shape.decode .value) .call
  | "callvirt" => operand "method" (MemberRef.shape.decode .value) .callVirtual
  | "newobj" => operand "ctor" (MemberRef.shape.decode .value) .newObject
  | "stfld" => operand "field" (MemberRef.shape.decode .value) .storeField
  | "stloc" => operand "slot" Draft.word16 .storeLocal
  | "ldloc" => operand "slot" Draft.word16 .loadLocal
  | "ldarg" => operand "index" Draft.word16 .loadArgument
  | "ldelem_ref" => bare .loadElement
  | _ => bare .other

/-- The levels of nesting that are left for the values of an instruction in a module document. -/
def valueLevels : Nat := 119

/-- A value of an instruction, which has to be faultless in a text. -/
def settled (medium : Medium) (d : Draft) : Decoded Draft :=
  match medium with
  | .value => .ok d
  | .text => if (d.settle? valueLevels).isSome then .ok d else .error .malformed

/-- Takes in the members of an instruction: its `op` and the others in their order. -/
def takeMembers (medium : Medium) : Option String → List (Option String × Draft) →
    Decoded (Option String × List (Option String × Draft))
  | op, [] => .ok (op, [])
  | _, (none, _) :: _ => .error .malformed
  | op, (some name, d) :: rest =>
    if name = "op" then
      match op with
      | some _ => .error (.duplicateField "op")
      | none => do takeMembers medium (some (← d.text)) rest
    else do
      let d ← settled medium d
      let (op, members) ← takeMembers medium op rest
      return (op, (some name, d) :: members)

/-- The instruction that a draft holds: an object with an `op`, or an array that begins with it. -/
def decode (medium : Medium) : Draft → Decoded Instruction
  | .object members closed => do
    let (op, members) ← takeMembers medium none members
    if !closed then .error .malformed
    else
      match op with
      | none => .error (.missingField "op")
      | some op => (shapeOf op).decode .value (.object members true)
  | .array items closed => do
    match items with
    | [] => if closed then .error (.missingField "op") else .error .malformed
    | first :: rest =>
      let op ← first.text
      let rest ← rest.mapM (settled medium)
      if !closed then .error .malformed
      else (shapeOf op).decode .value (.array rest true)
  | d => .error d.mismatch

/-- An instruction as a document. -/
def toJson : Instruction → Json
  | .pushString value => .object [("op", .string "ldstr"), ("value", .string value)]
  | .call method => .object [("op", .string "call"), ("method", method.toJson)]
  | .callVirtual method => .object [("op", .string "callvirt"), ("method", method.toJson)]
  | .newObject constructor => .object [("op", .string "newobj"), ("ctor", constructor.toJson)]
  | .storeField field => .object [("op", .string "stfld"), ("field", field.toJson)]
  | .storeLocal slot => .object [("op", .string "stloc"), ("slot", .ofNat slot.toNat)]
  | .loadLocal slot => .object [("op", .string "ldloc"), ("slot", .ofNat slot.toNat)]
  | .loadArgument index => .object [("op", .string "ldarg"), ("index", .ofNat index.toNat)]
  | .loadElement => .object [("op", .string "ldelem_ref")]
  | .other => .object [("op", .string "other")]

end Instruction

namespace MethodBody

/-- The fields of a method body. -/
def shape (medium : Medium) : Shape MethodBody where
  fields := [("locals", .defaulted), ("instructions", .defaulted)]
  absent := {}
  read
    | "locals", d, b => return { b with locals := ← d.word16 }
    | "instructions", d, b =>
      return { b with instructions := ← d.list (Instruction.decode medium) }
    | _, _, b => return b

/-- A method body as a document. -/
def toJson (b : MethodBody) : Json :=
  .object [("locals", .ofNat b.locals.toNat),
    ("instructions", .ofList Instruction.toJson b.instructions)]

end MethodBody

namespace Method

/-- The fields of a method. -/
def shape (medium : Medium) : Shape Method where
  fields := [("name", .required), ("isInstance", .defaulted), ("parameterCount", .defaulted),
    ("returnsVoid", .defaulted), ("body", .defaulted)]
  absent := { name := "" }
  read
    | "name", d, m => return { m with name := ← d.text }
    | "isInstance", d, m => return { m with isInstance := ← d.flag }
    | "parameterCount", d, m => return { m with parameterCount := ← d.word64 }
    | "returnsVoid", d, m => return { m with returnsVoid := ← d.flag }
    | "body", d, m => return { m with body := ← d.optional ((MethodBody.shape medium).decode medium) }
    | _, _, m => return m

/-- A method as a document. -/
def toJson (m : Method) : Json :=
  .object [("name", .string m.name), ("isInstance", .bool m.isInstance),
    ("parameterCount", .ofNat m.parameterCount.toNat), ("returnsVoid", .bool m.returnsVoid),
    ("body", .ofOption MethodBody.toJson m.body)]

end Method

namespace TypeDef

/-- The fields of a type. Its marks are no part of a document. -/
def shape (medium : Medium) : Shape TypeDef where
  fields := [("name", .required), ("namespace", .defaulted), ("baseTypes", .defaulted),
    ("methods", .defaulted)]
  absent := { name := "" }
  read
    | "name", d, t => return { t with name := ← d.text }
    | "namespace", d, t => return { t with namespaceName := ← d.text }
    | "baseTypes", d, t => return { t with baseTypes := ← d.list Draft.text }
    | "methods", d, t => return { t with methods := ← d.list ((Method.shape medium).decode medium) }
    | _, _, t => return t

/-- A type as a document. -/
def toJson (t : TypeDef) : Json :=
  .object [("name", .string t.name), ("namespace", .string t.namespaceName),
    ("baseTypes", .ofList .string t.baseTypes), ("methods", .ofList Method.toJson t.methods)]

end TypeDef

namespace Module

/-- The fields of a module. -/
def shape (medium : Medium) : Shape Module where
  fields := [("types", .defaulted)]
  absent := {}
  read
    | "types", d, m => return { m with types := ← d.list ((TypeDef.shape medium).decode medium) }
    | _, _, m => return m

/-- A module as a document. -/
def toJson (m : Module) : Json :=
  .object [("types", .ofList TypeDef.toJson m.types)]

/-- The module that a payload holds. -/
def ofPayload (bytes : ByteArray) : Decoded Module :=
  Json.decodeText ((shape .text).decode .text) (Text.symbols bytes)

end Module

namespace MarkerNames

/-- The fields of a set of marker names. Each has a default of its own. -/
def shape : Shape MarkerNames where
  fields := [("item", .defaulted), ("npc", .defaulted), ("buff", .defaulted),
    ("tile", .defaulted)]
  absent := {}
  read
    | "item", d, n => return { n with item := ← d.text }
    | "npc", d, n => return { n with npc := ← d.text }
    | "buff", d, n => return { n with buff := ← d.text }
    | "tile", d, n => return { n with tile := ← d.text }
    | _, _, n => return n

/-- A set of marker names as a document. -/
def toJson (n : MarkerNames) : Json :=
  .object [("item", .string n.item), ("npc", .string n.npc), ("buff", .string n.buff),
    ("tile", .string n.tile)]

end MarkerNames

end ModText
