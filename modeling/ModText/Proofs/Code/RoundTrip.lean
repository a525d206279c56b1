import ModText.Code.Format
import ModText.Proofs.Code.Ancestors
import ModText.Proofs.Json.Structures

/-!
# Modules come back from their documents

A module that is written down and decoded again is the module that was written, except that a
document holds no marks. No instruction is lost and none moves, since distances inside a body count.
-/

namespace ModText

open Json (Draft Decoded Medium Shape)

namespace MemberRef

theorem decode_toJson (m : MemberRef) (medium : Medium) :
    shape.decode medium m.toJson.draft = .ok m := by
  refine Shape.decode_draft rfl (by simp [shape]) ?_ medium
  have hcount := Draft.word64_ofNat m.parameterCount
  simp [shape, Shape.readFields, Json.draft, Draft.text, hcount]

theorem held_toJson (m : MemberRef) : m.toJson.Held := by
  simp [toJson]

end MemberRef

namespace Instruction

theorem settled_eq_ok {d : Draft} (h : (d.settle? valueLevels).isSome) (medium : Medium) :
    settled medium d = .ok d := by
  cases medium with
  | text => exact if_pos h
  | value => rfl

theorem decode_operand {α : Type} (op : String) {field : String} (value : Draft → Decoded α)
    {make : α → Instruction} (hop : shapeOf op = operand field value make) (hfield : field ≠ "op")
    {d : Draft} {a : α} (hd : (d.settle? valueLevels).isSome) (ha : value d = .ok a)
    (medium : Medium) :
    decode medium (.object [(some "op", .string (some op)), (some field, d)] true) =
      .ok (make a) := by
  have htake : takeMembers medium none [(some "op", .string (some op)), (some field, d)] =
      .ok (some op, [(some field, d)]) := by
    simp [takeMembers, Draft.text, hfield, settled_eq_ok hd]
  rw [decode, htake]
  simp [hop, operand, Shape.decode_object, Shape.readMembers, Shape.hasField, ha,
    Shape.firstMissing?]

theorem decode_bare (op : String) {i : Instruction} (hop : shapeOf op = bare i) (medium : Medium) :
    decode medium (.object [(some "op", .string (some op))] true) = .ok i := by
  have htake : takeMembers medium none [(some "op", .string (some op))] = .ok (some op, []) := by
    simp [takeMembers, Draft.text]
  rw [decode, htake]
  simp [hop, bare, Shape.decode_object, Shape.readMembers, Shape.firstMissing?]

theorem decode_reference (op : String) {field : String} {make : MemberRef → Instruction}
    (hop : shapeOf op = operand field (MemberRef.shape.decode .value) make) (hfield : field ≠ "op")
    (m : MemberRef) (medium : Medium) :
    decode medium (.object [(some "op", .string (some op)), (some field, m.toJson.draft)] true) =
      .ok (make m) := by
  refine decode_operand op _ hop hfield ?_ (m.decode_toJson .value) medium
  simp [valueLevels, MemberRef.toJson, Json.ofNat, Json.draft, Json.draftMembers, Draft.settle?,
    Draft.settleMembers?]

theorem decode_slot (op : String) {field : String} {make : UInt16 → Instruction}
    (hop : shapeOf op = operand field Draft.word16 make) (hfield : field ≠ "op") (slot : UInt16)
    (medium : Medium) :
    decode medium
        (.object [(some "op", .string (some op)), (some field, (Json.ofNat slot.toNat).draft)] true) =
      .ok (make slot) :=
  decode_operand op _ hop hfield rfl (Draft.word16_ofNat slot) medium

theorem decode_toJson (i : Instruction) (medium : Medium) :
    decode medium i.toJson.draft = .ok i := by
  cases i with
  | pushString value =>
    exact decode_operand "ldstr" Draft.text rfl (by decide) rfl rfl medium
  | call m => exact decode_reference "call" rfl (by decide) m medium
  | callVirtual m => exact decode_reference "callvirt" rfl (by decide) m medium
  | newObject m => exact decode_reference "newobj" rfl (by decide) m medium
  | storeField m => exact decode_reference "stfld" rfl (by decide) m medium
  | storeLocal slot => exact decode_slot "stloc" rfl (by decide) slot medium
  | loadLocal slot => exact decode_slot "ldloc" rfl (by decide) slot medium
  | loadArgument index => exact decode_slot "ldarg" rfl (by decide) index medium
  | loadElement => exact decode_bare "ldelem_ref" rfl medium
  | other => exact decode_bare "other" rfl medium

theorem held_toJson (i : Instruction) : i.toJson.Held := by
  cases i <;> simp [toJson, MemberRef.held_toJson]

end Instruction

namespace MethodBody

theorem decode_toJson (b : MethodBody) (medium : Medium) :
    (shape medium).decode medium b.toJson.draft = .ok b := by
  refine Shape.decode_draft rfl (by simp [shape]) ?_ medium
  have hlocals := Draft.word16_ofNat b.locals
  have hinstructions := Draft.list_ofList (f := id) b.instructions fun i _ =>
    i.decode_toJson medium
  simp [shape, Shape.readFields, hlocals, hinstructions]

theorem held_toJson (b : MethodBody) : b.toJson.Held := by
  simp [toJson, Json.held_ofList Instruction.held_toJson]

end MethodBody

namespace Method

theorem decode_toJson (m : Method) (medium : Medium) :
    (shape medium).decode medium m.toJson.draft = .ok m := by
  refine Shape.decode_draft rfl (by simp [shape]) ?_ medium
  have hcount := Draft.word64_ofNat m.parameterCount
  have hbody := Draft.optional_ofOption (f := id)
    (fun b : MethodBody => b.decode_toJson medium) (by simp [MethodBody.toJson, Json.draft]) m.body
  simp [shape, Shape.readFields, Json.draft, Draft.text, Draft.flag, hcount, hbody]

theorem held_toJson (m : Method) : m.toJson.Held := by
  simp [toJson, Json.held_ofOption MethodBody.held_toJson]

end Method

namespace TypeDef

/-- A document of a type holds everything but the marks. -/
theorem decode_toJson (t : TypeDef) (medium : Medium) :
    (shape medium).decode medium t.toJson.draft = .ok t.unmarked := by
  refine Shape.decode_draft rfl (by simp [shape]) ?_ medium
  have hbases := Draft.list_strings t.baseTypes
  have hmethods := Draft.list_ofList (f := id) t.methods fun m _ => m.decode_toJson medium
  simp [shape, Shape.readFields, Json.draft, Draft.text, hbases, hmethods, unmarked]

theorem held_toJson (t : TypeDef) : t.toJson.Held := by
  simp [toJson, Json.held_ofList Json.Held.string, Json.held_ofList Method.held_toJson]

end TypeDef

namespace Module

theorem decode_toJson (m : Module) (medium : Medium) :
    (shape medium).decode medium m.toJson.draft = .ok ⟨m.types.map TypeDef.unmarked⟩ := by
  refine Shape.decode_draft rfl (by simp [shape]) ?_ medium
  have htypes := Draft.list_ofList m.types fun t _ => t.decode_toJson medium
  simp [shape, Shape.readFields, htypes]

theorem held_toJson (m : Module) : m.toJson.Held := by
  simp [toJson, Json.held_ofList TypeDef.held_toJson]

/-- **Modules come back from their documents**: written in either layout, a module is decoded as
itself with the marks of its types taken off. -/
theorem ofPayload_toJson (m : Module) :
    ofPayload m.toJson.toCompact.toUTF8 = .ok ⟨m.types.map TypeDef.unmarked⟩ ∧
      ofPayload m.toJson.toPretty.toUTF8 = .ok ⟨m.types.map TypeDef.unmarked⟩ := by
  have htext := Json.ofSymbols_text m.held_toJson [] Json.blanks_nil
  simp only [String.ofList_nil, String.append_empty] at htext
  rw [ofPayload, ofPayload, Json.decodeText, Json.decodeText, htext.1, htext.2]
  simp [decode_toJson]

end Module

end ModText
