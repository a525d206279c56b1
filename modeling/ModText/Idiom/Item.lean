import ModText.Idiom.Pattern
import ModText.Code.Module
import ModText.Record.Basic

/-!
# The idiom of items

An item sets its name and tooltip in `SetStaticDefaults`, adds tooltip lines in `ModifyTooltips`
and stores the bonus of an armour set in `UpdateArmorSet`. An item type has a record even if none
of this is found.

The number of operands that are looked for in front of a concatenation is a sum of machine words. It
wraps around, so with the largest number of parameters there are no operands to look for. A program that
checks its sums stops there instead.
-/

namespace ModText

/-- The number of operands in front of a concatenation by this method: one for each parameter, and one
that the tooltip line begins with. -/
def MemberRef.operandCount (m : MemberRef) : UInt64 :=
  m.parameterCount + 1

theorem MemberRef.toNat_operandCount {m : MemberRef}
    (h : m.parameterCount.toNat + 1 < UInt64.size) :
    m.operandCount.toNat = m.parameterCount.toNat + 1 := by
  rw [operandCount, UInt64.toNat_add]
  exact Nat.mod_eq_of_lt h

/-- The texts of a tooltip line that is made at a site: its two arguments if both are texts, else the
pieces of a concatenation that is its last argument. -/
def Site.tooltipLine (s : Site) : List String :=
  if s.here.newObject?.any (·.simpleTypeName == "TooltipLine") then
    match s.before with
    | .pushString text :: .pushString name :: _ => [name, text]
    | i :: _ =>
      match i.call? with
      | some method =>
        if method.name = "Concat" then s.concatPieces method.operandCount.toNat else []
      | none => []
    | [] => []
  else []

/-- The texts of all tooltip lines, in their order. -/
def tooltipLines (instructions : List Instruction) : List String :=
  (sites instructions).flatMap (·.tooltipLine)

/-- The sum at a site that is no machine word: the number of operands in front of a concatenation that is
the last argument of a tooltip line. -/
def Site.overflow? (s : Site) : Option Overflow :=
  if s.here.newObject?.any (·.simpleTypeName == "TooltipLine") then
    match s.previous?.bind (·.call?) with
    | some method =>
      if method.name = "Concat" ∧ UInt64.size ≤ method.parameterCount.toNat + 1 then some .add
      else none
    | none => none
  else none

/-- The first sum on the way to the tooltip lines that is no machine word. -/
def tooltipOverflow? (instructions : List Instruction) : Option Overflow :=
  (sites instructions).findSome? (·.overflow?)

/-- The text that a site stores as the bonus of a set. -/
def Site.setBonus? (s : Site) : Option String :=
  match s.here.string? with
  | none => none
  | some value =>
    if (s.next?.bind (·.fieldStore?)).any (·.name == "setBonus") then some value else none

/-- The last bonus of a set that is stored. -/
def lastSetBonus? (instructions : List Instruction) : Option String :=
  ((sites instructions).filterMap (·.setBonus?)).getLast?

/-- The record of an item type. -/
def itemText? (t : TypeDef) : Option ItemText :=
  if t.marks.item then
    let texts := ((t.hookCode? "SetStaticDefaults").map defaultTexts).getD []
    some {
      typeName := t.name
      namespaceName := t.namespaceName
      name := lastWithGetter? "get_DisplayName" texts
      toolTip := lastWithGetter? "get_Tooltip" texts
      modifyTooltips := ((t.methodCode? "ModifyTooltips").map tooltipLines).getD []
      setBonus := (t.methodCode? "UpdateArmorSet").bind lastSetBonus?
    }
  else none

/-- The first sum on the way to the record of an item type that is no machine word. -/
def itemOverflow? (t : TypeDef) : Option Overflow :=
  if t.marks.item then (t.methodCode? "ModifyTooltips").bind tooltipOverflow? else none

end ModText
