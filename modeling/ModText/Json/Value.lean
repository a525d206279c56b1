/-!
# JSON values

A value as a program holds it: every text in it is a sequence of characters, every number is an
integer of 64 bits or a real number as it was written. The members of an object stay in the order
in which they were given, because what is written out follows that order.
-/

namespace ModText

namespace Json

/-- The integers that count as integers: the union of the signed and the unsigned 64-bit range. -/
def IsWord (i : Int) : Prop :=
  Int64.minValue.toInt ≤ i ∧ i < UInt64.size

instance (i : Int) : Decidable (IsWord i) :=
  inferInstanceAs (Decidable (_ ∧ _))

/-- A number: an integer, or a real number kept as the text that denotes it. -/
inductive Number where
  | integer (i : Int)
  | real (literal : String)
  deriving DecidableEq, Inhabited

end Json

/-- A JSON value. -/
inductive Json where
  | null
  | bool (b : Bool)
  | number (n : Json.Number)
  | string (s : String)
  | array (items : List Json)
  | object (members : List (String × Json))
  deriving Inhabited

namespace Json

/-- The number `n` as a value. -/
def ofNat (n : Nat) : Json :=
  .number (.integer n)

/-- A list of values, each made by `f`. -/
def ofList {α : Type} (f : α → Json) (xs : List α) : Json :=
  .array (xs.map f)

/-- A value that may be absent, written as `null` then. -/
def ofOption {α : Type} (f : α → Json) : Option α → Json
  | none => .null
  | some a => f a

/-- The first member of that name. -/
def member? (name : String) : Json → Option Json
  | .object members => members.lookup name
  | _ => none

end Json

end ModText
