import ModText.Json.Value

/-!
# Drafts: what a text turned out to hold

Reading a text stops at its first fault, and what stands in front of the fault still counts: a
value of the wrong kind is reported before a bracket that is missing further on. A draft is the
tree of all that was read. A fault that ends the reading is an unclosed array or object or the
leaf `broken`. Two faults do not end it, since they matter only to one who uses the value: a text
with a byte or an escape that stands for no character, and a number too large to be held.
-/

namespace ModText.Json

/-- A value as it was read. -/
inductive Draft where
  | null
  | bool (b : Bool)
  /-- A number, or `none` for one that is too large to be held. -/
  | number (n : Option Number)
  /-- A text, or `none` for one with a part that is no character. -/
  | string (s : Option String)
  /-- The items up to the closing bracket, or up to a fault. -/
  | array (items : List Draft) (closed : Bool)
  /-- The members up to the closing brace, or up to a fault. -/
  | object (members : List (Option String × Draft)) (closed : Bool)
  /-- The place of a fault: no value begins here. -/
  | broken
  deriving Inhabited

namespace Draft

/-- Whether the reading went on behind the value. -/
def isWhole : Draft → Bool
  | .array _ closed => closed
  | .object _ closed => closed
  | .broken => false
  | _ => true

mutual

/-- The value of a draft that holds no fault of any kind and has at most the given number of
levels of arrays and objects. -/
def settle? : Nat → Draft → Option Json
  | _, .null => some .null
  | _, .bool b => some (.bool b)
  | _, .number n => n.map .number
  | _, .string s => s.map .string
  | levels, .array items closed =>
    match levels, closed with
    | n + 1, true => (settleItems? n items).map .array
    | _, _ => none
  | levels, .object members closed =>
    match levels, closed with
    | n + 1, true => (settleMembers? n members).map .object
    | _, _ => none
  | _, .broken => none

/-- The values of all items. -/
def settleItems? : Nat → List Draft → Option (List Json)
  | _, [] => some []
  | n, d :: rest => do
    let j ← settle? n d
    let js ← settleItems? n rest
    return j :: js

/-- The names and values of all members. -/
def settleMembers? : Nat → List (Option String × Draft) → Option (List (String × Json))
  | _, [] => some []
  | n, (name, d) :: rest => do
    let name ← name
    let j ← settle? n d
    let js ← settleMembers? n rest
    return (name, j) :: js

end

end Draft

mutual

/-- The draft of a value that is there already. -/
def draft : Json → Draft
  | .null => .null
  | .bool b => .bool b
  | .number n => .number (some n)
  | .string s => .string (some s)
  | .array items => .array (draftItems items) true
  | .object members => .object (draftMembers members) true

/-- The drafts of items. -/
def draftItems : List Json → List Draft
  | [] => []
  | j :: rest => draft j :: draftItems rest

/-- The drafts of members. -/
def draftMembers : List (String × Json) → List (Option String × Draft)
  | [] => []
  | (name, j) :: rest => (some name, draft j) :: draftMembers rest

end

end ModText.Json
