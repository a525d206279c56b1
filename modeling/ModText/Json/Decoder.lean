import ModText.Json.Reader

/-!
# Decoding

A decoder turns a draft into a value of some type or tells what is wrong with it, the first fault
in the order of the text. A structure is described once, by a `Shape`, and may come as an object,
in any order and with members nobody asked for, or as an array of its fields in their order.

The same draft can be decoded from two media. In a text, items that nobody asked for are a fault
of the text. A value that is held already has no such faults, and the same items make it too long.
An array that is too short leaves fields out at its end, and only a field with a default bears it.
-/

namespace ModText.Json

/-- What can be wrong with a document. -/
inductive DecodeError where
  /-- The text is not JSON, or holds a text or number that cannot be held. -/
  | malformed
  | missingField (name : String)
  | duplicateField (name : String)
  /-- A name that is not among the names of a choice. -/
  | unknownVariant (name : String) (choices : List String)
  /-- A value of another kind than wanted. -/
  | invalidType
  /-- A number out of range. -/
  | invalidValue
  /-- An array that is too short or too long. -/
  | invalidLength
  deriving DecidableEq, Inhabited

namespace DecodeError

/-- The error in words. -/
def message : DecodeError → String
  | .malformed => "invalid JSON"
  | .missingField name => "missing field `" ++ name ++ "`"
  | .duplicateField name => "duplicate field `" ++ name ++ "`"
  | .unknownVariant name choices =>
    "unknown variant `" ++ name ++ "`, expected one of " ++
      ", ".intercalate (choices.map fun c => "`" ++ c ++ "`")
  | .invalidType => "invalid type"
  | .invalidValue => "invalid value"
  | .invalidLength => "invalid length"

end DecodeError

/-- Where a document comes from. -/
inductive Medium where
  | text
  | value
  deriving DecidableEq

/-- What a decoder answers. -/
abbrev Decoded (α : Type) := Except DecodeError α

namespace Draft

/-- The error for a value of another kind than wanted: a fault inside a simple value comes first. -/
def mismatch : Draft → DecodeError
  | .broken => .malformed
  | .number none => .malformed
  | .string none => .malformed
  | _ => .invalidType

/-- A text. -/
def text : Draft → Decoded String
  | .string (some s) => .ok s
  | d => .error d.mismatch

/-- A truth value. -/
def flag : Draft → Decoded Bool
  | .bool b => .ok b
  | d => .error d.mismatch

/-- A number from zero up to, and not including, the bound. -/
def natural (bound : Nat) : Draft → Decoded Nat
  | .number (some (.integer i)) =>
    if 0 ≤ i ∧ i < bound then .ok i.toNat else .error .invalidValue
  | d => .error d.mismatch

/-- A number of 16 bits. -/
def word16 (d : Draft) : Decoded UInt16 :=
  (d.natural UInt16.size).map UInt16.ofNat

/-- A number of 64 bits. -/
def word64 (d : Draft) : Decoded UInt64 :=
  (d.natural UInt64.size).map UInt64.ofNat

/-- A list. Its items are decoded before its end is looked at. -/
def list {α : Type} (item : Draft → Decoded α) : Draft → Decoded (List α)
  | .array items closed => do
    let as ← items.mapM item
    if closed then .ok as else .error .malformed
  | d => .error d.mismatch

/-- A value that `null` leaves out. -/
def optional {α : Type} (value : Draft → Decoded α) : Draft → Decoded (Option α)
  | .null => .ok none
  | d => (value d).map some

/-- A value that nobody asked for: only its grammar counts. -/
def skip (d : Draft) : Decoded Unit :=
  if d.isWhole then .ok () else .error .malformed

end Draft

/-- What it means that a document has nothing for a field. -/
inductive Presence where
  /-- Something has to be there. -/
  | required
  /-- An object may leave the field out, which says the same as `null`; an array may not. -/
  | nullable
  /-- The field has a default. -/
  | defaulted
  deriving DecidableEq

/-- How a structure is written: its fields in their order, the structure all of whose fields are
absent, and what reading a field changes in it. -/
structure Shape (α : Type) where
  fields : List (String × Presence)
  absent : α
  read : String → Draft → α → Decoded α

namespace Shape

variable {α : Type}

/-- Whether the structure has a field of that name. -/
def hasField (s : Shape α) (name : String) : Bool :=
  s.fields.any (·.1 == name)

/-- The first field that has to be there and is not among those read. -/
def firstMissing? (s : Shape α) (seen : List String) : Option String :=
  (s.fields.find? fun (name, presence) => presence = .required ∧ name ∉ seen).map (·.1)

/-- Reads members in their order; `seen` holds the names of the fields read so far. -/
def readMembers (s : Shape α) :
    List (Option String × Draft) → List String → α → Decoded (α × List String)
  | [], seen, a => .ok (a, seen)
  | (none, _) :: _, _, _ => .error .malformed
  | (some name, d) :: rest, seen, a =>
    if s.hasField name then
      if name ∈ seen then .error (.duplicateField name)
      else do
        let a ← s.read name d a
        s.readMembers rest (name :: seen) a
    else do
      d.skip
      s.readMembers rest seen a

/-- Reads items as the fields in their order. What is left over are the fields without an item
and the items without a field. -/
def readItems (s : Shape α) :
    List (String × Presence) → List Draft → α → Decoded (α × List (String × Presence) × List Draft)
  | (name, _) :: fields, d :: ds, a => do
    let a ← s.read name d a
    s.readItems fields ds a
  | fields, ds, a => .ok (a, fields, ds)

/-- The structure that a draft holds. -/
def decode (s : Shape α) (medium : Medium) : Draft → Decoded α
  | .object members closed => do
    let (a, seen) ← s.readMembers members [] s.absent
    if !closed then .error .malformed
    else
      match s.firstMissing? seen with
      | some name => .error (.missingField name)
      | none => .ok a
  | .array items closed => do
    let (a, unread, extra) ← s.readItems s.fields items s.absent
    match extra, closed with
    | _ :: _, _ =>
      match medium with
      | .text => .error .malformed
      | .value => .error .invalidLength
    | [], false => .error .malformed
    | [], true => if unread.all (·.2 = .defaulted) then .ok a else .error .invalidLength
  | d => .error d.mismatch

end Shape

/-- Decodes a text that holds one value and nothing behind it. -/
def decodeText {α : Type} (value : Draft → Decoded α) (cs : List Text.Symbol) : Decoded α :=
  match Draft.ofSymbols cs with
  | (d, ended) => do
    let a ← value d
    if ended then .ok a else .error .malformed

end ModText.Json
