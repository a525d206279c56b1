import ModText.Json.Decoder

/-!
# Categories

The six kinds of text that a mod can hold. Each has a folder of its own in the output. Their order
is fixed, and whatever is selected is worked on in that order.
-/

namespace ModText

/-- A kind of text. -/
inductive Category where
  | items
  | npcs
  | buffs
  | misc
  | tiles
  | customs
  deriving DecidableEq, Inhabited

namespace Category

/-- All categories in their order. -/
def all : List Category :=
  [items, npcs, buffs, misc, tiles, customs]

/-- The name in documents and on the command line. -/
def name : Category → String
  | items => "items"
  | npcs => "npcs"
  | buffs => "buffs"
  | misc => "misc"
  | tiles => "tiles"
  | customs => "customs"

/-- The folder in the output of a mod. -/
def folder : Category → String
  | items => "Items"
  | npcs => "NPCs"
  | buffs => "Buffs"
  | misc => "Misc"
  | tiles => "Tiles"
  | customs => "Customs"

/-- The category of that name. -/
def ofName? (name : String) : Option Category :=
  all.find? (·.name == name)

/-- The selected categories in their order, each once. -/
def select (selection : List Category) : List Category :=
  all.filter (selection.contains ·)

open Json (Draft Decoded Medium)

/-- The category of that name, or the error that lists the names. -/
def ofName (name : String) : Decoded Category :=
  match ofName? name with
  | some c => .ok c
  | none => .error (.unknownVariant name (all.map Category.name))

/-- A category: its name, or an object with nothing but `null` under its name. -/
def decode (medium : Medium) : Draft → Decoded Category
  | .string (some name) => ofName name
  | .object members closed =>
    match medium, members with
    | .text, (some name, d) :: rest => do
      let c ← ofName name
      unit d
      if rest.isEmpty && closed then .ok c else .error .malformed
    | .value, [(some name, d)] => do
      let c ← ofName name
      unit d
      return c
    | .text, _ => .error .malformed
    | .value, _ => .error .invalidValue
  | d =>
    match medium with
    | .text => .error .malformed
    | .value => .error d.mismatch
where
  unit : Draft → Decoded Unit
    | .null => .ok ()
    | d => .error d.mismatch

end Category

end ModText
