import ModText.Code.Instruction

/-!
# Sites

A site is an instruction together with what surrounds it in its stream: the instructions before it,
nearest first, and those after it. Idioms are recognised at a site by what stands next to it, so no
idiom depends on where in a method it is found, and outside the stream there is nothing to match.
-/

namespace ModText

/-- An instruction with its surroundings. -/
structure Site where
  /-- The instructions in front of it, nearest first. -/
  before : List Instruction
  here : Instruction
  /-- The instructions behind it. -/
  after : List Instruction
  deriving DecidableEq

namespace Site

/-- The sites of a stream in front of which the given instructions stand, nearest first. -/
def sitesFrom (before : List Instruction) : List Instruction → List Site
  | [] => []
  | i :: rest => ⟨before, i, rest⟩ :: sitesFrom (i :: before) rest

/-- The instruction in front of this one. -/
def previous? (s : Site) : Option Instruction :=
  s.before.head?

/-- The instruction behind this one. -/
def next? (s : Site) : Option Instruction :=
  s.after.head?

end Site

/-- All sites of a stream. -/
def sites (instructions : List Instruction) : List Site :=
  Site.sitesFrom [] instructions

end ModText
