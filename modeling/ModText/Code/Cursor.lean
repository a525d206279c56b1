import ModText.Code.Instruction

/-!
# Cursors

Looking around in a stream of instructions by position. A position outside the stream answers
nothing. Positions are machine words: a cursor may be placed anywhere in the unsigned range and
looks around by signed offsets, so a position from the upper half of the range counts as negative,
and a sum or difference that leaves the signed range is an overflow.
-/

namespace ModText

/-- An operation whose result is no machine word. -/
inductive Overflow where
  | add
  | subtract
  deriving DecidableEq

namespace Overflow

/-- The overflow in words. -/
def message : Overflow → String
  | .add => "attempt to add with overflow"
  | .subtract => "attempt to subtract with overflow"

end Overflow

/-- The instruction at a position, if it is inside the stream. -/
def instructionAt? (instructions : List Instruction) : Int → Option Instruction
  | .ofNat i => instructions[i]?
  | .negSucc _ => none

/-- A place in a stream of instructions, in front of the next one. -/
structure Cursor where
  instructions : List Instruction
  next : UInt64
  deriving DecidableEq

namespace Cursor

/-- The cursor whose first advance lands on that position. -/
def startingAt (instructions : List Instruction) (position : UInt64) : Cursor :=
  ⟨instructions, position⟩

/-- The cursor in front of all instructions. -/
def atStart (instructions : List Instruction) : Cursor :=
  startingAt instructions 0

/-- Steps onto the next instruction, if there is one; the answer tells its position, too. -/
def advance (c : Cursor) : Option (UInt64 × Instruction) × Cursor :=
  match c.instructions[c.next.toNat]? with
  | some i => (some (c.next, i), { c with next := c.next + 1 })
  | none => (none, c)

/-- The position of the instruction the cursor stands on; none in front of all instructions. -/
def position? (c : Cursor) : Option UInt64 :=
  if c.next = 0 then none else some (c.next - 1)

/-- The instruction at that distance from the one the cursor stands on. -/
def peek (c : Cursor) (offset : Int64) : Except Overflow (Option Instruction) :=
  match c.position? with
  | none => .ok none
  | some position =>
    let target := position.toInt64.toInt + offset.toInt
    if Int64.minValue.toInt ≤ target ∧ target ≤ Int64.maxValue.toInt then .ok (instructionAt? c.instructions target)
    else .error .add

end Cursor

end ModText
