/-!
# The range of written numbers

A decimal number is held as a double-precision value, and one that is too large for that is no
number at all. What decides is not the written value but how it is assembled: the digits that fit
in a 64-bit word make a whole number, each digit left out in front of the point counts one power
of ten up and each digit taken behind it one down, and the word and the power of ten are rounded
to 53 bits before they are multiplied. `Assembled.isFinite` computes this without fractions.
-/

namespace ModText.Json

/-- The value of a digit character. -/
def digitValue (c : Char) : Nat :=
  c.toNat - '0'.toNat

/-- Appends digits to a number for as long as it stays below `UInt64.size`; the second part
tells how many were taken. -/
def takeDigits (n : Nat) : List Char → Nat × Nat
  | [] => (n, 0)
  | d :: rest =>
    if n * 10 + digitValue d < UInt64.size then
      let (m, taken) := takeDigits (n * 10 + digitValue d) rest
      (m, taken + 1)
    else (n, 0)

/-- The number that digits denote. -/
def ofDigits (ds : List Char) : Nat :=
  ds.foldl (fun n d => n * 10 + digitValue d) 0

/-- The nearest number of 53 significant bits; of two equally near ones, the even one. -/
def round53 (n : Nat) : Nat :=
  if n < 1 <<< 53 then n
  else
    let unit := 1 <<< (n.log2 - 52)
    let q := n / unit
    let r := n % unit
    if 2 * r < unit then q * unit
    else if unit < 2 * r then (q + 1) * unit
    else (q + q % 2) * unit

/-- A whole number times a power of ten. -/
structure Assembled where
  significand : Nat
  exponent : Int

namespace Assembled

/-- The number with these digits in front of the point, these behind it and this exponent. -/
def ofParts (whole fraction : List Char) (exponent : Int) : Assembled :=
  let (n, taken) := takeDigits 0 whole
  let (m, behind) := takeDigits n fraction
  ⟨m, (whole.length - taken : Nat) - (behind : Int) + exponent⟩

/-- Whether a double-precision value can hold the number. Powers of ten above the 308th are too
large for anything but zero; below zero they only make a number smaller. -/
def isFinite (a : Assembled) : Bool :=
  a.significand == 0 ||
    match a.exponent with
    | .negSucc _ => true
    | .ofNat e =>
      decide (e ≤ 308) &&
        decide (round53 a.significand * round53 (Nat.pow 10 e) < 1 <<< 1024 - 1 <<< 970)

end Assembled

end ModText.Json
