import ModText.Text.Symbols
import ModText.Json.Draft
import ModText.Json.Range

/-!
# Reading JSON

`Draft.ofSymbols` reads the one value a text holds. The grammar is that of the format: blanks are
the four ASCII ones, a number has no leading zero, digits on both sides of its point and digits
in its exponent, a text holds no character below 32. A text may hold escapes; two numbered escapes
that form a surrogate pair are one character, and a surrogate without its partner is none.
-/

namespace ModText.Json

open Text (Symbol)

/-- Blanks may stand between any two parts of a value. -/
def isBlank (s : Symbol) : Bool :=
  s == some ' ' || s == some '\n' || s == some '\t' || s == some '\r'

/-- The symbols behind any blanks. -/
def skipBlanks (cs : List Symbol) : List Symbol :=
  cs.dropWhile isBlank

/-- The symbols behind a word that has to come next. -/
def expect? : List Char → List Symbol → Option (List Symbol)
  | [], cs => some cs
  | w :: ws, some c :: cs => if w = c then expect? ws cs else none
  | _ :: _, _ => none

/-! ## Numbers -/

/-- Whether the symbol is a decimal digit. -/
def isDigit (s : Symbol) : Bool :=
  s.any Char.isDigit

/-- The digits that come next, and what follows them. -/
def digits (cs : List Symbol) : List Char × List Symbol :=
  ((cs.takeWhile isDigit).filterMap id, cs.dropWhile isDigit)

/-- The parts of a number as it is written. -/
structure Numeral where
  negative : Bool
  whole : List Char
  /-- The digits behind the point, if there is a point. -/
  fraction : Option (List Char)
  /-- The mark, the sign if there is one, and the digits of the exponent. -/
  exponent : Option (Char × Option Char × List Char)
  deriving DecidableEq

namespace Numeral

/-- The text of the number. -/
def render (n : Numeral) : List Char :=
  (if n.negative then ['-'] else []) ++ n.whole ++
    (match n.fraction with
      | some ds => '.' :: ds
      | none => []) ++
    (match n.exponent with
      | some (mark, sign, ds) => mark :: (sign.toList ++ ds)
      | none => [])

/-- The exponent as an integer, zero if none is written. -/
def power (n : Numeral) : Int :=
  match n.exponent with
  | none => 0
  | some (_, some '-', ds) => -(ofDigits ds)
  | some (_, _, ds) => ofDigits ds

/-- The integer that is written, unless there is a point, an exponent or a negative zero. -/
def integer? (n : Numeral) : Option Int :=
  match n.fraction, n.exponent with
  | none, none =>
    if n.negative then
      if ofDigits n.whole = 0 then none else some (-(ofDigits n.whole))
    else some (ofDigits n.whole)
  | _, _ => none

/-- The number that is written: an integer if it is one of 64 bits, a real number if it is not and
can be held, nothing if it is too large. -/
def number? (n : Numeral) : Option Number :=
  match n.integer? with
  | some i =>
    if IsWord i then some (.integer i)
    else real
  | none => real
where
  real : Option Number :=
    if (Assembled.ofParts n.whole (n.fraction.getD []) n.power).isFinite then
      some (.real (String.ofList n.render))
    else none

/-- Reads what may stand behind the digits in front of the point: a point with digits. -/
def readFraction? : List Symbol → Option (Option (List Char) × List Symbol)
  | some '.' :: cs =>
    let (ds, rest) := digits cs
    if ds.isEmpty then none else some (some ds, rest)
  | cs => some (none, cs)

/-- Reads the sign of an exponent. -/
def readSign : List Symbol → Option Char × List Symbol
  | some '+' :: cs => (some '+', cs)
  | some '-' :: cs => (some '-', cs)
  | cs => (none, cs)

/-- Reads an exponent, if one comes next. -/
def readExponent? : List Symbol → Option (Option (Char × Option Char × List Char) × List Symbol)
  | some c :: cs =>
    if c = 'e' ∨ c = 'E' then
      let (sign, cs) := readSign cs
      let (ds, rest) := digits cs
      if ds.isEmpty then none else some (some (c, sign, ds), rest)
    else some (none, some c :: cs)
  | cs => some (none, cs)

/-- Reads the number without its sign. A leading zero is all there is in front of the point. -/
def readUnsigned? (negative : Bool) (cs : List Symbol) : Option (Numeral × List Symbol) :=
  let (whole, rest) := digits cs
  if whole.isEmpty || (whole.head? == some '0' && whole.length != 1) then none
  else do
    let (fraction, rest) ← readFraction? rest
    let (exponent, rest) ← readExponent? rest
    return (⟨negative, whole, fraction, exponent⟩, rest)

/-- Reads a number. -/
def read? : List Symbol → Option (Numeral × List Symbol)
  | some '-' :: cs => readUnsigned? true cs
  | cs => readUnsigned? false cs

end Numeral

/-! ## Texts -/

/-- A part of a text between quotes. -/
inductive Piece where
  | char (c : Char)
  /-- The number of a numbered escape. -/
  | unit (n : Nat)
  /-- A byte that belongs to no character. -/
  | blot
  deriving DecidableEq

/-- The value of a hexadecimal digit. -/
def hexValue? (c : Char) : Option Nat :=
  if '0' ≤ c ∧ c ≤ '9' then some (c.toNat - '0'.toNat)
  else if 'a' ≤ c ∧ c ≤ 'f' then some (c.toNat - 'a'.toNat + 10)
  else if 'A' ≤ c ∧ c ≤ 'F' then some (c.toNat - 'A'.toNat + 10)
  else none

/-- The number that four hexadecimal digits denote. -/
def hexNumber? (a b c d : Char) : Option Nat := do
  let a ← hexValue? a
  let b ← hexValue? b
  let c ← hexValue? c
  let d ← hexValue? d
  return ((a * 16 + b) * 16 + c) * 16 + d

/-- The character that a one-letter escape stands for. -/
def unescape? : Char → Option Char
  | '"' => some '"'
  | '\\' => some '\\'
  | '/' => some '/'
  | 'b' => some '\x08'
  | 'f' => some '\x0c'
  | 'n' => some '\n'
  | 'r' => some '\r'
  | 't' => some '\t'
  | _ => none

/-- Reads a text up to its closing quote; `read` holds the pieces read so far, last one first. -/
def readPieces? (read : List Piece) : List Symbol → Option (List Piece × List Symbol)
  | [] => none
  | some '"' :: cs => some (read.reverse, cs)
  | some '\\' :: some 'u' :: some a :: some b :: some c :: some d :: cs =>
    match hexNumber? a b c d with
    | some n => readPieces? (.unit n :: read) cs
    | none => none
  | some '\\' :: some e :: cs =>
    match unescape? e with
    | some c => readPieces? (.char c :: read) cs
    | none => none
  | some '\\' :: _ => none
  | some c :: cs => if c.toNat < 32 then none else readPieces? (.char c :: read) cs
  | none :: cs => readPieces? (.blot :: read) cs

/-- Whether the number of an escape announces a second one. -/
def isHighSurrogate (n : Nat) : Bool :=
  decide (0xD800 ≤ n ∧ n ≤ 0xDBFF)

/-- Whether the number of an escape completes one in front of it. -/
def isLowSurrogate (n : Nat) : Bool :=
  decide (0xDC00 ≤ n ∧ n ≤ 0xDFFF)

/-- The characters of the pieces, if each piece is part of one. -/
def charsOf? : List Piece → Option (List Char)
  | [] => some []
  | .char c :: rest => (charsOf? rest).map (c :: ·)
  | .blot :: _ => none
  | .unit h :: .unit l :: rest =>
    if isHighSurrogate h then
      if isLowSurrogate l then
        (charsOf? rest).map (Char.ofNat (0x10000 + (h - 0xD800) * 0x400 + (l - 0xDC00)) :: ·)
      else none
    else if isLowSurrogate h then none
    else (charsOf? (.unit l :: rest)).map (Char.ofNat h :: ·)
  | .unit n :: rest =>
    if isHighSurrogate n || isLowSurrogate n then none
    else (charsOf? rest).map (Char.ofNat n :: ·)

/-- The text that the pieces make up. -/
def textOf? (pieces : List Piece) : Option String :=
  (charsOf? pieces).map String.ofList

/-! ## Values -/

namespace Draft

/-- The draft of a value that is one word. -/
def ofWord (word : String) (value : Draft) (cs : List Symbol) : Draft × Option (List Symbol) :=
  match expect? word.toList cs with
  | some rest => (value, some rest)
  | none => (.broken, none)

mutual

/-- Reads a value. The second part is what follows it, or nothing if a fault ended the reading.
The number bounds the depth of the calls. -/
def read : Nat → List Symbol → Draft × Option (List Symbol)
  | 0, _ => (.broken, none)
  | fuel + 1, cs =>
    match skipBlanks cs with
    | some '[' :: rest =>
      match skipBlanks rest with
      | some ']' :: rest => (.array [] true, some rest)
      | rest =>
        let (items, rest) := readItems fuel rest
        (.array items rest.isSome, rest)
    | some '{' :: rest =>
      match skipBlanks rest with
      | some '}' :: rest => (.object [] true, some rest)
      | rest =>
        let (members, rest) := readMembers fuel rest
        (.object members rest.isSome, rest)
    | some '"' :: rest =>
      match readPieces? [] rest with
      | some (pieces, rest) => (.string (textOf? pieces), some rest)
      | none => (.broken, none)
    | some 'n' :: rest => ofWord "ull" .null rest
    | some 't' :: rest => ofWord "rue" (.bool true) rest
    | some 'f' :: rest => ofWord "alse" (.bool false) rest
    | rest =>
      match Numeral.read? rest with
      | some (n, rest) => (.number n.number?, some rest)
      | none => (.broken, none)

/-- Reads items up to the closing bracket. -/
def readItems : Nat → List Symbol → List Draft × Option (List Symbol)
  | 0, _ => ([], none)
  | fuel + 1, cs =>
    match read fuel cs with
    | (d, none) => ([d], none)
    | (d, some rest) =>
      match skipBlanks rest with
      | some ',' :: rest =>
        let (ds, rest) := readItems fuel rest
        (d :: ds, rest)
      | some ']' :: rest => ([d], some rest)
      | _ => ([d], none)

/-- Reads members up to the closing brace. -/
def readMembers : Nat → List Symbol → List (Option String × Draft) × Option (List Symbol)
  | 0, _ => ([], none)
  | fuel + 1, cs =>
    match skipBlanks cs with
    | some '"' :: rest =>
      match readPieces? [] rest with
      | none => ([], none)
      | some (pieces, rest) =>
        let name := textOf? pieces
        match skipBlanks rest with
        | some ':' :: rest =>
          match read fuel rest with
          | (d, none) => ([(name, d)], none)
          | (d, some rest) =>
            match skipBlanks rest with
            | some ',' :: rest =>
              let (ms, rest) := readMembers fuel rest
              ((name, d) :: ms, rest)
            | some '}' :: rest => ([(name, d)], some rest)
            | _ => ([(name, d)], none)
        | _ => ([(name, .broken)], none)
    | _ => ([], none)

end

/-- Reads a text that holds one value, and tells whether nothing but blanks follows it. -/
def ofSymbols (cs : List Symbol) : Draft × Bool :=
  let (d, rest) := read (2 * cs.length + 2) cs
  (d, rest.any fun rest => (skipBlanks rest).isEmpty)

end Draft

/-- The value that a faultless text holds. -/
def parse? (cs : List Symbol) : Option Json :=
  match Draft.ofSymbols cs with
  | (d, true) => d.settle? cs.length
  | (_, false) => none

end ModText.Json
