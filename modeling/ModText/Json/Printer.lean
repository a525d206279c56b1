import ModText.Json.Value

/-!
# Writing JSON

Two layouts: `compact` without any blank, and `pretty` with one item a line and two blanks of
indentation a level, in which an empty array or object stays on its line. Both write a text in the
same way: a quote, a backslash and the characters below 32 are escaped, all others stand for
themselves.
-/

namespace ModText.Json

/-- The decimal digits of a number, at least one. -/
def decimal (n : Nat) : List Char :=
  if n < 10 then [Nat.digitChar n] else decimal (n / 10) ++ [Nat.digitChar (n % 10)]
termination_by n
decreasing_by omega

/-- An integer in decimal, with a sign only if it is negative. -/
def decimalInt : Int → List Char
  | .ofNat n => decimal n
  | .negSucc n => '-' :: decimal (n + 1)

namespace Number

/-- A number as text. -/
def render : Number → List Char
  | .integer i => decimalInt i
  | .real literal => literal.toList

end Number

/-- A character inside quotes. The short escapes come first, then the numbered ones. -/
def escape (c : Char) : List Char :=
  if c = '"' then ['\\', '"']
  else if c = '\\' then ['\\', '\\']
  else if c = '\n' then ['\\', 'n']
  else if c = '\r' then ['\\', 'r']
  else if c = '\t' then ['\\', 't']
  else if c = '\x08' then ['\\', 'b']
  else if c = '\x0c' then ['\\', 'f']
  else if c.toNat < 32 then
    ['\\', 'u', '0', '0', Nat.digitChar (c.toNat / 16), Nat.digitChar (c.toNat % 16)]
  else [c]

/-- A text in quotes. -/
def quoted (s : String) : List Char :=
  '"' :: (s.toList.flatMap escape ++ ['"'])

mutual

/-- The value without blanks. -/
def compact : Json → List Char
  | .null => "null".toList
  | .bool true => "true".toList
  | .bool false => "false".toList
  | .number n => n.render
  | .string s => quoted s
  | .array items => '[' :: (compactItems items ++ [']'])
  | .object members => '{' :: (compactMembers members ++ ['}'])

/-- Items with a comma between any two. -/
def compactItems : List Json → List Char
  | [] => []
  | [j] => compact j
  | j :: rest => compact j ++ ',' :: compactItems rest

/-- Members with a comma between any two. -/
def compactMembers : List (String × Json) → List Char
  | [] => []
  | [(k, v)] => quoted k ++ ':' :: compact v
  | (k, v) :: rest => quoted k ++ ':' :: (compact v ++ ',' :: compactMembers rest)

end

/-- A new line, indented for the given level. -/
def newline (level : Nat) : List Char :=
  '\n' :: List.replicate (2 * level) ' '

mutual

/-- The value with one item a line, as it stands at the given level of nesting. -/
def prettyAt (level : Nat) : Json → List Char
  | .null => "null".toList
  | .bool true => "true".toList
  | .bool false => "false".toList
  | .number n => n.render
  | .string s => quoted s
  | .array items =>
    if items.isEmpty then ['[', ']']
    else '[' :: (prettyItems (level + 1) items ++ newline level ++ [']'])
  | .object members =>
    if members.isEmpty then ['{', '}']
    else '{' :: (prettyMembers (level + 1) members ++ newline level ++ ['}'])

/-- Items, each on a line of its own. -/
def prettyItems (level : Nat) : List Json → List Char
  | [] => []
  | [j] => newline level ++ prettyAt level j
  | j :: rest => newline level ++ prettyAt level j ++ ',' :: prettyItems level rest

/-- Members, each on a line of its own. -/
def prettyMembers (level : Nat) : List (String × Json) → List Char
  | [] => []
  | [(k, v)] => newline level ++ quoted k ++ ':' :: ' ' :: prettyAt level v
  | (k, v) :: rest =>
    newline level ++ quoted k ++ ':' :: ' ' :: (prettyAt level v ++ ',' :: prettyMembers level rest)

end

/-- The value on one line. -/
def toCompact (j : Json) : String :=
  String.ofList (compact j)

/-- The value on as many lines as it has items. -/
def toPretty (j : Json) : String :=
  String.ofList (prettyAt 0 j)

end ModText.Json
