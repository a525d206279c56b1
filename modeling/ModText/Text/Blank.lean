/-!
# Blanks and lines

White space is what Unicode calls so, on every place where a text is trimmed or asked to hold
something. A line ends with a line feed, to which a carriage return right in front of it belongs;
the last line may lack its end.
-/

namespace ModText.Text

/-- Whether the character has the property White_Space. -/
def isBlank (c : Char) : Bool :=
  ranges.any fun (first, last) => first ≤ c.toNat && c.toNat ≤ last
where
  ranges : List (Nat × Nat) :=
    [(0x9, 0xD), (0x20, 0x20), (0x85, 0x85), (0xA0, 0xA0), (0x1680, 0x1680), (0x2000, 0x200A),
      (0x2028, 0x2029), (0x202F, 0x202F), (0x205F, 0x205F), (0x3000, 0x3000)]

/-- The characters without the blanks at both ends. -/
def trim (cs : List Char) : List Char :=
  ((cs.dropWhile isBlank).reverse.dropWhile isBlank).reverse

/-- Whether a text holds nothing but blanks. -/
def isEmptyish (s : String) : Bool :=
  s.toList.all isBlank

/-- The lines of a text, without their ends. -/
def lines : List Char → List (List Char)
  | [] => []
  | '\n' :: rest => [] :: lines rest
  | '\r' :: '\n' :: rest => [] :: lines rest
  | c :: rest =>
    match lines rest with
    | [] => [[c]]
    | l :: ls => (c :: l) :: ls

end ModText.Text
