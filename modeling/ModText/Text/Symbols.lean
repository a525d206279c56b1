/-!
# Bytes as characters

A text arrives as bytes, and some of them may encode no character. Reading keeps every character
that is there and marks each byte that belongs to none, so a reader of the text can go on past
damage that turns out not to matter. A byte below 128 is always read as the character of that
number: no damage around it can hide it.
-/

namespace ModText.Text

/-- A character, or `none` for a byte that is part of no encoded character. -/
abbrev Symbol := Option Char

/-- The symbols from position `i` on, in front of which `read` has been read, last symbol first. -/
def symbolsFrom (bytes : ByteArray) (i : Nat) (read : List Symbol) : List Symbol :=
  if i < bytes.size then
    match bytes.utf8DecodeChar? i with
    | some c => symbolsFrom bytes (i + c.utf8Size) (some c :: read)
    | none => symbolsFrom bytes (i + 1) (none :: read)
  else
    read.reverse
termination_by bytes.size - i
decreasing_by
  · have := c.utf8Size_pos
    omega
  · omega

/-- All symbols of a sequence of bytes. -/
def symbols (bytes : ByteArray) : List Symbol :=
  symbolsFrom bytes 0 []

/-- The symbols of a text that is known to be one: its characters. -/
def symbolsOf (s : String) : List Symbol :=
  s.toList.map some

theorem size_utf8Encode_append (front : List Char) (c : Char) :
    (front ++ [c]).utf8Encode.size = front.utf8Encode.size + c.utf8Size := by
  rw [List.utf8Encode_append, ByteArray.size_append, List.utf8Encode_singleton]
  simp

theorem symbolsFrom_utf8Encode (front cs : List Char) (read : List Symbol) :
    symbolsFrom (front ++ cs).utf8Encode front.utf8Encode.size read =
      read.reverse ++ cs.map some := by
  induction cs generalizing front read with
  | nil =>
    rw [symbolsFrom, if_neg (by simp)]
    simp
  | cons c cs ih =>
    have hrest : (front ++ c :: cs).utf8Encode.extract front.utf8Encode.size
        (front ++ c :: cs).utf8Encode.size = (c :: cs).utf8Encode := by
      rw [List.utf8Encode_append, ByteArray.size_append]
      exact ByteArray.extract_append_eq_right rfl rfl
    have hdecode : (front ++ c :: cs).utf8Encode.utf8DecodeChar? front.utf8Encode.size = some c := by
      rw [ByteArray.utf8DecodeChar?_eq_utf8DecodeChar?_extract, hrest]
      exact List.utf8DecodeChar?_utf8Encode_cons
    have hlt : front.utf8Encode.size < (front ++ c :: cs).utf8Encode.size :=
      ByteArray.lt_size_of_isSome_utf8DecodeChar? (by rw [hdecode]; rfl)
    have hstep := ih (front ++ [c]) (some c :: read)
    rw [size_utf8Encode_append, List.append_assoc] at hstep
    rw [symbolsFrom, if_pos hlt, hdecode]
    exact hstep.trans (by simp)

/-- The bytes of a text are read as its characters. -/
theorem symbols_toUTF8 (s : String) : symbols s.toUTF8 = symbolsOf s := by
  have h := symbolsFrom_utf8Encode [] s.toList []
  rw [List.nil_append, String.utf8Encode_toList] at h
  exact h

end ModText.Text
