/-!
# Glob patterns

A pattern describes relative paths. `?` stands for any character and `*` for any run of characters,
the separator among them. `**` is a component of its own and stands for any run of components.
`[…]` stands for one character of a set and `[!…]` for one outside of it; a set holds at least one
character, so a bracket right at its beginning is one of its characters, and `a-z` is a range. There
are no escapes.
-/

namespace ModText.Glob

/-- A member of a set of characters. -/
inductive CharRange where
  | single (c : Char)
  | span (first last : Char)
  deriving DecidableEq

namespace CharRange

/-- Whether the character is in the range. -/
def holds (c : Char) : CharRange → Bool
  | .single d => c == d
  | .span first last => first ≤ c && c ≤ last

/-- The ranges that the inside of a set consists of. A dash is a range only between two others. -/
def parse : List Char → List CharRange
  | first :: '-' :: last :: rest => .span first last :: parse rest
  | c :: rest => .single c :: parse rest
  | [] => []

end CharRange

/-- A part of a pattern. -/
inductive Token where
  | char (c : Char)
  | anyChar
  /-- Any run of characters. -/
  | anyRun
  /-- Any run of whole components. -/
  | anyTree
  | within (ranges : List CharRange)
  | except (ranges : List CharRange)
  deriving DecidableEq

/-- What is wrong with a pattern. -/
inductive Fault where
  /-- Three or more stars in a row. -/
  | wildcards
  /-- Two stars that are not a component of their own. -/
  | recursiveWildcards
  /-- A bracket that opens no set. -/
  | range
  deriving DecidableEq

/-- A fault and its place, counted in characters. -/
structure PatternError where
  position : Nat
  fault : Fault
  deriving DecidableEq

namespace PatternError

/-- The error in words. -/
def message (e : PatternError) : String :=
  "Pattern syntax error near position " ++ toString e.position ++ ": " ++
    match e.fault with
    | .wildcards => "wildcards are either regular `*` or recursive `**`"
    | .recursiveWildcards => "recursive wildcards must form a single path component"
    | .range => "invalid range pattern"

end PatternError

/-- The inside of a set, at least one character, and what follows the bracket that closes it. -/
def splitSet? : List Char → Option (List Char × List Char)
  | [] => none
  | c :: rest =>
    match rest.dropWhile (· ≠ ']') with
    | [] => none
    | _ :: behind => some (c :: rest.takeWhile (· ≠ ']'), behind)

theorem splitSet?_length {cs inside behind : List Char}
    (h : splitSet? cs = some (inside, behind)) : behind.length < cs.length := by
  cases cs with
  | nil => simp [splitSet?] at h
  | cons c rest =>
    have hdrop := (List.dropWhile_sublist (l := rest) (· ≠ ']')).length_le
    rw [splitSet?] at h
    split at h
    · simp at h
    · rename_i hrest
      simp only [Option.some.injEq, Prod.mk.injEq] at h
      rw [hrest, List.length_cons] at hdrop
      rw [← h.2, List.length_cons]
      omega

/-- The tokens with a run of components behind them. Of two such runs in a row the second says
nothing new; it is left out, but not right behind a first token. -/
def pushTree (tokens : List Token) : List Token :=
  if 1 < tokens.length && tokens.head? == some .anyTree then tokens else .anyTree :: tokens

/-- Parses the rest of a pattern. The tokens in front of it come last one first, with the position
of the rest and the character in front of it. -/
def parseFrom (tokens : List Token) (position : Nat) (previous : Option Char) (cs : List Char) :
    Except PatternError (List Token) :=
  match cs with
  | [] => .ok tokens.reverse
  | '?' :: rest => parseFrom (.anyChar :: tokens) (position + 1) (some '?') rest
  | '*' :: '*' :: '*' :: _ => .error ⟨position + 2, .wildcards⟩
  | '*' :: '*' :: rest =>
    if previous.all (· == '/') then
      match rest with
      | [] => .ok (pushTree tokens).reverse
      | '/' :: rest => parseFrom (pushTree tokens) (position + 3) (some '/') rest
      | _ :: _ => .error ⟨position + 2, .recursiveWildcards⟩
    else .error ⟨position - 1, .recursiveWildcards⟩
  | '*' :: rest => parseFrom (.anyRun :: tokens) (position + 1) (some '*') rest
  | '[' :: '!' :: rest =>
    match h : splitSet? rest with
    | some (inside, behind) =>
      parseFrom (.except (CharRange.parse inside) :: tokens) (position + inside.length + 3)
        (some ']') behind
    | none => .error ⟨position, .range⟩
  | '[' :: rest =>
    match h : splitSet? rest with
    | some (inside, behind) =>
      parseFrom (.within (CharRange.parse inside) :: tokens) (position + inside.length + 2)
        (some ']') behind
    | none => .error ⟨position, .range⟩
  | c :: rest => parseFrom (.char c :: tokens) (position + 1) (some c) rest
termination_by cs.length
decreasing_by
  · exact Nat.lt_succ_self _
  · simp only [List.length_cons]
    omega
  · exact Nat.lt_succ_self _
  · have hshorter := splitSet?_length h
    simp only [List.length_cons]
    omega
  · have hshorter := splitSet?_length h
    simp only [List.length_cons]
    omega
  · exact Nat.lt_succ_self _

/-- The tokens of a pattern. -/
def parse (pattern : String) : Except PatternError (List Token) :=
  parseFrom [] 0 none pattern.toList

namespace Token

/-- Whether a token that stands for one character stands for this one. -/
def accepts (c : Char) : Token → Bool
  | .char d => c == d
  | .anyChar => true
  | .within ranges => ranges.any (·.holds c)
  | .except ranges => !ranges.any (·.holds c)
  | .anyRun => false
  | .anyTree => false

end Token

/-- What is left of a path behind any run of its characters. -/
def behindRun : List Char → List (List Char)
  | [] => [[]]
  | c :: rest => (c :: rest) :: behindRun rest

/-- What is left of a path behind the separators in it, and behind all of it. -/
def behindSeparators : List Char → List (List Char)
  | [] => [[]]
  | c :: rest => if c = '/' then rest :: behindSeparators rest else behindSeparators rest

/-- What is left of a path behind any run of its components. -/
def behindTree (cs : List Char) : List (List Char) :=
  cs :: behindSeparators cs

/-- Whether the tokens describe the whole path. -/
def matchesChars : List Token → List Char → Bool
  | [], cs => cs.isEmpty
  | .anyRun :: tokens, cs => (behindRun cs).any (matchesChars tokens)
  | .anyTree :: tokens, cs => (behindTree cs).any (matchesChars tokens)
  | _ :: _, [] => false
  | t :: tokens, c :: cs => t.accepts c && matchesChars tokens cs

/-!
## Rows

`matchesChars` asks the same question about the same end of a path again and again. A row holds
the answers for all ends of a path, from the whole path to nothing, and the row of some tokens is
worked out from the row of all but the first of them in one pass. So the time a pattern takes is
bounded by its length times that of the path.
-/

/-- The row behind a token that stands for one character, from the row of the other tokens. -/
def charRow (t : Token) : List Char → List Bool → List Bool
  | c :: cs, _ :: row => (t.accepts c && row.headD false) :: charRow t cs row
  | _, _ => [false]

/-- The row behind a run of characters. -/
def runRow : List Bool → List Bool
  | [] => []
  | b :: row =>
    let ends := runRow row
    (b || ends.headD false) :: ends

/-- Of each end of a path, whether something behind a separator in it, or behind all of it, is
described. -/
def separatorRow : List Char → List Bool → List Bool
  | c :: cs, _ :: row =>
    let ends := separatorRow cs row
    ((c = '/' && row.headD false) || ends.headD false) :: ends
  | _, row => row

/-- The row behind a run of components. -/
def treeRow (cs : List Char) (row : List Bool) : List Bool :=
  List.zipWith (· || ·) row (separatorRow cs row)

/-- Of each end of a path, the longest first, whether the tokens describe it. -/
def matchesEnds : List Token → List Char → List Bool
  | [], cs => (behindRun cs).map List.isEmpty
  | .anyRun :: tokens, cs => runRow (matchesEnds tokens cs)
  | .anyTree :: tokens, cs => treeRow cs (matchesEnds tokens cs)
  | t :: tokens, cs => charRow t cs (matchesEnds tokens cs)

theorem behindRun_eq_cons (cs : List Char) : behindRun cs = cs :: (behindRun cs).tail := by
  cases cs <;> rfl

theorem headD_map_behindRun (f : List Char → Bool) (cs : List Char) :
    ((behindRun cs).map f).headD false = f cs := by
  rw [behindRun_eq_cons]
  rfl

theorem charRow_map (t : Token) (f g : List Char → Bool) (hnil : g [] = false)
    (hcons : ∀ c cs, g (c :: cs) = (t.accepts c && f cs)) (cs : List Char) :
    charRow t cs ((behindRun cs).map f) = (behindRun cs).map g := by
  induction cs with
  | nil => simp [behindRun, charRow, hnil]
  | cons c cs ih =>
    simp only [behindRun, List.map_cons, charRow, headD_map_behindRun, ih, hcons]

theorem runRow_map (f : List Char → Bool) (cs : List Char) :
    runRow ((behindRun cs).map f) = (behindRun cs).map fun e => (behindRun e).any f := by
  induction cs with
  | nil => simp [behindRun, runRow]
  | cons c cs ih =>
    simp only [behindRun, List.map_cons, runRow, ih, headD_map_behindRun, List.any_cons]

theorem separatorRow_map (f : List Char → Bool) (cs : List Char) :
    separatorRow cs ((behindRun cs).map f) =
      (behindRun cs).map fun e => (behindSeparators e).any f := by
  induction cs with
  | nil => simp [behindRun, separatorRow, behindSeparators]
  | cons c cs ih =>
    simp only [behindRun, List.map_cons, separatorRow, ih, headD_map_behindRun, behindSeparators]
    by_cases hc : c = '/' <;> simp [hc]

theorem treeRow_map (f : List Char → Bool) (cs : List Char) :
    treeRow cs ((behindRun cs).map f) = (behindRun cs).map fun e => (behindTree e).any f := by
  rw [treeRow, separatorRow_map, List.zipWith_map]
  simp [behindTree, List.zipWith_self]

/-- A row answers what it says it does. -/
theorem matchesEnds_eq (tokens : List Token) (cs : List Char) :
    matchesEnds tokens cs = (behindRun cs).map (matchesChars tokens) := by
  fun_induction matchesEnds tokens cs with
  | case1 cs => exact List.map_congr_left fun e _ => by rw [matchesChars]
  | case2 tokens cs ih =>
    rw [ih, runRow_map]
    exact List.map_congr_left fun e _ => by rw [matchesChars]
  | case3 tokens cs ih =>
    rw [ih, treeRow_map]
    exact List.map_congr_left fun e _ => by rw [matchesChars]
  | case4 t tokens cs hrun htree ih =>
    rw [ih]
    exact charRow_map t _ _ (by rw [matchesChars] <;> assumption)
      (fun c cs => by rw [matchesChars] <;> assumption) cs

/-- Whether the tokens describe the path. -/
def describes (tokens : List Token) (path : String) : Bool :=
  (matchesEnds tokens path.toList).headD false

theorem describes_eq (tokens : List Token) (path : String) :
    describes tokens path = matchesChars tokens path.toList := by
  rw [describes, matchesEnds_eq, headD_map_behindRun]

end ModText.Glob
