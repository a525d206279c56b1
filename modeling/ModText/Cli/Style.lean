/-!
# Styles

Parts of a report are set off by colours and weights if the report is to be coloured. A style ends
where its part ends; a part that happens to end a style inside gets its own style again there.
-/

namespace ModText.Cli

/-- A colour or a weight. -/
inductive Style where
  | bold
  | dimmed
  | red
  | green
  | cyan
  | boldGreen
  | boldYellow
  deriving DecidableEq, Inhabited

namespace Style

/-- The number or numbers of a style. -/
def code : Style → String
  | .bold => "1"
  | .dimmed => "2"
  | .red => "31"
  | .green => "32"
  | .cyan => "36"
  | .boldGreen => "1;32"
  | .boldYellow => "1;33"

/-- The characters that begin a style. -/
def start (s : Style) : List Char :=
  '\x1b' :: '[' :: (s.code.toList ++ ['m'])

/-- The characters that end all styles. -/
def stop : List Char :=
  ['\x1b', '[', '0', 'm']

/-- A part of a report, with its style again behind each end of a style in it. -/
def resume (s : Style) : List Char → List Char
  | '\x1b' :: '[' :: '0' :: 'm' :: rest => stop ++ s.start ++ resume s rest
  | c :: rest => c :: resume s rest
  | [] => []

/-- A part of a report in a style, if the report is to be coloured. -/
def paint (colored : Bool) (s : Style) (text : String) : String :=
  if colored then String.ofList (s.start ++ s.resume text.toList ++ stop) else text

end Style

end ModText.Cli
