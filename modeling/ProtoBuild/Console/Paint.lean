import ProtoBuild.Operation

/-!
# Colours

A `Painter` puts the codes of a colour around a text, or leaves the text alone.
-/

namespace ProtoBuild

/-- Whether texts are coloured. -/
structure Painter where
  enabled : Bool
  deriving DecidableEq, Repr

namespace Painter

/-- A text in the colour of a code. -/
def paint (p : Painter) (code : Nat) (text : String) : String :=
  if p.enabled then "\x1b[38;5;" ++ toString code ++ "m" ++ text ++ "\x1b[0m" else text

/-- The colour of headings. -/
def header (p : Painter) (text : String) : String := p.paint 74 text

/-- The colour of the lines of a tool. -/
def muted (p : Painter) (text : String) : String := p.paint 240 text

/-- The colour of a verdict: green, yellow or red. -/
def colour : Verdict → Nat
  | .succeeded => 114
  | .partialSuccess | .cancelled => 179
  | .failed => 167

/-- A verdict in its colour. -/
def verdict (p : Painter) (v : Verdict) : String := p.paint (colour v) v.text

end Painter
end ProtoBuild
