import Scriptlet.Diagnostic

/-! # Colours

Texts for a terminal are wrapped in escape sequences; with colours off they stay as they are.
-/
namespace Scriptlet

inductive Color where
  | red
  | green
  | yellow
  | grey
  | bold
  deriving DecidableEq, Repr

/-- The number that switches a colour on. -/
def Color.code : Color → Bytes
  | .red => utf8 "31"
  | .green => utf8 "32"
  | .yellow => utf8 "33"
  | .grey => utf8 "90"
  | .bold => utf8 "1"

structure Palette where
  enabled : Bool
  deriving DecidableEq, Repr

namespace Palette

def paint (p : Palette) (color : Color) (text : Bytes) : Bytes :=
  if p.enabled then utf8 "\x1b[" ++ color.code ++ utf8 "m" ++ text ++ utf8 "\x1b[0m" else text

/-- Problems of a running program are red, all others yellow. -/
def diagnostic (p : Palette) (d : Diagnostic) : Bytes :=
  p.paint (if d.stage = .runtime then .red else .yellow) d.render

/-- A list of diagnostics, one after the other, each ended by a line end. -/
def diagnostics (p : Palette) (ds : List Diagnostic) : Bytes := unlines (ds.map p.diagnostic)

end Palette

end Scriptlet
