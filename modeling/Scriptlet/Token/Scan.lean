import Scriptlet.Token.Segment

/-! # Scanning

Scanning keeps the tokens and the faults of a source in order and gives each the line on which it
ends. Tokens are numbered from a given place on, which lets several sources share one numbering.
-/
namespace Scriptlet

structure LexicalFault where
  error : LexicalError
  line : Nat
  deriving DecidableEq, Repr

/-- The tokens and faults of a source, and the line on which the source ends. -/
structure Scan where
  tokens : List Token
  faults : List LexicalFault
  endLine : Nat
  deriving DecidableEq, Repr

/-- Numbers segments that start on `line`, the first token among them taking `index`. -/
def locate (line index : Nat) : List Segment → Scan
  | [] => ⟨[], [], line⟩
  | segment :: rest =>
    let line := line + newlines segment.text
    match segment with
    | .token kind lexeme =>
      let scan := locate line (index + 1) rest
      { scan with tokens := ⟨kind, lexeme, line, index⟩ :: scan.tokens }
    | .faulty error _ =>
      let scan := locate line index rest
      { scan with faults := ⟨error, line⟩ :: scan.faults }
    | .blank _ | .comment _ => locate line index rest

/-- Scans a source whose first token takes the place `index`. -/
def scanFrom (index : Nat) (source : Bytes) : Scan := locate 1 index (segments source)

def scan (source : Bytes) : Scan := scanFrom 0 source

end Scriptlet
