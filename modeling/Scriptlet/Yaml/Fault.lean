import Scriptlet.Bytes

/-! # Faults of documents

What can be wrong with a document, and the line that a fault is reported at. Lines count from zero
here, and a report without a line stands for the first one.
-/
namespace Scriptlet

namespace Yaml

inductive Problem where
  | badEncoding
  | controlCharacter
  | missingColon
  | noToken
  | entryNotAllowed
  | keyNotAllowed
  | valueNotAllowed
  | unknownDirective
  | directiveWithoutName
  | directiveBadName
  | versionWithoutDot
  | versionTooLong
  | versionMissing
  | lineNotEnded
  | blankMissing
  | blankOrBreakMissing
  | badLabel
  | exclamationMissing
  | tagMissing
  | octetMissing
  | badLeadingOctet
  | badTrailingOctet
  | verbatimTagOpen
  | zeroIndentation
  | tabInBlock
  | tabInPlain
  | markInQuotes
  | quoteOpen
  | unknownEscape
  | badHexadecimal
  | badCodePoint
  | versionRepeated
  | versionUnsupported
  | shorthandRepeated
  | documentStartMissing
  | contentMissing
  | blockKeyMissing
  | blockEntryMissing
  | flowSequenceOpen
  | flowMappingOpen
  | unknownShorthand
  | tooDeep
  | unknownAnchor (name : Bytes)
  | anchorInItself (name : Bytes)
  | badBase64
  | mergeWithoutMapping
  | wrongKind (found text wanted : Bytes)
  deriving DecidableEq, Repr

def Problem.message : Problem → Bytes
  | .badEncoding => utf8 "invalid leading UTF-8 octet"
  | .controlCharacter => utf8 "control characters are not allowed"
  | .missingColon => utf8 "could not find expected ':'"
  | .noToken => utf8 "found character that cannot start any token"
  | .entryNotAllowed => utf8 "block sequence entries are not allowed in this context"
  | .keyNotAllowed => utf8 "mapping keys are not allowed in this context"
  | .valueNotAllowed => utf8 "mapping values are not allowed in this context"
  | .unknownDirective => utf8 "found unknown directive name"
  | .directiveWithoutName => utf8 "could not find expected directive name"
  | .directiveBadName => utf8 "found unexpected non-alphabetical character"
  | .versionWithoutDot => utf8 "did not find expected digit or '.' character"
  | .versionTooLong => utf8 "found extremely long version number"
  | .versionMissing => utf8 "did not find expected version number"
  | .lineNotEnded => utf8 "did not find expected comment or line break"
  | .blankMissing => utf8 "did not find expected whitespace"
  | .blankOrBreakMissing => utf8 "did not find expected whitespace or line break"
  | .badLabel => utf8 "did not find expected alphabetic or numeric character"
  | .exclamationMissing => utf8 "did not find expected '!'"
  | .tagMissing => utf8 "did not find expected tag URI"
  | .octetMissing => utf8 "did not find URI escaped octet"
  | .badLeadingOctet => utf8 "found an incorrect leading UTF-8 octet"
  | .badTrailingOctet => utf8 "found an incorrect trailing UTF-8 octet"
  | .verbatimTagOpen => utf8 "did not find the expected '>'"
  | .zeroIndentation => utf8 "found an indentation indicator equal to 0"
  | .tabInBlock => utf8 "found a tab character where an indentation space is expected"
  | .tabInPlain => utf8 "found a tab character that violates indentation"
  | .markInQuotes => utf8 "found unexpected document indicator"
  | .quoteOpen => utf8 "found unexpected end of stream"
  | .unknownEscape => utf8 "found unknown escape character"
  | .badHexadecimal => utf8 "did not find expected hexdecimal number"
  | .badCodePoint => utf8 "found invalid Unicode character escape code"
  | .versionRepeated => utf8 "found duplicate %YAML directive"
  | .versionUnsupported => utf8 "found incompatible YAML document"
  | .shorthandRepeated => utf8 "found duplicate %TAG directive"
  | .documentStartMissing => utf8 "did not find expected <document start>"
  | .contentMissing => utf8 "did not find expected node content"
  | .blockKeyMissing => utf8 "did not find expected key"
  | .blockEntryMissing => utf8 "did not find expected '-' indicator"
  | .flowSequenceOpen => utf8 "did not find expected ',' or ']'"
  | .flowMappingOpen => utf8 "did not find expected ',' or '\x7d'"
  | .unknownShorthand => utf8 "found undefined tag handle"
  | .tooDeep => utf8 "exceeded max depth of 10000"
  | .unknownAnchor name => utf8 "unknown anchor '" ++ name ++ utf8 "' referenced"
  | .anchorInItself name => utf8 "anchor '" ++ name ++ utf8 "' value contains itself"
  | .badBase64 => utf8 "!!binary value contains invalid base64 data"
  | .mergeWithoutMapping => utf8 "map merge requires map or sequence of maps as the value"
  | .wrongKind found text wanted =>
    utf8 "cannot decode " ++ found ++ utf8 " `" ++ text ++ utf8 "` as a " ++ wanted

/-- A problem and the number of the line it is reported at; zero for none. -/
structure Fault where
  problem : Problem
  line : Nat := 0
  deriving DecidableEq, Repr

namespace Fault

/-- A fault in a token that starts on line `start`, noticed on line `here`. -/
def lexical (problem : Problem) (start here : Nat) : Fault :=
  ⟨problem, if start ≠ 0 then start + 1 else if here ≠ 0 then here + 1 else 0⟩

/-- A token that does not fit into a construct that starts on line `start`. -/
def structural (problem : Problem) (start here : Nat) : Fault :=
  ⟨problem, if start ≠ 0 then start else here⟩

def message (f : Fault) : Bytes :=
  (if f.line = 0 then [] else utf8 "line " ++ decimal f.line ++ utf8 ": ") ++ f.problem.message

end Fault

end Yaml

end Scriptlet
