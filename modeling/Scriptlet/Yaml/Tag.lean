import Scriptlet.Yaml.Fault

/-! # Kinds of scalars

A tag says what a node is. A scalar without quotes and without a tag gets one from its spelling,
and a scalar with one of the common tags has to be spelled accordingly.
-/
namespace Scriptlet

namespace Yaml

inductive Tag where
  | string
  | truth
  | integer
  | float
  | null
  | timestamp
  | binary
  | merge
  | sequence
  | mapping
  | other (text : Bytes)
  deriving DecidableEq, Repr

namespace Tag

/-- Tags with names of their own. -/
def common : List Tag :=
  [.string, .truth, .integer, .float, .null, .timestamp, .binary, .merge, .sequence, .mapping]

def text : Tag → Bytes
  | .string => utf8 "!!str"
  | .truth => utf8 "!!bool"
  | .integer => utf8 "!!int"
  | .float => utf8 "!!float"
  | .null => utf8 "!!null"
  | .timestamp => utf8 "!!timestamp"
  | .binary => utf8 "!!binary"
  | .merge => utf8 "!!merge"
  | .sequence => utf8 "!!seq"
  | .mapping => utf8 "!!map"
  | .other text => text

/-- What the tags that start with two marks stand for. -/
def commonSpace : Bytes := utf8 "tag:yaml.org,2002:"

def ofText (text : Bytes) : Tag :=
  let short :=
    if commonSpace.isPrefixOf text then utf8 "!!" ++ text.drop commonSpace.length else text
  (common.find? (·.text == short)).getD (.other short)

end Tag

def isNullWord (text : Bytes) : Bool := isOneOf ["", "~", "null", "Null", "NULL"] text

def truthWord? (text : Bytes) : Option Bool :=
  if isOneOf ["true", "True", "TRUE"] text then some true
  else if isOneOf ["false", "False", "FALSE"] text then some false
  else none

def isSpecialFloat (text : Bytes) : Bool :=
  isOneOf [".nan", ".NaN", ".NAN", ".inf", ".Inf", ".INF", "+.inf", "+.Inf", "+.INF",
    "-.inf", "-.Inf", "-.INF"] text

def withoutSign (text : Bytes) : Bytes :=
  if text.head? == some 0x2b || text.head? == some 0x2d then text.drop 1 else text

def digitValue? (b : UInt8) : Option Nat :=
  if isDigit b then some (b.toNat - 0x30)
  else if 0x61 ≤ b && b ≤ 0x7a then some (b.toNat - 0x57)
  else if 0x41 ≤ b && b ≤ 0x5a then some (b.toNat - 0x37)
  else none

/-- A number in a base of up to 36. -/
def numeral? (base : Nat) (digits : Bytes) : Option Nat :=
  digits.foldlM (fun n b => do
    let d ← digitValue? b
    if d < base then some (base * n + d) else none) 0

/-- A number whose base shows at its start: a zero and a letter, a zero alone for base eight, or
neither. -/
def magnitude? (text : Bytes) : Option Nat :=
  match text with
  | [] => none
  | 0x30 :: rest =>
    match rest with
    | letter :: digit :: digits =>
      if letter == 0x78 || letter == 0x58 then numeral? 16 (digit :: digits)
      else if letter == 0x6f || letter == 0x4f then numeral? 8 (digit :: digits)
      else if letter == 0x62 || letter == 0x42 then numeral? 2 (digit :: digits)
      else numeral? 8 rest
    | _ => numeral? 8 rest
  | _ => numeral? 10 text

/-- Integers have 64 bits, with a sign or without. -/
def isInteger (text : Bytes) : Bool :=
  match magnitude? (withoutSign text) with
  | none => false
  | some n =>
    if text.head? == some 0x2d then n ≤ Nat.pow 2 63
    else if text.head? == some 0x2b then n < Nat.pow 2 63
    else n < Nat.pow 2 64

def isExponent (text : Bytes) : Bool :=
  match text with
  | [] => true
  | e :: rest =>
    let digits := withoutSign rest
    (e == 0x65 || e == 0x45) && !digits.isEmpty && digits.all isDigit

def isDecimal (text : Bytes) : Bool :=
  let text := withoutSign text
  let whole := text.takeWhile isDigit
  match text.dropWhile isDigit with
  | 0x2e :: rest =>
    let fraction := rest.takeWhile isDigit
    !(whole.isEmpty && fraction.isEmpty) && isExponent (rest.dropWhile isDigit)
  | rest => !whole.isEmpty && isExponent rest

def isShortNumber (limit : Nat) (text : Bytes) : Bool :=
  !text.isEmpty && text.length ≤ 2 && text.all isDigit &&
    1 ≤ digitsValue text && digitsValue text ≤ limit

/-- A date with a year of four digits, and perhaps a time behind it. -/
def isTimestamp (text : Bytes) : Bool :=
  let isTimePart (b : UInt8) : Bool := isDigit b || (utf8 ":.+-Z").contains b
  let date := text.takeWhile fun b => isDigit b || b == 0x2d
  let time := text.drop date.length
  match splitOn 0x2d date with
  | [year, month, day] =>
    year.length == 4 && year.all isDigit && isShortNumber 12 month && isShortNumber 31 day &&
      (time.isEmpty || (isOneOf ["T", "t", " "] (time.take 1) && 1 < time.length &&
        (time.drop 1).all isTimePart))
  | _ => false

/-- The kind of a scalar by its spelling. Only where `dates` is set a date counts as one. -/
def kindOf (dates : Bool) (text : Bytes) : Tag :=
  let number := text.filter (· != 0x5f)
  if isNullWord text then .null
  else if (truthWord? text).isSome then .truth
  else if isSpecialFloat text then .float
  else if text.head? == some 0x2e then (if isDecimal text then .float else .string)
  else if !text.head?.any fun b => isDigit b || b == 0x2b || b == 0x2d then .string
  else if dates && isTimestamp text then .timestamp
  else if isInteger number then .integer
  else if isDecimal number then .float
  else .string

/-- What a scalar means to a reader who wants texts and truth values. -/
inductive Meaning where
  | nothing
  | truth (b : Bool)
  | text (t : Bytes)
  | number
  deriving DecidableEq, Repr

def base64Value? (b : UInt8) : Option Nat :=
  if 0x41 ≤ b && b ≤ 0x5a then some (b.toNat - 0x41)
  else if 0x61 ≤ b && b ≤ 0x7a then some (b.toNat - 0x47)
  else if isDigit b then some (b.toNat + 4)
  else if b == 0x2b then some 62
  else if b == 0x2f then some 63
  else none

/-- Reads base 64 in groups of four, of which the last may be filled up. -/
def base64? : Bytes → Option Bytes
  | [] => some []
  | [a, b, 0x3d, 0x3d] => do
    let n := 64 * (← base64Value? a) + (← base64Value? b)
    some [UInt8.ofNat (n / 16)]
  | [a, b, c, 0x3d] => do
    let n := 4096 * (← base64Value? a) + 64 * (← base64Value? b) + (← base64Value? c)
    some [UInt8.ofNat (n / 1024), UInt8.ofNat (n / 4)]
  | a :: b :: c :: d :: rest => do
    let n := 262144 * (← base64Value? a) + 4096 * (← base64Value? b) + 64 * (← base64Value? c) +
      (← base64Value? d)
    let rest ← base64? rest
    some (UInt8.ofNat (n / 65536) :: UInt8.ofNat (n / 256) :: UInt8.ofNat n :: rest)
  | _ => none

/-- The meaning of a scalar with a tag. Unknown tags leave it a text. -/
def meaning (tag : Tag) (text : Bytes) : Except Fault Meaning :=
  let found := kindOf (tag == .timestamp) text
  let checked (m : Meaning) : Except Fault Meaning :=
    if found = tag ∨ (tag = .float ∧ found = .integer) then .ok m
    else .error ⟨.wrongKind found.text text tag.text, 0⟩
  match tag with
  | .null => checked .nothing
  | .truth => checked (.truth ((truthWord? text).getD false))
  | .integer | .float | .timestamp => checked .number
  | .binary =>
    match base64? (text.filter fun b => b != 0x0a && b != 0x0d) with
    | some t => .ok (.text t)
    | none => .error ⟨.badBase64, 0⟩
  | .string | .merge | .sequence | .mapping | .other _ => .ok (.text text)

end Yaml

end Scriptlet
