import Scriptlet.Number.Shortest

/-! # Scalars

The values that can be written as literals: nil, booleans, 64-bit integers, floats and strings.
-/
namespace Scriptlet

inductive Scalar where
  | nil
  | bool (b : Bool)
  | int (n : Int64)
  | float (f : Float)
  | str (s : Bytes)
  deriving DecidableEq, Repr

namespace Scalar

/-- The text that printing a scalar shows. A string shows its own bytes. -/
def text : Scalar → Bytes
  | .nil => utf8 "nil"
  | .bool true => utf8 "true"
  | .bool false => utf8 "false"
  | .int n => signedDecimal n.toInt
  | .float f => floatText f
  | .str s => s

/-- Only nil and false count as false. -/
def truthy : Scalar → Bool
  | .nil => false
  | .bool b => b
  | _ => true

def typeName : Scalar → Bytes
  | .nil => utf8 "nil"
  | .bool _ => utf8 "bool"
  | .int _ => utf8 "int"
  | .float _ => utf8 "float"
  | .str _ => utf8 "string"

/-- Equality of the language. An integer never equals a float, and floats compare by the rules of
floating point: a NaN differs from itself and the two zeros are equal. -/
def same : Scalar → Scalar → Bool
  | .nil, .nil => true
  | .bool a, .bool b => a == b
  | .int a, .int b => a == b
  | .float a, .float b => a == b
  | .str a, .str b => a == b
  | _, _ => false

end Scalar

end Scriptlet
