import Scriptlet.EvalError
import Scriptlet.Value

/-! # Arithmetic

Two integers are combined as integers of 64 bits, which wrap around. If one of the operands is a
float both are taken as floats.
-/
namespace Scriptlet

/-- A pair of numbers of one type. -/
inductive Operands where
  | ints (left right : Int64)
  | floats (left right : Float)
  deriving DecidableEq, Repr

def Operands.areInts : Operands → Bool
  | .ints _ _ => true
  | .floats _ _ => false

variable {κ : Type}

/-- The float nearest to a number. -/
def Value.toFloat? : Value κ → Option Float
  | .scalar (.int n) => some n.toFloat
  | .scalar (.float f) => some f
  | _ => none

/-- Brings two values to one type of number. -/
def Operands.of? (left right : Value κ) : Option Operands :=
  match left, right with
  | .scalar (.int l), .scalar (.int r) => some (.ints l r)
  | _, _ =>
    match left.toFloat?, right.toFloat? with
    | some l, some r => some (.floats l r)
    | _, _ => none

/-- Integer division drops the fraction of the quotient. -/
def NumericOp.onInts (l r : Int64) : NumericOp → Except EvalError Scalar
  | .add => .ok (.int (l + r))
  | .subtract => .ok (.int (l - r))
  | .multiply => .ok (.int (l * r))
  | .divide => if r = 0 then .error .divideByZero else .ok (.int (l / r))
  | .greater => .ok (.bool (r < l))
  | .greaterEqual => .ok (.bool (r ≤ l))
  | .less => .ok (.bool (l < r))
  | .lessEqual => .ok (.bool (l ≤ r))

def NumericOp.onFloats (l r : Float) : NumericOp → Except EvalError Scalar
  | .add => .ok (.float (l + r))
  | .subtract => .ok (.float (l - r))
  | .multiply => .ok (.float (l * r))
  | .divide => if r == 0 then .error .divideByZero else .ok (.float (l / r))
  | .greater => .ok (.bool (r < l))
  | .greaterEqual => .ok (.bool (r ≤ l))
  | .less => .ok (.bool (l < r))
  | .lessEqual => .ok (.bool (l ≤ r))

def NumericOp.apply (op : NumericOp) : Operands → Except EvalError Scalar
  | .ints l r => op.onInts l r
  | .floats l r => op.onFloats l r

/-- The numeric operator that a symbol stands for. -/
def NumericOp.ofSymbol? : Symbol → Option NumericOp
  | .plus => some .add
  | .minus => some .subtract
  | .star => some .multiply
  | .slash => some .divide
  | .greater => some .greater
  | .greaterEqual => some .greaterEqual
  | .less => some .less
  | .lessEqual => some .lessEqual
  | _ => none

/-- Combines two numbers with a token, which has to be a numeric operator. -/
def Operands.combine (operands : Operands) (kind : Kind) : Except EvalError (Value κ) :=
  match kind with
  | .symbol s =>
    match NumericOp.ofSymbol? s with
    | some op => (op.apply operands).map .scalar
    | none => .error .operandsNotNumbers
  | _ => .error .operandsNotNumbers

/-- The value of an operator between two values. A sum with a string on either side joins the texts
of both. -/
def BinaryOp.apply (op : BinaryOp) (left right : Value κ) : Except EvalError Scalar :=
  match op with
  | .equal => .ok (.bool (left.same right))
  | .unequal => .ok (.bool (!left.same right))
  | .numeric .add =>
    match left, right with
    | .scalar (.str _), _ | _, .scalar (.str _) => .ok (.str (left.text ++ right.text))
    | _, _ =>
      match Operands.of? left right with
      | some operands => NumericOp.add.apply operands
      | none => .error .operandsNotAddable
  | .numeric op =>
    match Operands.of? left right with
    | some operands => op.apply operands
    | none => .error .operandsNotNumbers

def UnaryOp.apply (op : UnaryOp) (operand : Value κ) : Except EvalError Scalar :=
  match op, operand with
  | .not, value => .ok (.bool (!value.truthy))
  | .negate, .scalar (.int n) => .ok (.int (-n))
  | .negate, .scalar (.float f) => .ok (.float (-f))
  | .negate, _ => .error .operandNotNumber

end Scriptlet
