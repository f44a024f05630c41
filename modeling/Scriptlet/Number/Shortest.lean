import Scriptlet.Bytes

/-! # The shortest decimal of a float

A finite float stands for an interval of reals: those that round to it. Its shortest decimal is
the decimal with the fewest digits inside that interval, the nearest one when several have that
few. It is found on the grids of multiples of a power of ten, from a grid coarser than the value
itself down to finer ones: on each grid only the two neighbours of the value can matter, and all
comparisons are between natural numbers.
-/
namespace Scriptlet

/-- The reals that round to one positive float, in units of `2 ^ scale`. The ends belong to the
interval when a tie is rounded towards the float. -/
structure Rounding where
  scale : Int
  low : Nat
  value : Nat
  high : Nat
  closed : Bool
  deriving DecidableEq, Repr

namespace Rounding

/-- The interval of the float with the given exponent and fraction fields. Below a power of two the
gap to the next smaller float is half as wide. -/
def ofFields (exponent fraction : Nat) : Rounding :=
  let significand := if exponent = 0 then fraction else fraction + Nat.pow 2 52
  let power : Int := if exponent = 0 then -1074 else exponent - 1075
  { scale := power - 2
    low := if fraction = 0 ∧ 1 < exponent then 4 * significand - 1 else 4 * significand - 2
    value := 4 * significand
    high := 4 * significand + 2
    closed := significand % 2 == 0 }

/-- A multiple of `10 ^ k` inside the interval, given as the factor of the power of ten: the one
nearest to the value, or the even one when two are equally near. -/
def onGrid? (r : Rounding) (k : Int) : Option Nat :=
  let unit := Nat.pow 10 k.toNat * Nat.pow 2 (-r.scale).toNat
  let scaled (x : Nat) := x * Nat.pow 2 r.scale.toNat * Nat.pow 10 (-k).toNat
  let inside (c : Nat) : Bool :=
    if r.closed then scaled r.low ≤ c * unit && c * unit ≤ scaled r.high
    else scaled r.low < c * unit && c * unit < scaled r.high
  let below := scaled r.value / unit
  let above := below + 1
  match inside below, inside above with
  | false, false => none
  | true, false => some below
  | false, true => some above
  | true, true =>
    match compare (2 * scaled r.value) ((below + above) * unit) with
    | .lt => some below
    | .gt => some above
    | .eq => some (if below % 2 = 0 then below else above)

/-- A power of ten above the value. -/
def coarsest (r : Rounding) : Int :=
  (r.scale + r.value.log2 + 1) * 30103 / 100000 + 2

/-- Walks from the grid of `10 ^ k` to finer ones until one has a multiple in the interval. -/
def refine (r : Rounding) : Nat → Int → Nat × Int
  | 0, k => (0, k)
  | steps + 1, k =>
    match r.onGrid? k with
    | some c => (c, k)
    | none => r.refine steps (k - 1)

/-- Seventeen digits tell all floats apart, and the walk starts at most a few places above the
first digit. -/
def maxSteps : Nat := 24

/-- Digits and power of ten of the shortest decimal. -/
def shortest (r : Rounding) : Nat × Int := r.refine maxSteps r.coarsest

end Rounding

/-- The number `c * 10 ^ k` without an exponent, with at least one digit on each side of the
point. -/
def positional (c : Nat) (k : Int) : Bytes :=
  let digits := decimal c
  let places := (-k).toNat
  if 0 ≤ k then digits ++ List.replicate k.toNat 0x30 ++ utf8 ".0"
  else if places < digits.length then
    digits.take (digits.length - places) ++ 0x2e :: digits.drop (digits.length - places)
  else utf8 "0." ++ List.replicate (places - digits.length) 0x30 ++ digits

/-- A float as the language writes it: its shortest decimal without an exponent. -/
def floatText (f : Float) : Bytes :=
  let bits := f.toBits.toNat
  let negative := Nat.pow 2 63 ≤ bits
  let exponent := bits / Nat.pow 2 52 % Nat.pow 2 11
  let fraction := bits % Nat.pow 2 52
  if exponent = 2047 then
    if fraction ≠ 0 then utf8 "NaN" else if negative then utf8 "-Inf" else utf8 "+Inf"
  else
    let magnitude :=
      if exponent = 0 ∧ fraction = 0 then positional 0 0
      else
        let (c, k) := (Rounding.ofFields exponent fraction).shortest
        positional c k
    if negative then 0x2d :: magnitude else magnitude

end Scriptlet
