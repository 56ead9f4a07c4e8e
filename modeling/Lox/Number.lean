import Lox.Decimal.Shortest

namespace Lox

/-- A whole number is written with all its digits and `wholeEnd`, but only below `wholeBound` if
there is one; every other finite number has the shortest digits that read back, without an
exponent. -/
structure NumberFormat where
  infinity : String
  wholeEnd : String
  wholeBound : Option Nat
  signedZero : Bool
deriving Repr

namespace NumberFormat

def isNegative (x : Float) : Bool := x.toBits.toNat / Nat.pow 2 63 = 1

def sign (x : Float) : String := if isNegative x then "-" else ""

def writesWhole (format : NumberFormat) (n : Nat) : Bool :=
  match format.wholeBound with
  | some bound => n < bound
  | none => true

def writeFinite (format : NumberFormat) (x : Float) : String :=
  let magnitude := Binary.ofFloat x
  let shortest := sign x ++ (Decimal.shortest .up magnitude).positional
  match magnitude.whole? with
  | none => shortest
  | some n =>
    if format.writesWhole n then
      (if n = 0 && !format.signedZero then "" else sign x) ++ toString n ++ format.wholeEnd
    else shortest

def write (format : NumberFormat) (x : Float) : String :=
  if x.isNaN then "NaN"
  else if x.isInf then sign x ++ format.infinity
  else format.writeFinite x

end NumberFormat

end Lox
