namespace Lox

/-- The number `coefficient * 10 ^ exponent`. -/
structure Decimal where
  coefficient : Nat
  exponent : Int
deriving DecidableEq, Repr

namespace Decimal

def digits (d : Decimal) : List Char := Nat.toDigits 10 d.coefficient

def magnitude (d : Decimal) : Int := d.digits.length + d.exponent - 1

def zeros (count : Nat) : List Char := List.replicate count '0'

/-- All digits around a point, with no exponent; a whole number gets neither point nor fraction. -/
def positional (d : Decimal) : String :=
  let point := d.digits.length + d.exponent
  String.ofList <|
    if 0 ≤ d.exponent then d.digits ++ zeros d.exponent.toNat
    else if 0 < point then d.digits.take point.toNat ++ '.' :: d.digits.drop point.toNat
    else '0' :: '.' :: zeros (-point).toNat ++ d.digits

def scientific (d : Decimal) : String :=
  let mantissa := match d.digits with
    | first :: second :: rest => first :: '.' :: second :: rest
    | digits => digits
  let sign := if d.magnitude < 0 then "e-" else "e+"
  String.ofList mantissa ++ sign ++ toString d.magnitude.natAbs

end Decimal

end Lox
