import Lox.Decimal

namespace Lox

/-- The number `significand * 2 ^ exponent`. -/
structure Binary where
  significand : Nat
  exponent : Int
deriving DecidableEq, Repr

namespace Binary

def ofFloat (x : Float) : Binary :=
  let bits := x.toBits.toNat
  let fraction : Nat := bits % Nat.pow 2 52
  let biased : Nat := bits / Nat.pow 2 52 % Nat.pow 2 11
  if biased = 0 then ⟨fraction, -1074⟩ else ⟨Nat.pow 2 52 + fraction, Int.ofNat biased - 1075⟩

def whole? (b : Binary) : Option Nat :=
  if 0 ≤ b.exponent then some (b.significand * Nat.pow 2 b.exponent.toNat)
  else
    let divisor := Nat.pow 2 (-b.exponent).toNat
    if b.significand % divisor = 0 then some (b.significand / divisor) else none

/-- The gap to the next smaller double is half as wide at a power of two. -/
def gapNarrows (b : Binary) : Bool := b.significand == Nat.pow 2 52 && b.exponent != -1074

end Binary

namespace Decimal

/-- Which of two equally near neighbours is taken. -/
inductive Tie where
  | up
  | toEven
deriving DecidableEq, Repr

/-- A value and the interval around it, all in multiples of one small unit. -/
structure Target where
  value : Nat
  low : Nat
  high : Nat
  closed : Bool
deriving Repr

def Target.holds (t : Target) (point : Nat) : Bool :=
  if t.closed then t.low ≤ point && point ≤ t.high else t.low < point && point < t.high

def nearestOnGrid (tie : Tie) (t : Target) (step : Nat) : Option Nat :=
  let below := t.value / step
  let above := below + 1
  let belowHolds := 0 < below && t.holds (below * step)
  let aboveHolds := t.holds (above * step)
  if belowHolds && aboveHolds then
    let downward := t.value - below * step
    let upward := above * step - t.value
    if downward < upward then some below
    else if upward < downward then some above
    else match tie with
      | .up => some above
      | .toEven => some (if below % 2 = 0 then below else above)
  else if belowHolds then some below
  else if aboveHolds then some above
  else none

/-- The doubles next to `b` are half a gap away on either side; an even significand wins the ends. -/
def Target.ofBinary (b : Binary) (unit : Nat) : Target :=
  { value := 4 * b.significand * unit
    low := (4 * b.significand - (if b.gapNarrows then 1 else 2)) * unit
    high := (4 * b.significand + 2) * unit
    closed := b.significand % 2 = 0 }

def onGrid? (tie : Tie) (b : Binary) (grid : Int) : Option Decimal :=
  let quarter := b.exponent - 2
  let step := Nat.pow 10 grid.toNat * Nat.pow 2 (-quarter).toNat
  let unit := Nat.pow 2 quarter.toNat * Nat.pow 10 (-grid).toNat
  (nearestOnGrid tie (.ofBinary b unit) step).map fun coefficient => ⟨coefficient, grid⟩

def coarsest (tie : Tie) (b : Binary) : Nat → Int → Decimal
  | 0, grid => ⟨b.significand, grid⟩
  | tries + 1, grid => (onGrid? tie b grid).getD (coarsest tie b tries (grid - 1))

/-- Seventeen digits always suffice, so twenty-four grids below the first power of ten above the
value are enough. -/
def shortest (tie : Tie) (b : Binary) : Decimal :=
  if b.significand = 0 then ⟨0, 0⟩
  else
    let bound := (b.significand.log2 + 1 : Nat) + b.exponent
    coarsest tie b 24 (bound * 30103 / 100000 + 1)

end Decimal

end Lox
