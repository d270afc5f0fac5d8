/-!
The shortest decimal of a binary floating-point number: of all decimals that round to the number, the ones
with the fewest digits, of these the nearest, and of two that are equally near the one whose last digit is
even. All of it is exact arithmetic on natural numbers.

A finite number is `mantissa * 2 ^ exponent`. A decimal is `digits * 10 ^ exponent`.
-/

namespace ProjectGraph

/-- A positive binary floating-point number. -/
structure Binary where
  mantissa : Nat
  exponent : Int
  /-- Whether the next smaller number is only half as far away as the next larger one. -/
  tightBelow : Bool

/-- The number `digits * 10 ^ exponent`. -/
structure Decimal where
  digits : Nat
  exponent : Int
  deriving DecidableEq, Inhabited

/-- The numerator and the denominator of a power. -/
def powerRatio (base : Nat) (exponent : Int) : Nat × Nat :=
  if exponent < 0 then (1, base.pow exponent.natAbs) else (base.pow exponent.natAbs, 1)

namespace Binary

/-- The parts of a double, read off its bits; the sign is left out. -/
def ofFloat (x : Float) : Binary :=
  let bits := x.toBits.toNat
  let fraction : Nat := bits % Nat.pow 2 52
  let field : Nat := bits / Nat.pow 2 52 % Nat.pow 2 11
  if field = 0 then ⟨fraction, -1074, false⟩
  else ⟨Nat.pow 2 52 + fraction, (field : Int) - 1075, fraction = 0 && field > 1⟩

/-- Whether `digits * 10 ^ k` rounds to the number; ends of the interval count for even mantissas. -/
def rounds (b : Binary) (k : Int) (digits : Nat) : Bool :=
  let (p, q) := powerRatio 10 k
  let (r, s) := powerRatio 2 (b.exponent - 2)
  let point := digits * p * s
  let low := (4 * b.mantissa - (if b.tightBelow then 1 else 2)) * r * q
  let high := (4 * b.mantissa + 2) * r * q
  if b.mantissa % 2 = 0 then low ≤ point && point ≤ high else low < point && point < high

/-- The number in front of a fraction, or the one behind it if that is nearer; a half goes to the even one. -/
def nearest (below remainder unit : Nat) : Nat :=
  if 2 * remainder < unit || (2 * remainder = unit && below % 2 = 0) then below else below + 1

/-- The multiple of `10 ^ k` nearest to the number among those that round to it. -/
def onGrid? (b : Binary) (k : Int) : Option Decimal :=
  let (p, q) := powerRatio 10 k
  let (r, s) := powerRatio 2 b.exponent
  let num := b.mantissa * r * q
  let den := p * s
  let below := num / den
  match b.rounds k below, b.rounds k (below + 1) with
  | true, true => some ⟨nearest below (num % den) den, k⟩
  | true, false => some ⟨below, k⟩
  | false, true => some ⟨below + 1, k⟩
  | false, false => none

/-- The coarsest grid that holds a decimal of the number, `steps` grids down from `10 ^ k`. -/
def shortestFrom (b : Binary) (k : Int) : Nat → Decimal
  | 0 => ⟨b.mantissa, b.exponent⟩
  | steps + 1 => (b.onGrid? k).getD (b.shortestFrom (k - 1) steps)

/-- The shortest decimal of a positive double. -/
def shortest (b : Binary) : Decimal := b.shortestFrom 309 640

end Binary

end ProjectGraph
