import ProjectGraph.Decimal.Shortest

/-!
Numbers as JSON writes them, and what they stand for: an integer if it is written as one and fits 64 bits,
and a floating-point number otherwise. A number beyond the largest floating-point number stands for nothing.
-/

namespace ProjectGraph

/-- The parts of a written number. -/
structure Numeral where
  negative : Bool
  /-- Digits, the first one in front. -/
  whole : List Nat
  /-- Digits behind the point; none if there is no point. -/
  fraction : List Nat
  /-- Whether it is negative, and its digits. -/
  exponent : Option (Bool × List Nat)
  deriving DecidableEq, Inhabited

/-- What a number stands for. -/
inductive NumberValue where
  | integer (value : Int)
  | float (value : Float)

namespace Numeral

/-- The largest significand. -/
def significandLimit : Nat := Nat.pow 2 64 - 1

/-- The largest exponent that is told from larger ones. -/
def exponentLimit : Nat := Nat.pow 2 31 - 1

/-- Takes digits as long as the significand keeps within its limit, and leaves the others. -/
def takeDigits (significand : Nat) : List Nat → Nat × List Nat
  | [] => (significand, [])
  | d :: ds =>
    if significand * 10 + d ≤ significandLimit then takeDigits (significand * 10 + d) ds
    else (significand, d :: ds)

/-- A power of ten that a double can hold. -/
def tenTo (n : Nat) : Float := Float.ofScientific 1 false n

/-- Divides by a power of ten, in steps that a double can hold. -/
def scaleDown (x : Float) (n : Nat) : Float :=
  if n ≤ 308 then x / tenTo n
  else if x == 0 then x
  else scaleDown (x / tenTo 308) (n - 308)
termination_by n

/-- `significand * 10 ^ exponent` as a double, unless it is too large. -/
def scale? (significand : Nat) (exponent : Int) : Option Float :=
  let x := Float.ofNat significand
  if exponent < 0 then some (scaleDown x exponent.natAbs)
  else if exponent ≤ 308 then
    let y := x * tenTo exponent.natAbs
    if y.isInf then none else some y
  else if x == 0 then some x
  else none

def digitsValue (ds : List Nat) : Nat := ds.foldl (fun n d => n * 10 + d) 0

/-- The absolute value as a double. -/
def magnitude? (n : Numeral) : Option Float :=
  let (head, left) := takeDigits 0 n.whole
  let (significand, unread) := if n.fraction.isEmpty then (head, []) else takeDigits head n.fraction
  let base : Int := (left.length : Int) - (n.fraction.length - unread.length : Nat)
  match n.exponent with
  | none => scale? significand base
  | some (negative, ds) =>
    let e := digitsValue ds
    if e ≤ exponentLimit then scale? significand (if negative then base - e else base + e)
    else if significand = 0 || negative then some 0
    else none

/-- What the number stands for. -/
def value? (n : Numeral) : Option NumberValue :=
  let (whole, left) := takeDigits 0 n.whole
  if left.isEmpty && n.fraction.isEmpty && n.exponent.isNone then
    if !n.negative then some (.integer whole)
    else if whole = 0 || whole > Nat.pow 2 63 then some (.float (-Float.ofNat whole))
    else some (.integer (-(whole : Int)))
  else
    n.magnitude?.map fun x => .float (if n.negative then -x else x)

end Numeral

/-- An exponent with its sign. -/
def renderExponent (n : Int) : String := (if n < 0 then "e-" else "e+") ++ toString n.natAbs

/-- A decimal in messages: positional with a point between 10^-5 and 10^16, with an exponent elsewhere. -/
def Decimal.render (d : Decimal) : String :=
  let digits := toString d.digits
  let length := digits.length
  let point : Int := length + d.exponent
  let zeros (n : Nat) : String := String.ofList (List.replicate n '0')
  let headAndTail (n : Nat) : String :=
    String.ofList (digits.toList.take n) ++ "." ++ String.ofList (digits.toList.drop n)
  if 0 ≤ d.exponent && point ≤ 16 then digits ++ zeros d.exponent.toNat ++ ".0"
  else if 0 < point && point ≤ 16 then headAndTail point.toNat
  else if -5 < point && point ≤ 0 then "0." ++ zeros (-point).toNat ++ digits
  else (if length = 1 then digits else headAndTail 1) ++ renderExponent (point - 1)

/-- A double in messages. -/
def renderFloat (x : Float) : String :=
  let b := Binary.ofFloat x
  (if x.toBits >>> 63 == 1 then "-" else "") ++ (if b.mantissa = 0 then "0.0" else b.shortest.render)

end ProjectGraph
