import EntityQuery.Binary64.Basic

/-!
# Decimal text of doubles

Reading a decimal as the nearest double, and writing a double with the fewest digits that read back.

* `Binary64.ofDecimal`: the double nearest to `± digits · 10 ^ exponent`.
* `Binary64.shortest`: the shortest decimal that rounds to a finite double, the nearest of those,
  an exact tie going to the even digit.
* `Binary64.text`: positional from `10 ^ -5` below `10 ^ 16`, scientific otherwise.
-/

namespace EntityQuery.Binary64

/-! ## Reading -/

/-- Number of decimal digits; zero has none. -/
def digitCount (n : Nat) : Nat := if n = 0 then 0 else (Nat.toDigits 10 n).length

/-- The double nearest to `± digits · 10 ^ exponent`. -/
def ofDecimal (neg : Bool) (digits : Nat) (exponent : Int) : Binary64 :=
  let magnitude : Int := exponent + digitCount digits
  if digits = 0 then ofPayload neg 0
  else if 400 < magnitude then ofPayload neg (2047 * fractionCount)
  else if magnitude < -400 then ofPayload neg 0
  else if 0 ≤ exponent then ofRatio neg (digits * Nat.pow 10 exponent.toNat) 1
  else ofRatio neg digits (Nat.pow 10 (-exponent).toNat)

/-! ## Writing -/

/-- The decimal `digits · 10 ^ exponent`. -/
structure Decimal where
  digits : Nat
  exponent : Int
  deriving DecidableEq, Repr

/-- The reals that round to a double: `low / den` to `high / den`, the double being `value / den`,
with both ends when `closed`. -/
structure Interval where
  low : Nat
  value : Nat
  high : Nat
  den : Nat
  closed : Bool
  deriving Repr

/-- The rounding interval of a positive finite double. The gap below a power of two is half the gap
above it. -/
def interval (x : Binary64) : Interval :=
  let m := x.significand
  let below := if x.fraction = 0 && decide (1 < x.biased) then 1 else 2
  let up := if 0 ≤ x.exponent then Nat.pow 2 x.exponent.toNat else 1
  let down := if 0 ≤ x.exponent then 4 else 4 * Nat.pow 2 (-x.exponent).toNat
  ⟨(4 * m - below) * up, 4 * m * up, (4 * m + 2) * up, down, m % 2 = 0⟩

/-- Whether `num / den` lies in the interval. -/
def Interval.holds (i : Interval) (num den : Nat) : Bool :=
  if i.closed then i.low * den ≤ num * i.den && num * i.den ≤ i.high * den
  else i.low * den < num * i.den && num * i.den < i.high * den

/-- The `e` with `10 ^ e ≤ num / den < 10 ^ (e + 1)`, for positive `num` and `den`. -/
def log10Ratio (num den : Nat) : Int :=
  if den ≤ num then (digitCount (num / den) : Int) - 1
  else
    let k := digitCount (den / num)
    if den ≤ num * Nat.pow 10 (k - 1) then 1 - (k : Int) else -(k : Int)

/-- The point of the grid of multiples of `10 ^ exponent` that lies in the interval, the nearer to
the value of two, the even one of two equally near. -/
def Interval.onGrid? (i : Interval) (exponent : Int) : Option Nat :=
  let up := if 0 ≤ exponent then Nat.pow 10 exponent.toNat else 1
  let down := if 0 ≤ exponent then 1 else Nat.pow 10 (-exponent).toNat
  let num := i.value * down
  let den := i.den * up
  let floor := num / den
  let remainder := num % den
  let lower := i.holds (floor * up) down
  let upper := i.holds ((floor + 1) * up) down
  if lower && upper then
    if 2 * remainder < den then some floor
    else if den < 2 * remainder then some (floor + 1)
    else some (floor + floor % 2)
  else if lower then some floor
  else if upper then some (floor + 1)
  else none

/-- Tries grids of one digit more each time. -/
def Interval.search (i : Interval) (top : Int) : Nat → Nat → Decimal
  | 0, n => ⟨roundDiv i.value i.den, top - n⟩
  | tries + 1, n =>
    match i.onGrid? (top - n) with
    | some digits => ⟨digits, top - n⟩
    | none => i.search top tries (n + 1)

/-- Moves the zeros at the end of the digits into the exponent. -/
def Decimal.strip (fuel : Nat) (d : Decimal) : Decimal :=
  match fuel with
  | 0 => d
  | fuel + 1 =>
    if d.digits ≠ 0 ∧ d.digits % 10 = 0 then strip fuel ⟨d.digits / 10, d.exponent + 1⟩ else d

/-- The shortest decimal that rounds to a positive finite double, the nearest of those. -/
def shortest (x : Binary64) : Decimal :=
  let i := x.interval
  (i.search (log10Ratio i.value i.den) 17 0).strip 20

/-- Where positional notation starts and ends: exponents from `-5` up to `15`. -/
def positional (e : Int) : Bool := -5 ≤ e && e < 16

/-- The text of a positive decimal: positional with a point, or scientific with a signed
exponent. -/
def Decimal.text (d : Decimal) : String :=
  let ds := Nat.toDigits 10 d.digits
  let e : Int := d.exponent + ds.length - 1
  if positional e then
    if 0 ≤ d.exponent then
      String.ofList (ds ++ List.replicate d.exponent.toNat '0' ++ ['.', '0'])
    else if 0 ≤ e then
      let whole := (e + 1).toNat
      String.ofList (ds.take whole ++ '.' :: ds.drop whole)
    else String.ofList ('0' :: '.' :: List.replicate (-e - 1).toNat '0' ++ ds)
  else
    let mantissa :=
      match ds with
      | [] => []
      | [c] => [c]
      | c :: rest => c :: '.' :: rest
    let sign := if e < 0 then '-' else '+'
    String.ofList (mantissa ++ 'e' :: sign :: Nat.toDigits 10 e.natAbs)

/-- The text of a finite double. -/
def text (x : Binary64) : String :=
  let size := if x.isZero then "0.0" else x.shortest.text
  if x.negative then "-" ++ size else size

end EntityQuery.Binary64
