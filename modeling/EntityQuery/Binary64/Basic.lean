/-!
# Binary64: double-precision numbers as bit patterns

A double is its 64 bits; a finite one denotes the dyadic rational `± m · 2 ^ q`.

* `Binary64.significand`, `Binary64.exponent`: the `m` and the `q` of a finite double.
* `Binary64.integer?`: the integer that a finite double denotes, if it denotes one.
* `Binary64.ofRatio`: the double nearest to a quotient of natural numbers, a tie going to the even
  significand.
-/

namespace EntityQuery

/-- A double-precision number, as its bits: sign, eleven exponent bits, fifty-two fraction bits. -/
structure Binary64 where
  bits : UInt64
  deriving DecidableEq, Repr

namespace Binary64

/-- The value of the sign bit: two to the power of 63. -/
def signBit : Nat := 9223372036854775808

/-- The number of fractions: two to the power of 52. -/
def fractionCount : Nat := 4503599627370496

/-- Whether the sign bit is set. -/
def negative (x : Binary64) : Bool := signBit ≤ x.bits.toNat

/-- The eleven exponent bits. -/
def biased (x : Binary64) : Nat := x.bits.toNat / fractionCount % 2048

/-- The fifty-two fraction bits. -/
def fraction (x : Binary64) : Nat := x.bits.toNat % fractionCount

/-- Neither infinite nor not-a-number. -/
def isFinite (x : Binary64) : Bool := x.biased ≠ 2047

/-- The integer significand of a finite double. -/
def significand (x : Binary64) : Nat :=
  if x.biased = 0 then x.fraction else fractionCount + x.fraction

/-- The power of two that the significand of a finite double is scaled by. -/
def exponent (x : Binary64) : Int :=
  if x.biased = 0 then -1074 else (x.biased : Int) - 1075

/-- Whether the double is a zero of either sign. -/
def isZero (x : Binary64) : Bool := x.biased = 0 && x.fraction = 0

/-- `m · 2 ^ q`, if that is a natural number. -/
def scaled? (m : Nat) (q : Int) : Option Nat :=
  if 0 ≤ q then some (m * Nat.pow 2 q.toNat)
  else
    let scale := Nat.pow 2 (-q).toNat
    if m % scale = 0 then some (m / scale) else none

/-- The integer that a finite double denotes, if it has no fractional part. -/
def integer? (x : Binary64) : Option Int :=
  if x.isFinite then
    (scaled? x.significand x.exponent).map fun n : Nat => if x.negative then -(n : Int) else n
  else none

/-! ## Rounding a quotient -/

/-- `num / den` to the nearest natural number, a half going to the even one. -/
def roundDiv (num den : Nat) : Nat :=
  let quotient := num / den
  let twice := 2 * (num % den)
  if twice < den then quotient
  else if den < twice then quotient + 1
  else quotient + quotient % 2

/-- The `e` with `2 ^ e ≤ num / den < 2 ^ (e + 1)`, for positive `num` and `den`. -/
def log2Ratio (num den : Nat) : Int :=
  let e : Int := (num.log2 : Int) - den.log2
  let reached : Bool :=
    if 0 ≤ e then den * Nat.pow 2 e.toNat ≤ num else den ≤ num * Nat.pow 2 (-e).toNat
  if reached then e else e - 1

/-- The double with the given sign whose other bits are `payload`, infinite from `2047 · 2 ^ 52`
on. -/
def ofPayload (neg : Bool) (payload : Nat) : Binary64 :=
  ⟨UInt64.ofNat ((if neg then signBit else 0) + min payload (2047 * fractionCount))⟩

/-- The double nearest to `± num / den`, for a positive `den`; a tie goes to the even
significand, and what is too large becomes infinite. -/
def ofRatio (neg : Bool) (num den : Nat) : Binary64 :=
  if num = 0 then ofPayload neg 0
  else
    let q := max (log2Ratio num den - 52) (-1074)
    let m :=
      if 0 ≤ q then roundDiv num (den * Nat.pow 2 q.toNat)
      else roundDiv (num * Nat.pow 2 (-q).toNat) den
    ofPayload neg ((q + 1074).toNat * fractionCount + m)

/-- The double nearest to an integer. -/
def ofInt (n : Int) : Binary64 := ofRatio (n < 0) n.natAbs 1

end Binary64

end EntityQuery
